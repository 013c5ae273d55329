/-
# `Ethrex.Types.Signing` — signing a transaction and recovering its sender

`Signable::sign_inplace` signs the Keccak-256 of a transaction's payload
with the recoverable ECDSA of the `secp256k1` crate and stores the
signature; `Transaction::sender` rebuilds a payload, recovers the public
key and hashes it into an address (`recover_address`).

The four typed transactions sign and recover over one payload, their type
byte before the RLP list of their unsigned fields, and keep the recovery id
as a parity bit.  Signing and recovery agree on them whenever the library
recovers the signer and the recovery id is 0 or 1
(`sender_signInplace_typed`).

A legacy transaction is signed over the list of its six unsigned fields
and keeps the raw recovery id, `0 ..= 3`, in `v`.  `sender` reads a chain
id back from `v` (`derive_legacy_chain_id`): 27 and 28 mean none, anything
else is `(v - 35) / 2`, a `u64` subtraction that wraps below 35 (and
panics in a build with overflow checks).  So a signed legacy transaction
is recovered over an EIP-155 payload of nine fields with a chain id above
`2 ^ 62`, not over the six fields that were signed
(`sender_signInplace_legacy`).

`sender` and `chain_id` also panic on values a peer chooses: `U256::as_u64`
on a `v` of `2 ^ 64` or more, and the `unwrap`s of `recover_address` on a
signature the library rejects (`sender_panics_on_untrusted`).

The library is a parameter, `Secp256k1Context`, and Keccak-256 is `keccak`.
`u64` arithmetic wraps, as in a release build.  A function that may panic
but never returns an error is an `Outcome ε` for every `ε`.
-/
import Ethrex.Types.Transaction
import Ethrex.Lib.Outcome

namespace Ethrex.Types

open Ethrex.Rlp

/-- The recoverable ECDSA of the `secp256k1` crate, over its secret keys,
public keys and recoverable signatures. -/
structure Secp256k1Context (SK PK Sig : Type) where
  /-- `sign_ecdsa_recoverable` of a 32-byte digest. -/
  signEcdsaRecoverable : H256 → SK → Sig
  /-- `RecoverableSignature::serialize_compact`: the recovery id, `0 ..= 3`,
  and the 64 bytes `r ‖ s`. -/
  serializeCompact : Sig → Fin 4 × FixedBytes 64
  /-- `RecoverableSignature::from_compact`. -/
  fromCompact : FixedBytes 64 → Fin 4 → Option Sig
  /-- `Secp256k1::recover_ecdsa`. -/
  recoverEcdsa : H256 → Sig → Option PK
  /-- `PublicKey::serialize_uncompressed`: `0x04 ‖ x ‖ y`. -/
  serializeUncompressed : PK → FixedBytes 65
  /-- `PublicKey::from_secret_key`. -/
  publicKey : SK → PK

variable {SK PK Sig ε : Type} (ctx : Secp256k1Context SK PK Sig) (keccak : Bytes → H256)

/-- What the library is assumed to do: a signature made over a digest, read
back from its compact form with its own recovery id, recovers the signer's
public key from that digest. -/
def Secp256k1Context.RecoversSigner : Prop :=
  ∀ (m : H256) (k : SK), ∃ sig,
    ctx.fromCompact (ctx.serializeCompact (ctx.signEcdsaRecoverable m k)).2
        (ctx.serializeCompact (ctx.signEcdsaRecoverable m k)).1 = some sig ∧
      ctx.recoverEcdsa m sig = some (ctx.publicKey k)

/-! ## Payloads -/

/-- `impl PayloadRLPEncode for LegacyTransaction`. -/
def LegacyTransaction.encodePayload (tx : LegacyTransaction) : Bytes :=
  Encoder.new
    |>.encodeField U64.encode tx.nonce
    |>.encodeField U64.encode tx.gasPrice
    |>.encodeField U64.encode tx.gas
    |>.encodeField TxKind.encode tx.«to»
    |>.encodeField U256.encode tx.value
    |>.encodeField ByteString.encode tx.data
    |>.finish

/-- The payload `Transaction::sender` recovers a legacy transaction over
when it has a chain id: EIP-155's nine fields. -/
def LegacyTransaction.eip155Payload (tx : LegacyTransaction) (chainId : UInt64) : Bytes :=
  Encoder.new
    |>.encodeField U64.encode tx.nonce
    |>.encodeField U64.encode tx.gasPrice
    |>.encodeField U64.encode tx.gas
    |>.encodeField TxKind.encode tx.«to»
    |>.encodeField U256.encode tx.value
    |>.encodeField ByteString.encode tx.data
    |>.encodeField U64.encode chainId
    |>.encodeField U8.encode 0
    |>.encodeField U8.encode 0
    |>.finish

/-- `impl PayloadRLPEncode for EIP2930Transaction`. -/
def EIP2930Transaction.encodePayload (tx : EIP2930Transaction) : Bytes :=
  Encoder.new
    |>.encodeField U64.encode tx.chainId
    |>.encodeField U64.encode tx.nonce
    |>.encodeField U64.encode tx.gasPrice
    |>.encodeField U64.encode tx.gasLimit
    |>.encodeField TxKind.encode tx.«to»
    |>.encodeField U256.encode tx.value
    |>.encodeField ByteString.encode tx.data
    |>.encodeField AccessList.encode tx.accessList
    |>.finish

/-- `impl PayloadRLPEncode for EIP1559Transaction`. -/
def EIP1559Transaction.encodePayload (tx : EIP1559Transaction) : Bytes :=
  Encoder.new
    |>.encodeField U64.encode tx.chainId
    |>.encodeField U64.encode tx.nonce
    |>.encodeField U64.encode tx.maxPriorityFeePerGas
    |>.encodeField U64.encode tx.maxFeePerGas
    |>.encodeField U64.encode tx.gasLimit
    |>.encodeField TxKind.encode tx.«to»
    |>.encodeField U256.encode tx.value
    |>.encodeField ByteString.encode tx.data
    |>.encodeField AccessList.encode tx.accessList
    |>.finish

/-- `impl PayloadRLPEncode for EIP4844Transaction`. -/
def EIP4844Transaction.encodePayload (tx : EIP4844Transaction) : Bytes :=
  Encoder.new
    |>.encodeField U64.encode tx.chainId
    |>.encodeField U64.encode tx.nonce
    |>.encodeField U64.encode tx.maxPriorityFeePerGas
    |>.encodeField U64.encode tx.maxFeePerGas
    |>.encodeField U64.encode tx.gas
    |>.encodeField Fixed.encode tx.«to»
    |>.encodeField U256.encode tx.value
    |>.encodeField ByteString.encode tx.data
    |>.encodeField AccessList.encode tx.accessList
    |>.encodeField U256.encode tx.maxFeePerBlobGas
    |>.encodeField HashList.encode tx.blobVersionedHashes
    |>.finish

/-- `impl PayloadRLPEncode for PrivilegedL2Transaction`. -/
def PrivilegedL2Transaction.encodePayload (tx : PrivilegedL2Transaction) : Bytes :=
  Encoder.new
    |>.encodeField U64.encode tx.chainId
    |>.encodeField U64.encode tx.nonce
    |>.encodeField U64.encode tx.maxPriorityFeePerGas
    |>.encodeField U64.encode tx.maxFeePerGas
    |>.encodeField U64.encode tx.gasLimit
    |>.encodeField TxKind.encode tx.«to»
    |>.encodeField U256.encode tx.value
    |>.encodeField ByteString.encode tx.data
    |>.encodeField AccessList.encode tx.accessList
    |>.encodeField PrivilegedTxType.encode tx.txType
    |>.finish

/-! ## Chain ids -/

/-- `U256::as_u64`: panics on a value of `2 ^ 64` or more. -/
def U256.asU64 (x : U256) : Outcome ε UInt64 :=
  if x.toNat < 2 ^ 64 then .ok x.toNat.toUInt64 else .panic

/-- `derive_legacy_chain_id`. -/
def deriveLegacyChainId (v : U256) : Outcome ε (Option UInt64) := do
  let v ← U256.asU64 v
  if v == 27 || v == 28 then pure none else pure (some ((v - 35) / 2))

/-- `Transaction::chain_id`. -/
def Transaction.chainId : Transaction → Outcome ε (Option UInt64)
  | .legacyTransaction tx => deriveLegacyChainId tx.v
  | .eip2930Transaction tx => pure (some tx.chainId)
  | .eip1559Transaction tx => pure (some tx.chainId)
  | .eip4844Transaction tx => pure (some tx.chainId)
  | .privilegedL2Transaction tx => pure (some tx.chainId)

/-- `u64::saturating_sub`. -/
def saturatingSub (a b : UInt64) : UInt64 := if b ≤ a then a - b else 0

/-! ## Recovery -/

/-- The address of a public key: the last 20 bytes of the Keccak-256 of its
coordinates. -/
def publicKeyAddress (pk : PK) : Address :=
  ⟨(keccak (ctx.serializeUncompressed pk).toList.tail).toList.drop 12, by simp⟩

/-- `U256::to_big_endian` of the two scalars, `r ‖ s`. -/
def signatureBytes (signatureR signatureS : U256) : FixedBytes 64 :=
  ⟨BigEndian.toBytes 32 signatureR.toNat ++ BigEndian.toBytes 32 signatureS.toNat, by simp⟩

/-- `recover_address`: the compact signature with the recovery id of its
parity, and the public key recovered from the Keccak-256 of the message,
both `unwrap`ped. -/
def recoverAddress (signatureR signatureS : U256) (signatureYParity : Bool) (message : Bytes) :
    Outcome ε Address := do
  let signature ← Outcome.unwrap
    (ctx.fromCompact (signatureBytes signatureR signatureS) (if signatureYParity then 1 else 0))
  let publicKey ← Outcome.unwrap (ctx.recoverEcdsa (keccak message) signature)
  pure (publicKeyAddress ctx keccak publicKey)

/-- `Transaction::sender`.  A legacy transaction calls `chain_id` once for
its parity and once for its payload; both calls return the same.  A typed
one recovers over its type byte and the fields of its `encode_payload`. -/
def Transaction.sender (tx : Transaction) : Outcome ε Address :=
  match tx with
  | .legacyTransaction t => do
    let chainId ← tx.chainId
    let v ← U256.asU64 t.v
    match chainId with
    | some chainId =>
      recoverAddress ctx keccak t.r t.s (saturatingSub v (35 + chainId * 2) != 0)
        (t.eip155Payload chainId)
    | none => recoverAddress ctx keccak t.r t.s (saturatingSub v 27 != 0) t.encodePayload
  | .eip2930Transaction t =>
    recoverAddress ctx keccak t.signatureR t.signatureS t.signatureYParity
      (tx.txType.toU8 :: t.encodePayload)
  | .eip1559Transaction t =>
    recoverAddress ctx keccak t.signatureR t.signatureS t.signatureYParity
      (tx.txType.toU8 :: t.encodePayload)
  | .eip4844Transaction t =>
    recoverAddress ctx keccak t.signatureR t.signatureS t.signatureYParity
      (tx.txType.toU8 :: t.encodePayload)
  | .privilegedL2Transaction t =>
    recoverAddress ctx keccak t.signatureR t.signatureS t.signatureYParity
      (tx.txType.toU8 :: t.encodePayload)

/-! ## Signing -/

/-- `U256::from(&[u8; 32])`: big-endian. -/
def u256FromBytes (bytes : Bytes) : U256 := BitVec.ofNat 256 (BigEndian.ofBytes bytes)

/-- The compact signature of a payload's Keccak-256. -/
def signPayload (payload : Bytes) (privateKey : SK) : Fin 4 × FixedBytes 64 :=
  ctx.serializeCompact (ctx.signEcdsaRecoverable (keccak payload) privateKey)

/-- `sign_inplace` for a legacy transaction: `r`, `s`, and the raw recovery
id in `v`. -/
def LegacyTransaction.signInplace (tx : LegacyTransaction) (privateKey : SK) : LegacyTransaction :=
  let (recoveryId, signature) := signPayload ctx keccak tx.encodePayload privateKey
  { tx with r := u256FromBytes (signature.toList.take 32),
            s := u256FromBytes (signature.toList.drop 32),
            v := BitVec.ofNat 256 recoveryId.val }

/-- `sign_inplace` for a typed transaction, given its type byte, its payload
and how it stores `r`, `s` and the parity: the recovery id's parity is
whether it is non-zero. -/
def signTyped {T : Type} (txType : TxType) (encodePayload : T → Bytes)
    (setSignature : T → U256 → U256 → Bool → T) (tx : T) (privateKey : SK) : T :=
  let (recoveryId, signature) := signPayload ctx keccak (txType.toU8 :: encodePayload tx) privateKey
  setSignature tx (u256FromBytes (signature.toList.take 32)) (u256FromBytes (signature.toList.drop 32))
    (recoveryId.val != 0)

/-- `Signable::sign_inplace for Transaction`. -/
def Transaction.signInplace (tx : Transaction) (privateKey : SK) : Transaction :=
  match tx with
  | .legacyTransaction t => .legacyTransaction (t.signInplace ctx keccak privateKey)
  | .eip2930Transaction t => .eip2930Transaction
      (signTyped ctx keccak .eip2930 EIP2930Transaction.encodePayload
        (fun t r s p => { t with signatureR := r, signatureS := s, signatureYParity := p }) t privateKey)
  | .eip1559Transaction t => .eip1559Transaction
      (signTyped ctx keccak .eip1559 EIP1559Transaction.encodePayload
        (fun t r s p => { t with signatureR := r, signatureS := s, signatureYParity := p }) t privateKey)
  | .eip4844Transaction t => .eip4844Transaction
      (signTyped ctx keccak .eip4844 EIP4844Transaction.encodePayload
        (fun t r s p => { t with signatureR := r, signatureS := s, signatureYParity := p }) t privateKey)
  | .privilegedL2Transaction t => .privilegedL2Transaction
      (signTyped ctx keccak .privileged PrivilegedL2Transaction.encodePayload
        (fun t r s p => { t with signatureR := r, signatureS := s, signatureYParity := p }) t privateKey)

/-- The payload `sign_inplace` signs: a legacy transaction's six fields, or a
typed transaction's type byte before its unsigned fields. -/
def Transaction.signingPayload : Transaction → Bytes
  | .legacyTransaction t => t.encodePayload
  | .eip2930Transaction t => TxType.eip2930.toU8 :: t.encodePayload
  | .eip1559Transaction t => TxType.eip1559.toU8 :: t.encodePayload
  | .eip4844Transaction t => TxType.eip4844.toU8 :: t.encodePayload
  | .privilegedL2Transaction t => TxType.privileged.toU8 :: t.encodePayload

/-! ## Reading `v` -/

theorem asU64_of_le {x : U256} (h : 2 ^ 64 ≤ x.toNat) : (U256.asU64 x : Outcome ε UInt64) = .panic :=
  if_neg (Nat.not_lt.mpr h)

theorem asU64_of_lt {x : U256} (h : x.toNat < 2 ^ 64) :
    (U256.asU64 x : Outcome ε UInt64) = .ok x.toNat.toUInt64 :=
  if_pos h

theorem chainId_legacy_of_le {t : LegacyTransaction} (h : 2 ^ 64 ≤ t.v.toNat) :
    (Transaction.legacyTransaction t).chainId = (.panic : Outcome ε (Option UInt64)) := by
  simp only [Transaction.chainId, deriveLegacyChainId, asU64_of_le h, Outcome.panic_bind]

theorem chainId_legacy_of_lt {t : LegacyTransaction} (h : t.v.toNat < 35) (h₂₇ : t.v.toNat ≠ 27)
    (h₂₈ : t.v.toNat ≠ 28) :
    ∃ c : UInt64, 2 ^ 62 ≤ c.toNat ∧
      (Transaction.legacyTransaction t).chainId = (.ok (some c) : Outcome ε (Option UInt64)) := by
  have hv : t.v.toNat.toUInt64.toNat = t.v.toNat := by
    rw [UInt64.toNat_ofNat']
    omega
  refine ⟨(t.v.toNat.toUInt64 - 35) / 2, ?_, ?_⟩
  · have hsub : (t.v.toNat.toUInt64 - 35).toNat = 2 ^ 64 - 35 + t.v.toNat := by
      rw [UInt64.toNat_sub, hv]
      simp only [UInt64.reduceToNat]
      omega
    rw [UInt64.toNat_div, hsub]
    simp only [UInt64.reduceToNat]
    omega
  · have hne : (t.v.toNat.toUInt64 == 27 || t.v.toNat.toUInt64 == 28) = false := by
      simp only [Bool.or_eq_false_iff, beq_eq_false_iff_ne, ne_eq, ← UInt64.toNat_inj, hv,
        UInt64.reduceToNat]
      exact ⟨h₂₇, h₂₈⟩
    simp only [Transaction.chainId, deriveLegacyChainId, asU64_of_lt (by omega : t.v.toNat < 2 ^ 64),
      Outcome.ok_bind, hne]
    rfl

/-! ## Recovering over a signature that was not made over the payload -/

theorem recoverAddress_of_fromCompact {r s : U256} {p : Bool}
    (h : ctx.fromCompact (signatureBytes r s) (if p then 1 else 0) = none) (message : Bytes) :
    (recoverAddress ctx keccak r s p message : Outcome ε Address) = .panic := by
  simp only [recoverAddress, h, Outcome.unwrap_none, Outcome.panic_bind]

theorem sender_legacy_of_le {t : LegacyTransaction} (h : 2 ^ 64 ≤ t.v.toNat) :
    (Transaction.legacyTransaction t).sender ctx keccak = (.panic : Outcome ε Address) := by
  simp only [Transaction.sender, chainId_legacy_of_le h, Outcome.panic_bind]

/-- **`sender` and `chain_id` are not total on decoded transactions.**  A
legacy `v` of `2 ^ 64` or more panics in `as_u64`; a `v` below 35 other
than 27 and 28 underflows into a chain id above `2 ^ 62`; and a signature
with `r = 0`, which the library rejects, panics at an `unwrap`. -/
theorem sender_panics_on_untrusted
    (hreject : ∀ (s : U256) (id : Fin 4), ctx.fromCompact (signatureBytes 0 s) id = none) :
    (∀ t : LegacyTransaction, 2 ^ 64 ≤ t.v.toNat →
      (Transaction.legacyTransaction t).chainId = (.panic : Outcome ε (Option UInt64)) ∧
        (Transaction.legacyTransaction t).sender ctx keccak = (.panic : Outcome ε Address)) ∧
    (∀ t : LegacyTransaction, t.v.toNat < 35 → t.v.toNat ≠ 27 → t.v.toNat ≠ 28 →
      ∃ c : UInt64, 2 ^ 62 ≤ c.toNat ∧
        (Transaction.legacyTransaction t).chainId = (.ok (some c) : Outcome ε (Option UInt64))) ∧
    (∀ t : EIP1559Transaction, t.signatureR = 0 →
      (Transaction.eip1559Transaction t).sender ctx keccak = (.panic : Outcome ε Address)) := by
  refine ⟨fun t h => ⟨chainId_legacy_of_le h, sender_legacy_of_le ctx keccak h⟩,
    fun t h h₂₇ h₂₈ => chainId_legacy_of_lt h h₂₇ h₂₈, fun t hr => ?_⟩
  rw [Transaction.sender, hr]
  exact recoverAddress_of_fromCompact ctx keccak (hreject _ _) _

/-! ## Signing, then recovering -/

theorem toBytes_u256FromBytes {l : Bytes} (hl : l.length = 32) :
    BigEndian.toBytes 32 (u256FromBytes l).toNat = l := by
  have hlt : BigEndian.ofBytes l < 2 ^ 256 := by
    have := BigEndian.ofBytes_lt l
    rw [hl] at this
    simpa using this
  have hround := BigEndian.toBytes_ofBytes l
  rw [hl] at hround
  rw [u256FromBytes, BitVec.toNat_ofNat, Nat.mod_eq_of_lt hlt, hround]

theorem signatureBytes_u256FromBytes (b : FixedBytes 64) :
    signatureBytes (u256FromBytes (b.toList.take 32)) (u256FromBytes (b.toList.drop 32)) = b := by
  apply List.Vector.toList_injective
  simp only [signatureBytes, List.Vector.toList_mk]
  rw [toBytes_u256FromBytes (by simp), toBytes_u256FromBytes (by simp), List.take_append_drop]

theorem recoveryId_of_parity {id : Fin 4} (h : id.val < 2) :
    (if (id.val != 0) = true then 1 else 0 : Fin 4) = id := by
  match id, h with
  | 0, _ => rfl
  | 1, _ => rfl

/-- Recovering over the payload that was signed, with the parity of a
recovery id of 0 or 1, gives the signer's address. -/
theorem recoverAddress_signPayload (hctx : ctx.RecoversSigner) (payload : Bytes) (k : SK)
    (hid : (signPayload ctx keccak payload k).1.val < 2) :
    recoverAddress ctx keccak (u256FromBytes ((signPayload ctx keccak payload k).2.toList.take 32))
        (u256FromBytes ((signPayload ctx keccak payload k).2.toList.drop 32))
        ((signPayload ctx keccak payload k).1.val != 0) payload =
      (.ok (publicKeyAddress ctx keccak (ctx.publicKey k)) : Outcome ε Address) := by
  obtain ⟨sig, hsig, hrec⟩ := hctx (keccak payload) k
  rw [recoverAddress, signatureBytes_u256FromBytes, recoveryId_of_parity hid]
  simp only [signPayload] at hsig ⊢
  rw [hsig, Outcome.unwrap_some, Outcome.ok_bind, hrec, Outcome.unwrap_some, Outcome.ok_bind]
  rfl

/-- **Signing and recovery agree on typed transactions**, for a library
that recovers its signers and a recovery id of 0 or 1. -/
theorem sender_signInplace_typed (hctx : ctx.RecoversSigner) (tx : Transaction)
    (htyped : tx.txType ≠ .legacy) (k : SK) (hid : (signPayload ctx keccak tx.signingPayload k).1.val < 2) :
    (tx.signInplace ctx keccak k).sender ctx keccak =
      (.ok (publicKeyAddress ctx keccak (ctx.publicKey k)) : Outcome ε Address) := by
  cases tx with
  | legacyTransaction t => exact absurd rfl htyped
  | eip2930Transaction t => exact recoverAddress_signPayload ctx keccak hctx _ k hid
  | eip1559Transaction t => exact recoverAddress_signPayload ctx keccak hctx _ k hid
  | eip4844Transaction t => exact recoverAddress_signPayload ctx keccak hctx _ k hid
  | privilegedL2Transaction t => exact recoverAddress_signPayload ctx keccak hctx _ k hid

theorem signInplace_v (t : LegacyTransaction) (k : SK) :
    (t.signInplace ctx keccak k).v =
      BitVec.ofNat 256 (signPayload ctx keccak t.encodePayload k).1.val :=
  rfl

/-- **A signed legacy transaction is recovered over another payload.**
`sign_inplace` stores the recovery id, at most 3, in `v`; `sender` reads a
chain id above `2 ^ 62` back from it and recovers over the EIP-155 payload
with that chain id, whatever the library. -/
theorem sender_signInplace_legacy (t : LegacyTransaction) (k : SK) :
    ∃ (c : UInt64) (parity : Bool), 2 ^ 62 ≤ c.toNat ∧
      (Transaction.legacyTransaction (t.signInplace ctx keccak k)).sender ctx keccak =
        (recoverAddress ctx keccak (t.signInplace ctx keccak k).r (t.signInplace ctx keccak k).s parity
          ((t.signInplace ctx keccak k).eip155Payload c) : Outcome ε Address) := by
  have hv : (t.signInplace ctx keccak k).v.toNat < 4 := by
    rw [signInplace_v, BitVec.toNat_ofNat]
    have := (signPayload ctx keccak t.encodePayload k).1.isLt
    omega
  obtain ⟨c, hc, hchain⟩ := chainId_legacy_of_lt (ε := ε) (t := t.signInplace ctx keccak k)
    (by omega) (by omega) (by omega)
  refine ⟨c, saturatingSub (t.signInplace ctx keccak k).v.toNat.toUInt64 (35 + c * 2) != 0, hc, ?_⟩
  rw [Transaction.sender, hchain, Outcome.ok_bind, asU64_of_lt (by omega), Outcome.ok_bind]

/-- A library over unit keys that rejects a zero `r` and accepts any other
signature. -/
def rejectingZeroR : Secp256k1Context Unit Unit Unit where
  signEcdsaRecoverable _ _ := ()
  serializeCompact _ := (0, List.Vector.replicate 64 1)
  fromCompact b _ := if BigEndian.ofBytes (b.toList.take 32) = 0 then none else some ()
  recoverEcdsa _ _ := some ()
  serializeUncompressed _ := List.Vector.replicate 65 4
  publicKey _ := ()

/-- A legacy transaction whose `v` is `2 ^ 64`. -/
def legacyWithLargeV : LegacyTransaction :=
  { nonce := 0, gasPrice := 0, gas := 0, «to» := .create, value := 0, data := [],
    v := BitVec.ofNat 256 (2 ^ 64), r := 1, s := 1 }

theorem sender_panics_at_large_v :
    (∀ (s : U256) (id : Fin 4), rejectingZeroR.fromCompact (signatureBytes 0 s) id = none) ∧
      (Transaction.legacyTransaction legacyWithLargeV).sender rejectingZeroR
        (fun _ => List.Vector.replicate 32 0) = (.panic : Outcome Unit Address) := by
  have hreject : ∀ (s : U256) (id : Fin 4), rejectingZeroR.fromCompact (signatureBytes 0 s) id = none := by
    intro s id
    have htake : (BigEndian.toBytes 32 (0 : U256).toNat ++ BigEndian.toBytes 32 s.toNat).take 32 =
        BigEndian.toBytes 32 0 := List.take_left' (by simp)
    simp only [rejectingZeroR, signatureBytes, List.Vector.toList_mk, htake,
      BigEndian.ofBytes_toBytes, Nat.zero_mod, if_true]
  exact ⟨hreject, ((sender_panics_on_untrusted rejectingZeroR _ hreject).1 legacyWithLargeV
    (by simp [legacyWithLargeV])).2⟩

/-- The EIP-1559 transaction with every field zero or empty. -/
def zeroEip1559 : EIP1559Transaction :=
  { chainId := 0, nonce := 0, maxPriorityFeePerGas := 0, maxFeePerGas := 0, gasLimit := 0,
    «to» := .create, value := 0, data := [], accessList := [], signatureYParity := false,
    signatureR := 0, signatureS := 0 }

theorem sender_signInplace_zeroEip1559 :
    rejectingZeroR.RecoversSigner ∧
      ((Transaction.eip1559Transaction zeroEip1559).signInplace rejectingZeroR
          (fun _ => List.Vector.replicate 32 0) ()).sender rejectingZeroR
          (fun _ => List.Vector.replicate 32 0) =
        (.ok (publicKeyAddress rejectingZeroR (fun _ => List.Vector.replicate 32 0) ()) :
          Outcome Unit Address) := by
  have hctx : rejectingZeroR.RecoversSigner := fun _ _ => ⟨(), rfl, rfl⟩
  exact ⟨hctx, sender_signInplace_typed rejectingZeroR _ hctx _ (by decide) () (by decide)⟩

end Ethrex.Types
