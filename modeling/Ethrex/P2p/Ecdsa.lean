/-
# `Ethrex.P2p.Ecdsa` — the secp256k1 values the network code parses

A recoverable signature travels as 65 bytes: `r` and `s` big-endian, then
the recovery id.  `k256` parses the 64 bytes with `Signature::from_slice`,
which accepts two scalars in `[1, n)`, and the last byte with
`RecoveryId::from_byte`, which accepts `0 ..= 3`.  A parsed value carries
those bounds as fields, so that no later proof checks them again.

The library itself is a parameter, `Secp256k1`: the two parsers, key
recovery, Diffie–Hellman, the conversions between public keys and node ids
or SEC1 bytes.  What a proof needs of it is a named hypothesis beside the
theorem.  Its errors are kept as the library's message text, since the node
turns every one of them into `RLPxError::CryptographyError(e.to_string())`.

`parseScalarPair` is a parser with the bounds of `Signature::from_slice`, for
the curve of the fixed examples.
-/
import Ethrex.Rlp.Encode

namespace Ethrex.P2p

open Ethrex.Rlp

/-- The order `n` of the secp256k1 group. -/
def secp256k1Order : Nat := 0xFFFFFFFFFFFFFFFFFFFFFFFFFFFFFFFEBAAEDCE6AF48A03BBFD25E8CD0364141

/-- `ecdsa::Signature`: two non-zero scalars. -/
structure Signature where
  r : Nat
  s : Nat
  r_pos : 0 < r
  r_lt : r < secp256k1Order
  s_pos : 0 < s
  s_lt : s < secp256k1Order

/-- Whether two big-endian numbers are the scalars of a signature. -/
def IsScalarPair (r s : Nat) : Prop :=
  0 < r ∧ r < secp256k1Order ∧ 0 < s ∧ s < secp256k1Order

instance (r s : Nat) : Decidable (IsScalarPair r s) := by
  unfold IsScalarPair
  infer_instance

/-- `RecoveryId`: which of the four candidate points signed. -/
structure RecoveryId where
  byte : UInt8
  le_three : byte ≤ 3

/-- Two big-endian scalars in `[1, n)`, `r` then `s`, from 64 bytes. -/
def parseScalarPair (b : Bytes) : Option Signature :=
  if h : b.length = 64 ∧ IsScalarPair (BigEndian.ofBytes (b.take 32)) (BigEndian.ofBytes (b.drop 32)) then
    some ⟨_, _, h.2.1, h.2.2.1, h.2.2.2.1, h.2.2.2.2⟩
  else none

theorem parseScalarPair_zero_r {b : Bytes} (h : BigEndian.ofBytes (b.take 32) = 0) :
    parseScalarPair b = none := by
  unfold parseScalarPair
  rw [dif_neg (by rw [IsScalarPair, h]; simp)]

/-- The curve operations the node calls, over its secret and public key
types. -/
structure Secp256k1 (SK PK : Type) where
  /-- `Signature::from_slice`. -/
  signatureFromSlice : Bytes → Option Signature
  /-- `RecoveryId::from_byte`. -/
  recoveryIdFromByte : UInt8 → Option RecoveryId
  /-- `VerifyingKey::recover_from_prehash`. -/
  recoverFromPrehash : Bytes → Signature → RecoveryId → Except String PK
  /-- `pubkey2id`: the 64 coordinate bytes of the uncompressed point. -/
  pubkey2id : PK → FixedBytes 64
  /-- `id2pubkey`: the point of a node id, if it is on the curve. -/
  id2pubkey : FixedBytes 64 → Option PK
  /-- `ecdh_xchng`: the x coordinate of the shared point. -/
  ecdhXchng : SK → PK → H256
  /-- `PublicKey::from_sec1_bytes`. -/
  publicKeyFromSec1 : Bytes → Except String PK

end Ethrex.P2p
