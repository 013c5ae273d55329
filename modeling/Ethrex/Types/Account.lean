/-
# `Ethrex.Types.Account` — the account record the state trie stores

`AccountState` is what `apply_account_updates` writes into the state trie
under the hash of an address, and decodes back from it before the next
update: the nonce, the balance, the root of the account's storage trie and
the hash of its code, as an RLP struct of four fields.  It reads back from
its encoding field by field, as a log does (`Ethrex.Types.BlockRoundTrip`),
and with the trie's map semantics over its database (`Ethrex.Trie.Persist`)
an account written into a trie is the account `Trie::get` and `decode` give
back.
-/
import Ethrex.Types.BlockRoundTrip
import Ethrex.Trie.Persist

namespace Ethrex.Types

open Ethrex.Rlp Codec

/-- `AccountState`. -/
structure AccountState where
  nonce : UInt64
  balance : U256
  storageRoot : H256
  codeHash : H256
  deriving DecidableEq

/-- `impl RLPEncode for AccountState`. -/
def AccountState.encode (self : AccountState) : Bytes :=
  Encoder.new
    |>.encodeField U64.encode self.nonce
    |>.encodeField U256.encode self.balance
    |>.encodeField Fixed.encode self.storageRoot
    |>.encodeField Fixed.encode self.codeHash
    |>.finish

/-- `impl RLPDecode for AccountState`. -/
def AccountState.decodeUnfinished (rlp : Bytes) : Except RLPDecodeError (AccountState × Bytes) := do
  let decoder ← Decoder.new rlp
  let (nonce, decoder) ← decoder.decodeField "nonce" "u64" U64.decodeUnfinished
  let (balance, decoder) ← decoder.decodeField "balance" "U256" U256.decodeUnfinished
  let (storageRoot, decoder) ← decoder.decodeField "storage_root" "H256" (Fixed.decodeUnfinished 32)
  let (codeHash, decoder) ← decoder.decodeField "code_hash" "H256" (Fixed.decodeUnfinished 32)
  pure ({ nonce, balance, storageRoot, codeHash }, ← decoder.finish)

theorem roundTrips_accountState {a : AccountState} (h : a.encode.length < 2 ^ 64) :
    RoundTrips AccountState.encode AccountState.decodeUnfinished a := by
  intro rest
  rw [AccountState.decodeUnfinished, AccountState.encode,
    Encoder.new_finish _ _ (Encoder.length_tempBuf_lt h)]
  simp [roundTrips_u64, roundTrips_u256, roundTrips_fixed (by decide : (32 : Nat) < 2 ^ 64)]

theorem AccountState.encode_ne_nil (a : AccountState) : a.encode ≠ [] := by
  rw [AccountState.encode]
  exact Encoder.finish_ne_nil _

/-- The state trie gives back the account written into it: after the
account's encoding is inserted under a path of a trie that holds any map,
through its cache and its database as the state trie `apply_account_updates`
opens does, `Trie::get` at the path returns an encoding that decodes to the
account, unless a hash names two nodes in the cache and the database. -/
theorem get_insert_accountState {keccak : Bytes → H256} {self : Mpt.Trie}
    {M : Bytes → Option Mpt.ValueRLP} (h : self.Keeps keccak M) (path : Bytes) {a : AccountState}
    (hlen : a.encode.length < 2 ^ 64) (hc : (self.insert keccak path a.encode).2.state.Consistent) :
    RoundTrips AccountState.encode AccountState.decodeUnfinished a ∧
      ∃ rlp, (self.insert keccak path a.encode).2.get path = .ok (some rlp) ∧
        decode AccountState.decodeUnfinished rlp = .ok a := by
  have hv : (Mpt.Trie.Op.insert path a.encode).Valid := AccountState.encode_ne_nil a
  have hK : (self.insert keccak path a.encode).2.Keeps keccak (Mpt.Trie.Op.apply M (.insert path a.encode)) :=
    (h.step hv hc).2
  have hrt := roundTrips_accountState hlen
  exact ⟨hrt, a.encode, by rw [hK.get path]; simp [Mpt.Trie.Op.apply], decode_of_roundTrips hrt⟩

set_option maxRecDepth 8000 in
/-- An account with nonce one, written under a third path of the trie the
first session committed and reopened: the record is longer than a hash, so
its leaf is hashed into the cache beside the nodes read from the database.
The balance's encoding counts the leading zeros of 256 bits, one call deeper
each. -/
theorem get_insert_accountState_reopened :
    (Mpt.Trie.openAt firstBytes32 Mpt.Trie.sessionDb Mpt.Trie.sessionRoot).Keeps firstBytes32
        (Mpt.Trie.Op.runMap (fun _ => none) Mpt.Trie.longShort).2 ∧
      (⟨1, 0, .replicate 32 0, .replicate 32 0⟩ : AccountState).encode.length < 2 ^ 64 ∧
      ((Mpt.Trie.openAt firstBytes32 Mpt.Trie.sessionDb Mpt.Trie.sessionRoot).insert firstBytes32 [0x15]
          (⟨1, 0, .replicate 32 0, .replicate 32 0⟩ : AccountState).encode).2.state.Consistent ∧
      RoundTrips AccountState.encode AccountState.decodeUnfinished ⟨1, 0, .replicate 32 0, .replicate 32 0⟩ ∧
      ∃ rlp, ((Mpt.Trie.openAt firstBytes32 Mpt.Trie.sessionDb Mpt.Trie.sessionRoot).insert firstBytes32 [0x15]
          (⟨1, 0, .replicate 32 0, .replicate 32 0⟩ : AccountState).encode).2.get [0x15] = .ok (some rlp) ∧
        decode AccountState.decodeUnfinished rlp = .ok ⟨1, 0, .replicate 32 0, .replicate 32 0⟩ := by
  have hlen : (⟨1, 0, .replicate 32 0, .replicate 32 0⟩ : AccountState).encode.length < 2 ^ 64 := by
    decide
  have hc : ((Mpt.Trie.openAt firstBytes32 Mpt.Trie.sessionDb Mpt.Trie.sessionRoot).insert firstBytes32 [0x15]
      (⟨1, 0, .replicate 32 0, .replicate 32 0⟩ : AccountState).encode).2.state.Consistent := by
    decide
  exact ⟨Mpt.Trie.keeps_session, hlen, hc, get_insert_accountState Mpt.Trie.keeps_session [0x15] hlen hc⟩

end Ethrex.Types
