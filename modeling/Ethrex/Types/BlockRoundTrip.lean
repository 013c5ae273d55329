/-
# `Ethrex.Types.BlockRoundTrip` — what the block and receipt codecs read back

Headers, withdrawals, bodies, blocks and receipts are structs of the
crate's `Encoder`/`Decoder`, and read back like the transactions of
`Ethrex.Types.TransactionRoundTrip`, with three points of their own:

* the header's optional fields.  `decode_optional_field` takes any error for
  "absent", so a field is read back only if, when it is absent, the decoder
  of that field fails on what follows.  That holds when the present fields
  form a prefix of the five (`OptionalFieldsPrefixClosed`): then nothing
  follows an absent one, and no field decoder reads nothing;
* the lists of transactions, ommers and withdrawals, read back item by item
  (`roundTrips_vec_of_length`); the transactions are an assumption, since
  the network form does not read back every transaction;
* a receipt's two framings.  The bloom alone makes the inner encoding 256
  bytes long, so a typed receipt is always wrapped under a long-form header
  and `is_encoded_as_bytes` recognises it, unlike a short transaction.

Every statement assumes the encoding is shorter than `2 ^ 64` bytes.
-/
import Ethrex.Types.Block
import Ethrex.Types.Receipt
import Ethrex.Types.TransactionRoundTrip

namespace Ethrex.Types

open Ethrex.Rlp Codec

/-! ## Withdrawals -/

theorem roundTrips_withdrawal {w : Withdrawal} (h : w.encode.length < 2 ^ 64) :
    RoundTrips Withdrawal.encode Withdrawal.decodeUnfinished w := by
  intro rest
  rw [Withdrawal.decodeUnfinished, Withdrawal.encode,
    Encoder.new_finish _ _ (Encoder.length_tempBuf_lt h)]
  simp [roundTrips_u64, roundTrips_fixed (by decide : (20 : Nat) < 2 ^ 64)]

theorem Withdrawal.encode_ne_nil (w : Withdrawal) : w.encode ≠ [] := by
  rw [Withdrawal.encode]
  exact Encoder.finish_ne_nil _

/-! ## Headers -/

/-- The optional fields of a header are prefix-closed: each is present only
if the one before it is, so the present ones are the first few. -/
def BlockHeader.OptionalFieldsPrefixClosed (h : BlockHeader) : Prop :=
  (h.withdrawalsRoot.isSome → h.baseFeePerGas.isSome) ∧
  (h.blobGasUsed.isSome → h.withdrawalsRoot.isSome) ∧
  (h.excessBlobGas.isSome → h.blobGasUsed.isSome) ∧
  (h.parentBeaconBlockRoot.isSome → h.excessBlobGas.isSome)

instance (h : BlockHeader) : Decidable h.OptionalFieldsPrefixClosed :=
  inferInstanceAs (Decidable (_ ∧ _ ∧ _ ∧ _))

theorem eq_none_of_isSome_imp {α β : Type} {a : Option α} {b : Option β}
    (h : b.isSome → a.isSome) (ha : a = none) : b = none := by
  cases b with
  | none => rfl
  | some _ => simp [ha] at h

theorem BlockHeader.encode_ne_nil (h : BlockHeader) : h.encode ≠ [] := by
  rw [BlockHeader.encode]
  exact Encoder.finish_ne_nil _

theorem roundTrips_blockHeader {h : BlockHeader} (hpc : h.OptionalFieldsPrefixClosed)
    (hlen : h.encode.length < 2 ^ 64) :
    RoundTrips BlockHeader.encode BlockHeader.decodeUnfinished h := by
  intro rest
  obtain ⟨hw, hg, hx, hp⟩ := hpc
  have hextra : h.extraData.length < 2 ^ 64 := by
    have := le_length_slice_encode h.extraData
    simp only [BlockHeader.encode, Encoder.finish, Encoder.encodeField_tempBuf,
      Encoder.encodeOptionalField_tempBuf, Encoder.new_tempBuf, List.length_append,
      ByteString.encode] at hlen
    omega
  have nw := eq_none_of_isSome_imp hw
  have ng := eq_none_of_isSome_imp hg
  have nx := eq_none_of_isSome_imp hx
  have np := eq_none_of_isSome_imp hp
  -- the fifteen fields every header has, the nonce through its eight bytes
  rw [BlockHeader.decodeUnfinished, BlockHeader.encode,
    Encoder.new_finish _ _ (Encoder.length_tempBuf_lt hlen)]
  simp [roundTrips_u64, roundTrips_u256, roundTrips_byteString hextra,
    roundTrips_fixed (by decide : (32 : Nat) < 2 ^ 64),
    roundTrips_fixed (by decide : (20 : Nat) < 2 ^ 64),
    roundTrips_fixed (by decide : (256 : Nat) < 2 ^ 64),
    roundTrips_fixed (by decide : (8 : Nat) < 2 ^ 64)]
  -- the optional fields in turn: an absent one is followed by nothing, which
  -- its decoder rejects
  rw [Decoder.decodeOptionalField_elim (fun v _ => roundTrips_u64 v) (fun hb => ⟨_, by
      rw [nw hb, ng (nw hb), nx (ng (nw hb)), np (nx (ng (nw hb)))]; rfl⟩)]
  rw [Decoder.decodeOptionalField_elim (fun v _ => roundTrips_fixed (by decide) v) (fun hw => ⟨_, by
      rw [ng hw, nx (ng hw), np (nx (ng hw))]; rfl⟩)]
  rw [Decoder.decodeOptionalField_elim (fun v _ => roundTrips_u64 v) (fun hg => ⟨_, by
      rw [nx hg, np (nx hg)]; rfl⟩)]
  rw [Decoder.decodeOptionalField_elim (fun v _ => roundTrips_u64 v) (fun hx => ⟨_, by
      rw [np hx]; rfl⟩)]
  rw [Decoder.decodeOptionalField_elim_last (fun v _ => roundTrips_fixed (by decide) v)
    (fun _ => ⟨_, rfl⟩)]
  rfl

/-! ## Bodies and blocks -/

theorem roundTrips_blockBody {body : BlockBody}
    (htx : ∀ tx ∈ body.transactions, RoundTrips Transaction.encode Transaction.decodeUnfinished tx)
    (hommers : ∀ o ∈ body.ommers, o.OptionalFieldsPrefixClosed)
    (hlen : body.encode.length < 2 ^ 64) :
    RoundTrips BlockBody.encode BlockBody.decodeUnfinished body := by
  intro rest
  obtain ⟨htxs, homs⟩ : (Vec.encode Transaction.encode body.transactions).length < 2 ^ 64 ∧
      (Vec.encode BlockHeader.encode body.ommers).length < 2 ^ 64 := by
    simp only [BlockBody.encode, Encoder.finish, Encoder.encodeField_tempBuf,
      Encoder.encodeOptionalField_tempBuf, Encoder.new_tempBuf, List.length_append] at hlen
    omega
  have hwd : ∀ v, body.withdrawals = some v → (Vec.encode Withdrawal.encode v).length < 2 ^ 64 := by
    intro v hv
    simp only [BlockBody.encode, Encoder.finish, Encoder.encodeField_tempBuf,
      Encoder.encodeOptionalField_tempBuf, Encoder.new_tempBuf, List.length_append, hv,
      Option.elim_some] at hlen
    omega
  rw [BlockBody.decodeUnfinished, BlockBody.encode,
    Encoder.new_finish _ _ (Encoder.length_tempBuf_lt hlen)]
  simp [roundTrips_vec_of_length (fun tx htx' _ => htx tx htx') Transaction.encode_ne_nil htxs,
    roundTrips_vec_of_length (fun o ho hl => roundTrips_blockHeader (hommers o ho) hl)
      BlockHeader.encode_ne_nil homs]
  -- the withdrawals, when absent, are the last field: nothing follows
  rw [Decoder.decodeOptionalField_elim_last (fun v hv => roundTrips_vec_of_length
      (fun w _ hw => roundTrips_withdrawal hw) Withdrawal.encode_ne_nil (hwd v hv))
    (fun _ => ⟨_, rfl⟩)]
  rfl

theorem roundTrips_block {block : Block} (hheader : block.header.OptionalFieldsPrefixClosed)
    (htx : ∀ tx ∈ block.body.transactions,
      RoundTrips Transaction.encode Transaction.decodeUnfinished tx)
    (hommers : ∀ o ∈ block.body.ommers, o.OptionalFieldsPrefixClosed)
    (hlen : block.encode.length < 2 ^ 64) :
    RoundTrips Block.encode Block.decodeUnfinished block := by
  intro rest
  obtain ⟨hhdr, htxs, homs⟩ : block.header.encode.length < 2 ^ 64 ∧
      (Vec.encode Transaction.encode block.body.transactions).length < 2 ^ 64 ∧
      (Vec.encode BlockHeader.encode block.body.ommers).length < 2 ^ 64 := by
    simp only [Block.encode, Encoder.finish, Encoder.encodeField_tempBuf,
      Encoder.encodeOptionalField_tempBuf, Encoder.new_tempBuf, List.length_append] at hlen
    omega
  have hwd : ∀ v, block.body.withdrawals = some v →
      (Vec.encode Withdrawal.encode v).length < 2 ^ 64 := by
    intro v hv
    simp only [Block.encode, Encoder.finish, Encoder.encodeField_tempBuf,
      Encoder.encodeOptionalField_tempBuf, Encoder.new_tempBuf, List.length_append, hv,
      Option.elim_some] at hlen
    omega
  rw [Block.decodeUnfinished, Block.encode,
    Encoder.new_finish _ _ (Encoder.length_tempBuf_lt hlen)]
  simp [roundTrips_blockHeader hheader hhdr,
    roundTrips_vec_of_length (fun tx htx' _ => htx tx htx') Transaction.encode_ne_nil htxs,
    roundTrips_vec_of_length (fun o ho hl => roundTrips_blockHeader (hommers o ho) hl)
      BlockHeader.encode_ne_nil homs]
  rw [Decoder.decodeOptionalField_elim_last (fun v hv => roundTrips_vec_of_length
      (fun w _ hw => roundTrips_withdrawal hw) Withdrawal.encode_ne_nil (hwd v hv))
    (fun _ => ⟨_, rfl⟩)]
  rfl

/-! ## Receipts -/

theorem roundTrips_log {log : Log} (h : log.encode.length < 2 ^ 64) :
    RoundTrips Log.encode Log.decodeUnfinished log := by
  intro rest
  obtain ⟨htopics, hdata⟩ : (HashList.encode log.topics).length < 2 ^ 64 ∧
      log.data.length < 2 ^ 64 := by
    have := le_length_slice_encode log.data
    simp only [Log.encode, Encoder.finish, Encoder.encodeField_tempBuf,
      Encoder.new_tempBuf, List.length_append, ByteString.encode] at h
    omega
  rw [Log.decodeUnfinished, Log.encode, Encoder.new_finish _ _ (Encoder.length_tempBuf_lt h)]
  simp [roundTrips_fixed (by decide : (20 : Nat) < 2 ^ 64), roundTrips_hashList htopics,
    roundTrips_byteString hdata]

theorem Log.encode_ne_nil (log : Log) : log.encode ≠ [] := by
  rw [Log.encode]
  exact Encoder.finish_ne_nil _

theorem Receipt.length_encodeInner_ge (r : Receipt) : 256 ≤ r.encodeInner.length := by
  have := le_length_slice_encode r.bloom.toList
  simp only [Receipt.encodeInner, Encoder.finish, Encoder.encodeField_tempBuf,
    Encoder.new_tempBuf, List.length_append, Fixed.encode, List.Vector.toList_length] at this ⊢
  omega

theorem Receipt.decodeInner_encodeInner {r : Receipt} (h : r.encodeInner.length < 2 ^ 64) :
    Receipt.decodeInner r.encodeInner = .ok r := by
  obtain ⟨txType, succeeded, cumulativeGasUsed, bloom, logs⟩ := r
  simp only [Receipt.encodeInner, List.length_append] at h
  have hfields := Nat.lt_of_add_left_lt h
  have hlogs : (Vec.encode Log.encode logs).length < 2 ^ 64 := by
    simp only [Encoder.finish, Encoder.encodeField_tempBuf, Encoder.new_tempBuf,
      List.length_append] at hfields
    omega
  have hrt := roundTrips_vec_of_length (fun l _ hl => roundTrips_log hl) Log.encode_ne_nil hlogs
  cases txType with
  | legacy =>
    -- a list header is not below `0x7f`: no type byte is read
    obtain ⟨b, t, hbt, hb⟩ := Encoder.finish_head _ (Encoder.length_tempBuf_lt hfields)
    have hlt : ¬ b < 0x7f := by
      rw [UInt8.lt_iff_toNat_lt]
      simp
      omega
    have hnew := Encoder.new_finish_nil _ (Encoder.length_tempBuf_lt hfields)
    rw [hbt] at hnew
    simp only [Receipt.encodeInner, List.nil_append]
    rw [hbt]
    simp [Receipt.decodeInner, hlt, hnew, roundTrips_bool, roundTrips_u64,
      roundTrips_fixed (by decide : (256 : Nat) < 2 ^ 64), hrt]
  | eip2930 | eip1559 | eip4844 | privileged =>
    simp [Receipt.decodeInner, Receipt.encodeInner, TxType.toU8, txTypeFromByte,
      Encoder.new_finish_nil _ (Encoder.length_tempBuf_lt hfields), roundTrips_bool,
      roundTrips_u64, roundTrips_fixed (by decide : (256 : Nat) < 2 ^ 64), hrt]

/-- The network decoder reads back every receipt the network encoder writes. -/
theorem roundTrips_receipt {r : Receipt} (h : r.encodeInner.length < 2 ^ 64) :
    RoundTrips Receipt.encode Receipt.decodeUnfinished r := by
  intro rest
  have hlong := r.length_encodeInner_ge
  obtain ⟨txType, succeeded, cumulativeGasUsed, bloom, logs⟩ := r
  have hsplit := h
  simp only [Receipt.encodeInner, List.length_append] at hsplit
  have hfields := Nat.lt_of_add_left_lt hsplit
  have hlogs : (Vec.encode Log.encode logs).length < 2 ^ 64 := by
    simp only [Encoder.finish, Encoder.encodeField_tempBuf, Encoder.new_tempBuf,
      List.length_append] at hfields
    omega
  have hrt := roundTrips_vec_of_length (fun l _ hl => roundTrips_log hl) Log.encode_ne_nil hlogs
  have hnew := Encoder.new_finish _ rest (Encoder.length_tempBuf_lt hfields)
  cases txType with
  | legacy =>
    -- a list fails `is_encoded_as_bytes`
    have hnot := isEncodedAsBytes_finish _ (Encoder.length_tempBuf_lt hfields) rest
    simp only [Receipt.encode, Receipt.encodeInner, List.nil_append, Receipt.decodeUnfinished,
      hnot]
    simp [hnew, roundTrips_bool, roundTrips_u64,
      roundTrips_fixed (by decide : (256 : Nat) < 2 ^ 64), hrt]
  | eip2930 | eip1559 | eip4844 | privileged =>
    -- a long string passes it, whatever the receipt's logs
    obtain ⟨hyes, hpay⟩ := getRlpBytesItemPayload_long (by omega) h rest
    simp only [Receipt.encode, ByteString.encode, Receipt.decodeUnfinished, hyes, hpay]
    simp [Receipt.encodeInner, TxType.toU8, txTypeFromByte, hnew, roundTrips_bool,
      roundTrips_u64, roundTrips_fixed (by decide : (256 : Nat) < 2 ^ 64), hrt]

/-! ## The block data of a chain -/

theorem decode_encode_block_data :
    (∀ h : BlockHeader, h.OptionalFieldsPrefixClosed → h.encode.length < 2 ^ 64 →
      decode BlockHeader.decodeUnfinished h.encode = .ok h ∧
        ∀ keccak : Bytes → H256,
          (decode BlockHeader.decodeUnfinished h.encode).map (BlockHeader.computeBlockHash keccak) =
            .ok (h.computeBlockHash keccak)) ∧
    (∀ w : Withdrawal, w.encode.length < 2 ^ 64 →
      decode Withdrawal.decodeUnfinished w.encode = .ok w) ∧
    (∀ body : BlockBody,
      (∀ tx ∈ body.transactions, RoundTrips Transaction.encode Transaction.decodeUnfinished tx) →
      (∀ o ∈ body.ommers, o.OptionalFieldsPrefixClosed) → body.encode.length < 2 ^ 64 →
      decode BlockBody.decodeUnfinished body.encode = .ok body) ∧
    (∀ block : Block, block.header.OptionalFieldsPrefixClosed →
      (∀ tx ∈ block.body.transactions,
        RoundTrips Transaction.encode Transaction.decodeUnfinished tx) →
      (∀ o ∈ block.body.ommers, o.OptionalFieldsPrefixClosed) → block.encode.length < 2 ^ 64 →
      decode Block.decodeUnfinished block.encode = .ok block) ∧
    (∀ r : Receipt, r.encodeInner.length < 2 ^ 64 →
      Receipt.decodeInner r.encodeInner = .ok r ∧
        decode Receipt.decodeUnfinished r.encode = .ok r) := by
  refine ⟨fun h hpc hlen => ?_, fun w hlen => ?_, fun body htx hommers hlen => ?_,
    fun block hheader htx hommers hlen => ?_, fun r hlen => ?_⟩
  · have hdec := decode_of_roundTrips (roundTrips_blockHeader hpc hlen)
    exact ⟨hdec, fun keccak => by rw [hdec]; rfl⟩
  · exact decode_of_roundTrips (roundTrips_withdrawal hlen)
  · exact decode_of_roundTrips (roundTrips_blockBody htx hommers hlen)
  · exact decode_of_roundTrips (roundTrips_block hheader htx hommers hlen)
  · exact ⟨Receipt.decodeInner_encodeInner hlen, decode_of_roundTrips (roundTrips_receipt hlen)⟩

set_option maxRecDepth 8000 in
theorem decode_encode_default_block :
    (default : BlockHeader).OptionalFieldsPrefixClosed ∧
      (default : BlockHeader).encode.length < 2 ^ 64 ∧
      decode BlockHeader.decodeUnfinished (default : BlockHeader).encode = .ok default ∧
    decode Block.decodeUnfinished (default : Block).encode = .ok default ∧
    decode Receipt.decodeUnfinished
        (Receipt.mk .eip1559 true 21000 (.replicate 256 0) []).encode =
      .ok (Receipt.mk .eip1559 true 21000 (.replicate 256 0) []) :=
  ⟨by decide, by decide, (decode_encode_block_data.1 default (by decide) (by decide)).1,
    decode_encode_block_data.2.2.2.1 default (by decide) (by simp [default]) (by simp [default])
      (by decide),
    (decode_encode_block_data.2.2.2.2 _ (by decide)).2⟩

end Ethrex.Types
