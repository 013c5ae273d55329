/-
# `Ethrex.Types.TransactionRoundTrip` — what the transaction codecs read back

The five transaction types are structs of the crate's `Encoder`/`Decoder`,
so each one's round trip is the struct lemmas of `Ethrex.Rlp.Structs` at
its fields, once the field types of this module (`TxKind`,
`PrivilegedTxType`, access lists and blob hashes) have theirs.  Over them,
the two envelopes of EIP-2718:

* the canonical form reads back every transaction: its first byte is a type
  below `0x7f`, or a list header, at least `0xc0`;
* the network form reads back a legacy transaction, and a typed one whose
  canonical form has 56 bytes or more.  A shorter typed transaction is
  wrapped under a short string header `0x80 + len`, which
  `is_encoded_as_bytes` does not recognise: the decoder takes it for a
  legacy list and fails with `UnexpectedString`;
* a `MempoolTransaction` is written as two fields and read as three.  The
  `sender` decode reads the wrapped transaction, or fails on it, and the
  `inner` decode then finds nothing: no mempool record is ever read back.

Every statement assumes the encoding is shorter than `2 ^ 64` bytes.
-/
import Ethrex.Types.Transaction

namespace Ethrex.Types

open Ethrex.Rlp Codec

/-! ## Field types -/

theorem address_encode (a : Address) : Fixed.encode a = 0x94 :: a.toList := by
  have hlen : a.toList.length = 20 := a.toList_length
  rw [Fixed.encode, Slice.encode_of_not_single (by rintro b hb; simp [hb] at hlen),
    lengthHeader_lt (by omega), hlen]
  rfl

theorem roundTrips_txKind (k : TxKind) : RoundTrips TxKind.encode TxKind.decodeUnfinished k := by
  intro rest
  cases k with
  | create => simp [TxKind.encode, TxKind.decodeUnfinished]
  | call address =>
    -- the header `0x94` of a twenty-byte string is not `RLP_NULL`
    have hrt := roundTrips_fixed (by decide : (20 : Nat) < 2 ^ 64) address rest
    rw [address_encode, List.cons_append] at hrt
    simp [TxKind.encode, address_encode, TxKind.decodeUnfinished, rlpNull, hrt]

theorem roundTrips_privilegedTxType (t : PrivilegedTxType) :
    RoundTrips PrivilegedTxType.encode PrivilegedTxType.decodeUnfinished t := by
  intro rest
  cases t <;> cases rest <;> rfl

theorem roundTrips_accessList {l : AccessList} (h : (AccessList.encode l).length < 2 ^ 64) :
    RoundTrips AccessList.encode AccessList.decodeUnfinished l :=
  RLPType.roundTrips_encode accessListType l h

theorem roundTrips_hashList {l : List H256} (h : (HashList.encode l).length < 2 ^ 64) :
    RoundTrips HashList.encode HashList.decodeUnfinished l :=
  RLPType.roundTrips_encode hashListType l h

/-! ## The five transaction types

Each proof opens the list with `Encoder.new_finish` and lets the struct
lemmas read the fields in order; the only side conditions are the length
bounds of the variable-length fields, read off the bound on the whole. -/

theorem roundTrips_legacyTransaction {tx : LegacyTransaction} (h : tx.encode.length < 2 ^ 64) :
    RoundTrips LegacyTransaction.encode LegacyTransaction.decodeUnfinished tx := by
  intro rest
  have hdata : tx.data.length < 2 ^ 64 := by
    have := le_length_slice_encode tx.data
    simp only [LegacyTransaction.encode, Encoder.finish, Encoder.encodeField_tempBuf,
      Encoder.new_tempBuf, List.length_append, ByteString.encode] at h
    omega
  rw [LegacyTransaction.decodeUnfinished, LegacyTransaction.encode,
    Encoder.new_finish _ _ (Encoder.length_tempBuf_lt h)]
  simp [roundTrips_u64, roundTrips_u256, roundTrips_txKind, roundTrips_byteString hdata]

theorem roundTrips_eip2930Transaction {tx : EIP2930Transaction} (h : tx.encode.length < 2 ^ 64) :
    RoundTrips EIP2930Transaction.encode EIP2930Transaction.decodeUnfinished tx := by
  intro rest
  obtain ⟨hdata, hal⟩ : tx.data.length < 2 ^ 64 ∧
      (AccessList.encode tx.accessList).length < 2 ^ 64 := by
    have := le_length_slice_encode tx.data
    simp only [EIP2930Transaction.encode, Encoder.finish, Encoder.encodeField_tempBuf,
      Encoder.new_tempBuf, List.length_append, ByteString.encode] at h
    omega
  rw [EIP2930Transaction.decodeUnfinished, EIP2930Transaction.encode,
    Encoder.new_finish _ _ (Encoder.length_tempBuf_lt h)]
  simp [roundTrips_u64, roundTrips_u256, roundTrips_txKind, roundTrips_bool,
    roundTrips_byteString hdata, roundTrips_accessList hal]

theorem roundTrips_eip1559Transaction {tx : EIP1559Transaction} (h : tx.encode.length < 2 ^ 64) :
    RoundTrips EIP1559Transaction.encode EIP1559Transaction.decodeUnfinished tx := by
  intro rest
  obtain ⟨hdata, hal⟩ : tx.data.length < 2 ^ 64 ∧
      (AccessList.encode tx.accessList).length < 2 ^ 64 := by
    have := le_length_slice_encode tx.data
    simp only [EIP1559Transaction.encode, Encoder.finish, Encoder.encodeField_tempBuf,
      Encoder.new_tempBuf, List.length_append, ByteString.encode] at h
    omega
  rw [EIP1559Transaction.decodeUnfinished, EIP1559Transaction.encode,
    Encoder.new_finish _ _ (Encoder.length_tempBuf_lt h)]
  simp [roundTrips_u64, roundTrips_u256, roundTrips_txKind, roundTrips_bool,
    roundTrips_byteString hdata, roundTrips_accessList hal]

theorem roundTrips_eip4844Transaction {tx : EIP4844Transaction} (h : tx.encode.length < 2 ^ 64) :
    RoundTrips EIP4844Transaction.encode EIP4844Transaction.decodeUnfinished tx := by
  intro rest
  obtain ⟨hdata, hal, hbl⟩ : tx.data.length < 2 ^ 64 ∧
      (AccessList.encode tx.accessList).length < 2 ^ 64 ∧
      (HashList.encode tx.blobVersionedHashes).length < 2 ^ 64 := by
    have := le_length_slice_encode tx.data
    simp only [EIP4844Transaction.encode, Encoder.finish, Encoder.encodeField_tempBuf,
      Encoder.new_tempBuf, List.length_append, ByteString.encode] at h
    omega
  rw [EIP4844Transaction.decodeUnfinished, EIP4844Transaction.encode,
    Encoder.new_finish _ _ (Encoder.length_tempBuf_lt h)]
  -- the recipient is a bare address here, not a `TxKind`
  simp [roundTrips_u64, roundTrips_u256, roundTrips_bool,
    roundTrips_fixed (by decide : (20 : Nat) < 2 ^ 64) tx.«to»,
    roundTrips_byteString hdata, roundTrips_accessList hal, roundTrips_hashList hbl]

theorem roundTrips_privilegedL2Transaction {tx : PrivilegedL2Transaction}
    (h : tx.encode.length < 2 ^ 64) :
    RoundTrips PrivilegedL2Transaction.encode PrivilegedL2Transaction.decodeUnfinished tx := by
  intro rest
  obtain ⟨hdata, hal⟩ : tx.data.length < 2 ^ 64 ∧
      (AccessList.encode tx.accessList).length < 2 ^ 64 := by
    have := le_length_slice_encode tx.data
    simp only [PrivilegedL2Transaction.encode, Encoder.finish, Encoder.encodeField_tempBuf,
      Encoder.new_tempBuf, List.length_append, ByteString.encode] at h
    omega
  rw [PrivilegedL2Transaction.decodeUnfinished, PrivilegedL2Transaction.encode,
    Encoder.new_finish _ _ (Encoder.length_tempBuf_lt h)]
  simp [roundTrips_u64, roundTrips_u256, roundTrips_txKind, roundTrips_bool,
    roundTrips_privilegedTxType, roundTrips_byteString hdata, roundTrips_accessList hal]

/-! ## Shapes of the two envelopes -/

theorem LegacyTransaction.encode_head (tx : LegacyTransaction) (h : tx.encode.length < 2 ^ 64) :
    ∃ b t, tx.encode = b :: t ∧ 0xC0 ≤ b.toNat := by
  rw [LegacyTransaction.encode] at h ⊢
  exact Encoder.finish_head _ (Encoder.length_tempBuf_lt h)

theorem EIP2930Transaction.encode_ne_nil (tx : EIP2930Transaction) : tx.encode ≠ [] := by
  rw [EIP2930Transaction.encode]
  exact Encoder.finish_ne_nil _

theorem EIP1559Transaction.encode_ne_nil (tx : EIP1559Transaction) : tx.encode ≠ [] := by
  rw [EIP1559Transaction.encode]
  exact Encoder.finish_ne_nil _

theorem EIP4844Transaction.encode_ne_nil (tx : EIP4844Transaction) : tx.encode ≠ [] := by
  rw [EIP4844Transaction.encode]
  exact Encoder.finish_ne_nil _

theorem PrivilegedL2Transaction.encode_ne_nil (tx : PrivilegedL2Transaction) :
    tx.encode ≠ [] := by
  rw [PrivilegedL2Transaction.encode]
  exact Encoder.finish_ne_nil _

theorem Transaction.length_encodeCanonical_typed {tx : Transaction} (h : tx.txType ≠ .legacy) :
    2 ≤ tx.encodeCanonical.length := by
  cases tx with
  | legacyTransaction _ => exact absurd rfl h
  | eip2930Transaction t =>
    have := List.length_pos_iff.mpr t.encode_ne_nil
    simp only [encodeCanonical_eip2930Transaction, List.length_cons]
    omega
  | eip1559Transaction t =>
    have := List.length_pos_iff.mpr t.encode_ne_nil
    simp only [encodeCanonical_eip1559Transaction, List.length_cons]
    omega
  | eip4844Transaction t =>
    have := List.length_pos_iff.mpr t.encode_ne_nil
    simp only [encodeCanonical_eip4844Transaction, List.length_cons]
    omega
  | privilegedL2Transaction t =>
    have := List.length_pos_iff.mpr t.encode_ne_nil
    simp only [encodeCanonical_privilegedL2Transaction, List.length_cons]
    omega

theorem Transaction.encode_typed {tx : Transaction} (h : tx.txType ≠ .legacy) :
    tx.encode = ByteString.encode tx.encodeCanonical := by
  cases tx with
  | legacyTransaction _ => exact absurd rfl h
  | _ => rfl

/-! ## The canonical form -/

/-- `decode_canonical` reads back every transaction `encode_canonical` writes. -/
theorem decodeCanonical_encodeCanonical (tx : Transaction)
    (h : tx.encodeCanonical.length < 2 ^ 64) :
    Transaction.decodeCanonical tx.encodeCanonical = .ok tx := by
  cases tx with
  | legacyTransaction t =>
    have ht : t.encode.length < 2 ^ 64 := by simpa using h
    obtain ⟨b, r, hbr, hb⟩ := LegacyTransaction.encode_head t ht
    have hdec := decode_of_roundTrips (roundTrips_legacyTransaction ht)
    -- a list header is not below `0x7f`: the legacy branch
    have hlt : ¬ b < 0x7f := by
      rw [UInt8.lt_iff_toNat_lt]
      simp
      omega
    rw [hbr] at hdec
    simp [hbr, Transaction.decodeCanonical, hlt, hdec]
  | eip2930Transaction t =>
    have ht : t.encode.length < 2 ^ 64 := by simp at h; omega
    simp [Transaction.decodeCanonical, decode_of_roundTrips (roundTrips_eip2930Transaction ht)]
  | eip1559Transaction t =>
    have ht : t.encode.length < 2 ^ 64 := by simp at h; omega
    simp [Transaction.decodeCanonical, decode_of_roundTrips (roundTrips_eip1559Transaction ht)]
  | eip4844Transaction t =>
    have ht : t.encode.length < 2 ^ 64 := by simp at h; omega
    simp [Transaction.decodeCanonical, decode_of_roundTrips (roundTrips_eip4844Transaction ht)]
  | privilegedL2Transaction t =>
    have ht : t.encode.length < 2 ^ 64 := by simp at h; omega
    simp [Transaction.decodeCanonical,
      decode_of_roundTrips (roundTrips_privilegedL2Transaction ht)]

/-! ## The network form -/

/-- The network decoder reads back a legacy transaction, and a typed one
whose canonical form has a long-form string header. -/
theorem roundTrips_transaction {tx : Transaction} (h : tx.encodeCanonical.length < 2 ^ 64)
    (hlong : tx.txType ≠ .legacy → 56 ≤ tx.encodeCanonical.length) :
    RoundTrips Transaction.encode Transaction.decodeUnfinished tx := by
  intro rest
  cases tx with
  | legacyTransaction t =>
    have ht : t.encode.length < 2 ^ 64 := by simpa using h
    -- a list fails `is_encoded_as_bytes`: the legacy branch
    have hnot : isEncodedAsBytes (t.encode ++ rest) = .ok false := by
      rw [LegacyTransaction.encode] at ht ⊢
      exact isEncodedAsBytes_finish _ (Encoder.length_tempBuf_lt ht) rest
    simp [Transaction.encode, Transaction.decodeUnfinished, hnot,
      roundTrips_legacyTransaction ht rest]
  | eip2930Transaction t =>
    -- a long string passes it, and the payload is the type byte and the list
    obtain ⟨hyes, hpay⟩ :=
      getRlpBytesItemPayload_long (hlong (by simp [Transaction.txType])) h rest
    have ht : t.encode.length < 2 ^ 64 := by simp at h; omega
    simp only [Transaction.encode, ByteString.encode, Transaction.decodeUnfinished, hyes, hpay]
    simp [roundTrips_eip2930Transaction ht rest]
  | eip1559Transaction t =>
    obtain ⟨hyes, hpay⟩ :=
      getRlpBytesItemPayload_long (hlong (by simp [Transaction.txType])) h rest
    have ht : t.encode.length < 2 ^ 64 := by simp at h; omega
    simp only [Transaction.encode, ByteString.encode, Transaction.decodeUnfinished, hyes, hpay]
    simp [roundTrips_eip1559Transaction ht rest]
  | eip4844Transaction t =>
    obtain ⟨hyes, hpay⟩ :=
      getRlpBytesItemPayload_long (hlong (by simp [Transaction.txType])) h rest
    have ht : t.encode.length < 2 ^ 64 := by simp at h; omega
    simp only [Transaction.encode, ByteString.encode, Transaction.decodeUnfinished, hyes, hpay]
    simp [roundTrips_eip4844Transaction ht rest]
  | privilegedL2Transaction t =>
    obtain ⟨hyes, hpay⟩ :=
      getRlpBytesItemPayload_long (hlong (by simp [Transaction.txType])) h rest
    have ht : t.encode.length < 2 ^ 64 := by simp at h; omega
    simp only [Transaction.encode, ByteString.encode, Transaction.decodeUnfinished, hyes, hpay]
    simp [roundTrips_privilegedL2Transaction ht rest]

/-- Both envelopes read back what they write: the canonical form always,
the network form for a legacy transaction or a long typed one. -/
theorem decode_encode_transaction (tx : Transaction) (h : tx.encodeCanonical.length < 2 ^ 64) :
    Transaction.decodeCanonical tx.encodeCanonical = .ok tx ∧
      ((tx.txType = .legacy ∨ 56 ≤ tx.encodeCanonical.length) →
        ∀ rest, Transaction.decodeUnfinished (tx.encode ++ rest) = .ok (tx, rest)) := by
  refine ⟨decodeCanonical_encodeCanonical tx h, fun hform => ?_⟩
  exact roundTrips_transaction h (fun hty => hform.resolve_left hty)

set_option maxRecDepth 4000 in
theorem decode_encode_zero_eip2930 :
    (Transaction.eip2930Transaction ⟨0, 0, 0, 0, .create, 0, [], [], false, 0, 0⟩
        ).encodeCanonical.length < 2 ^ 64 ∧
      Transaction.decodeCanonical
          (Transaction.eip2930Transaction ⟨0, 0, 0, 0, .create, 0, [], [], false, 0, 0⟩
            ).encodeCanonical =
        .ok (Transaction.eip2930Transaction ⟨0, 0, 0, 0, .create, 0, [], [], false, 0, 0⟩) :=
  ⟨by decide, (decode_encode_transaction _ (by decide)).1⟩

/-! ## Where the network form and the mempool record are not read back -/

theorem Transaction.decodeUnfinished_short {tx : Transaction} (hty : tx.txType ≠ .legacy)
    (hshort : tx.encodeCanonical.length < 56) (rest : Bytes) :
    Transaction.decodeUnfinished (tx.encode ++ rest) = .error .unexpectedString := by
  have hns : ∀ b, tx.encodeCanonical = [b] → 0x80 ≤ b.toNat := by
    intro b hb
    have := Transaction.length_encodeCanonical_typed hty
    simp [hb] at this
  -- a short string header fails `is_encoded_as_bytes` ...
  have hno := isEncodedAsBytes_short hshort hns rest
  rw [Transaction.encode_typed hty, ByteString.encode, Transaction.decodeUnfinished, hno]
  simp only [Except.ok_bind, Bool.false_eq_true, if_false]
  -- ... and the legacy decoder expects a list
  rw [LegacyTransaction.decodeUnfinished, Slice.encode_of_not_single hns,
    Decoder.new_string _ rest (by omega)]
  rfl

theorem Transaction.encode_ne_nil (tx : Transaction) : tx.encode ≠ [] := by
  by_cases hty : tx.txType = .legacy
  · cases tx with
    | legacyTransaction t =>
      rw [Transaction.encode, LegacyTransaction.encode]
      exact Encoder.finish_ne_nil _
    | _ => simp [Transaction.txType] at hty
  · rw [Transaction.encode_typed hty, ByteString.encode]
    exact Slice.encode_ne_nil _

theorem Transaction.decodeUnfinished_nil :
    Transaction.decodeUnfinished [] = .error .malformedData := rfl

theorem Transaction.fixed_decode_rest {tx : Transaction} (h : tx.encode.length < 2 ^ 64)
    {a : Address} {r : Bytes} (hs : Fixed.decodeUnfinished 20 tx.encode = .ok (a, r)) :
    r = [] := by
  have hb := decodeBytes_of_fixed hs
  by_cases hty : tx.txType = .legacy
  · -- a legacy transaction is a list, which a string decoder rejects
    cases tx with
    | legacyTransaction t =>
      have hl := decodeBytes_list _ [] (Encoder.length_tempBuf_lt h)
      rw [List.append_nil] at hl
      simp only [Transaction.encode, LegacyTransaction.encode, Encoder.finish] at hb
      rw [hl] at hb
      cases hb
    | _ => simp [Transaction.txType] at hty
  · -- a typed one is one string, its canonical form, and nothing after it
    rw [Transaction.encode_typed hty, ByteString.encode] at h hb
    have hc := roundTrips_slice (Nat.lt_of_le_of_lt (le_length_slice_encode _) h) []
    rw [List.append_nil, hb] at hc
    exact (Prod.mk.inj (Except.ok.inj hc)).2

/-- The mempool decoder reads a `sender` the encoder never wrote, so it
fails on every record. -/
theorem MempoolTransaction.decodeUnfinished_error (m : MempoolTransaction)
    (h : m.encode.length < 2 ^ 64) (rest : Bytes) :
    ∃ e, MempoolTransaction.decodeUnfinished (m.encode ++ rest) = .error e := by
  have hinner : m.inner.encode.length < 2 ^ 64 := by
    simp only [MempoolTransaction.encode, Encoder.finish, Encoder.encodeField_tempBuf,
      Encoder.new_tempBuf, List.length_append] at h
    omega
  rw [MempoolTransaction.decodeUnfinished, MempoolTransaction.encode,
    Encoder.new_finish _ _ (Encoder.length_tempBuf_lt h)]
  simp only [Encoder.encodeField_tempBuf, Encoder.new_tempBuf, List.nil_append, Except.ok_bind,
    Decoder.decodeField_mk _ (roundTrips_u128 m.timestamp)]
  -- the sender is read from the transaction's own encoding
  cases hs : Fixed.decodeUnfinished 20 m.inner.encode with
  | error e => exact ⟨fieldDecodeError "sender" "Address" e, by simp [Decoder.decodeField, hs]⟩
  | ok ar =>
    obtain ⟨a, r⟩ := ar
    obtain rfl := Transaction.fixed_decode_rest hinner hs
    exact ⟨fieldDecodeError "inner" "Transaction" .malformedData,
      by simp [Decoder.decodeField, hs, Transaction.decodeUnfinished_nil]⟩

theorem network_decode_fails_short_typed_and_mempool :
    (∀ tx : Transaction, tx.txType ≠ .legacy → tx.encodeCanonical.length < 56 →
      decode Transaction.decodeUnfinished tx.encode = .error .unexpectedString) ∧
    (∀ m : MempoolTransaction, m.encode.length < 2 ^ 64 →
      ∃ e, decode MempoolTransaction.decodeUnfinished m.encode = .error e) := by
  constructor
  · intro tx hty hshort
    have hfail := Transaction.decodeUnfinished_short hty hshort []
    rw [List.append_nil] at hfail
    exact decode_of_error hfail
  · intro m hm
    obtain ⟨e, he⟩ := MempoolTransaction.decodeUnfinished_error m hm []
    rw [List.append_nil] at he
    exact ⟨e, decode_of_error he⟩

set_option maxRecDepth 4000 in
theorem network_decode_fails_zero_eip2930 :
    decode Transaction.decodeUnfinished
        (Transaction.eip2930Transaction ⟨0, 0, 0, 0, .create, 0, [], [], false, 0, 0⟩).encode =
      .error .unexpectedString ∧
    ∃ e, decode MempoolTransaction.decodeUnfinished
        (MempoolTransaction.mk 0 (List.Vector.replicate 20 0)
          (.eip2930Transaction ⟨0, 0, 0, 0, .create, 0, [], [], false, 0, 0⟩)).encode =
      .error e :=
  ⟨network_decode_fails_short_typed_and_mempool.1 _ (by decide) (by decide),
    network_decode_fails_short_typed_and_mempool.2 _ (by decide)⟩

end Ethrex.Types
