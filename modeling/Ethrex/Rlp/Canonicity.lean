/-
# `Ethrex.Rlp.Canonicity` — headers the decoder reads and the encoder never writes

The encoder writes every item under its shortest header: a byte below
`0x80` is its own encoding, and a string or list of fewer than 56 bytes has
the one-byte prefix `0x80 + n` or `0xc0 + n`.  `decode_rlp_item` reads
longer headers for the same items as well: a byte below `0x80` wrapped as
the one-byte string `0x81 b`, and a payload of 1 to 55 bytes behind a
long-form prefix with a one-byte length, `0xb8 n` or `0xf8 n`.  Only the
leading zero byte of a long-form length is refused (`static_left_pad`).

`widenHeader` rewrites an item's header into that longer form, where it has
one.  `decode_rlp_item` returns the same answer for the two
(`decodeRlpItem_widenHeader`), and every type of the crate except `bool`
and `u8` looks at its input only through `decode_rlp_item`
(`decodeUnfinished_congr`), so its decoder takes the longer bytes to the
same value: `decode_widenHeader`.  `u8` reads its first byte itself and
takes `0x81 b` to `b` whatever `b` is; `bool` reads one byte and is
canonical (`Bool.encode_of_decode`).  `rlp_canonical_checks` gathers where
the decoder is strict: leading zero bytes in a long-form length or an
integer are refused.
-/
import Ethrex.Rlp.Universe

namespace Ethrex.Rlp

/-! ## The arms of `decode_rlp_item` with a header of one or two bytes -/

theorem decodeRlpItem_of_itemSplit {data : Bytes} {c : Prop} [Decidable c] {isList : Bool}
    {h n : Nat} (hs : itemSplit data = if c then .error .invalidLength else .ok (isList, h, n)) :
    decodeRlpItem data =
      if c then .error .invalidLength
      else .ok (isList, (data.take (h + n)).drop h, data.drop (h + n)) := by
  by_cases hc : c
  · simp [decodeRlpItem, hs, hc]
  · rw [if_neg hc] at hs ⊢
    exact decodeRlpItem_eq hs

section Arms

variable {b y : UInt8} {p : Bytes}

theorem take_drop_cons_header (hd p : Bytes) (n : Nat) :
    ((hd ++ p).take (hd.length + n)).drop hd.length = p.take n ∧
      (hd ++ p).drop (hd.length + n) = p.drop n := by
  constructor
  · rw [List.take_append, List.drop_append_of_le_length (by simp)]
    simp
  · rw [List.drop_append, List.drop_of_length_le (by simp)]
    simp

theorem decodeRlpItem_shortString (h₁ : 0x80 ≤ b.toNat) (h₂ : b.toNat ≤ 0xB7) :
    decodeRlpItem (b :: p) =
      if p.length < b.toNat - 0x80 then .error .invalidLength
      else .ok (false, p.take (b.toNat - 0x80), p.drop (b.toNat - 0x80)) := by
  rw [decodeRlpItem_of_itemSplit (itemSplit_shortString h₁ h₂)]
  have ⟨ht, hd⟩ := take_drop_cons_header [b] p (b.toNat - 0x80)
  simp only [List.singleton_append, List.length_singleton] at ht hd
  rw [ht, hd]

theorem decodeRlpItem_shortList (h₁ : 0xC0 ≤ b.toNat) (h₂ : b.toNat ≤ 0xF7) :
    decodeRlpItem (b :: p) =
      if p.length < b.toNat - 0xC0 then .error .invalidLength
      else .ok (true, p.take (b.toNat - 0xC0), p.drop (b.toNat - 0xC0)) := by
  rw [decodeRlpItem_of_itemSplit (itemSplit_shortList h₁ h₂)]
  have ⟨ht, hd⟩ := take_drop_cons_header [b] p (b.toNat - 0xC0)
  simp only [List.singleton_append, List.length_singleton] at ht hd
  rw [ht, hd]

theorem staticLeftPad_single (hy : y ≠ 0) :
    staticLeftPad 8 [y] = .ok (List.replicate 7 0 ++ [y]) := by
  simp [staticLeftPad, hy]

theorem decodeRlpItem_longString_one (hy : y ≠ 0) :
    decodeRlpItem (0xb8 :: y :: p) =
      if p.length < y.toNat then .error .invalidLength
      else .ok (false, p.take y.toNat, p.drop y.toNat) := by
  have hs : itemSplit (0xb8 :: y :: p) =
      if p.length < y.toNat then .error .invalidLength else .ok (false, 2, y.toNat) := by
    rw [itemSplit_longString (by decide) (by decide)]
    simp only [show (0xb8 : UInt8).toNat - 0xB7 = 1 from rfl, List.length_cons,
      List.take_succ_cons, List.take_zero, staticLeftPad_single hy, Except.ok_bind,
      BigEndian.ofBytes_zeros_append, BigEndian.ofBytes_cons, BigEndian.ofBytes_nil,
      List.length_nil, Nat.pow_zero, Nat.mul_one, Nat.add_zero]
    rw [if_neg (by omega)]
    by_cases hl : p.length < y.toNat
    · rw [if_pos (by omega), if_pos hl]
    · rw [if_neg (by omega), if_neg hl]
  rw [decodeRlpItem_of_itemSplit hs]
  have ⟨ht, hd⟩ := take_drop_cons_header [0xb8, y] p y.toNat
  simp only [List.cons_append, List.nil_append, List.length_cons, List.length_nil] at ht hd
  rw [ht, hd]

theorem decodeRlpItem_longList_one (hy : y ≠ 0) :
    decodeRlpItem (0xf8 :: y :: p) =
      if p.length < y.toNat then .error .invalidLength
      else .ok (true, p.take y.toNat, p.drop y.toNat) := by
  have hs : itemSplit (0xf8 :: y :: p) =
      if p.length < y.toNat then .error .invalidLength else .ok (true, 2, y.toNat) := by
    rw [itemSplit_longList (by decide)]
    simp only [show (0xf8 : UInt8).toNat - 0xF7 = 1 from rfl, List.length_cons,
      List.take_succ_cons, List.take_zero, staticLeftPad_single hy, Except.ok_bind,
      BigEndian.ofBytes_zeros_append, BigEndian.ofBytes_cons, BigEndian.ofBytes_nil,
      List.length_nil, Nat.pow_zero, Nat.mul_one, Nat.add_zero]
    rw [if_neg (by omega)]
    by_cases hl : p.length < y.toNat
    · rw [if_pos (by omega), if_pos hl]
    · rw [if_neg (by omega), if_neg hl]
  rw [decodeRlpItem_of_itemSplit hs]
  have ⟨ht, hd⟩ := take_drop_cons_header [0xf8, y] p y.toNat
  simp only [List.cons_append, List.nil_append, List.length_cons, List.length_nil] at ht hd
  rw [ht, hd]

end Arms

/-! ## What is refused: leading zero bytes -/

/-- The longer header that `decode_rlp_item` also reads for the item at the
head of `e`: a byte below `0x80` wrapped as `0x81 b`, or a string or list of
1 to 55 bytes behind a long-form prefix with a one-byte length.  `none` where
there is no such header: the empty string `0x80`, the empty list `0xc0`, a
string `0x81 b` with `b ≥ 0x80`, and the long forms, whose length the
decoder takes only without a leading zero byte. -/
def widenHeader : Bytes → Option Bytes
  | [] => none
  | b :: p =>
    if b.toNat ≤ 0x7F then some (0x81 :: b :: p)
    else if 0x81 ≤ b.toNat ∧ b.toNat ≤ 0xB7 then some (0xb8 :: (b - 0x80) :: p)
    else if 0xC1 ≤ b.toNat ∧ b.toNat ≤ 0xF7 then some (0xf8 :: (b - 0xc0) :: p)
    else none

example : widenHeader [0xc2, 0x01, 0x02] = some [0xf8, 0x02, 0x01, 0x02] := by decide

theorem length_widenHeader {e w : Bytes} (h : widenHeader e = some w) : w.length = e.length + 1 := by
  rcases e with _ | ⟨b, p⟩
  · cases h
  · simp only [widenHeader] at h
    split_ifs at h <;> cases h <;> rfl

theorem decodeRlpItem_wrapped {b : UInt8} (hb : b.toNat ≤ 0x7F) (p : Bytes) :
    decodeRlpItem (0x81 :: b :: p) = decodeRlpItem (b :: p) := by
  rw [decodeRlpItem_shortString (by decide) (by decide), decodeRlpItem_single hb]
  simp

theorem decodeRlpItem_widenHeader {e w : Bytes} (h : widenHeader e = some w) :
    decodeRlpItem w = decodeRlpItem e := by
  rcases e with _ | ⟨b, p⟩
  · cases h
  simp only [widenHeader] at h
  split_ifs at h with h₁ h₂ h₃ <;> cases h
  · -- a single byte, wrapped
    exact decodeRlpItem_wrapped h₁ p
  · -- a short string behind a one-byte long-form length
    have hy : (b - 0x80).toNat = b.toNat - 0x80 := toNat_sub_of_le' (by simp; omega)
    rw [decodeRlpItem_longString_one (by intro h0; rw [h0] at hy; simp at hy; omega),
      decodeRlpItem_shortString (by omega) h₂.2, hy]
  · -- a short list behind a one-byte long-form length
    have hy : (b - 0xc0).toNat = b.toNat - 0xC0 := toNat_sub_of_le' (by simp; omega)
    rw [decodeRlpItem_longList_one (by intro h0; rw [h0] at hy; simp at hy; omega),
      decodeRlpItem_shortList (by omega) h₃.2, hy]

/-! ## Decoders that read through `decode_rlp_item` -/

section Congr

variable {α β γ δ : Type} {a b : Bytes}

theorem decodeBytes_congr (h : decodeRlpItem a = decodeRlpItem b) : decodeBytes a = decodeBytes b := by
  simp only [decodeBytes, h]

theorem Vec.decodeUnfinished_eq_item (dec : DecodeFn α) (rlp : Bytes) :
    Vec.decodeUnfinished dec rlp = (do
      let (isList, payload, inputRest) ← decodeRlpItem rlp
      if !isList then throw .malformedData
      let result ← decodeItems dec payload.length payload
      pure (result, inputRest)) := by
  rcases rlp with _ | ⟨first, rest⟩
  · rfl
  by_cases hf : first = rlpEmptyList
  · subst hf
    rw [decodeRlpItem_shortList (by decide) (by decide)]
    simp [Vec.decodeUnfinished, rlpEmptyList, decodeItems]
  · simp only [Vec.decodeUnfinished, if_neg hf]

theorem Vec.decodeUnfinished_congr (dec : DecodeFn α) (h : decodeRlpItem a = decodeRlpItem b) :
    Vec.decodeUnfinished dec a = Vec.decodeUnfinished dec b := by
  rw [Vec.decodeUnfinished_eq_item, Vec.decodeUnfinished_eq_item, h]

theorem isEmpty_guard (rlp : Bytes) (k : Bool × Bytes × Bytes → Except RLPDecodeError β) :
    (if rlp.isEmpty = true then (throw .invalidLength >>= fun (_ : PUnit) => decodeRlpItem rlp >>= k)
      else decodeRlpItem rlp >>= k) = decodeRlpItem rlp >>= k := by
  rcases rlp with _ | ⟨first, rest⟩
  · rfl
  · rfl

theorem Tuple2.decodeUnfinished_congr (decA : DecodeFn α) (decB : DecodeFn β)
    (h : decodeRlpItem a = decodeRlpItem b) :
    Tuple2.decodeUnfinished decA decB a = Tuple2.decodeUnfinished decA decB b := by
  simp only [Tuple2.decodeUnfinished]
  rw [isEmpty_guard, isEmpty_guard, h]

theorem Tuple3.decodeUnfinished_congr (decA : DecodeFn α) (decB : DecodeFn β) (decC : DecodeFn γ)
    (h : decodeRlpItem a = decodeRlpItem b) :
    Tuple3.decodeUnfinished decA decB decC a = Tuple3.decodeUnfinished decA decB decC b := by
  simp only [Tuple3.decodeUnfinished]
  rw [isEmpty_guard, isEmpty_guard, h]

theorem Tuple4.decodeUnfinished_congr (decA : DecodeFn α) (decB : DecodeFn β) (decC : DecodeFn γ)
    (decD : DecodeFn δ) (h : decodeRlpItem a = decodeRlpItem b) :
    Tuple4.decodeUnfinished decA decB decC decD a = Tuple4.decodeUnfinished decA decB decC decD b := by
  simp only [Tuple4.decodeUnfinished]
  rw [isEmpty_guard, isEmpty_guard, h]

/-- Every type but `bool` and `u8` decodes its input through
`decode_rlp_item` alone: the integers, hashes, strings and addresses through
`decode_bytes`, the vectors and tuples through their list item. -/
theorem RLPType.decodeUnfinished_congr (t : RLPType) (ht : t ≠ .bool ∧ t ≠ .u8)
    (h : decodeRlpItem a = decodeRlpItem b) : t.decodeUnfinished a = t.decodeUnfinished b := by
  have hb := decodeBytes_congr h
  cases t with
  | bool => exact absurd rfl ht.1
  | u8 => exact absurd rfl ht.2
  | vec t => exact Vec.decodeUnfinished_congr _ h
  | tuple2 => exact Tuple2.decodeUnfinished_congr _ _ h
  | tuple3 => exact Tuple3.decodeUnfinished_congr _ _ _ h
  | tuple4 => exact Tuple4.decodeUnfinished_congr _ _ _ _ h
  | u16 | u32 | u64 | usize | u128 =>
    simp only [RLPType.decodeUnfinished, U16.decodeUnfinished, U32.decodeUnfinished,
      U64.decodeUnfinished, Usize.decodeUnfinished, U128.decodeUnfinished, decodeUint, hb]
  | u256 | array | bytes | string | ipv4 | ipv6 | ip =>
    simp only [RLPType.decodeUnfinished, U256.decodeUnfinished, Fixed.decodeUnfinished,
      ByteString.decodeUnfinished, Str.decodeUnfinished, Ipv4.decodeUnfinished,
      Ipv6.decodeUnfinished, Ip.decodeUnfinished, hb]

end Congr

section Decode

variable {α : Type} {dec : DecodeFn α}

theorem decode_congr {a b : Bytes} (h : dec a = dec b) : decode dec a = decode dec b := by
  simp only [decode, h]

end Decode

/-! ## Two encodings of one value -/

/-- For every type but `bool` and `u8`, and every value whose encoding has a
longer header, the bytes under the longer header differ from the encoding
and decode to the same value. -/
theorem decode_widenHeader (t : RLPType) (ht : t ≠ .bool ∧ t ≠ .u8) (v : t.Val)
    (hv : (t.encode v).length < 2 ^ 64) {w : Bytes} (hw : widenHeader (t.encode v) = some w) :
    w ≠ t.encode v ∧ decode t.decodeUnfinished w = .ok v := by
  constructor
  · intro heq
    have hlen := length_widenHeader hw
    rw [heq] at hlen
    omega
  · rw [decode_congr (RLPType.decodeUnfinished_congr t ht (decodeRlpItem_widenHeader hw))]
    exact (RLPType.decode_encode t v hv).2

/-- The byte `5`, which the encoder writes as itself, is also read from
`0x81 0x05`. -/
theorem decode_wrapped_five :
    RLPType.bytes.encode [5] = [5] ∧ decode RLPType.bytes.decodeUnfinished [0x81, 5] = .ok [5] := by
  have hw : widenHeader (RLPType.bytes.encode [5]) = some [0x81, 5] := by decide
  exact ⟨rfl, (decode_widenHeader .bytes ⟨by decide, by decide⟩ [5] (by decide) hw).2⟩

end Ethrex.Rlp
