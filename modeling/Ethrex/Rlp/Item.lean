/-
# `Ethrex.Rlp.Item` — headers written and headers read

The two halves of the wire format that every RLP type shares.  On the
reading side, one equation per arm of `itemSplit` (the split behind
`decode_rlp_item` and `get_item_with_prefix`), so that no later proof
unfolds the five-way dispatch.  On the writing side, the two shapes of
`lengthHeader`.  They meet in `itemSplit_stringHeader` and
`itemSplit_listHeader`: a header written for `n` payload bytes, before at
least `n` bytes, is read back as a header of its own length announcing `n`
bytes — at the 55/56 boundary and on both sides of it.

The one hypothesis is `n < 2 ^ 64`: the header carries the length as a
`usize`, and no Rust buffer is longer than that.
-/
import Ethrex.Rlp.Decode
import Ethrex.Lib.Except

namespace Ethrex.Rlp

/-! ## Byte arithmetic -/

theorem toNat_add_ofNat (c : UInt8) {n : Nat} (h : c.toNat + n < 256) :
    (c + UInt8.ofNat n).toNat = c.toNat + n := by
  rw [UInt8.toNat_add, UInt8.toNat_ofNat']
  omega

theorem toNat_sub_of_le' {b c : UInt8} (h : c.toNat ≤ b.toNat) : (b - c).toNat = b.toNat - c.toNat :=
  UInt8.toNat_sub_of_le _ _ (UInt8.le_iff_toNat_le.mpr h)

/-! ## Reading: the arms of `itemSplit` -/

section Arms

variable {b : UInt8} {t : Bytes}

theorem itemSplit_single (hb : b.toNat ≤ 0x7F) : itemSplit (b :: t) = .ok (false, 0, 1) := by
  simp [itemSplit, UInt8.le_iff_toNat_le, hb]

theorem itemSplit_shortString (h₁ : 0x80 ≤ b.toNat) (h₂ : b.toNat ≤ 0xB7) :
    itemSplit (b :: t) =
      if t.length < b.toNat - 0x80 then .error .invalidLength
      else .ok (false, 1, b.toNat - 0x80) := by
  have hsub : (b - 0x80).toNat = b.toNat - 0x80 := toNat_sub_of_le' (by simpa using h₁)
  have hn : ¬ b ≤ 0x7F := by rw [UInt8.le_iff_toNat_le]; simp; omega
  have hy : b ≤ 0xB7 := by rw [UInt8.le_iff_toNat_le]; simpa using h₂
  simp only [itemSplit, if_neg hn, if_pos hy, hsub, List.length_cons]
  congr 1
  simp only [eq_iff_iff]
  omega

theorem itemSplit_longString (h₁ : 0xB8 ≤ b.toNat) (h₂ : b.toNat ≤ 0xBF) :
    itemSplit (b :: t) =
      if t.length < b.toNat - 0xB7 then .error .invalidLength
      else staticLeftPad 8 (t.take (b.toNat - 0xB7)) >>= fun padded =>
        if t.length < b.toNat - 0xB7 + BigEndian.ofBytes padded then .error .invalidLength
        else .ok (false, b.toNat - 0xB7 + 1, BigEndian.ofBytes padded) := by
  have hsub : (b - 0xB7).toNat = b.toNat - 0xB7 := toNat_sub_of_le' (by simp; omega)
  have hn₁ : ¬ b ≤ 0x7F := by rw [UInt8.le_iff_toNat_le]; simp; omega
  have hn₂ : ¬ b ≤ 0xB7 := by rw [UInt8.le_iff_toNat_le]; simp; omega
  have hy : b ≤ 0xBF := by rw [UInt8.le_iff_toNat_le]; simpa using h₂
  simp only [itemSplit, if_neg hn₁, if_neg hn₂, if_pos hy, hsub, List.length_cons,
    List.take_succ_cons, List.drop_succ_cons, List.drop_zero]
  by_cases hl : t.length < b.toNat - 0xB7
  · rw [if_pos (by omega), if_pos hl]
  · rw [if_neg (by omega), if_neg hl]
    congr 1
    funext padded
    congr 1
    simp only [eq_iff_iff]
    omega

theorem itemSplit_shortList (h₁ : 0xC0 ≤ b.toNat) (h₂ : b.toNat ≤ 0xF7) :
    itemSplit (b :: t) =
      if t.length < b.toNat - 0xC0 then .error .invalidLength
      else .ok (true, 1, b.toNat - 0xC0) := by
  have hsub : (b - rlpEmptyList).toNat = b.toNat - 0xC0 :=
    toNat_sub_of_le' (by simpa [rlpEmptyList] using h₁)
  have hn₁ : ¬ b ≤ 0x7F := by rw [UInt8.le_iff_toNat_le]; simp; omega
  have hn₂ : ¬ b ≤ 0xB7 := by rw [UInt8.le_iff_toNat_le]; simp; omega
  have hn₃ : ¬ b ≤ 0xBF := by rw [UInt8.le_iff_toNat_le]; simp; omega
  have hy : b ≤ 0xF7 := by rw [UInt8.le_iff_toNat_le]; simpa using h₂
  simp only [itemSplit, if_neg hn₁, if_neg hn₂, if_neg hn₃, if_pos hy, hsub, List.length_cons]
  congr 1
  simp only [eq_iff_iff]
  omega

theorem itemSplit_longList (h₁ : 0xF8 ≤ b.toNat) :
    itemSplit (b :: t) =
      if t.length < b.toNat - 0xF7 then .error .invalidLength
      else staticLeftPad 8 (t.take (b.toNat - 0xF7)) >>= fun padded =>
        if t.length < b.toNat - 0xF7 + BigEndian.ofBytes padded then .error .invalidLength
        else .ok (true, b.toNat - 0xF7 + 1, BigEndian.ofBytes padded) := by
  have hsub : (b - 0xF7).toNat = b.toNat - 0xF7 := toNat_sub_of_le' (by simp; omega)
  have hn₁ : ¬ b ≤ 0x7F := by rw [UInt8.le_iff_toNat_le]; simp; omega
  have hn₂ : ¬ b ≤ 0xB7 := by rw [UInt8.le_iff_toNat_le]; simp; omega
  have hn₃ : ¬ b ≤ 0xBF := by rw [UInt8.le_iff_toNat_le]; simp; omega
  have hn₄ : ¬ b ≤ 0xF7 := by rw [UInt8.le_iff_toNat_le]; simp; omega
  simp only [itemSplit, if_neg hn₁, if_neg hn₂, if_neg hn₃, if_neg hn₄, hsub, List.length_cons,
    List.take_succ_cons, List.drop_succ_cons, List.drop_zero]
  by_cases hl : t.length < b.toNat - 0xF7
  · rw [if_pos (by omega), if_pos hl]
  · rw [if_neg (by omega), if_neg hl]
    congr 1
    funext padded
    congr 1
    simp only [eq_iff_iff]
    omega

end Arms

theorem decodeRlpItem_eq {data : Bytes} {isList : Bool} {h n : Nat}
    (hs : itemSplit data = .ok (isList, h, n)) :
    decodeRlpItem data = .ok (isList, (data.take (h + n)).drop h, data.drop (h + n)) := by
  simp [decodeRlpItem, hs]

theorem getItemWithPrefix_eq {data : Bytes} {isList : Bool} {h n : Nat}
    (hs : itemSplit data = .ok (isList, h, n)) :
    getItemWithPrefix data = .ok (data.take (h + n), data.drop (h + n)) := by
  simp [getItemWithPrefix, hs]

theorem itemSplit_bounds {data : Bytes} {isList : Bool} {h n : Nat}
    (hs : itemSplit data = .ok (isList, h, n)) : 0 < h + n ∧ h + n ≤ data.length := by
  unfold itemSplit at hs
  split at hs
  · exact (nomatch hs)
  rename_i first rest
  simp only [List.length_cons] at hs ⊢
  split_ifs at hs
  -- the short forms
  all_goals try (simp only [Except.ok.injEq, Prod.mk.injEq] at hs; omega)
  -- the long forms, which read their length through `staticLeftPad`
  all_goals
    obtain ⟨_, -, hs⟩ := Except.bind_eq_ok.mp hs
    split_ifs at hs
    simp only [Except.ok.injEq, Prod.mk.injEq] at hs
    omega

theorem decodeRlpItem_length_lt {data payload rest : Bytes} {isList : Bool}
    (h : decodeRlpItem data = .ok (isList, payload, rest)) : rest.length < data.length := by
  obtain ⟨⟨b, hd, n⟩, hsplit, h⟩ := Except.bind_eq_ok.mp h
  have hb := itemSplit_bounds hsplit
  simp only [pure, Except.pure, Except.ok.injEq, Prod.mk.injEq] at h
  rw [← h.2.2, List.length_drop]
  omega

theorem getItemWithPrefix_length_lt {data item rest : Bytes}
    (h : getItemWithPrefix data = .ok (item, rest)) : rest.length < data.length := by
  obtain ⟨⟨b, hd, n⟩, hsplit, h⟩ := Except.bind_eq_ok.mp h
  have hb := itemSplit_bounds hsplit
  simp only [pure, Except.pure, Except.ok.injEq, Prod.mk.injEq] at h
  rw [← h.2, List.length_drop]
  omega

theorem decodeBytes_length_lt {data payload rest : Bytes}
    (h : decodeBytes data = .ok (payload, rest)) : rest.length < data.length := by
  obtain ⟨⟨isList, payload', rest'⟩, hitem, h⟩ := Except.bind_eq_ok.mp h
  have hlt := decodeRlpItem_length_lt hitem
  cases isList
  · simp only [Bool.false_eq_true, if_false, pure, Except.pure, Except.ok.injEq, Prod.mk.injEq] at h
    rw [← h.2]
    exact hlt
  · exact (nomatch h)

/-! ## Padding -/

theorem staticLeftPad_minimal {w m n : Nat} (hm : m ≤ w) :
    staticLeftPad w (BigEndian.minimal m n) =
      .ok (List.replicate (w - (BigEndian.minimal m n).length) 0 ++ BigEndian.minimal m n) := by
  have hlen := BigEndian.length_minimal_le m n
  cases hmin : BigEndian.minimal m n with
  | nil => simp [staticLeftPad]
  | cons d l =>
      have hd : d ≠ 0 := BigEndian.head_dropWhile_ne_zero hmin
      rw [hmin] at hlen
      simp only [staticLeftPad, if_neg hd]
      rw [if_neg (by omega)]

/-! ## Writing: the two shapes of a header -/

theorem lengthHeader_lt {s l : UInt8} {n : Nat} (h : n < 56) :
    lengthHeader s l n = [s + UInt8.ofNat n] := by
  simp [lengthHeader, h]

theorem lengthHeader_ge {s l : UInt8} {n : Nat} (h : 56 ≤ n) :
    lengthHeader s l n =
      (l + UInt8.ofNat (BigEndian.minimal 8 n).length) :: BigEndian.minimal 8 n := by
  have hdrop := BigEndian.drop_firstNonZero (BigEndian.toBytes 8 n)
  have hlen : (BigEndian.toBytes 8 n).length - BigEndian.firstNonZero (BigEndian.toBytes 8 n) =
      (BigEndian.minimal 8 n).length := by
    rw [BigEndian.minimal, ← hdrop, List.length_drop]
  simp only [lengthHeader, if_neg (Nat.not_lt.mpr h)]
  rw [hlen, hdrop]
  rfl

theorem length_minimal_eight {n : Nat} (h₁ : 56 ≤ n) (h₂ : n < 2 ^ 64) :
    1 ≤ (BigEndian.minimal 8 n).length ∧ (BigEndian.minimal 8 n).length ≤ 8 := by
  refine ⟨?_, BigEndian.length_minimal_le 8 n⟩
  have := BigEndian.lt_length_minimal_of_le (w := 8) (k := 0) (by simpa using h₂) (by simp; omega)
  omega

theorem length_lengthHeader_pos (s l : UInt8) (n : Nat) : 0 < (lengthHeader s l n).length := by
  unfold lengthHeader
  split <;> simp

/-! ## The meeting point -/

theorem itemSplit_stringHeader {n : Nat} {body : Bytes} (hn : n < 2 ^ 64) (hb : n ≤ body.length) :
    itemSplit (lengthHeader rlpNull 0xb7 n ++ body) =
      .ok (false, (lengthHeader rlpNull 0xb7 n).length, n) := by
  by_cases hs : n < 56
  · have hb' : (rlpNull + UInt8.ofNat n).toNat = 0x80 + n := toNat_add_ofNat rlpNull (by simp [rlpNull]; omega)
    rw [lengthHeader_lt hs, List.singleton_append, itemSplit_shortString (by omega) (by omega),
      if_neg (by omega)]
    simp [hb']
  · have ⟨hk₁, hk₂⟩ := length_minimal_eight (Nat.not_lt.mp hs) hn
    have hb' : ((0xb7 : UInt8) + UInt8.ofNat (BigEndian.minimal 8 n).length).toNat =
        0xB7 + (BigEndian.minimal 8 n).length := toNat_add_ofNat 0xb7 (by simp; omega)
    have htake : (BigEndian.minimal 8 n ++ body).take (BigEndian.minimal 8 n).length =
        BigEndian.minimal 8 n := List.take_left' rfl
    rw [lengthHeader_ge (Nat.not_lt.mp hs), List.cons_append,
      itemSplit_longString (by omega) (by omega), hb', Nat.add_sub_cancel_left, if_neg (by simp only [List.length_append]; omega),
      htake, staticLeftPad_minimal (le_refl 8)]
    simp only [Except.ok_bind, BigEndian.ofBytes_zeros_append,
      BigEndian.ofBytes_minimal (show n < 256 ^ 8 by simpa using hn)]
    rw [if_neg (by simp; omega)]
    simp

theorem itemSplit_listHeader {n : Nat} {body : Bytes} (hn : n < 2 ^ 64) (hb : n ≤ body.length) :
    itemSplit (encodeLength n ++ body) = .ok (true, (encodeLength n).length, n) := by
  unfold encodeLength
  by_cases hs : n < 56
  · have hb' : ((0xc0 : UInt8) + UInt8.ofNat n).toNat = 0xC0 + n := toNat_add_ofNat 0xc0 (by simp; omega)
    rw [lengthHeader_lt hs, List.singleton_append, itemSplit_shortList (by omega) (by omega),
      if_neg (by omega)]
    simp [hb']
  · have ⟨hk₁, hk₂⟩ := length_minimal_eight (Nat.not_lt.mp hs) hn
    have hb' : ((0xf7 : UInt8) + UInt8.ofNat (BigEndian.minimal 8 n).length).toNat =
        0xF7 + (BigEndian.minimal 8 n).length := toNat_add_ofNat 0xf7 (by simp; omega)
    have htake : (BigEndian.minimal 8 n ++ body).take (BigEndian.minimal 8 n).length =
        BigEndian.minimal 8 n := List.take_left' rfl
    rw [lengthHeader_ge (Nat.not_lt.mp hs), List.cons_append,
      itemSplit_longList (by omega), hb', Nat.add_sub_cancel_left, if_neg (by simp only [List.length_append]; omega),
      htake, staticLeftPad_minimal (le_refl 8)]
    simp only [Except.ok_bind, BigEndian.ofBytes_zeros_append,
      BigEndian.ofBytes_minimal (show n < 256 ^ 8 by simpa using hn)]
    rw [if_neg (by simp; omega)]
    simp

theorem take_drop_header (hd p rest : Bytes) :
    ((hd ++ (p ++ rest)).take (hd.length + p.length)).drop hd.length = p ∧
      (hd ++ (p ++ rest)).drop (hd.length + p.length) = rest := by
  constructor
  · rw [List.take_append, List.drop_append_of_le_length (by simp)]
    simp
  · rw [List.drop_append, List.drop_of_length_le (by simp)]
    simp

theorem decodeRlpItem_string (p rest : Bytes) (hp : p.length < 2 ^ 64) :
    decodeRlpItem (lengthHeader rlpNull 0xb7 p.length ++ p ++ rest) = .ok (false, p, rest) := by
  rw [List.append_assoc,
    decodeRlpItem_eq (itemSplit_stringHeader hp (by simp)), (take_drop_header _ p rest).1,
    (take_drop_header _ p rest).2]

theorem decodeRlpItem_list (p rest : Bytes) (hp : p.length < 2 ^ 64) :
    decodeRlpItem (encodeLength p.length ++ p ++ rest) = .ok (true, p, rest) := by
  rw [List.append_assoc,
    decodeRlpItem_eq (itemSplit_listHeader hp (by simp)), (take_drop_header _ p rest).1,
    (take_drop_header _ p rest).2]

theorem decodeRlpItem_single {b : UInt8} (hb : b.toNat ≤ 0x7F) (rest : Bytes) :
    decodeRlpItem (b :: rest) = .ok (false, [b], rest) := by
  simp [decodeRlpItem_eq (itemSplit_single (t := rest) hb)]

end Ethrex.Rlp
