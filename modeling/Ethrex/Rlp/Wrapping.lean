/-
# `Ethrex.Rlp.Wrapping` — the item split with the `usize` sums of the code

`Ethrex.Rlp.Decode` computes the end of a long-form item,
`length_of_length + length + 1`, in `Nat`.  In the code it is a `usize`
sum, and the length is eight bytes read off the wire.  This module is the
split as a release build computes it, the sum taken modulo `2 ^ 64`, with
the slices of `decode_rlp_item` and `get_item_with_prefix` bounds-checked as
Rust does: a range that is out of order or past the end panics.

Where the sum does not wrap the two models agree: on every input shorter
than `2 ^ 64` bytes whose head announces no such length (`EndWraps`), the
code's split, `decode_rlp_item` and `get_item_with_prefix` return what the
exact ones return, errors included (`itemSplit_eq_exact`,
`decoders_eq_exact`), so what is proved of the decoders built on the exact
split holds of the code there.  Where it wraps — a header `0xbf` or `0xff` announcing a length of
`2 ^ 64 - 9` or more — the check against `data.len()` passes on a small
number, `decode_rlp_item` panics on the reversed slice, and
`get_item_with_prefix` returns, as the item, a prefix shorter than its own
header (`item_split_wraps`).  In a build with overflow checks the sum
itself panics.
-/
import Ethrex.Rlp.Item
import Ethrex.Lib.Outcome

namespace Ethrex.Rlp.Wrapping

/-- The split behind `decode_rlp_item` and `get_item_with_prefix`, in
`usize`: whether the item is a list, where its payload starts, and where
the item ends. -/
def itemSplit (data : Bytes) : Except RLPDecodeError (Bool × UInt64 × UInt64) :=
  match data with
  | [] => .error .invalidLength
  | firstByte :: _ =>
    if firstByte ≤ 0x7F then .ok (false, 0, 1)
    else if firstByte ≤ 0xB7 then
      let length := (firstByte - 0x80).toUInt64
      if data.length < (length + 1).toNat then .error .invalidLength
      else .ok (false, 1, length + 1)
    else if firstByte ≤ 0xBF then
      let lengthOfLength := (firstByte - 0xB7).toUInt64
      if data.length < (lengthOfLength + 1).toNat then .error .invalidLength
      else do
        let lengthBytes := (data.take (lengthOfLength + 1).toNat).drop 1
        let length := UInt64.ofNat (BigEndian.ofBytes (← staticLeftPad 8 lengthBytes))
        if data.length < (lengthOfLength + length + 1).toNat then .error .invalidLength
        else .ok (false, lengthOfLength + 1, lengthOfLength + length + 1)
    else if firstByte ≤ 0xF7 then
      let length := (firstByte - rlpEmptyList).toUInt64
      if data.length < (length + 1).toNat then .error .invalidLength
      else .ok (true, 1, length + 1)
    else
      let listLength := (firstByte - 0xF7).toUInt64
      if data.length < (listLength + 1).toNat then .error .invalidLength
      else do
        let lengthBytes := (data.take (listLength + 1).toNat).drop 1
        let payloadLength := UInt64.ofNat (BigEndian.ofBytes (← staticLeftPad 8 lengthBytes))
        if data.length < (listLength + payloadLength + 1).toNat then .error .invalidLength
        else .ok (true, listLength + 1, listLength + payloadLength + 1)

/-- `decode_rlp_item`: `&data[start..stop]` and `&data[stop..]`. -/
def decodeRlpItem (data : Bytes) : Outcome RLPDecodeError (Bool × Bytes × Bytes) := do
  let (isList, start, stop) ← Outcome.ofExcept (itemSplit data)
  let payload ← Outcome.slice data start.toNat stop.toNat
  let rest ← Outcome.slice data stop.toNat data.length
  pure (isList, payload, rest)

/-- `get_item_with_prefix`: `&data[..stop]` and `&data[stop..]`. -/
def getItemWithPrefix (data : Bytes) : Outcome RLPDecodeError (Bytes × Bytes) := do
  let (_, _, stop) ← Outcome.ofExcept (itemSplit data)
  let item ← Outcome.slice data 0 stop.toNat
  let rest ← Outcome.slice data stop.toNat data.length
  pure (item, rest)

/-! ## Where the sums fit -/

theorem toNat_toUInt64_add_one (x : UInt8) : (x.toUInt64 + 1).toNat = x.toNat + 1 := by
  have := x.toNat_lt
  simp only [UInt64.toNat_add, UInt8.toNat_toUInt64, UInt64.reduceToNat]
  omega

theorem toNat_toUInt64_add_ofNat_add_one (x : UInt8) {n : Nat} (h : x.toNat + n + 1 < 2 ^ 64) :
    (x.toUInt64 + UInt64.ofNat n + 1).toNat = x.toNat + n + 1 := by
  simp only [UInt64.toNat_add, UInt8.toNat_toUInt64, UInt64.toNat_ofNat', UInt64.reduceToNat]
  omega

theorem ofNat_one_add (x : UInt8) : UInt64.ofNat (1 + x.toNat) = x.toUInt64 + 1 := by
  apply UInt64.toNat_inj.mp
  simp only [UInt64.toNat_add, UInt8.toNat_toUInt64, UInt64.toNat_ofNat', UInt64.reduceToNat]
  have := x.toNat_lt
  omega

theorem toUInt64_add_ofNat_add_one (x : UInt8) (n : Nat) :
    x.toUInt64 + UInt64.ofNat n + 1 = UInt64.ofNat (x.toNat + 1 + n) := by
  apply UInt64.toNat_inj.mp
  simp only [UInt64.toNat_add, UInt8.toNat_toUInt64, UInt64.toNat_ofNat', UInt64.reduceToNat]
  omega

/-- **The code's split is the exact one wherever that one accepts**: on an
input shorter than `2 ^ 64` bytes, an item the exact split finds lies within
the input, so its end fits in a `usize` and nothing wraps. -/
theorem itemSplit_of_exact {data : Bytes} {isList : Bool} {h n : Nat} (hlen : data.length < 2 ^ 64)
    (hs : Ethrex.Rlp.itemSplit data = .ok (isList, h, n)) :
    itemSplit data = .ok (isList, UInt64.ofNat h, UInt64.ofNat (h + n)) := by
  have hbounds := itemSplit_bounds hs
  cases data with
  | nil => cases hs
  | cons b t =>
  unfold Ethrex.Rlp.itemSplit at hs
  unfold itemSplit
  simp only [toNat_toUInt64_add_one] at hs ⊢
  -- the same five arms, and the same length checks in the short ones
  split_ifs at hs ⊢
  · simp only [Except.ok.injEq, Prod.mk.injEq] at hs
    obtain ⟨rfl, rfl, rfl⟩ := hs
    rfl
  · simp only [Except.ok.injEq, Prod.mk.injEq] at hs
    obtain ⟨rfl, rfl, rfl⟩ := hs
    rw [ofNat_one_add]
    rfl
  · obtain ⟨padded, hpad, hs⟩ := Except.bind_eq_ok.mp hs
    rw [hpad, Except.ok_bind]
    split_ifs at hs with hshort
    simp only [Except.ok.injEq, Prod.mk.injEq] at hs
    obtain ⟨rfl, rfl, rfl⟩ := hs
    -- the long check in `usize` is the exact one: the item ends within the input
    rw [toNat_toUInt64_add_ofNat_add_one _ (by omega), if_neg (by omega),
      toUInt64_add_ofNat_add_one]
    rfl
  · simp only [Except.ok.injEq, Prod.mk.injEq] at hs
    obtain ⟨rfl, rfl, rfl⟩ := hs
    rw [ofNat_one_add]
    rfl
  · obtain ⟨padded, hpad, hs⟩ := Except.bind_eq_ok.mp hs
    rw [hpad, Except.ok_bind]
    split_ifs at hs with hshort
    simp only [Except.ok.injEq, Prod.mk.injEq] at hs
    obtain ⟨rfl, rfl, rfl⟩ := hs
    rw [toNat_toUInt64_add_ofNat_add_one _ (by omega), if_neg (by omega),
      toUInt64_add_ofNat_add_one]
    rfl

/-! ## Where the exact split rejects -/

/-- The head of `data` is a long-form header whose end,
`length_of_length + length + 1`, passes `2 ^ 64`: eight length bytes behind
`0xbf` or `0xff`, without a leading zero, announcing `2 ^ 64 - 9` bytes or
more. -/
def EndWraps : Bytes → Prop
  | [] => False
  | b :: rest => (b = 0xBF ∨ b = 0xFF) ∧ 8 ≤ rest.length ∧ (rest.take 8).head? ≠ some 0 ∧
      2 ^ 64 ≤ BigEndian.ofBytes (rest.take 8) + 9

instance : DecidablePred EndWraps := fun data => by
  cases data <;> unfold EndWraps <;> infer_instance

theorem staticLeftPad_ok {n : Nat} {lengthBytes padded : Bytes}
    (h : staticLeftPad n lengthBytes = .ok padded) :
    lengthBytes.head? ≠ some 0 ∧ BigEndian.ofBytes padded = BigEndian.ofBytes lengthBytes := by
  cases lengthBytes with
  | nil =>
    cases h
    simp
  | cons d t =>
    by_cases hd : d = 0
    · simp [staticLeftPad, hd] at h
    simp only [staticLeftPad, if_neg hd] at h
    split_ifs at h
    cases h
    rw [BigEndian.ofBytes_zeros_append]
    simpa using hd

-- fewer than eight length bytes cannot announce a length that wraps
theorem long_end_wraps {b base : UInt8} {t padded : Bytes}
    (hbase : base = 0xB7 ∨ base = 0xF7) (hb : ¬ b ≤ base) (hb8 : b ≤ base + 8)
    (hshort : ¬ t.length + 1 < (b - base).toNat + 1)
    (hpad : staticLeftPad 8 (t.take (b - base).toNat) = .ok padded)
    (hwrap : 2 ^ 64 ≤ (b - base).toNat + BigEndian.ofBytes padded + 1) :
    EndWraps (b :: t) := by
  obtain ⟨hhead, hval⟩ := staticLeftPad_ok hpad
  have hlt := BigEndian.ofBytes_lt (t.take (b - base).toNat)
  have hm : (b - base).toNat ≤ 8 ∧ (8 ≤ (b - base).toNat → b = base + 8) := by
    have hle : base ≤ b := UInt8.le_of_lt (UInt8.not_le.mp hb)
    rcases hbase with rfl | rfl <;>
      simp only [UInt8.le_iff_toNat_le, UInt8.toNat_sub_of_le _ _ hle,
        ← UInt8.toNat_inj, UInt8.reduceAdd, UInt8.reduceToNat] at hb hb8 ⊢ <;> omega
  -- fewer than eight length bytes read a number below `2 ^ 56`, too small to wrap
  have h8 : (b - base).toNat = 8 := by
    by_contra hne
    have hle : 256 ^ (t.take (b - base).toNat).length ≤ 256 ^ 7 :=
      Nat.pow_le_pow_right (by norm_num) (by simp only [List.length_take]; omega)
    omega
  rw [h8] at hval hhead hshort
  refine ⟨?_, by omega, hhead, by omega⟩
  rcases hbase with rfl | rfl
  · exact Or.inl (hm.2 h8.ge)
  · exact Or.inr (hm.2 h8.ge)

theorem long_check_of_exact {b base : UInt8} {t padded : Bytes} (hbase : base = 0xB7 ∨ base = 0xF7)
    (hb : ¬ b ≤ base) (hb8 : b ≤ base + 8) (hwrap : ¬ EndWraps (b :: t))
    (hshort : ¬ (b :: t).length < (b - base).toNat + 1)
    (hpad : staticLeftPad 8 (((b :: t).take ((b - base).toNat + 1)).drop 1) = .ok padded)
    (hlong : (b :: t).length < (b - base).toNat + BigEndian.ofBytes padded + 1) :
    (b :: t).length < ((b - base).toUInt64 + UInt64.ofNat (BigEndian.ofBytes padded) + 1).toNat := by
  by_cases hfit : (b - base).toNat + BigEndian.ofBytes padded + 1 < 2 ^ 64
  · rw [toNat_toUInt64_add_ofNat_add_one _ hfit]
    exact hlong
  · have hpad' : staticLeftPad 8 (t.take (b - base).toNat) = .ok padded := by simpa using hpad
    exact absurd (long_end_wraps hbase hb hb8 (by simpa using hshort) hpad' (by omega)) hwrap

theorem itemSplit_error_of_exact {data : Bytes} {e : RLPDecodeError} (hlen : data.length < 2 ^ 64)
    (hwrap : ¬ EndWraps data) (hs : Ethrex.Rlp.itemSplit data = .error e) :
    itemSplit data = .error e := by
  cases data with
  | nil => cases hs; rfl
  | cons b t =>
  unfold Ethrex.Rlp.itemSplit at hs
  unfold itemSplit
  simp only [toNat_toUInt64_add_one] at hs ⊢
  split_ifs at hs ⊢
  -- the arms whose first length check fails reject in both
  any_goals (cases hs; rfl)
  · -- a long string: `static_left_pad`, then the check that may wrap
    rcases hp : staticLeftPad 8 (((b :: t).take ((b - 183).toNat + 1)).drop 1) with e' | padded
    · rw [hp] at hs
      cases hs
      rfl
    · rw [hp, Except.ok_bind] at hs
      rw [Except.ok_bind]
      split_ifs at hs with hlong
      rw [if_pos (long_check_of_exact (Or.inl rfl) ‹_› ‹_› hwrap ‹_› hp hlong)]
      cases hs
      rfl
  · -- a long list, the same way
    rcases hp : staticLeftPad 8 (((b :: t).take ((b - 247).toNat + 1)).drop 1) with e' | padded
    · rw [hp] at hs
      cases hs
      rfl
    · rw [hp, Except.ok_bind] at hs
      rw [Except.ok_bind]
      split_ifs at hs with hlong
      have hb8 : b ≤ 247 + 8 := UInt8.le_iff_toNat_le.mpr (by simpa using Nat.le_of_lt_succ b.toNat_lt)
      rw [if_pos (long_check_of_exact (Or.inr rfl) ‹_› hb8 hwrap ‹_› hp hlong)]
      cases hs
      rfl

/-- **Away from a wrapping length the code's split is the exact one.** -/
theorem itemSplit_eq_exact {data : Bytes} (hlen : data.length < 2 ^ 64) (hwrap : ¬ EndWraps data) :
    itemSplit data = (Ethrex.Rlp.itemSplit data).map
      fun (isList, h, n) => (isList, UInt64.ofNat h, UInt64.ofNat (h + n)) := by
  cases hs : Ethrex.Rlp.itemSplit data with
  | error e => exact itemSplit_error_of_exact hlen hwrap hs
  | ok r =>
    obtain ⟨isList, h, n⟩ := r
    exact itemSplit_of_exact hlen hs

section Exact

variable {data : Bytes} (hlen : data.length < 2 ^ 64)
include hlen

theorem toNat_ofNat_of_le {m : Nat} (hm : m ≤ data.length) : (UInt64.ofNat m).toNat = m := by
  rw [UInt64.toNat_ofNat']
  omega

theorem decodeRlpItem_of_exact {r : Bool × Bytes × Bytes} (h : Ethrex.Rlp.decodeRlpItem data = .ok r) :
    decodeRlpItem data = .ok r := by
  obtain ⟨⟨isList, start, n⟩, hs, h⟩ := Except.bind_eq_ok.mp h
  have hb := itemSplit_bounds hs
  rw [decodeRlpItem, itemSplit_of_exact hlen hs, Outcome.ofExcept_ok, Outcome.ok_bind]
  dsimp only
  rw [toNat_ofNat_of_le hlen (by omega), toNat_ofNat_of_le hlen hb.2,
    Outcome.slice_of_le (by omega) hb.2, Outcome.ok_bind, Outcome.slice_of_le hb.2 le_rfl,
    Outcome.ok_bind, List.take_length]
  cases h
  rfl

theorem getItemWithPrefix_of_exact {r : Bytes × Bytes} (h : Ethrex.Rlp.getItemWithPrefix data = .ok r) :
    getItemWithPrefix data = .ok r := by
  obtain ⟨⟨isList, start, n⟩, hs, h⟩ := Except.bind_eq_ok.mp h
  have hb := itemSplit_bounds hs
  rw [getItemWithPrefix, itemSplit_of_exact hlen hs, Outcome.ofExcept_ok, Outcome.ok_bind]
  dsimp only
  rw [toNat_ofNat_of_le hlen hb.2, Outcome.slice_of_le (Nat.zero_le _) hb.2, Outcome.ok_bind,
    Outcome.slice_of_le hb.2 le_rfl, Outcome.ok_bind, List.take_length, List.drop_zero]
  cases h
  rfl

theorem decodeRlpItem_eq_exact (hwrap : ¬ EndWraps data) :
    decodeRlpItem data = Outcome.ofExcept (Ethrex.Rlp.decodeRlpItem data) := by
  cases h : Ethrex.Rlp.decodeRlpItem data with
  | ok r => exact decodeRlpItem_of_exact hlen h
  | error e =>
    -- only the split can fail
    cases hs : Ethrex.Rlp.itemSplit data with
    | ok r => simp [Ethrex.Rlp.decodeRlpItem, hs] at h
    | error e' =>
      rw [Ethrex.Rlp.decodeRlpItem, hs] at h
      cases h
      rw [decodeRlpItem, itemSplit_eq_exact hlen hwrap, hs]
      rfl

theorem getItemWithPrefix_eq_exact (hwrap : ¬ EndWraps data) :
    getItemWithPrefix data = Outcome.ofExcept (Ethrex.Rlp.getItemWithPrefix data) := by
  cases h : Ethrex.Rlp.getItemWithPrefix data with
  | ok r => exact getItemWithPrefix_of_exact hlen h
  | error e =>
    cases hs : Ethrex.Rlp.itemSplit data with
    | ok r => simp [Ethrex.Rlp.getItemWithPrefix, hs] at h
    | error e' =>
      rw [Ethrex.Rlp.getItemWithPrefix, hs] at h
      cases h
      rw [getItemWithPrefix, itemSplit_eq_exact hlen hwrap, hs]
      rfl

/-- **The exact decoders are the code's** on every input shorter than
`2 ^ 64` bytes whose head announces no length that wraps: `decode_rlp_item`
and `get_item_with_prefix` return the same item or the same error, and never
panic. -/
theorem decoders_eq_exact (hwrap : ¬ EndWraps data) :
    decodeRlpItem data = Outcome.ofExcept (Ethrex.Rlp.decodeRlpItem data) ∧
      getItemWithPrefix data = Outcome.ofExcept (Ethrex.Rlp.getItemWithPrefix data) :=
  ⟨decodeRlpItem_eq_exact hlen hwrap, getItemWithPrefix_eq_exact hlen hwrap⟩

end Exact

/-- A long string whose one length byte is zero: both splits refuse it with
the same error. -/
theorem decoders_eq_exact_leading_zero :
    decodeRlpItem [0xB8, 0, 1] = Outcome.ofExcept (Ethrex.Rlp.decodeRlpItem [0xB8, 0, 1]) ∧
      getItemWithPrefix [0xB8, 0, 1] = Outcome.ofExcept (Ethrex.Rlp.getItemWithPrefix [0xB8, 0, 1]) :=
  decoders_eq_exact (by decide) (by decide)

/-! ## A length that wraps -/

section Wraps

variable {lengthBytes rest : Bytes}

theorem staticLeftPad_eight (hlen : lengthBytes.length = 8) (hhead : lengthBytes.head? ≠ some 0) :
    staticLeftPad 8 lengthBytes = .ok lengthBytes := by
  match lengthBytes, hlen, hhead with
  | d :: t, hlen, hhead =>
    have hd : d ≠ 0 := fun h => hhead (by rw [h]; rfl)
    simp [staticLeftPad, hd, hlen]

theorem end_wraps {length : Nat} (hlt : length < 2 ^ 64) (hwrap : 2 ^ 64 ≤ length + 9) :
    (8 : UInt64) + UInt64.ofNat length + 1 = UInt64.ofNat (length + 9 - 2 ^ 64) := by
  apply UInt64.toNat_inj.mp
  simp only [UInt64.toNat_add, UInt64.toNat_ofNat', UInt64.reduceToNat]
  omega

theorem itemSplit_of_wraps {b : UInt8} (hb : b = 0xBF ∨ b = 0xFF) (hlen : lengthBytes.length = 8)
    (hhead : lengthBytes.head? ≠ some 0) (hwrap : 2 ^ 64 ≤ BigEndian.ofBytes lengthBytes + 9) :
    itemSplit (b :: (lengthBytes ++ rest)) =
      .ok (b == 0xFF, 9, UInt64.ofNat (BigEndian.ofBytes lengthBytes + 9 - 2 ^ 64)) := by
  have hlt : BigEndian.ofBytes lengthBytes < 2 ^ 64 := by
    have := BigEndian.ofBytes_lt lengthBytes
    rw [hlen] at this
    simpa using this
  have htake : ((b :: (lengthBytes ++ rest)).take 9).drop 1 = lengthBytes := by
    rw [List.take_succ_cons, List.drop_one, List.tail_cons]
    exact List.take_left' hlen
  have hend := end_wraps hlt hwrap
  have hsmall : (UInt64.ofNat (BigEndian.ofBytes lengthBytes + 9 - 2 ^ 64)).toNat ≤ 8 := by
    rw [UInt64.toNat_ofNat']
    omega
  -- the input is longer than the header, and so than the wrapped end
  have hlong : ¬ (b :: (lengthBytes ++ rest)).length < 9 := by simp [hlen]
  have hpast : ¬ (b :: (lengthBytes ++ rest)).length <
      (UInt64.ofNat (BigEndian.ofBytes lengthBytes + 9 - 2 ^ 64)).toNat := by
    simp only [List.length_cons, List.length_append, hlen]
    omega
  rcases hb with rfl | rfl
  · have h8 : ((0xBF : UInt8) - 0xB7).toUInt64 = 8 := rfl
    simp only [itemSplit, show ¬ (0xBF : UInt8) ≤ 0x7F by decide,
      show ¬ (0xBF : UInt8) ≤ 0xB7 by decide, show (0xBF : UInt8) ≤ 0xBF by decide, if_false, if_true,
      h8, show ((8 : UInt64) + 1).toNat = 9 from rfl, htake, staticLeftPad_eight hlen hhead,
      Except.ok_bind, hend, if_neg hlong, if_neg hpast]
    rfl
  · have h8 : ((0xFF : UInt8) - 0xF7).toUInt64 = 8 := rfl
    simp only [itemSplit, show ¬ (0xFF : UInt8) ≤ 0x7F by decide,
      show ¬ (0xFF : UInt8) ≤ 0xB7 by decide, show ¬ (0xFF : UInt8) ≤ 0xBF by decide,
      show ¬ (0xFF : UInt8) ≤ 0xF7 by decide, if_false,
      h8, show ((8 : UInt64) + 1).toNat = 9 from rfl, htake, staticLeftPad_eight hlen hhead,
      Except.ok_bind, hend, if_neg hlong, if_neg hpast]
    rfl

/-- **A length near `2 ^ 64` breaks both functions.**  Behind a header
`0xbf` or `0xff` whose eight length bytes announce `2 ^ 64 - 9` bytes or
more, the end of the item wraps below the header: `decode_rlp_item`
panics slicing from the header's end back to it, and
`get_item_with_prefix` returns as the item a prefix of the header. -/
theorem item_split_wraps {b : UInt8} (hb : b = 0xBF ∨ b = 0xFF) (hlen : lengthBytes.length = 8)
    (hhead : lengthBytes.head? ≠ some 0) (hwrap : 2 ^ 64 ≤ BigEndian.ofBytes lengthBytes + 9) :
    BigEndian.ofBytes lengthBytes + 9 - 2 ^ 64 < 9 ∧
      decodeRlpItem (b :: (lengthBytes ++ rest)) = .panic ∧
      getItemWithPrefix (b :: (lengthBytes ++ rest)) =
        .ok ((b :: (lengthBytes ++ rest)).take (BigEndian.ofBytes lengthBytes + 9 - 2 ^ 64),
          (b :: (lengthBytes ++ rest)).drop (BigEndian.ofBytes lengthBytes + 9 - 2 ^ 64)) := by
  have hlt : BigEndian.ofBytes lengthBytes < 2 ^ 64 := by
    have := BigEndian.ofBytes_lt lengthBytes
    rw [hlen] at this
    simpa using this
  have hstop : (UInt64.ofNat (BigEndian.ofBytes lengthBytes + 9 - 2 ^ 64)).toNat =
      BigEndian.ofBytes lengthBytes + 9 - 2 ^ 64 := by
    rw [UInt64.toNat_ofNat']
    omega
  have hdata : BigEndian.ofBytes lengthBytes + 9 - 2 ^ 64 ≤ (b :: (lengthBytes ++ rest)).length := by
    simp only [List.length_cons, List.length_append, hlen]
    omega
  have hsplit := @itemSplit_of_wraps lengthBytes rest b hb hlen hhead hwrap
  refine ⟨by omega, ?_, ?_⟩
  · rw [decodeRlpItem, hsplit, Outcome.ofExcept_ok, Outcome.ok_bind]
    dsimp only
    rw [hstop, show (9 : UInt64).toNat = 9 from rfl, Outcome.slice_of_gt (by omega), Outcome.panic_bind]
  · rw [getItemWithPrefix, hsplit, Outcome.ofExcept_ok, Outcome.ok_bind]
    dsimp only
    rw [hstop, Outcome.slice_of_le (Nat.zero_le _) hdata, Outcome.ok_bind,
      Outcome.slice_of_le hdata le_rfl, Outcome.ok_bind, List.drop_zero, List.take_length]
    rfl

end Wraps

/-- The header `0xbf` followed by eight bytes `0xff`: a string of
`2 ^ 64 - 1` bytes announced, none present. -/
def maxLengthHeader : Bytes := 0xBF :: List.replicate 8 0xFF

theorem item_split_wraps_at_max_length :
    decodeRlpItem maxLengthHeader = .panic ∧
      getItemWithPrefix maxLengthHeader = .ok (maxLengthHeader.take 8, maxLengthHeader.drop 8) := by
  have h := @item_split_wraps (List.replicate 8 0xFF) [] 0xBF (Or.inl rfl) rfl (by decide) (by decide)
  simp only [List.append_nil] at h
  exact ⟨h.2.1, h.2.2⟩

end Ethrex.Rlp.Wrapping
