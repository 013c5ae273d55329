/-
# `Ethrex.Rlp.RoundTrip` — each codec reads back what it writes

One `RoundTrips` lemma per `impl RLPEncode`/`impl RLPDecode` pair of the
crate.  They all go through the string round trip `roundTrips_slice`:

* an integer is written as the string of its shortest big-endian form
  (`encodeUint_eq_slice`; for `U256`, `drop_clz_eq_minimal` shows that
  dropping `clz / 8` bytes is taking that form), and `static_left_pad`
  restores the width;
* a fixed array, a `String`, an IP address are strings of their bytes;
* a list and a tuple are a list header before the items' encodings, read
  back by `decodeRlpItem_list` and the item loop of `Ethrex.Lib.Codec`.

Every lemma assumes the byte length of what it reads is below `2 ^ 64`, the
only bound the `usize` length headers impose.
-/
import Ethrex.Rlp.Structs
import Mathlib.Algebra.Order.BigOperators.Group.List

namespace Ethrex.Rlp

open Codec

/-! ## Byte strings -/

theorem decodeBytes_string (p rest : Bytes) (hp : p.length < 2 ^ 64) :
    decodeBytes (lengthHeader rlpNull 0xb7 p.length ++ p ++ rest) = .ok (p, rest) := by
  rw [decodeBytes, decodeRlpItem_string p rest hp]
  rfl

@[simp] theorem decodeBytes_nil : decodeBytes [] = .error .invalidLength := rfl

theorem decodeBytes_list (p rest : Bytes) (hp : p.length < 2 ^ 64) :
    decodeBytes (encodeLength p.length ++ p ++ rest) = .error .unexpectedList := by
  rw [decodeBytes, decodeRlpItem_list p rest hp]
  rfl

theorem lt_rlpNull_iff {b : UInt8} : b < rlpNull ↔ b.toNat ≤ 0x7F := by
  rw [UInt8.lt_iff_toNat_lt]
  simp [rlpNull]
  omega

theorem Slice.encode_single (b : UInt8) :
    Slice.encode [b] = if b < rlpNull then [b] else lengthHeader rlpNull 0xb7 1 ++ [b] := rfl

theorem Slice.encode_of_not_single {s : Bytes} (h : ∀ b, s = [b] → 0x80 ≤ b.toNat) :
    Slice.encode s = lengthHeader rlpNull 0xb7 s.length ++ s := by
  match s, h with
  | [b], h =>
      have hb : ¬ b < rlpNull := by
        rw [lt_rlpNull_iff]
        have := h b rfl
        omega
      rw [Slice.encode_single, if_neg hb]
      rfl
  | [], _ => rfl
  | _ :: _ :: _, _ => rfl

theorem roundTrips_slice {s : Bytes} (hs : s.length < 2 ^ 64) :
    RoundTrips Slice.encode decodeBytes s := by
  intro rest
  by_cases hsingle : ∃ b, s = [b] ∧ b.toNat ≤ 0x7F
  · -- a byte below `0x80` stands for itself
    obtain ⟨b, rfl, hb⟩ := hsingle
    rw [Slice.encode_single, if_pos (lt_rlpNull_iff.mpr hb)]
    simp [decodeBytes, decodeRlpItem_single hb]
  · have hnot : ∀ b, s = [b] → 0x80 ≤ b.toNat := by
      intro b hb
      by_contra hlt
      exact hsingle ⟨b, hb, by omega⟩
    rw [Slice.encode_of_not_single hnot]
    exact decodeBytes_string s rest hs

theorem getItemWithPrefix_slice {s : Bytes} (hs : s.length < 2 ^ 64) (rest : Bytes) :
    getItemWithPrefix (Slice.encode s ++ rest) = .ok (Slice.encode s, rest) := by
  by_cases hsingle : ∃ b, s = [b] ∧ b.toNat ≤ 0x7F
  · obtain ⟨b, rfl, hb⟩ := hsingle
    rw [Slice.encode_single, if_pos (lt_rlpNull_iff.mpr hb)]
    simp [getItemWithPrefix_eq (itemSplit_single (t := rest) hb)]
  · have hnot : ∀ b, s = [b] → 0x80 ≤ b.toNat := by
      intro b hb
      by_contra hlt
      exact hsingle ⟨b, hb, by omega⟩
    rw [Slice.encode_of_not_single hnot, List.append_assoc,
      getItemWithPrefix_eq (itemSplit_stringHeader hs (by simp)), ← List.append_assoc,
      List.take_left' (by simp), List.drop_left' (by simp)]

theorem getItemWithPrefix_list {p : Bytes} (hp : p.length < 2 ^ 64) (rest : Bytes) :
    getItemWithPrefix (encodeLength p.length ++ p ++ rest) = .ok (encodeLength p.length ++ p, rest) := by
  rw [List.append_assoc, getItemWithPrefix_eq (itemSplit_listHeader hp (by simp)),
    ← List.append_assoc, List.take_left' (by simp), List.drop_left' (by simp)]

theorem Slice.encode_ne_nil (s : Bytes) : Slice.encode s ≠ [] := by
  match s with
  | [b] => rw [Slice.encode_single]; split <;> simp
  | [] => simp [Slice.encode, lengthHeader]
  | _ :: _ :: _ => simp [Slice.encode]

theorem length_slice_encode_le (s : Bytes) : (Slice.encode s).length ≤ s.length + 9 := by
  match s with
  | [b] => rw [Slice.encode_single]; split <;> simp [lengthHeader]
  | [] => simp [Slice.encode, lengthHeader]
  | b :: c :: t =>
      have := BigEndian.length_minimal_le 8 (t.length + 2)
      simp only [Slice.encode, lengthHeader]
      split <;> simp
      omega

theorem le_length_slice_encode (s : Bytes) : s.length ≤ (Slice.encode s).length := by
  match s with
  | [b] => rw [Slice.encode_single]; split <;> simp
  | [] => simp
  | _ :: _ :: _ => simp [Slice.encode]

/-! ## Unsigned integers -/

theorem encodeUint_eq_slice {w n : Nat} (hw : w < 56) (h : n < 256 ^ w) :
    encodeUint w n = Slice.encode (BigEndian.minimal w n) := by
  unfold encodeUint
  by_cases h0 : n = 0
  · subst h0
    rw [if_pos rfl, BigEndian.minimal_zero]
    rfl
  have hw1 : 1 ≤ w := by
    rcases Nat.eq_zero_or_pos w with rfl | hpos
    · simp at h; omega
    · exact hpos
  by_cases h7 : n ≤ 0x7f
  · -- one byte below `0x80`: written as itself on both sides
    have hb : UInt8.ofNat n < rlpNull := by
      rw [lt_rlpNull_iff, UInt8.toNat_ofNat']
      omega
    rw [if_neg h0, if_pos h7, BigEndian.minimal_of_lt_256 hw1 (by omega) (by omega),
      Slice.encode_single, if_pos hb]
  · have hlen : (BigEndian.minimal w n).length < 56 :=
      Nat.lt_of_le_of_lt (BigEndian.length_minimal_le w n) hw
    have hnot : ∀ b, BigEndian.minimal w n = [b] → 0x80 ≤ b.toNat := by
      -- a single byte holding `n > 0x7f` is at least `0x80`
      intro b hb
      have hv := BigEndian.ofBytes_minimal h
      rw [hb, BigEndian.ofBytes_cons] at hv
      simp at hv
      omega
    rw [if_neg h0, if_neg h7, Slice.encode_of_not_single hnot, lengthHeader_lt hlen]
    simp only [BigEndian.length_toBytes_sub_firstNonZero, BigEndian.drop_firstNonZero_toBytes]
    rfl

theorem roundTrips_uint {w : Nat} (hw : w < 56) {n : Nat} (h : n < 256 ^ w) :
    RoundTrips (encodeUint w) (decodeUint w) n := by
  intro rest
  have hlen : (BigEndian.minimal w n).length < 2 ^ 64 :=
    Nat.lt_of_le_of_lt (BigEndian.length_minimal_le w n) (by omega)
  rw [encodeUint_eq_slice hw h, decodeUint, roundTrips_slice hlen rest]
  simp [staticLeftPad_minimal (le_refl w), BigEndian.ofBytes_minimal h]

theorem roundTrips_uintMap {β : Type} (w : Nat) (hw : w < 56) (toNat : β → Nat)
    (ofNat : Nat → β) (hlt : ∀ x, toNat x < 256 ^ w) (hof : ∀ x, ofNat (toNat x) = x) (x : β) :
    RoundTrips (fun x => encodeUint w (toNat x))
      (fun rlp => (decodeUint w rlp).map fun (n, rest) => (ofNat n, rest)) x := by
  intro rest
  simp only
  rw [roundTrips_uint hw (hlt x) rest]
  simp [hof]

theorem roundTrips_u16 (x : UInt16) : RoundTrips U16.encode U16.decodeUnfinished x :=
  roundTrips_uintMap 2 (by omega) UInt16.toNat UInt16.ofNat
    (fun x => by simpa using x.toNat_lt) (fun _ => UInt16.ofNat_toNat) x

theorem roundTrips_u32 (x : UInt32) : RoundTrips U32.encode U32.decodeUnfinished x :=
  roundTrips_uintMap 4 (by omega) UInt32.toNat UInt32.ofNat
    (fun x => by simpa using x.toNat_lt) (fun _ => UInt32.ofNat_toNat) x

theorem roundTrips_u64 (x : UInt64) : RoundTrips U64.encode U64.decodeUnfinished x :=
  roundTrips_uintMap 8 (by omega) UInt64.toNat UInt64.ofNat
    (fun x => by simpa using x.toNat_lt) (fun _ => UInt64.ofNat_toNat) x

theorem roundTrips_usize (x : UInt64) : RoundTrips Usize.encode Usize.decodeUnfinished x :=
  roundTrips_uintMap 8 (by omega) UInt64.toNat UInt64.ofNat
    (fun x => by simpa using x.toNat_lt) (fun _ => UInt64.ofNat_toNat) x

theorem roundTrips_u128 (x : BitVec 128) : RoundTrips U128.encode U128.decodeUnfinished x :=
  roundTrips_uintMap 16 (by omega) BitVec.toNat (BitVec.ofNat 128)
    (fun x => by simpa using x.isLt) (fun x => by rw [BitVec.ofNat_toNat, BitVec.setWidth_eq]) x

theorem roundTrips_u8 (x : UInt8) : RoundTrips U8.encode U8.decodeUnfinished x := by
  intro rest
  have hx := x.toNat_lt
  have henc : U8.encode x = Slice.encode (BigEndian.minimal 1 x.toNat) :=
    encodeUint_eq_slice (by norm_num) (by simpa using hx)
  by_cases h0 : x = 0
  · subst h0
    cases rest <;> rfl
  have hpos : 0 < x.toNat := by
    rcases Nat.eq_zero_or_pos x.toNat with h | h
    · exact absurd (UInt8.toNat_inj.mp (by simpa using h)) h0
    · exact h
  rw [henc, BigEndian.minimal_of_lt_256 le_rfl hpos hx, UInt8.ofNat_toNat]
  by_cases h7 : x ≤ 0x7f
  · have hb : x < rlpNull := by
      rw [UInt8.le_iff_toNat_le] at h7
      rw [lt_rlpNull_iff]
      simpa using h7
    rw [Slice.encode_single, if_pos hb]
    cases rest <;> simp [U8.decodeUnfinished, h7]
  · -- a byte from `0x80` on is written after `0x81`
    have hb : ¬ x < rlpNull := by
      rw [UInt8.le_iff_toNat_le] at h7
      rw [lt_rlpNull_iff]
      simpa using h7
    rw [Slice.encode_single, if_neg hb]
    simp [U8.decodeUnfinished, lengthHeader, rlpNull]

theorem roundTrips_bool (b : Bool) : RoundTrips Bool.encode Bool.decodeUnfinished b := by
  intro rest
  cases b <;> rfl

/-! ## `U256` -/

theorem drop_clz_eq_minimal (x : U256) :
    (BigEndian.toBytes 32 x.toNat).drop (x.clz.toNat / 8) = BigEndian.minimal 32 x.toNat := by
  by_cases hx : x = 0#256
  · -- zero has 256 leading zero bits: every byte goes
    have hc : x.clz.toNat = 256 := by
      have := congrArg BitVec.toNat (BitVec.clz_eq_iff_eq_zero.mpr hx)
      simpa using this
    subst hx
    rw [hc]
    simp [BigEndian.minimal_zero]
  have hcle : x.clz.toNat ≤ 256 := by simpa [BitVec.le_def] using BitVec.clz_le (x := x)
  have hlt := BitVec.toNat_lt_two_pow_sub_clz (x := x)
  have hge := BitVec.two_pow_sub_clz_le_toNat_of_ne_zero (by norm_num) hx
  generalize x.clz.toNat = c at hcle hlt hge ⊢
  have h256 : ∀ m, (256 : Nat) ^ m = 2 ^ (8 * m) := fun m => by rw [pow_mul]; norm_num
  -- the value fits in the `32 - c / 8` bytes after the zero ones, and needs them all
  have hfit : x.toNat < 256 ^ (32 - c / 8) := by
    have hpow : 2 ^ (256 - c) ≤ 256 ^ (32 - c / 8) := by
      rw [h256]
      exact Nat.pow_le_pow_right (by norm_num) (by omega)
    omega
  have hneed : 256 ^ (32 - c / 8 - 1) ≤ x.toNat := by
    have hpow : 256 ^ (32 - c / 8 - 1) ≤ 2 ^ (256 - 1 - c) := by
      rw [h256]
      exact Nat.pow_le_pow_right (by norm_num) (by omega)
    omega
  have hsplit : 32 = c / 8 + (32 - c / 8) := by omega
  rw [hsplit, BigEndian.toBytes_add (c / 8) _ _ hfit, List.drop_left' (by simp),
    BigEndian.minimal_add (c / 8) hfit, BigEndian.minimal_eq_toBytes hneed hfit]

theorem U256.encode_eq_slice (x : U256) :
    U256.encode x = Slice.encode (BigEndian.minimal 32 x.toNat) := by
  simp only [U256.encode, drop_clz_eq_minimal]

theorem roundTrips_u256 (x : U256) : RoundTrips U256.encode U256.decodeUnfinished x := by
  intro rest
  have hx : x.toNat < 256 ^ 32 := by simpa using x.isLt
  have hlen : (BigEndian.minimal 32 x.toNat).length < 2 ^ 64 :=
    Nat.lt_of_le_of_lt (BigEndian.length_minimal_le 32 _) (by omega)
  rw [U256.encode_eq_slice, U256.decodeUnfinished, roundTrips_slice hlen rest]
  simp [staticLeftPad_minimal (le_refl 32), BigEndian.ofBytes_minimal hx]

/-! ## Strings of known shape -/

theorem roundTrips_fixed {n : Nat} (hn : n < 2 ^ 64) (v : FixedBytes n) :
    RoundTrips Fixed.encode (Fixed.decodeUnfinished n) v := by
  intro rest
  rw [Fixed.encode, Fixed.decodeUnfinished, roundTrips_slice (by simpa using hn) rest]
  simp [v.toList_length]

theorem decodeBytes_of_fixed {n : Nat} {rlp r : Bytes} {v : FixedBytes n}
    (h : Fixed.decodeUnfinished n rlp = .ok (v, r)) : decodeBytes rlp = .ok (v.toList, r) := by
  unfold Fixed.decodeUnfinished at h
  obtain ⟨⟨p, r'⟩, hd, h⟩ := Except.bind_eq_ok.mp h
  rw [hd]
  by_cases hl : p.length = n
  · simp only [hl, dif_pos, Except.pure_eq_ok, Except.ok.injEq] at h
    obtain ⟨rfl, rfl⟩ := h
    rfl
  · simp [hl] at h

theorem roundTrips_byteString {b : Bytes} (hb : b.length < 2 ^ 64) :
    RoundTrips ByteString.encode ByteString.decodeUnfinished b :=
  roundTrips_slice hb

theorem fromUTF8?_bytes (s : String) : String.fromUTF8? ⟨s.toByteArray.data⟩ = some s := by
  rw [String.fromUTF8?, dif_pos s.isValidUTF8]
  rfl

theorem roundTrips_str {s : String} (hs : s.toByteArray.data.toList.length < 2 ^ 64) :
    RoundTrips Str.encode Str.decodeUnfinished s := by
  intro rest
  rw [Str.encode, Str.decodeUnfinished, roundTrips_slice hs rest]
  simp [fromUTF8?_bytes]

theorem roundTrips_ipv4 (ip : Ipv4Addr) : RoundTrips Ipv4.encode Ipv4.decodeUnfinished ip := by
  intro rest
  rw [Ipv4.encode, Fixed.encode, Ipv4.decodeUnfinished, roundTrips_slice (by simp) rest]
  simp

theorem roundTrips_ipv6 (ip : Ipv6Addr) : RoundTrips Ipv6.encode Ipv6.decodeUnfinished ip := by
  intro rest
  rw [Ipv6.encode, Fixed.encode, Ipv6.decodeUnfinished, roundTrips_slice (by simp) rest]
  simp

theorem roundTrips_ip (ip : IpAddr) : RoundTrips Ip.encode Ip.decodeUnfinished ip := by
  intro rest
  cases ip with
  | v4 ip =>
      rw [Ip.encode, Ipv4.encode, Fixed.encode, Ip.decodeUnfinished, roundTrips_slice (by simp) rest]
      simp
  | v6 ip =>
      rw [Ip.encode, Ipv6.encode, Fixed.encode, Ip.decodeUnfinished, roundTrips_slice (by simp) rest]
      simp

/-! ## Lists -/

theorem encodeLength_head {n : Nat} (h₁ : n < 2 ^ 64) :
    ∃ b t, encodeLength n = b :: t ∧ 0xC0 ≤ b.toNat ∧ (0 < n → 0xC0 < b.toNat) := by
  unfold encodeLength
  by_cases hs : n < 56
  · refine ⟨_, _, lengthHeader_lt hs, ?_⟩
    rw [toNat_add_ofNat _ (by simp; omega)]
    simp
  · obtain ⟨hk₁, hk₂⟩ := length_minimal_eight (Nat.not_lt.mp hs) h₁
    refine ⟨_, _, lengthHeader_ge (Nat.not_lt.mp hs), ?_⟩
    rw [toNat_add_ofNat _ (by simp; omega)]
    simp
    omega

theorem Encoder.finish_head (e : Encoder) (h : e.tempBuf.length < 2 ^ 64) :
    ∃ b t, e.finish = b :: t ∧ 0xC0 ≤ b.toNat := by
  obtain ⟨b, t, hbt, hb, -⟩ := encodeLength_head h
  rw [Encoder.finish, hbt]
  exact ⟨b, _, rfl, hb⟩

theorem Vec.encode_of_ne_nil {α : Type} (enc : α → Bytes) {xs : List α} (hxs : xs ≠ []) :
    Vec.encode enc xs = encodeLength (xs.map enc).flatten.length ++ (xs.map enc).flatten := by
  simp [Vec.encode, hxs, Function.comp_def]

theorem roundTrips_vec {α : Type} {enc : α → Bytes} {dec : DecodeFn α} {xs : List α}
    (hrt : ∀ x ∈ xs, RoundTrips enc dec x) (hne : ∀ x ∈ xs, enc x ≠ [])
    (hlen : (xs.map enc).flatten.length < 2 ^ 64) :
    RoundTrips (Vec.encode enc) (Vec.decodeUnfinished dec) xs := by
  intro rest
  by_cases hxs : xs = []
  · subst hxs
    rfl
  set p := (xs.map enc).flatten with hp
  have hcount : xs.length ≤ p.length := length_le_length_flatten hne
  have hpos : 0 < p.length := by
    have := List.length_pos_iff.mpr hxs
    omega
  obtain ⟨b, t, hbt, -, hb⟩ := encodeLength_head hlen
  have hb : b ≠ rlpEmptyList := by
    have := hb hpos
    intro he
    simp [he, rlpEmptyList] at this
  have hin : Vec.encode enc xs ++ rest = b :: (t ++ p ++ rest) := by
    rw [Vec.encode_of_ne_nil enc hxs, ← hp, hbt]
    simp
  have hitem : decodeRlpItem (b :: (t ++ p ++ rest)) = .ok (true, p, rest) := by
    rw [← List.cons_append, ← List.cons_append, ← hbt]
    exact decodeRlpItem_list p rest hlen
  have hmany : decodeItems dec p.length p = .ok xs := by
    rw [decodeItems]
    exact many_flatten .invalidLength hrt hne hcount
  rw [hin, Vec.decodeUnfinished, if_neg hb, hitem]
  simp [hmany]

/-! ## Lists whose items are bounded by the whole -/

theorem length_flatten_le_vec {α : Type} (enc : α → Bytes) (xs : List α) :
    (xs.map enc).flatten.length ≤ (Vec.encode enc xs).length := by
  unfold Vec.encode
  split
  · rename_i h
    simp [List.isEmpty_iff.mp h]
  · simp

theorem length_le_flatten {α : Type} (enc : α → Bytes) {xs : List α} {x : α} (hx : x ∈ xs) :
    (enc x).length ≤ (xs.map enc).flatten.length := by
  rw [List.length_flatten]
  exact List.le_sum_of_mem (List.mem_map.mpr ⟨enc x, List.mem_map_of_mem hx, rfl⟩)

/-- A list of values round-trips when each of its items does at the length
its encoding has: the item bounds come from the bound on the whole. -/
theorem roundTrips_vec_of_length {α : Type} {enc : α → Bytes} {dec : DecodeFn α} {xs : List α}
    (hrt : ∀ x ∈ xs, (enc x).length < 2 ^ 64 → RoundTrips enc dec x) (hne : ∀ x, enc x ≠ [])
    (hlen : (Vec.encode enc xs).length < 2 ^ 64) :
    RoundTrips (Vec.encode enc) (Vec.decodeUnfinished dec) xs := by
  -- each item is a part of the payload, hence of the encoding
  have hflat := length_flatten_le_vec enc xs
  refine roundTrips_vec (fun x hx => hrt x hx ?_) (fun x _ => hne x) (by omega)
  have := length_le_flatten enc hx
  omega

/-! ## Tuples -/

theorem encodeLength_ne_nil (n : Nat) : encodeLength n ≠ [] :=
  List.ne_nil_of_length_pos (length_lengthHeader_pos _ _ n)

theorem roundTrips_tuple2 {α β : Type} {encA : α → Bytes} {decA : DecodeFn α}
    {encB : β → Bytes} {decB : DecodeFn β} {v : α × β}
    (hA : RoundTrips encA decA v.1) (hB : RoundTrips encB decB v.2)
    (hlen : (encA v.1 ++ encB v.2).length < 2 ^ 64) :
    RoundTrips (Tuple2.encode encA encB) (Tuple2.decodeUnfinished decA decB) v := by
  intro rest
  have hB' := hB []
  rw [List.append_nil] at hB'
  have hin : Tuple2.encode encA encB v ++ rest =
      encodeLength (encA v.1 ++ encB v.2).length ++ (encA v.1 ++ encB v.2) ++ rest := by
    simp [Tuple2.encode]
  rw [hin, Tuple2.decodeUnfinished, decodeRlpItem_list _ rest hlen]
  simp [encodeLength_ne_nil, hA (encB v.2), hB']

theorem roundTrips_tuple3 {α β γ : Type} {encA : α → Bytes} {decA : DecodeFn α}
    {encB : β → Bytes} {decB : DecodeFn β} {encC : γ → Bytes} {decC : DecodeFn γ}
    {v : α × β × γ} (hA : RoundTrips encA decA v.1) (hB : RoundTrips encB decB v.2.1)
    (hC : RoundTrips encC decC v.2.2)
    (hlen : (encA v.1 ++ encB v.2.1 ++ encC v.2.2).length < 2 ^ 64) :
    RoundTrips (Tuple3.encode encA encB encC) (Tuple3.decodeUnfinished decA decB decC) v := by
  intro rest
  have hC' := hC []
  rw [List.append_nil] at hC'
  have hin : Tuple3.encode encA encB encC v ++ rest =
      encodeLength (encA v.1 ++ encB v.2.1 ++ encC v.2.2).length ++
        (encA v.1 ++ encB v.2.1 ++ encC v.2.2) ++ rest := by
    simp [Tuple3.encode, Nat.add_assoc]
  rw [hin, Tuple3.decodeUnfinished, decodeRlpItem_list _ rest hlen]
  simp [encodeLength_ne_nil, hA (encB v.2.1 ++ encC v.2.2), hB (encC v.2.2), hC']

theorem roundTrips_tuple4 {α β γ δ : Type} {encA : α → Bytes} {decA : DecodeFn α}
    {encB : β → Bytes} {decB : DecodeFn β} {encC : γ → Bytes} {decC : DecodeFn γ}
    {encD : δ → Bytes} {decD : DecodeFn δ} {v : α × β × γ × δ}
    (hA : RoundTrips encA decA v.1) (hB : RoundTrips encB decB v.2.1)
    (hC : RoundTrips encC decC v.2.2.1) (hD : RoundTrips encD decD v.2.2.2)
    (hlen : (encA v.1 ++ encB v.2.1 ++ encC v.2.2.1 ++ encD v.2.2.2).length < 2 ^ 64) :
    RoundTrips (Tuple4.encode encA encB encC encD)
      (Tuple4.decodeUnfinished decA decB decC decD) v := by
  intro rest
  have hD' := hD []
  rw [List.append_nil] at hD'
  have hin : Tuple4.encode encA encB encC encD v ++ rest =
      encodeLength (encA v.1 ++ encB v.2.1 ++ encC v.2.2.1 ++ encD v.2.2.2).length ++
        (encA v.1 ++ encB v.2.1 ++ encC v.2.2.1 ++ encD v.2.2.2) ++ rest := by
    simp [Tuple4.encode, Nat.add_assoc]
  rw [hin, Tuple4.decodeUnfinished, decodeRlpItem_list _ rest hlen]
  simp [encodeLength_ne_nil, hA (encB v.2.1 ++ (encC v.2.2.1 ++ encD v.2.2.2)),
    hB (encC v.2.2.1 ++ encD v.2.2.2), hC (encD v.2.2.2), hD']

/-! ## The two tests of the network form

`is_encoded_as_bytes` tells a wrapped typed transaction from a legacy list by
its first byte, and only a long-form string header passes it.  What the two
kinds of item give the test, and what `get_rlp_bytes_item_payload` then
returns. -/

theorem Slice.encode_long {p : Bytes} (h₁ : 56 ≤ p.length) (h₂ : p.length < 2 ^ 64) :
    ∃ b t, Slice.encode p = b :: (t ++ p) ∧ b.toNat = 0xB7 + t.length ∧
      1 ≤ t.length ∧ t.length ≤ 8 := by
  have hns : ∀ b, p = [b] → 0x80 ≤ b.toNat := by
    rintro b rfl
    simp at h₁
  obtain ⟨hk₁, hk₂⟩ := length_minimal_eight h₁ h₂
  rw [Slice.encode_of_not_single hns, lengthHeader_ge h₁]
  exact ⟨_, _, rfl, toNat_add_ofNat _ (by simp; omega), hk₁, hk₂⟩

theorem getRlpBytesItemPayload_long {p : Bytes} (h₁ : 56 ≤ p.length) (h₂ : p.length < 2 ^ 64)
    (rest : Bytes) :
    isEncodedAsBytes (Slice.encode p ++ rest) = .ok true ∧
      getRlpBytesItemPayload (Slice.encode p ++ rest) = .ok (p ++ rest) := by
  obtain ⟨b, t, henc, hb, hk₁, hk₂⟩ := Slice.encode_long h₁ h₂
  -- the `u8` arithmetic on the prefix gives back the number of length bytes
  have hoff : (b - 0xb8 + 1).toNat = t.length := by
    rw [UInt8.toNat_add, toNat_sub_of_le' (by simp; omega)]
    simp
    omega
  rw [henc, List.cons_append]
  constructor
  · simp [isEncodedAsBytes, UInt8.le_iff_toNat_le, hb]
    omega
  · simp [getRlpBytesItemPayload, hoff]

theorem isEncodedAsBytes_short {p : Bytes} (h₁ : p.length < 56)
    (hns : ∀ b, p = [b] → 0x80 ≤ b.toNat) (rest : Bytes) :
    isEncodedAsBytes (Slice.encode p ++ rest) = .ok false := by
  have hb : (rlpNull + UInt8.ofNat p.length).toNat = 0x80 + p.length :=
    toNat_add_ofNat rlpNull (by simp [rlpNull]; omega)
  rw [Slice.encode_of_not_single hns, lengthHeader_lt h₁]
  simp [isEncodedAsBytes, UInt8.le_iff_toNat_le, hb]
  omega

theorem isEncodedAsBytes_list {n : Nat} (hn : n < 2 ^ 64) (rest : Bytes) :
    isEncodedAsBytes (encodeLength n ++ rest) = .ok false := by
  obtain ⟨b, t, hbt, hb, -⟩ := encodeLength_head hn
  rw [hbt]
  simp [isEncodedAsBytes, UInt8.le_iff_toNat_le]
  omega

theorem isEncodedAsBytes_finish (e : Encoder) (h : e.tempBuf.length < 2 ^ 64) (rest : Bytes) :
    isEncodedAsBytes (e.finish ++ rest) = .ok false := by
  rw [Encoder.finish, List.append_assoc]
  exact isEncodedAsBytes_list h _

/-! ## Whole decodes -/

theorem decode_of_roundTrips {α : Type} {enc : α → Bytes} {dec : DecodeFn α} {v : α}
    (h : RoundTrips enc dec v) : decode dec (enc v) = .ok v := by
  have h' := h []
  rw [List.append_nil] at h'
  simp [decode, h']

theorem decode_of_error {α : Type} {dec : DecodeFn α} {b : Bytes} {e : RLPDecodeError}
    (h : dec b = .error e) : decode dec b = .error e := by
  simp [decode, h]

end Ethrex.Rlp
