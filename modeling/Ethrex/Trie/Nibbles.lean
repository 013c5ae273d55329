/-
# `Ethrex.Trie.Nibbles` — the half-byte paths of `ethrex_trie::nibbles`

A trie path is a list of nibbles.  `from_bytes` splits each key byte in two
and appends the leaf flag `16`, so every path the trie is asked about is a
run of nibbles below `16` closed by one `16` (`IsTerminated`); an
extension's prefix is a run of nibbles below `16` alone (`IsHex`).

The nibbles are `u8` in the source and `Nat` here: every value the crate
stores is at most `16`, and the two casts that meet bytes (`from_raw`,
`encode_compact`) are written out.  `at` indexes with `[i]!` as the source
indexes a `Vec`; `slice` is `take`/`drop`, where the source panics on a range
past the end: no modelled caller slices past the end of a path (the lemmas
below are what the callers use).

`encode_compact`/`decode_compact` are the hex-prefix encoding of the
Yellow Paper; `decodeCompact_encodeCompact` is its round trip on the paths
the trie stores, and `encodeCompact_flags` reads the leaf and odd-length
flags back from the first byte.
-/
import Ethrex.Rlp.Structs

namespace Ethrex.Mpt

open Ethrex.Rlp

/-- `Nibbles`. -/
structure Nibbles where
  data : List Nat
  deriving DecidableEq, Repr

/-- Every nibble is a choice index: below `16`. -/
def IsHex (l : List Nat) : Prop := ∀ x ∈ l, x < 16

instance (l : List Nat) : Decidable (IsHex l) := inferInstanceAs (Decidable (∀ x ∈ l, x < 16))

/-- A path as `from_bytes` makes them: choice indices, then the leaf flag. -/
def IsTerminated (l : List Nat) : Prop := l.getLast? = some 16 ∧ IsHex l.dropLast

instance (l : List Nat) : Decidable (IsTerminated l) := inferInstanceAs (Decidable (_ ∧ _))

namespace Nibbles

/-- `Nibbles::from_hex`. -/
def fromHex (hex : List Nat) : Nibbles := ⟨hex⟩

/-- `Nibbles::from_raw`: each byte's high then low nibble, and the leaf flag
when `isLeaf`. -/
def fromRaw (bytes : Bytes) (isLeaf : Bool) : Nibbles :=
  let data := bytes.flatMap fun (byte : UInt8) => [(byte >>> 4 &&& 0x0F).toNat, (byte &&& 0x0F).toNat]
  ⟨if isLeaf then data ++ [16] else data⟩

/-- `Nibbles::from_bytes`. -/
def fromBytes (bytes : Bytes) : Nibbles := fromRaw bytes true

/-- `Nibbles::len`. -/
def len (self : Nibbles) : Nat := self.data.length

/-- `Nibbles::is_empty`. -/
def isEmpty (self : Nibbles) : Bool := self.data.isEmpty

/-- `Nibbles::skip_prefix`: the path after `pre` when `pre` is a prefix of
`self` (the source moves `self` past it and returns `true`), `none`
otherwise. -/
def skipPrefix (self pre : Nibbles) : Option Nibbles :=
  if self.len ≥ pre.len ∧ self.data.take pre.len = pre.data then some ⟨self.data.drop pre.len⟩
  else none

/-- `Nibbles::count_prefix`: the length of the common prefix. -/
def countPrefix (self other : Nibbles) : Nat :=
  ((self.data.zip other.data).takeWhile fun (a, b) => a == b).length

/-- `Nibbles::next`: the first nibble, removed. -/
def next (self : Nibbles) : Option Nat × Nibbles :=
  match self.data with
  | [] => (none, self)
  | n :: rest => (some n, ⟨rest⟩)

/-- `Nibbles::next_choice`: the first nibble, removed, kept only if it is a
choice index. -/
def nextChoice (self : Nibbles) : Option (Fin 16) × Nibbles :=
  let (n, rest) := self.next
  ((n.filter (· < 16)).bind fun c => if h : c < 16 then some ⟨c, h⟩ else none, rest)

/-- `Nibbles::slice`. -/
def slice (self : Nibbles) (start stop : Nat) : Nibbles := fromHex ((self.data.take stop).drop start)

/-- `Nibbles::offset`. -/
def offset (self : Nibbles) (n : Nat) : Nibbles := self.slice n self.len

/-- `Nibbles::extend`. -/
def extend (self other : Nibbles) : Nibbles := ⟨self.data ++ other.data⟩

/-- `Nibbles::at` (`at` is a keyword of Lean's). -/
def nibbleAt (self : Nibbles) (i : Nat) : Nat := self.data[i]!

/-- `Nibbles::prepend`. -/
def prepend (self : Nibbles) (nibble : Nat) : Nibbles := ⟨nibble :: self.data⟩

/-- `Nibbles::append`: one nibble more at the end. -/
def append (self : Nibbles) (nibble : Nat) : Nibbles := ⟨self.data ++ [nibble]⟩

/-- `Nibbles::is_leaf`: the last nibble is the leaf flag. -/
def isLeaf (self : Nibbles) : Bool :=
  if self.isEmpty then false else self.data.getLast! == 16

/-- The loop of `encode_compact`: each pair of nibbles is one byte. -/
def packNibbles : List Nat → Bytes
  | a :: b :: rest => UInt8.ofNat (a * 16 + b) :: packNibbles rest
  | _ => []

/-- `Nibbles::encode_compact`: a flag nibble (leaf `2`, odd length `1`), the
first nibble beside it when the length is odd, then the rest packed. -/
def encodeCompact (self : Nibbles) : Bytes :=
  let isLeaf := self.isLeaf
  let hex := if isLeaf then self.data.dropLast else self.data
  let (v, hex) := if hex.length % 2 = 1 then (0x10 + hex[0]!, hex.drop 1) else (0x00, hex)
  UInt8.ofNat (v + if isLeaf then 0x20 else 0x00) :: packNibbles hex

/-- `keybytes_to_hex`: each byte's two nibbles and a closing `16`. -/
def keybytesToHex (keybytes : Bytes) : List Nat :=
  keybytes.flatMap (fun b => [(b / 16).toNat, (b % 16).toNat]) ++ [16]

/-- `compact_to_hex`. -/
def compactToHex (compact : Bytes) : List Nat :=
  if compact.isEmpty then [] else
  let base := keybytesToHex compact
  -- delete terminator flag
  let base := if base[0]! < 2 then base.dropLast else base
  -- apply odd flag
  let chop := 2 - base[0]! % 2
  base.drop chop

/-- `Nibbles::decode_compact`. -/
def decodeCompact (compact : Bytes) : Nibbles := fromHex (compactToHex compact)

/-- The loop of `to_bytes`: each chunk of two nibbles is one byte, high
nibble first; a last nibble alone is the high half of a byte. -/
def combineChunks : List Nat → Bytes
  | [] => []
  | [a] => [UInt8.ofNat a <<< 4]
  | a :: b :: rest => (UInt8.ofNat a <<< 4 ||| UInt8.ofNat b) :: combineChunks rest

/-- `Nibbles::to_bytes`: the nibbles combined into bytes, the leaf flag
trimmed first. -/
def toBytes (self : Nibbles) : Bytes :=
  let data := if !self.isEmpty && self.isLeaf then self.data.take (self.len - 1) else self.data
  combineChunks data

/-! ## Paths -/

@[simp] theorem data_fromHex (hex : List Nat) : (fromHex hex).data = hex := rfl
@[simp] theorem len_eq (p : Nibbles) : p.len = p.data.length := rfl
@[simp] theorem data_prepend (p : Nibbles) (n : Nat) : (p.prepend n).data = n :: p.data := rfl
@[simp] theorem data_extend (p q : Nibbles) : (p.extend q).data = p.data ++ q.data := rfl
@[simp] theorem data_slice (p : Nibbles) (a b : Nat) :
    (p.slice a b).data = (p.data.take b).drop a := rfl
@[simp] theorem data_offset (p : Nibbles) (n : Nat) : (p.offset n).data = p.data.drop n := by
  simp [offset]

theorem offset_append (c r : List Nat) : Nibbles.offset ⟨c ++ r⟩ c.length = ⟨r⟩ := by
  show Nibbles.mk (((c ++ r).take (c ++ r).length).drop c.length) = ⟨r⟩
  rw [List.take_length, List.drop_left]

theorem offset_cons (a : Nat) (r : List Nat) : Nibbles.offset ⟨a :: r⟩ 1 = ⟨r⟩ :=
  offset_append [a] r

theorem offset_append_cons (c r : List Nat) (a : Nat) :
    Nibbles.offset ⟨c ++ a :: r⟩ (c.length + 1) = ⟨r⟩ := by
  show Nibbles.mk (((c ++ a :: r).take (c ++ a :: r).length).drop (c.length + 1)) = ⟨r⟩
  rw [List.take_length]
  simp

theorem slice_append_zero (c r : List Nat) : Nibbles.slice ⟨c ++ r⟩ 0 c.length = ⟨c⟩ := by
  simp [slice, fromHex]

theorem byte_shift_and (b : UInt8) : (b >>> 4 &&& 0x0F).toNat = b.toNat / 16 := by
  have hb := b.toNat_lt
  simp only [UInt8.toNat_and, UInt8.toNat_shiftRight]
  rw [show UInt8.toNat 15 = 2 ^ 4 - 1 by rfl, show UInt8.toNat 4 % 8 = 4 by rfl,
    Nat.and_two_pow_sub_one_eq_mod, Nat.shiftRight_eq_div_pow]
  omega

theorem byte_and (b : UInt8) : (b &&& 0x0F).toNat = b.toNat % 16 := by
  simp only [UInt8.toNat_and]
  rw [show (UInt8.toNat 15) = 2 ^ 4 - 1 by rfl, Nat.and_two_pow_sub_one_eq_mod]

theorem data_fromRaw_false (k : Bytes) :
    (fromRaw k false).data = k.flatMap fun b => [b.toNat / 16, b.toNat % 16] := by
  simp only [fromRaw, Bool.false_eq_true, ↓reduceIte]
  congr 1
  funext b
  rw [byte_shift_and, byte_and]

theorem data_fromBytes (k : Bytes) : (fromBytes k).data = (fromRaw k false).data ++ [16] := by
  simp [fromBytes, fromRaw]

theorem isHex_fromRaw (k : Bytes) : IsHex (fromRaw k false).data := by
  intro x hx
  simp only [data_fromRaw_false, List.mem_flatMap, List.mem_cons, List.not_mem_nil,
    or_false] at hx
  obtain ⟨b, -, rfl | rfl⟩ := hx
  · have := b.toNat_lt; omega
  · omega

theorem isTerminated_iff {l : List Nat} : IsTerminated l ↔ ∃ h, IsHex h ∧ l = h ++ [16] := by
  constructor
  · rintro ⟨hlast, hhex⟩
    refine ⟨l.dropLast, hhex, ?_⟩
    have hne : l ≠ [] := by rintro rfl; simp at hlast
    rw [List.getLast?_eq_some_getLast hne, Option.some_inj] at hlast
    conv_lhs => rw [← List.dropLast_append_getLast hne, hlast]
  · rintro ⟨h, hh, rfl⟩
    simpa [IsTerminated] using hh

theorem isTerminated_append {h : List Nat} (hh : IsHex h) : IsTerminated (h ++ [16]) :=
  isTerminated_iff.mpr ⟨h, hh, rfl⟩

theorem isTerminated_fromBytes (k : Bytes) : IsTerminated (fromBytes k).data := by
  rw [data_fromBytes]; exact isTerminated_append (isHex_fromRaw k)

theorem fromRaw_false_injective : Function.Injective fun k => (fromRaw k false).data := by
  intro k₁ k₂ h
  simp only [data_fromRaw_false] at h
  induction k₁ generalizing k₂ with
  | nil => cases k₂ <;> simp_all
  | cons b t ih =>
    cases k₂ with
    | nil => simp at h
    | cons c u =>
      simp only [List.flatMap_cons, List.cons_append, List.nil_append, List.cons.injEq] at h
      obtain ⟨h₁, h₂, h₃⟩ := h
      have hbc : b = c := by
        apply UInt8.toNat_inj.mp
        omega
      rw [hbc, ih h₃]

theorem fromBytes_injective : Function.Injective fromBytes := by
  intro k₁ k₂ h
  have := congrArg Nibbles.data h
  rw [data_fromBytes, data_fromBytes, List.append_cancel_right_eq] at this
  exact fromRaw_false_injective this

theorem IsHex.append {a b : List Nat} (ha : IsHex a) (hb : IsHex b) : IsHex (a ++ b) := by
  intro x hx
  rcases List.mem_append.mp hx with h | h
  · exact ha x h
  · exact hb x h

theorem IsHex.sublist {a b : List Nat} (hb : IsHex b) (h : a.Sublist b) : IsHex a :=
  fun x hx => hb x (h.subset hx)

theorem IsHex.not_mem {l : List Nat} (hl : IsHex l) : 16 ∉ l := fun h => by
  have := hl 16 h; omega

/-! ## Prefixes -/

theorem skipPrefix_eq_some_iff {p q r : Nibbles} : p.skipPrefix q = some r ↔ p.data = q.data ++ r.data := by
  unfold skipPrefix
  constructor
  · intro h
    split at h
    · rename_i hc
      cases h
      rw [← hc.2]
      exact (List.take_append_drop _ _).symm
    · cases h
  · intro h
    have hc : p.len ≥ q.len ∧ p.data.take q.len = q.data := by simp [h]
    rw [if_pos hc]
    simp [h]

theorem skipPrefix_eq_none_iff {p q : Nibbles} : p.skipPrefix q = none ↔ ¬ q.data <+: p.data := by
  unfold skipPrefix
  constructor
  · intro h ⟨r, hr⟩
    rw [if_pos (by simp [← hr])] at h
    cases h
  · intro h
    rw [if_neg]
    rintro ⟨_, hc⟩
    exact h ⟨p.data.drop q.len, by rw [← hc]; simp⟩

@[simp] theorem skipPrefix_append (q : Nibbles) (r : List Nat) :
    Nibbles.skipPrefix ⟨q.data ++ r⟩ q = some ⟨r⟩ :=
  skipPrefix_eq_some_iff.mpr rfl

theorem countPrefix_eq (p q : Nibbles) :
    p.countPrefix q = ((p.data.zip q.data).takeWhile fun (a, b) => a == b).length := rfl

theorem countPrefix_cons_cons (a b : Nat) (p q : List Nat) :
    Nibbles.countPrefix ⟨a :: p⟩ ⟨b :: q⟩ =
      if a = b then Nibbles.countPrefix ⟨p⟩ ⟨q⟩ + 1 else 0 := by
  simp only [countPrefix_eq, List.zip_cons_cons, List.takeWhile_cons, beq_iff_eq]
  split <;> simp

@[simp] theorem countPrefix_nil_left (q : Nibbles) : Nibbles.countPrefix ⟨[]⟩ q = 0 := by
  simp [countPrefix_eq]

@[simp] theorem countPrefix_nil_right (p : Nibbles) : Nibbles.countPrefix p ⟨[]⟩ = 0 := by
  simp [countPrefix_eq]

theorem countPrefix_le_left (p q : List Nat) : Nibbles.countPrefix ⟨p⟩ ⟨q⟩ ≤ p.length := by
  induction p generalizing q with
  | nil => simp
  | cons a p ih =>
    cases q with
    | nil => simp
    | cons b q =>
      have := ih q
      rw [countPrefix_cons_cons]
      split
      · simp; omega
      · simp

theorem countPrefix_comm (p q : List Nat) :
    Nibbles.countPrefix ⟨p⟩ ⟨q⟩ = Nibbles.countPrefix ⟨q⟩ ⟨p⟩ := by
  induction p generalizing q with
  | nil => simp
  | cons a p ih =>
    cases q with
    | nil => simp
    | cons b q =>
      rw [countPrefix_cons_cons, countPrefix_cons_cons, ih q]
      by_cases hab : a = b
      · simp [hab]
      · simp [hab, Ne.symm hab]

theorem countPrefix_le_right (p q : List Nat) : Nibbles.countPrefix ⟨p⟩ ⟨q⟩ ≤ q.length := by
  rw [countPrefix_comm]; exact countPrefix_le_left q p

theorem take_countPrefix (p q : List Nat) :
    p.take (Nibbles.countPrefix ⟨p⟩ ⟨q⟩) = q.take (Nibbles.countPrefix ⟨p⟩ ⟨q⟩) := by
  induction p generalizing q with
  | nil => simp
  | cons a p ih =>
    cases q with
    | nil => simp
    | cons b q =>
      rw [countPrefix_cons_cons]
      split
      · rename_i hab; subst hab; simp [ih q]
      · simp

theorem getElem_countPrefix_ne (p q : List Nat) (hp : Nibbles.countPrefix ⟨p⟩ ⟨q⟩ < p.length)
    (hq : Nibbles.countPrefix ⟨p⟩ ⟨q⟩ < q.length) :
    p[Nibbles.countPrefix ⟨p⟩ ⟨q⟩] ≠ q[Nibbles.countPrefix ⟨p⟩ ⟨q⟩] := by
  induction p generalizing q with
  | nil => simp at hp
  | cons a p ih =>
    cases q with
    | nil => simp at hq
    | cons b q =>
      by_cases hab : a = b
      · subst hab
        have hc : Nibbles.countPrefix ⟨a :: p⟩ ⟨a :: q⟩ = Nibbles.countPrefix ⟨p⟩ ⟨q⟩ + 1 := by
          rw [countPrefix_cons_cons, if_pos rfl]
        simp only [hc, List.length_cons, List.getElem_cons_succ] at hp hq ⊢
        exact ih q (by omega) (by omega)
      · simp [countPrefix_cons_cons, hab]

theorem countPrefix_append_cons (c r₁ r₂ : List Nat) {a b : Nat} (hab : a ≠ b) :
    Nibbles.countPrefix ⟨c ++ a :: r₁⟩ ⟨c ++ b :: r₂⟩ = c.length := by
  induction c with
  | nil => simp [countPrefix_cons_cons, hab]
  | cons x c ih => simp [countPrefix_cons_cons, ih]

theorem countPrefix_append (c r : List Nat) :
    Nibbles.countPrefix ⟨c ++ r⟩ ⟨c⟩ = c.length := by
  induction c with
  | nil => simp
  | cons x c ih => simp [countPrefix_cons_cons, ih]

/-! ## Choices and flags -/

@[simp] theorem nextChoice_cons {c : Nat} (h : c < 16) (r : List Nat) :
    Nibbles.nextChoice ⟨c :: r⟩ = (some ⟨c, h⟩, ⟨r⟩) := by
  simp [nextChoice, next, Option.filter, h]

@[simp] theorem nextChoice_flag (r : List Nat) : Nibbles.nextChoice ⟨16 :: r⟩ = (none, ⟨r⟩) := by
  simp [nextChoice, next]

@[simp] theorem nibbleAt_append_cons (c r : List Nat) (a : Nat) :
    Nibbles.nibbleAt ⟨c ++ a :: r⟩ c.length = a := by
  simp [nibbleAt]

@[simp] theorem nibbleAt_cons_zero (a : Nat) (r : List Nat) : Nibbles.nibbleAt ⟨a :: r⟩ 0 = a := rfl

theorem isLeaf_terminated (h : List Nat) : Nibbles.isLeaf ⟨h ++ [16]⟩ = true := by
  simp [isLeaf, isEmpty]

theorem isLeaf_hex {l : List Nat} (hl : IsHex l) : Nibbles.isLeaf ⟨l⟩ = false := by
  cases l using List.reverseRecOn with
  | nil => rfl
  | append_singleton l a =>
    have ha : a < 16 := hl a (by simp)
    simp [isLeaf, isEmpty]
    omega

/-! ## The compact encoding -/

theorem flatMap_packNibbles {h : List Nat} (hh : IsHex h) (he : h.length % 2 = 0) :
    (packNibbles h).flatMap (fun b => [(b / 16).toNat, (b % 16).toNat]) = h := by
  induction h using packNibbles.induct with
  | case1 a b rest ih =>
    have ha : a < 16 := hh a (by simp)
    have hb : b < 16 := hh b (by simp)
    have hx : (UInt8.ofNat (a * 16 + b)).toNat = a * 16 + b := by
      simp [UInt8.toNat_ofNat]; omega
    have h₁ : (UInt8.ofNat (a * 16 + b) / 16).toNat = a := by
      rw [UInt8.toNat_div, hx]; simp; omega
    have h₂ : (UInt8.ofNat (a * 16 + b) % 16).toNat = b := by
      rw [UInt8.toNat_mod, hx]; simp; omega
    have hrest : rest.length % 2 = 0 := by simp at he; omega
    rw [packNibbles, List.flatMap_cons, ih (IsHex.sublist hh (by simp)) hrest, h₁, h₂]
    rfl
  | case2 l hl =>
    match l, hl with
    | [], _ => rfl
    | [_], _ => simp at he
    | _ :: _ :: _, hl => exact absurd rfl (hl _ _ _)

theorem compactToHex_cons {x : UInt8} {f n : Nat} (hx : x.toNat = f * 16 + n) (hn : n < 16)
    {t : List Nat} (ht : IsHex t) (he : t.length % 2 = 0) :
    compactToHex (x :: packNibbles t) =
      (if f < 2 then f :: n :: t else f :: n :: (t ++ [16])).drop (2 - f % 2) := by
  have hf : (x / 16).toNat = f := by rw [UInt8.toNat_div, hx]; simp; omega
  have hn' : (x % 16).toNat = n := by rw [UInt8.toNat_mod, hx]; simp; omega
  simp only [compactToHex, keybytesToHex, List.isEmpty_cons, Bool.false_eq_true, ↓reduceIte,
    List.flatMap_cons, flatMap_packNibbles ht he, hf, hn']
  by_cases h2 : f < 2
  · simp [h2, List.dropLast_cons_of_ne_nil]
  · simp [h2]

theorem exists_hex_of_path {data : List Nat} (hp : IsHex data ∨ IsTerminated data) :
    ∃ hex leaf, IsHex hex ∧ data = (if leaf then hex ++ [16] else hex) ∧
      Nibbles.isLeaf ⟨data⟩ = leaf := by
  rcases hp with hp | hp
  · exact ⟨data, false, hp, rfl, isLeaf_hex hp⟩
  · obtain ⟨h, hh, rfl⟩ := isTerminated_iff.mp hp
    exact ⟨h, true, hh, rfl, isLeaf_terminated h⟩

theorem encodeCompact_eq {hex : List Nat} {leaf : Bool}
    (hleaf : Nibbles.isLeaf ⟨if leaf then hex ++ [16] else hex⟩ = leaf) :
    encodeCompact ⟨if leaf then hex ++ [16] else hex⟩ =
      UInt8.ofNat ((if hex.length % 2 = 1 then 0x10 + hex[0]! else 0x00) +
        if leaf then 0x20 else 0x00) ::
        packNibbles (if hex.length % 2 = 1 then hex.drop 1 else hex) := by
  have hdrop : (if leaf then (if leaf then hex ++ [16] else hex).dropLast
      else if leaf then hex ++ [16] else hex) = hex := by cases leaf <;> simp
  simp only [encodeCompact, hleaf, hdrop]
  split <;> simp_all

/-- The compact encoding round-trips on the paths a trie stores: hex runs
(extension prefixes) and terminated runs (leaf paths). -/
theorem decodeCompact_encodeCompact (p : Nibbles) (hp : IsHex p.data ∨ IsTerminated p.data) :
    decodeCompact (encodeCompact p) = p := by
  obtain ⟨data⟩ := p
  -- the hex run the flag byte is computed from, and whether the flag says leaf
  obtain ⟨hex, leaf, hhex, rfl, hleaf⟩ := exists_hex_of_path hp
  rw [encodeCompact_eq hleaf, decodeCompact]
  congr 1
  by_cases hodd : hex.length % 2 = 1
  · obtain ⟨h0, t, rfl⟩ : ∃ h0 t, hex = h0 :: t := by
      cases hex with
      | nil => simp at hodd
      | cons h0 t => exact ⟨h0, t, rfl⟩
    have h0lt : h0 < 16 := hhex h0 (by simp)
    have ht : IsHex t := IsHex.sublist hhex (by simp)
    have hte : t.length % 2 = 0 := by simp at hodd; omega
    simp only [hodd, ↓reduceIte, List.getElem!_cons_zero, List.drop_succ_cons, List.drop_zero]
    cases leaf
    · rw [compactToHex_cons (f := 1) (by simp [UInt8.toNat_ofNat]; omega) h0lt ht hte]
      simp
    · rw [compactToHex_cons (f := 3) (by simp [UInt8.toNat_ofNat]; omega) h0lt ht hte]
      simp
  · have he : hex.length % 2 = 0 := by omega
    simp only [hodd, ↓reduceIte]
    cases leaf
    · rw [compactToHex_cons (f := 0) (n := 0) (by simp) (by omega) hhex he]
      simp
    · rw [compactToHex_cons (f := 2) (n := 0) (by simp) (by omega) hhex he]
      simp

theorem flagByte_bits {v : Nat} (hv : v = 0 ∨ ∃ h0 < 16, v = 0x10 + h0) (leaf : Bool) :
    (UInt8.ofNat (v + if leaf then 0x20 else 0x00) &&& 0x20 ≠ 0 ↔ leaf = true) ∧
      (UInt8.ofNat (v + if leaf then 0x20 else 0x00) &&& 0x10 ≠ 0 ↔ v ≠ 0) := by
  rcases hv with rfl | ⟨h0, h, rfl⟩
  · cases leaf <;> decide
  · -- the nibble beside the flags takes sixteen values
    have key : ∀ n : Fin 16, ∀ leaf : Bool,
        (UInt8.ofNat (0x10 + n.val + if leaf then 0x20 else 0x00) &&& 0x20 ≠ 0 ↔ leaf = true) ∧
        (UInt8.ofNat (0x10 + n.val + if leaf then 0x20 else 0x00) &&& 0x10 ≠ 0 ↔
          0x10 + n.val ≠ 0) := by decide
    exact key ⟨h0, h⟩ leaf

theorem getLast?_path_eq_flag {hex : List Nat} (hhex : IsHex hex) (leaf : Bool) :
    (if leaf then hex ++ [16] else hex).getLast? = some 16 ↔ leaf = true := by
  cases leaf with
  | true => simp
  | false =>
    simp only [Bool.false_eq_true, ↓reduceIte, iff_false]
    exact fun h => IsHex.not_mem hhex (List.mem_of_getLast? h)

theorem filter_path_ne_flag {hex : List Nat} (hhex : IsHex hex) (leaf : Bool) :
    (if leaf then hex ++ [16] else hex).filter (· != 16) = hex := by
  have hself : hex.filter (· != 16) = hex :=
    List.filter_eq_self.mpr fun x hx => by simp; exact Nat.ne_of_lt (hhex x hx)
  cases leaf <;> simp [hself]

theorem encodeCompact_flags (p : Nibbles) (hp : IsHex p.data ∨ IsTerminated p.data) :
    ∃ b rest, encodeCompact p = b :: rest ∧
      (b &&& 0x20 ≠ 0 ↔ p.data.getLast? = some 16) ∧
      (b &&& 0x10 ≠ 0 ↔ (p.data.filter (· != 16)).length % 2 = 1) := by
  obtain ⟨data⟩ := p
  obtain ⟨hex, leaf, hhex, rfl, hleaf⟩ := exists_hex_of_path hp
  -- the value beside the flags: the first nibble of an odd run, nothing otherwise
  have hv : (if hex.length % 2 = 1 then 0x10 + hex[0]! else 0x00) = 0 ∨
      ∃ h0 < 16, (if hex.length % 2 = 1 then 0x10 + hex[0]! else 0x00) = 0x10 + h0 := by
    by_cases hodd : hex.length % 2 = 1
    · obtain ⟨h0, t, rfl⟩ : ∃ h0 t, hex = h0 :: t := by
        cases hex with
        | nil => simp at hodd
        | cons h0 t => exact ⟨h0, t, rfl⟩
      exact .inr ⟨h0, hhex h0 (by simp), by rw [if_pos hodd, List.getElem!_cons_zero]⟩
    · exact .inl (by simp [hodd])
  obtain ⟨hleafBit, hoddBit⟩ := flagByte_bits hv leaf
  refine ⟨_, _, encodeCompact_eq hleaf, ?_, ?_⟩
  · rw [hleafBit, getLast?_path_eq_flag hhex]
  · rw [hoddBit, filter_path_ne_flag hhex]
    split <;> simp_all

theorem encode_compact_round_trip (p : Nibbles) (hp : IsHex p.data ∨ IsTerminated p.data) :
    decodeCompact (encodeCompact p) = p ∧
      ∃ b rest, encodeCompact p = b :: rest ∧
        (b &&& 0x20 ≠ 0 ↔ p.data.getLast? = some 16) ∧
        (b &&& 0x10 ≠ 0 ↔ (p.data.filter (· != 16)).length % 2 = 1) :=
  ⟨decodeCompact_encodeCompact p hp, encodeCompact_flags p hp⟩

theorem encode_compact_round_trip_odd_leaf :
    (IsHex [1, 16] ∨ IsTerminated [1, 16]) ∧
      decodeCompact (encodeCompact ⟨[1, 16]⟩) = ⟨[1, 16]⟩ ∧
      ∃ b rest, encodeCompact ⟨[1, 16]⟩ = b :: rest ∧
        (b &&& 0x20 ≠ 0 ↔ [1, 16].getLast? = some 16) ∧
        (b &&& 0x10 ≠ 0 ↔ ([1, 16].filter (· != 16)).length % 2 = 1) :=
  have hp : IsHex [1, 16] ∨ IsTerminated [1, 16] := .inr (by decide)
  ⟨hp, encode_compact_round_trip ⟨[1, 16]⟩ hp⟩

end Nibbles

/-! ## Terminated paths

The paths `from_bytes` makes, and every rest of one that a walk down a trie
meets: a branch consumes a choice index, an extension a hex prefix. -/

theorem IsTerminated.ne_nil {l : List Nat} (h : IsTerminated l) : l ≠ [] := by
  rintro rfl
  simp [IsTerminated] at h

theorem isTerminated_cons_iff {c : Nat} {r : List Nat} :
    IsTerminated (c :: r) ↔ (c < 16 ∧ IsTerminated r) ∨ (c = 16 ∧ r = []) := by
  simp only [Nibbles.isTerminated_iff]
  constructor
  · rintro ⟨h, hh, he⟩
    cases h with
    | nil =>
      simp only [List.nil_append, List.cons.injEq] at he
      exact .inr he
    | cons d h =>
      simp only [List.cons_append, List.cons.injEq] at he
      obtain ⟨rfl, rfl⟩ := he
      exact .inl ⟨hh c (by simp), h, fun x hx => hh x (by simp [hx]), rfl⟩
  · rintro (⟨hc, h, hh, rfl⟩ | ⟨rfl, rfl⟩)
    · refine ⟨c :: h, ?_, rfl⟩
      intro x hx
      rcases List.mem_cons.mp hx with rfl | hx
      · exact hc
      · exact hh x hx
    · exact ⟨[], by simp [IsHex], rfl⟩

theorem isTerminated_append_iff {e r : List Nat} (he : IsHex e) :
    IsTerminated (e ++ r) ↔ IsTerminated r := by
  induction e with
  | nil => rfl
  | cons c e ih =>
    have hc : c < 16 := he c (by simp)
    rw [List.cons_append, isTerminated_cons_iff, ih (fun x hx => he x (by simp [hx]))]
    constructor
    · rintro (⟨-, h⟩ | ⟨rfl, -⟩)
      · exact h
      · omega
    · exact fun h => .inl ⟨hc, h⟩

theorem IsTerminated.isHex_of_append_cons {c ka : List Nat} {a : Nat}
    (h : IsTerminated (c ++ a :: ka)) : IsHex c := by
  have hd := h.2
  rw [List.dropLast_append_of_ne_nil (List.cons_ne_nil a ka)] at hd
  exact Nibbles.IsHex.sublist hd (List.sublist_append_left c _)

theorem IsTerminated.eq_of_prefix {k p : List Nat} (hk : IsTerminated k) (hp : IsTerminated p)
    (h : k <+: p) : k = p := by
  obtain ⟨r, rfl⟩ := h
  obtain ⟨h, hh, rfl⟩ := Nibbles.isTerminated_iff.mp hk
  rw [List.append_assoc, isTerminated_append_iff hh, List.singleton_append,
    isTerminated_cons_iff] at hp
  rcases hp with ⟨h16, -⟩ | ⟨-, rfl⟩
  · omega
  · simp

theorem exists_fork_of_lt {k p : List Nat} (hmk : Nibbles.countPrefix ⟨k⟩ ⟨p⟩ < k.length)
    (hmp : Nibbles.countPrefix ⟨k⟩ ⟨p⟩ < p.length) :
    ∃ c a ka b kb, k = c ++ a :: ka ∧ p = c ++ b :: kb ∧ a ≠ b := by
  have htake := Nibbles.take_countPrefix k p
  refine ⟨k.take (Nibbles.countPrefix ⟨k⟩ ⟨p⟩), k[Nibbles.countPrefix ⟨k⟩ ⟨p⟩],
    k.drop (Nibbles.countPrefix ⟨k⟩ ⟨p⟩ + 1), p[Nibbles.countPrefix ⟨k⟩ ⟨p⟩],
    p.drop (Nibbles.countPrefix ⟨k⟩ ⟨p⟩ + 1), ?_, ?_, Nibbles.getElem_countPrefix_ne k p hmk hmp⟩
  · rw [← List.drop_eq_getElem_cons hmk, List.take_append_drop]
  · rw [htake, ← List.drop_eq_getElem_cons hmp, List.take_append_drop]

theorem exists_fork {k p : List Nat} (hk : IsTerminated k) (hp : IsTerminated p) (hne : k ≠ p) :
    ∃ c a ka b kb, k = c ++ a :: ka ∧ p = c ++ b :: kb ∧ a ≠ b := by
  have htake := Nibbles.take_countPrefix k p
  -- the common prefix is shorter than both paths, or one would be a prefix of the other
  have hmk : Nibbles.countPrefix ⟨k⟩ ⟨p⟩ < k.length := by
    by_contra hge
    have hm : Nibbles.countPrefix ⟨k⟩ ⟨p⟩ = k.length := by
      have := Nibbles.countPrefix_le_left k p
      omega
    rw [hm, List.take_length] at htake
    exact hne (hk.eq_of_prefix hp (htake ▸ List.take_prefix _ _))
  have hmp : Nibbles.countPrefix ⟨k⟩ ⟨p⟩ < p.length := by
    by_contra hge
    have hm : Nibbles.countPrefix ⟨k⟩ ⟨p⟩ = p.length := by
      have := Nibbles.countPrefix_le_right k p
      omega
    rw [hm, List.take_length] at htake
    exact hne (hp.eq_of_prefix hk (htake ▸ List.take_prefix _ _)).symm
  exact exists_fork_of_lt hmk hmp

theorem exists_prefix_or_fork {k e : List Nat} (hk : IsTerminated k) (he : IsHex e) :
    (∃ r, k = e ++ r) ∨ ∃ d a ka b kb, k = d ++ a :: ka ∧ e = d ++ b :: kb ∧ a ≠ b := by
  have htake := Nibbles.take_countPrefix k e
  by_cases hme : Nibbles.countPrefix ⟨k⟩ ⟨e⟩ = e.length
  · -- the whole prefix is shared
    rw [hme, List.take_length] at htake
    exact .inl ⟨k.drop e.length, (List.take_append_drop e.length k).symm.trans (by rw [htake])⟩
  · -- the path cannot end inside the prefix: its flag is no hex nibble
    have hmk : Nibbles.countPrefix ⟨k⟩ ⟨e⟩ < k.length := by
      by_contra hge
      have hm : Nibbles.countPrefix ⟨k⟩ ⟨e⟩ = k.length := by
        have := Nibbles.countPrefix_le_left k e
        omega
      rw [hm, List.take_length] at htake
      have h16 : 16 ∈ k := List.mem_of_getLast? hk.1
      exact Nibbles.IsHex.not_mem he ((htake ▸ List.take_subset _ _ : k ⊆ e) h16)
    exact .inr (exists_fork_of_lt hmk (by have := Nibbles.countPrefix_le_right k e; omega))

end Ethrex.Mpt
