/-
# `Ethrex.Lib.Codec` — round trips of prefix decoders

A prefix decoder reads one value off the front of a token list and returns
it with the tokens it did not read.  The property every such decoder owes its
encoder is `RoundTrips enc dec v`: whatever follows the encoding of `v`,
`dec` returns `v` and exactly that suffix.  Stating it for every suffix is
what makes it compose: the decoder of a sequence runs the item decoder on
`enc x ++ (encodings of the rest)`.

`many` is the loop that decodes items until the input is exhausted, with an
explicit fuel bound standing for the loop's termination argument (each item
read consumes at least one token).  `many_flatten` is its round trip.
-/
import Mathlib.Data.List.Basic
import Ethrex.Lib.Except

namespace Codec

variable {σ ε α : Type}

/-- `dec` reads `v` back from its encoding, leaving any suffix untouched. -/
def RoundTrips (enc : α → List σ) (dec : List σ → Except ε (α × List σ)) (v : α) : Prop :=
  ∀ rest, dec (enc v ++ rest) = .ok (v, rest)

/-- Decode items off `s` until it is empty; at most `fuel` of them, failing
with `e` beyond that. -/
def many (e : ε) (dec : List σ → Except ε (α × List σ)) : Nat → List σ → Except ε (List α)
  | _, [] => .ok []
  | 0, _ :: _ => .error e
  | fuel + 1, s@(_ :: _) => do
    let (x, r) ← dec s
    let xs ← many e dec fuel r
    pure (x :: xs)

@[simp] theorem many_nil (e : ε) (dec : List σ → Except ε (α × List σ)) (fuel : Nat) :
    many e dec fuel [] = .ok [] := by
  cases fuel <;> rfl

theorem many_succ_of_ne_nil (e : ε) (dec : List σ → Except ε (α × List σ)) (fuel : Nat)
    {s : List σ} (hs : s ≠ []) :
    many e dec (fuel + 1) s = (dec s >>= fun (x, r) => (many e dec fuel r).map (x :: ·)) := by
  obtain ⟨t, ts, rfl⟩ := List.exists_cons_of_ne_nil hs
  simp only [many]
  cases dec (t :: ts) with
  | error _ => rfl
  | ok p =>
      obtain ⟨x, r⟩ := p
      cases many e dec fuel r <;> rfl

theorem length_le_length_flatten {enc : α → List σ} {xs : List α} (hne : ∀ x ∈ xs, enc x ≠ []) :
    xs.length ≤ (xs.map enc).flatten.length := by
  induction xs with
  | nil => simp
  | cons x xs ih =>
      have hx : 0 < (enc x).length := List.length_pos_iff.mpr (hne x (by simp))
      have ih' := ih (fun y hy => hne y (by simp [hy]))
      simp only [List.length_cons, List.map_cons, List.flatten_cons, List.length_append]
      omega

/-- The item loop reads back the concatenated encodings of any items that
round-trip, given fuel for each of them. -/
theorem many_flatten (e : ε) {enc : α → List σ} {dec : List σ → Except ε (α × List σ)}
    {xs : List α} (hrt : ∀ x ∈ xs, RoundTrips enc dec x) (hne : ∀ x ∈ xs, enc x ≠ [])
    {fuel : Nat} (hfuel : xs.length ≤ fuel) :
    many e dec fuel (xs.map enc).flatten = .ok xs := by
  induction xs generalizing fuel with
  | nil => simp
  | cons x xs ih =>
      -- the head item consumes its own encoding and leaves the others' to the loop
      obtain ⟨fuel, rfl⟩ : ∃ f, fuel = f + 1 := ⟨fuel - 1, by simp at hfuel; omega⟩
      have hx : enc x ++ (xs.map enc).flatten ≠ [] := by simp [hne x (by simp)]
      have ih' := ih (fun y hy => hrt y (by simp [hy])) (fun y hy => hne y (by simp [hy]))
        (by simp at hfuel; omega)
      rw [List.map_cons, List.flatten_cons, many_succ_of_ne_nil e dec fuel hx,
        hrt x (by simp), Except.ok_bind]
      simp [ih']

end Codec
