/-
# `Ethrex.Lib.Outcome` — results that may panic

A Rust function returns `Ok`, returns `Err`, or panics: `unwrap` on `None`,
a failed `assert_eq!`, a slice index past the end.  `Outcome ε α` is the
three, and its bind is `?`, which passes an `Err` and a panic on unchanged.
A panic is not an error value: no caller sees it, the task stops.

The helpers are the standard library's panicking operations on slices and
options.  The lemmas are the evaluation equations of bind and the two
inversion rules: a bind that returned a value, and a bind that panicked.
-/
import Mathlib.Logic.Basic

/-- What a Rust function can do. -/
inductive Outcome (ε α : Type) where
  | ok (a : α)
  | err (e : ε)
  | panic
  deriving DecidableEq, Repr

namespace Outcome

variable {ε α β : Type}

/-- `?`: go on with the value, pass an `Err` or a panic on. -/
def bind : Outcome ε α → (α → Outcome ε β) → Outcome ε β
  | ok a, f => f a
  | err e, _ => err e
  | panic, _ => panic

instance : Monad (Outcome ε) where
  pure := ok
  bind := bind

instance : MonadExceptOf ε (Outcome ε) where
  throw := err
  tryCatch x h := match x with
    | err e => h e
    | x => x

/-- `Option::unwrap`, and `Result::unwrap` of a result whose error is dropped. -/
def unwrap : Option α → Outcome ε α
  | some a => ok a
  | none => panic

/-- `assert!` and `assert_eq!`: go on when the condition holds. -/
def assert (c : Bool) : Outcome ε Unit := if c then ok () else panic

/-- A computation that cannot panic. -/
def ofExcept : Except ε α → Outcome ε α
  | .ok a => ok a
  | .error e => err e

/-- `Result::map_err`: a panic stays a panic. -/
def mapError {ε' : Type} (f : ε → ε') : Outcome ε α → Outcome ε' α
  | ok a => ok a
  | err e => err (f e)
  | panic => panic

/-- `<[T]>::split_at`: panics when the index is past the end. -/
def splitAt (l : List α) (n : Nat) : Outcome ε (List α × List α) :=
  if n ≤ l.length then ok (l.take n, l.drop n) else panic

/-- `&l[a..b]`: panics unless `a ≤ b ≤ l.len()`. -/
def slice (l : List α) (a b : Nat) : Outcome ε (List α) :=
  if a ≤ b ∧ b ≤ l.length then ok ((l.take b).drop a) else panic

/-- `a - b` on `usize` in a build with overflow checks: panics below zero. -/
def sub (a b : Nat) : Outcome ε Nat := if b ≤ a then ok (a - b) else panic

@[simp] theorem ok_bind (a : α) (f : α → Outcome ε β) : (ok a >>= f) = f a := rfl

@[simp] theorem err_bind (e : ε) (f : α → Outcome ε β) : (err e >>= f) = err e := rfl

@[simp] theorem panic_bind (f : α → Outcome ε β) : ((panic : Outcome ε α) >>= f) = panic := rfl

@[simp] theorem pure_eq_ok (a : α) : (pure a : Outcome ε α) = ok a := rfl

@[simp] theorem throw_eq_err (e : ε) : (throw e : Outcome ε α) = err e := rfl

@[simp] theorem unwrap_some (a : α) : (unwrap (some a) : Outcome ε α) = ok a := rfl

@[simp] theorem unwrap_none : (unwrap none : Outcome ε α) = panic := rfl

@[simp] theorem assert_true : (assert true : Outcome ε Unit) = ok () := rfl

@[simp] theorem assert_false : (assert false : Outcome ε Unit) = panic := rfl

@[simp] theorem ofExcept_ok (a : α) : (ofExcept (.ok a) : Outcome ε α) = ok a := rfl

@[simp] theorem ofExcept_error (e : ε) : (ofExcept (.error e : Except ε α)) = err e := rfl

@[simp] theorem mapError_ok {ε' : Type} (f : ε → ε') (a : α) : (ok a).mapError f = ok a := rfl

@[simp] theorem mapError_panic {ε' : Type} (f : ε → ε') : (panic : Outcome ε α).mapError f = panic := rfl

theorem splitAt_of_le {l : List α} {n : Nat} (h : n ≤ l.length) :
    (splitAt l n : Outcome ε _) = ok (l.take n, l.drop n) := if_pos h

theorem splitAt_of_lt {l : List α} {n : Nat} (h : l.length < n) :
    (splitAt l n : Outcome ε _) = panic := if_neg (Nat.not_le.mpr h)

theorem slice_of_lt {l : List α} {a b : Nat} (h : l.length < b) :
    (slice l a b : Outcome ε _) = panic := if_neg (fun h' => absurd h'.2 (Nat.not_le.mpr h))

theorem slice_of_gt {l : List α} {a b : Nat} (h : b < a) : (slice l a b : Outcome ε _) = panic :=
  if_neg (fun h' => absurd h'.1 (Nat.not_le.mpr h))

theorem slice_of_le {l : List α} {a b : Nat} (hab : a ≤ b) (hb : b ≤ l.length) :
    (slice l a b : Outcome ε _) = ok ((l.take b).drop a) := if_pos ⟨hab, hb⟩

theorem sub_of_le {a b : Nat} (h : b ≤ a) : (sub a b : Outcome ε Nat) = ok (a - b) := if_pos h

theorem sub_of_lt {a b : Nat} (h : a < b) : (sub a b : Outcome ε Nat) = panic :=
  if_neg (Nat.not_le.mpr h)

theorem mapError_eq_ok {ε' : Type} {f : ε → ε'} {x : Outcome ε α} {a : α} :
    x.mapError f = ok a ↔ x = ok a := by
  cases x <;> simp [mapError]

theorem ofExcept_ne_panic (x : Except ε α) : ofExcept x ≠ panic := by
  cases x <;> simp [ofExcept]

theorem bind_eq_ok {x : Outcome ε α} {f : α → Outcome ε β} {b : β} :
    (x >>= f) = ok b ↔ ∃ a, x = ok a ∧ f a = ok b := by
  cases x with
  | ok a => simp
  | err e => exact ⟨fun h => (nomatch h), fun ⟨_, h, _⟩ => (nomatch h)⟩
  | panic => simp

theorem bind_eq_panic {x : Outcome ε α} {f : α → Outcome ε β} :
    (x >>= f) = panic ↔ x = panic ∨ ∃ a, x = ok a ∧ f a = panic := by
  cases x with
  | ok a => simp
  | err e => exact ⟨fun h => (nomatch h), fun h => by rcases h with h | ⟨_, h, _⟩ <;> exact (nomatch h)⟩
  | panic => simp

end Outcome
