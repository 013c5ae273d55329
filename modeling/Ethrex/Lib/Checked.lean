/-
# `Ethrex.Lib.Checked` — fixed-width arithmetic that reports overflow

Rust's `checked_add`, `checked_sub`, `checked_mul`, `checked_div` and
`checked_next_multiple_of` on a `w`-bit unsigned type, over `Nat`: `none`
exactly where the machine result would leave the type.  `Option.okOr` is
`ok_or`, which turns the `none` into the error the caller propagates with
`?`.

`nextMultipleOf` follows the standard library's implementation (`self` when
it divides, else `self + (m - self % m)` checked); what it returns is the
round-up `(a + m - 1) / m * m` (`nextMultipleOf_eq_some`), and the lemmas
after it are what the callers use: a multiple of `m`, not below `a`, less
than `m` above it.
-/
import Mathlib.Data.Nat.Basic
import Ethrex.Lib.Except

namespace Checked

/-- `checked_add` on `w` bits. -/
def add (w a b : Nat) : Option Nat := if a + b < 2 ^ w then some (a + b) else none

/-- `checked_sub` on an unsigned type. -/
def sub (a b : Nat) : Option Nat := if b ≤ a then some (a - b) else none

/-- `checked_mul` on `w` bits. -/
def mul (w a b : Nat) : Option Nat := if a * b < 2 ^ w then some (a * b) else none

/-- `checked_pow` on `w` bits. -/
def pow (w a b : Nat) : Option Nat := if a ^ b < 2 ^ w then some (a ^ b) else none

/-- `checked_rem` on an unsigned type: `none` for a zero divisor. -/
def rem (a b : Nat) : Option Nat := if b = 0 then none else some (a % b)

/-- `checked_div` on an unsigned type: `none` for a zero divisor. -/
def div (a b : Nat) : Option Nat := if b = 0 then none else some (a / b)

/-- `checked_next_multiple_of` on `w` bits. -/
def nextMultipleOf (w a m : Nat) : Option Nat :=
  if m = 0 then none
  else if a % m = 0 then some a
  else add w a (m - a % m)

variable {w a b c m : Nat}

@[simp] theorem add_eq_some_iff : add w a b = some c ↔ a + b < 2 ^ w ∧ a + b = c := by
  unfold add
  split_ifs with h <;> simp [h]

@[simp] theorem add_eq_none_iff : add w a b = none ↔ 2 ^ w ≤ a + b := by
  unfold add
  split_ifs with h
  · simp
    omega
  · simp
    omega

@[simp] theorem sub_eq_some_iff : sub a b = some c ↔ b ≤ a ∧ a - b = c := by
  unfold sub
  split_ifs with h <;> simp [h]

@[simp] theorem sub_eq_none_iff : sub a b = none ↔ a < b := by
  unfold sub
  split_ifs with h
  · simp
    omega
  · simp
    omega

@[simp] theorem mul_eq_some_iff : mul w a b = some c ↔ a * b < 2 ^ w ∧ a * b = c := by
  unfold mul
  split_ifs with h <;> simp [h]

theorem add_of_lt (h : a + b < 2 ^ w) : add w a b = some (a + b) := if_pos h

theorem sub_of_le (h : b ≤ a) : sub a b = some (a - b) := if_pos h

theorem pow_of_lt (h : a ^ b < 2 ^ w) : pow w a b = some (a ^ b) := if_pos h

theorem mul_of_lt (h : a * b < 2 ^ w) : mul w a b = some (a * b) := if_pos h

theorem rem_of_ne_zero (h : b ≠ 0) : rem a b = some (a % b) := if_neg h

theorem div_of_ne_zero (h : b ≠ 0) : div a b = some (a / b) := if_neg h

@[simp] theorem div_eq_some_iff : div a b = some c ↔ b ≠ 0 ∧ a / b = c := by
  unfold div
  split_ifs with h <;> simp [h]

/-- The round-up of `a` to a multiple of `m`. -/
def roundUp (a m : Nat) : Nat := (a + m - 1) / m * m

theorem roundUp_of_dvd (hm : 0 < m) (h : a % m = 0) : roundUp a m = a := by
  unfold roundUp
  obtain ⟨k, rfl⟩ := Nat.dvd_of_mod_eq_zero h
  have hk : (m * k + m - 1) / m = k := by
    apply Nat.div_eq_of_lt_le
    · rw [Nat.mul_comm]
      omega
    · rw [Nat.add_mul, Nat.one_mul, Nat.mul_comm]
      omega
  rw [hk, Nat.mul_comm]

theorem roundUp_of_not_dvd (hm : 0 < m) (h : a % m ≠ 0) : roundUp a m = a + (m - a % m) := by
  unfold roundUp
  have hdiv := Nat.div_add_mod a m
  have hlt := Nat.mod_lt a hm
  have hq : (a + m - 1) / m = a / m + 1 := by
    apply Nat.div_eq_of_lt_le
    · rw [Nat.add_mul, Nat.one_mul, Nat.mul_comm]
      omega
    · rw [Nat.add_mul, Nat.add_mul, Nat.one_mul, Nat.mul_comm]
      omega
  rw [hq, Nat.add_mul, Nat.one_mul, Nat.mul_comm]
  omega

theorem nextMultipleOf_eq_some {r : Nat} (h : nextMultipleOf w a m = some r) : r = roundUp a m := by
  unfold nextMultipleOf at h
  have hm : 0 < m := by
    rcases Nat.eq_zero_or_pos m with rfl | hm
    · simp at h
    · exact hm
  rw [if_neg (by omega)] at h
  by_cases hd : a % m = 0
  · rw [if_pos hd, Option.some.injEq] at h
    rw [← h, roundUp_of_dvd hm hd]
  · rw [if_neg hd, add_eq_some_iff] at h
    rw [← h.2, roundUp_of_not_dvd hm hd]

theorem dvd_roundUp (m a : Nat) : m ∣ roundUp a m := Nat.dvd_mul_left m _

theorem le_roundUp (hm : 0 < m) (a : Nat) : a ≤ roundUp a m := by
  by_cases h : a % m = 0
  · rw [roundUp_of_dvd hm h]
  · rw [roundUp_of_not_dvd hm h]
    omega

theorem roundUp_lt (hm : 0 < m) (a : Nat) : roundUp a m < a + m := by
  by_cases h : a % m = 0
  · rw [roundUp_of_dvd hm h]
    omega
  · rw [roundUp_of_not_dvd hm h]
    have := Nat.mod_lt a hm
    omega

theorem roundUp_le (hm : 0 < m) (hb : m ∣ b) (hab : a ≤ b) : roundUp a m ≤ b := by
  obtain ⟨k, rfl⟩ := hb
  obtain ⟨j, hj⟩ := dvd_roundUp m a
  have hlt := roundUp_lt hm a
  rw [hj] at hlt ⊢
  have hjk : j < k + 1 := by
    by_contra hc
    have : m * (k + 1) ≤ m * j := Nat.mul_le_mul_left m (by omega)
    rw [Nat.mul_add, Nat.mul_one] at this
    omega
  exact Nat.mul_le_mul_left m (by omega)

end Checked

namespace Option

variable {ε α : Type}

/-- `Option::ok_or`. -/
def okOr (o : Option α) (e : ε) : Except ε α :=
  match o with
  | some a => .ok a
  | none => .error e

@[simp] theorem okOr_some (a : α) (e : ε) : (some a).okOr e = .ok a := rfl

@[simp] theorem okOr_none (e : ε) : (none : Option α).okOr e = .error e := rfl

theorem okOr_eq_ok {o : Option α} {e : ε} {a : α} : o.okOr e = .ok a ↔ o = some a := by
  cases o <;> simp [okOr]

theorem okOr_ite_bind {β : Type} (c : Prop) [Decidable c] (a : α) (e : ε) (f : α → Except ε β) :
    ((if c then some a else none).okOr e >>= f) = if c then f a else .error e := by
  split_ifs <;> rfl

end Option

namespace Checked

theorem foldlM_add_of_lt {α ε : Type} {w : Nat} (cost : α → Nat) (e : ε) :
    ∀ (l : List α) (a : Nat), a + (l.map cost).sum < 2 ^ w →
      l.foldlM (fun acc x => (add w acc (cost x)).okOr e) a = .ok (a + (l.map cost).sum)
  | [], a, _ => by simp
  | x :: l, a, h => by
    simp only [List.map_cons, List.sum_cons] at h
    rw [List.foldlM_cons, add_of_lt (by omega), Option.okOr_some, Except.ok_bind,
      foldlM_add_of_lt cost e l (a + cost x) (by omega), List.map_cons, List.sum_cons, Nat.add_assoc]

end Checked
