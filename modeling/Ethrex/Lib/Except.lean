/-
# `Ethrex.Lib.Except` — evaluating `Except` computations

A Rust function that returns `Result` and propagates with `?` is an `Except`
computation in a `do` block.  Core Lean states the monad laws for `ExceptT`
but not the evaluation equations of `Except` itself, so `simp` cannot step
through `x >>= f` once `x` is known.  These are those equations, and the
inversion rule for a successful bind that every "the decoder returned
`Ok`, so each `?` succeeded" argument goes through.
-/
import Mathlib

namespace Except

variable {ε α β : Type}

@[simp] theorem ok_bind (a : α) (f : α → Except ε β) : (Except.ok a >>= f) = f a := rfl

@[simp] theorem error_bind (e : ε) (f : α → Except ε β) :
    (Except.error e >>= f) = Except.error e := rfl

@[simp] theorem pure_eq_ok (a : α) : (pure a : Except ε α) = Except.ok a := rfl

@[simp] theorem throw_eq_error (e : ε) : (throw e : Except ε α) = Except.error e := rfl

@[simp] theorem map_ok_eq (f : α → β) (a : α) :
    (Except.ok a : Except ε α).map f = Except.ok (f a) := rfl

@[simp] theorem map_error_eq (f : α → β) (e : ε) :
    (Except.error e : Except ε α).map f = Except.error e := rfl

theorem bind_eq_ok {x : Except ε α} {f : α → Except ε β} {b : β} :
    (x >>= f) = Except.ok b ↔ ∃ a, x = Except.ok a ∧ f a = Except.ok b := by
  cases x with
  | error e => simp
  | ok a => simp

theorem map_eq_ok {x : Except ε α} {f : α → β} {b : β} :
    x.map f = Except.ok b ↔ ∃ a, x = Except.ok a ∧ f a = b := by
  cases x with
  | error e => simp
  | ok a => simp

theorem mapError_eq_ok {ε' : Type} {x : Except ε α} {f : ε → ε'} {a : α} :
    x.mapError f = Except.ok a ↔ x = Except.ok a := by
  cases x with
  | error e => simp [Except.mapError]
  | ok a => simp [Except.mapError]

theorem mapM_eq_ok {f : α → Except ε β} {g : α → β} (hf : ∀ a b, f a = .ok b → b = g a) :
    ∀ {l : List α} {bs : List β}, l.mapM f = .ok bs → bs = l.map g
  | [], bs, h => by
    rw [List.mapM_nil, pure_eq_ok, Except.ok.injEq] at h
    rw [← h, List.map_nil]
  | a :: l, bs, h => by
    rw [List.mapM_cons] at h
    obtain ⟨b, hb, h⟩ := bind_eq_ok.mp h
    obtain ⟨bs', hbs', h⟩ := bind_eq_ok.mp h
    rw [pure_eq_ok, Except.ok.injEq] at h
    rw [← h, List.map_cons, hf a b hb, mapM_eq_ok hf hbs']

theorem foldlM_range_succ (f : β → Nat → Except ε β) (b : β) (n : Nat) :
    (List.range (n + 1)).foldlM f b = (List.range n).foldlM f b >>= fun c => f c n := by
  rw [List.range_succ, List.foldlM_append]
  congr 1
  funext c
  rw [List.foldlM_cons]
  cases f c n <;> rfl

end Except
