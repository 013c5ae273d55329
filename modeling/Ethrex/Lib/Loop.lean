/-
# `Ethrex.Lib.Loop` — a Rust `loop` over a state

A Rust `loop { .. }` whose body reads and changes some state ends in one of
three ways each time round: `break`, `continue` with the changed state, or
an early return through `?` (an error) or a panic.  The body is then a
function `σ → Outcome ε (Option σ)`: `ok none` breaks, `ok (some s')`
continues from `s'`.  `loop body fuel s` runs it at most `fuel` times and
answers `none` only when the fuel runs out.

What the loop does is proved from what one pass does.

* `Reachable body init` is the states the passes reach from `init`, and
  `Reachable.induction_on` is the invariant rule: a property of `init` that
  every pass keeps holds of every reachable state.
* A measure that every pass lowers bounds the number of passes:
  `loop_ne_none` says the loop ends (breaks, or returns early) within
  `measure init + 1` passes.
* An error the loop returns is returned by a pass on a reachable state
  (`Reachable.of_loop_err`), so what the invariant rule proves of the
  reachable states locates it.
* A loop with `checked_*` arithmetic against the same loop with none: what
  the first reaches the second reaches (`Reachable.mono`), a break of the
  first is a break of the second (`loop_ok_of_refines`), and where the
  second's states never fail the first the two are one (`loop_congr`).
-/
import Ethrex.Lib.Outcome

namespace Outcome

variable {ε σ : Type} (body : σ → Outcome ε (Option σ))

/-- A `loop` with `break`, `continue` and early returns, run with `fuel`
passes at most. -/
def loop : Nat → σ → Option (Outcome ε σ)
  | 0, _ => none
  | fuel + 1, s =>
    match body s with
    | .ok none => some (.ok s)
    | .ok (some s') => loop fuel s'
    | .err e => some (.err e)
    | .panic => some .panic

/-- The states the loop's passes reach from `init`. -/
inductive Reachable (init : σ) : σ → Prop
  | init : Reachable init init
  | step {s s' : σ} : Reachable init s → body s = .ok (some s') → Reachable init s'

variable {body}

/-- The invariant rule: true of `init` and kept by every pass, true of every
reachable state. -/
theorem Reachable.induction_on {init s : σ} (P : σ → Prop) (hs : Reachable body init s)
    (hinit : P init)
    (hstep : ∀ s s', Reachable body init s → P s → body s = .ok (some s') → P s') : P s := by
  induction hs with
  | init => exact hinit
  | step hreach hbody ih => exact hstep _ _ hreach ih hbody

theorem Reachable.trans {init s t : σ} (hs : Reachable body init s) (ht : Reachable body s t) :
    Reachable body init t := by
  induction ht with
  | init => exact hs
  | step _ hbody ih => exact ih.step hbody

@[simp] theorem loop_zero (s : σ) : loop body 0 s = none := rfl

theorem loop_succ (fuel : Nat) (s : σ) :
    loop body (fuel + 1) s =
      match body s with
      | .ok none => some (.ok s)
      | .ok (some s') => loop body fuel s'
      | .err e => some (.err e)
      | .panic => some .panic := rfl

/-- A measure that every pass from a reachable state lowers ends the loop
within `measure init + 1` passes. -/
theorem loop_ne_none {init : σ} (measure : σ → Nat)
    (hdec : ∀ s s', Reachable body init s → body s = .ok (some s') → measure s' < measure s) :
    ∀ fuel s, Reachable body init s → measure s < fuel → loop body fuel s ≠ none := by
  intro fuel
  induction fuel with
  | zero =>
    intro s _ hfuel
    omega
  | succ fuel ih =>
    intro s hs hfuel
    rw [loop_succ]
    split
    · exact Option.some_ne_none _
    · rename_i s' hbody
      -- a pass that continues lowers the measure, so the rest of the fuel suffices
      have hlt := hdec s s' hs hbody
      exact ih s' (hs.step hbody) (by omega)
    · exact Option.some_ne_none _
    · exact Option.some_ne_none _

theorem Reachable.of_loop_err {fuel : Nat} {init : σ} {e : ε} (h : loop body fuel init = some (.err e)) :
    ∃ s, Reachable body init s ∧ body s = .err e := by
  induction fuel generalizing init with
  | zero => cases h
  | succ fuel ih =>
    rw [loop_succ] at h
    split at h
    · cases h
    · rename_i s' hbody
      obtain ⟨s, hreach, herr⟩ := ih h
      exact ⟨s, (Reachable.init.step hbody).trans hreach, herr⟩
    · -- the first pass fails
      rename_i e' hbody
      cases h
      exact ⟨init, .init, hbody⟩
    · cases h

/-! ### Two bodies

A loop whose passes, where they do not fail, are passes of a second loop
(`body s = ok r → body' s = ok r`) is that loop with early returns added: the
Rust code with `checked_*` arithmetic against the same loop over unbounded
integers.  Where it does not fail it reaches what the second reaches and
breaks where the second breaks; where the second's states never make it
fail, the two loops are one. -/

section Refines

variable {body' : σ → Outcome ε (Option σ)}

theorem Reachable.mono (href : ∀ s r, body s = .ok r → body' s = .ok r) {init s : σ}
    (h : Reachable body init s) : Reachable body' init s := by
  induction h with
  | init => exact .init
  | step _ hbody ih => exact ih.step (href _ _ hbody)

theorem loop_ok_of_refines (href : ∀ s r, body s = .ok r → body' s = .ok r) {fuel : Nat}
    {init s : σ} (h : loop body fuel init = some (.ok s)) : loop body' fuel init = some (.ok s) := by
  induction fuel generalizing init with
  | zero => cases h
  | succ fuel ih =>
    rw [loop_succ] at h
    rw [loop_succ]
    split at h
    · rename_i hbody
      rw [href _ _ hbody]
      exact h
    · rename_i s' hbody
      rw [href _ _ hbody]
      exact ih h
    · cases h
    · cases h

theorem loop_congr {init : σ} (hagree : ∀ s, Reachable body' init s → body s = body' s) :
    ∀ fuel s, Reachable body' init s → loop body fuel s = loop body' fuel s := by
  intro fuel
  induction fuel with
  | zero => intro s _; rfl
  | succ fuel ih =>
    intro s hs
    rw [loop_succ, loop_succ, hagree s hs]
    split
    · rfl
    · -- the pass continues on both sides, from a state the second reaches
      rename_i s' hbody
      exact ih s' (hs.step hbody)
    · rfl
    · rfl

end Refines

theorem loop_eq_of_eq_some {fuel fuel' : Nat} {init : σ} {r r' : Outcome ε σ}
    (h : loop body fuel init = some r) (h' : loop body fuel' init = some r') : r = r' := by
  induction fuel generalizing fuel' init with
  | zero => cases h
  | succ fuel ih =>
    cases fuel' with
    | zero => cases h'
    | succ fuel' =>
      rw [loop_succ] at h h'
      split at h
      · rename_i hbody
        rw [hbody] at h'
        exact Option.some.inj (h.symm.trans h')
      · rename_i s' hbody
        rw [hbody] at h'
        exact ih h h'
      · rename_i e hbody
        rw [hbody] at h'
        exact Option.some.inj (h.symm.trans h')
      · rename_i hbody
        rw [hbody] at h'
        exact Option.some.inj (h.symm.trans h')

end Outcome
