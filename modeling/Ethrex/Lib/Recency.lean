/-
# `Ethrex.Lib.Recency` — a list kept in the order its elements were added

A list that grows only by appending at its end and shrinks only to a
sublist (dropping the oldest entry, filtering, popping the last) lists its
elements in the order in which they were added, so its last element is the
most recently added.  Steps are numbered from `0`, and `added k a` says that
step `k` appended `a`.  `Stamped added n xs` pairs each element of `xs` with
a step before `n` that appended it, with no step after it before `n`
appending it again: the step of its last addition.  The steps increase
along the list.

* `stamped_nil`: the empty list, at any step; `Stamped.congr`: only the
  additions before step `n` matter.
* `Stamped.sublist`: a step that keeps a sublist and appends none of it
  keeps the stamps.
* `Stamped.append`: a step that appends `a` to a sublist stamps `a` with
  its own number.
* `Stamped.last_newest`: every other element of the list was last added
  before the last element was.
-/
import Mathlib.Data.List.Nodup

namespace Recency

variable {α : Type} (added : Nat → α → Prop)

/-- The elements of `xs` after `n` steps, each stamped with the step of
its last addition, the stamps increasing along the list. -/
def Stamped (n : Nat) (xs : List α) : Prop :=
  ∃ L : List (α × Nat), L.map Prod.fst = xs ∧ (L.map Prod.snd).Pairwise (· < ·) ∧
    ∀ e ∈ L, e.2 < n ∧ added e.2 e.1 ∧ ∀ k, e.2 < k → k < n → ¬ added k e.1

variable {added} {n : Nat} {xs ys : List α} {a : α}

theorem stamped_nil (n : Nat) : Stamped added n [] :=
  ⟨[], rfl, .nil, fun _ h => absurd h List.not_mem_nil⟩

theorem Stamped.congr {added' : Nat → α → Prop} (h : Stamped added n xs)
    (hagree : ∀ k < n, ∀ a, added k a ↔ added' k a) : Stamped added' n xs := by
  obtain ⟨L, hL, hsorted, hstamps⟩ := h
  refine ⟨L, hL, hsorted, fun e he => ?_⟩
  obtain ⟨hlt, hadded, hlast⟩ := hstamps e he
  exact ⟨hlt, (hagree _ hlt _).mp hadded,
    fun k hk hkn hk' => hlast k hk hkn ((hagree k hkn _).mpr hk')⟩

theorem Stamped.sublist_stamps (h : Stamped added n xs) (hys : ys.Sublist xs)
    (hnew : ∀ b ∈ ys, ¬ added n b) :
    ∃ L : List (α × Nat), L.map Prod.fst = ys ∧ (L.map Prod.snd).Pairwise (· < ·) ∧
      ∀ e ∈ L, e.2 < n ∧ added e.2 e.1 ∧ ∀ k, e.2 < k → k < n + 1 → ¬ added k e.1 := by
  obtain ⟨L, rfl, hsorted, hL⟩ := h
  obtain ⟨L', hsub, rfl⟩ := List.sublist_map_iff.mp hys
  refine ⟨L', rfl, hsorted.sublist (hsub.map _), fun e he => ?_⟩
  obtain ⟨hlt, hadded, hlast⟩ := hL e (hsub.subset he)
  refine ⟨hlt, hadded, fun k hk hkn => ?_⟩
  rcases Nat.lt_succ_iff_lt_or_eq.mp hkn with hkn | rfl
  · exact hlast k hk hkn
  · exact hnew e.1 (List.mem_map_of_mem he)

theorem Stamped.sublist (h : Stamped added n xs) (hys : ys.Sublist xs)
    (hnew : ∀ b ∈ ys, ¬ added n b) : Stamped added (n + 1) ys := by
  obtain ⟨L, hL, hsorted, hstamps⟩ := h.sublist_stamps hys hnew
  exact ⟨L, hL, hsorted, fun e he =>
    ⟨Nat.lt_succ_of_lt (hstamps e he).1, (hstamps e he).2.1, (hstamps e he).2.2⟩⟩

theorem Stamped.append (h : Stamped added n xs) (hys : ys.Sublist xs) (ha : added n a)
    (hnew : ∀ b ∈ ys, ¬ added n b) : Stamped added (n + 1) (ys ++ [a]) := by
  obtain ⟨L, hL, hsorted, hstamps⟩ := h.sublist_stamps hys hnew
  refine ⟨L ++ [(a, n)], by rw [List.map_append, hL]; rfl, ?_, fun e he => ?_⟩
  · -- every kept stamp is below `n`, the new one's
    rw [List.map_append, List.pairwise_append]
    refine ⟨hsorted, List.pairwise_singleton _ _, fun k hk m hm => ?_⟩
    obtain ⟨e, he, rfl⟩ := List.mem_map.mp hk
    rw [List.map_singleton, List.mem_singleton] at hm
    rw [hm]
    exact (hstamps e he).1
  · rcases List.mem_append.mp he with he | he
    · obtain ⟨hlt, hadded, hlast⟩ := hstamps e he
      exact ⟨Nat.lt_succ_of_lt hlt, hadded, hlast⟩
    · rw [List.mem_singleton] at he
      subst he
      exact ⟨Nat.lt_succ_self n, ha, fun k hk hkn => absurd hkn (by omega)⟩

/-- The last element is the most recently added: it was added at a step
after every addition of any other element. -/
theorem Stamped.last_newest (h : Stamped added n (xs ++ [a])) :
    ∃ k < n, added k a ∧ ∀ b ∈ xs, ∀ k' < n, added k' b → k' < k := by
  obtain ⟨L, hL, hsorted, hstamps⟩ := h
  obtain ⟨L', last, hsplit, hL', hlast⟩ := List.map_eq_append_iff.mp hL
  obtain ⟨e, rfl, rfl⟩ : ∃ e, last = [e] ∧ e.1 = a := by
    match last, hlast with
    | [e], h => exact ⟨e, rfl, (List.cons.inj h).1⟩
  subst hsplit
  obtain ⟨hlt, hadded, -⟩ := hstamps e (List.mem_append_right _ (List.mem_singleton_self _))
  refine ⟨e.2, hlt, hadded, fun b hb k' hk' hbk' => ?_⟩
  obtain ⟨e', he', rfl⟩ := List.mem_map.mp (hL' ▸ hb)
  -- the other element's stamp is below the last one's, and is its last addition
  have hbefore : e'.2 < e.2 := by
    rw [List.map_append, List.pairwise_append] at hsorted
    exact hsorted.2.2 _ (List.mem_map_of_mem he') _ (List.mem_map_of_mem (List.mem_singleton_self _))
  obtain ⟨-, -, hnotLater⟩ := hstamps e' (List.mem_append_left _ he')
  by_contra hge
  exact hnotLater k' (by omega) hk' hbk'

end Recency
