/-
# `Ethrex.Lib.SortedVec` — a vector kept sorted by binary search

A `Vec` is kept sorted in Rust by sorting it once (`slice::sort`) and then
inserting each new element where `binary_search` says: at the index of an
element it found equal, or at the index where the element would go.  This
module is those three operations over a comparison `cmp : α → α → Ordering`
that is a total preorder (`Std.TransCmp`): two elements may compare `Equal`
without being the same element.

* `binarySearchBy` is the loop of `<[T]>::binary_search_by` in Rust 1.81:
  `left` and `right` close in, everything before `left` answering `Less`
  and everything from `right` on answering `Greater`.  On a sorted vector
  its `Ok` index holds an equal element and its `Err` index splits the
  vector into the smaller elements and the greater ones
  (`binarySearch_ok`, `binarySearch_error`).
* An insertion at either index keeps the vector sorted
  (`sorted_insertIdx_binarySearch`).
* `slice::sort` is stable, and a stable sort by a total preorder has one
  result: `sort`, an insertion sort, computes it (`sorted_sort`,
  `perm_sort`).
* The first element of a sorted vector is no greater than any other
  (`Sorted.isLE_head`): what `peek` on such a vector relies on.
-/
import Mathlib.Data.List.Sort

namespace SortedVec

open Std

variable {α : Type} (cmp : α → α → Ordering)

/-- `a` goes no later than `b`: `cmp a b` is not `Greater`. -/
def LE (a b : α) : Prop := (cmp a b).isLE

instance : DecidableRel (LE cmp) := fun a b => inferInstanceAs (Decidable ((cmp a b).isLE = true))

/-- Sorted by `cmp`: no element goes after one that follows it. -/
def Sorted (l : List α) : Prop := l.Pairwise (LE cmp)

/-- `slice::sort`. -/
def sort (l : List α) : List α := l.insertionSort (LE cmp)

/-- The loop of `<[T]>::binary_search_by` (Rust 1.81).  The fuel stands for
`right - left`, which each turn lowers. -/
def binarySearchBy.go (l : List α) (f : α → Ordering) : Nat → Nat → Nat → Except Nat Nat
  | 0, left, _ => .error left
  | fuel + 1, left, right =>
    if left < right then
      let mid := left + (right - left) / 2
      match l[mid]? with
      -- `get_unchecked`: `right ≤ l.len()` keeps `mid` in bounds
      | none => .error left
      | some x =>
        match f x with
        | .lt => binarySearchBy.go l f fuel (mid + 1) right
        | .gt => binarySearchBy.go l f fuel left mid
        | .eq => .ok mid
    else .error left

/-- `<[T]>::binary_search_by`: `Ok` of an index whose element `f` calls
`Equal`, or `Err` of the index where such an element would go. -/
def binarySearchBy (l : List α) (f : α → Ordering) : Except Nat Nat :=
  binarySearchBy.go l f l.length 0 l.length

/-- `<[T]>::binary_search`: the search by comparison with `x`. -/
def binarySearch (l : List α) (x : α) : Except Nat Nat := binarySearchBy l fun y => cmp y x

/-- The index `binary_search` returns, found or not: where `Vec::insert`
puts a new element. -/
def Except.index : Except Nat Nat → Nat
  | .ok i => i
  | .error i => i

variable {cmp} [TransCmp cmp]

/-! ## The order -/

instance : Std.Total (LE cmp) where
  total a b := by
    unfold LE
    cases h : cmp a b
    · exact .inl rfl
    · exact .inl rfl
    · exact .inr (Ordering.isLE_of_eq_lt (OrientedCmp.lt_of_gt h))

instance : IsTrans α (LE cmp) where
  trans _ _ _ := TransCmp.isLE_trans

theorem LE.refl (a : α) : LE cmp a a := ReflCmp.isLE_rfl

/-! ## Sorted vectors -/

theorem Sorted.isLE_head {a : α} {l : List α} (h : Sorted cmp (a :: l)) :
    ∀ b ∈ a :: l, LE cmp a b := by
  intro b hb
  rcases List.mem_cons.mp hb with rfl | hb
  · exact LE.refl b
  · exact List.rel_of_pairwise_cons h hb

omit [TransCmp cmp] in
theorem Sorted.tail {l : List α} (h : Sorted cmp l) : Sorted cmp l.tail := List.Pairwise.tail h

theorem Sorted.isLE_of_getElem? {l : List α} (h : Sorted cmp l) {i j : Nat} {a b : α}
    (hij : i ≤ j) (ha : l[i]? = some a) (hb : l[j]? = some b) : (cmp a b).isLE := by
  rcases Nat.eq_or_lt_of_le hij with rfl | hlt
  · rw [ha, Option.some.injEq] at hb
    subst hb
    exact ReflCmp.isLE_rfl
  · obtain ⟨hi, rfl⟩ := List.getElem?_eq_some_iff.mp ha
    obtain ⟨hj, rfl⟩ := List.getElem?_eq_some_iff.mp hb
    exact List.pairwise_iff_getElem.mp h i j hi hj hlt

theorem sorted_sort (l : List α) : Sorted cmp (sort cmp l) := List.pairwise_insertionSort _ l

omit [TransCmp cmp] in
theorem perm_sort (l : List α) : (sort cmp l).Perm l := List.perm_insertionSort _ l

omit [TransCmp cmp] in
theorem insertIdx_eq_take_append_drop {l : List α} {x : α} {i : Nat} (hi : i ≤ l.length) :
    l.insertIdx i x = l.take i ++ x :: l.drop i := by
  induction l generalizing i with
  | nil =>
    have hi0 : i = 0 := by simp at hi; omega
    subst hi0
    rfl
  | cons a l ih =>
    cases i with
    | zero => rfl
    | succ i =>
      rw [List.insertIdx_succ_cons, ih (by simp at hi; omega)]
      rfl

omit [TransCmp cmp] in
theorem sorted_insertIdx {l : List α} {x : α} {i : Nat} (h : Sorted cmp l) (hi : i ≤ l.length)
    (hbefore : ∀ y ∈ l.take i, LE cmp y x) (hafter : ∀ y ∈ l.drop i, LE cmp x y) :
    Sorted cmp (l.insertIdx i x) := by
  have hsplit := List.take_append_drop i l
  rw [← hsplit, Sorted, List.pairwise_append] at h
  obtain ⟨htake, hdrop, hcross⟩ := h
  rw [insertIdx_eq_take_append_drop hi, Sorted, List.pairwise_append, List.pairwise_cons]
  refine ⟨htake, ⟨hafter, hdrop⟩, ?_⟩
  intro a ha b hb
  rcases List.mem_cons.mp hb with rfl | hb
  · exact hbefore a ha
  · exact hcross a ha b hb

/-! ## The search -/

section Search

variable {l : List α} {x : α}

/-- The loop's answer on a sorted vector: an equal element at an `Ok`
index; at an `Err` index, the smaller elements before it and the greater
ones from it on.  The two sides are the loop's invariant, carried as
hypotheses over `left` and `right`. -/
theorem binarySearchBy.go_spec (h : Sorted cmp l) :
    ∀ fuel left right, left ≤ right → right ≤ l.length → right - left ≤ fuel →
      (∀ j y, j < left → l[j]? = some y → cmp y x = .lt) →
      (∀ j y, right ≤ j → l[j]? = some y → cmp y x = .gt) →
      match binarySearchBy.go l (fun y => cmp y x) fuel left right with
      | .ok i => ∃ y, l[i]? = some y ∧ cmp y x = .eq
      | .error i => i ≤ l.length ∧ (∀ j y, j < i → l[j]? = some y → cmp y x = .lt) ∧
          (∀ j y, i ≤ j → l[j]? = some y → cmp y x = .gt) := by
  intro fuel
  induction fuel with
  | zero =>
    intro left right hlr hright hfuel hlow hhigh
    -- no fuel: `left` and `right` have met
    have hmeet : left = right := by omega
    subst hmeet
    exact ⟨hright, hlow, hhigh⟩
  | succ fuel ih =>
    intro left right hlr hright hfuel hlow hhigh
    rw [binarySearchBy.go]
    by_cases hlt : left < right
    · rw [if_pos hlt]
      have hmid : left + (right - left) / 2 < l.length := by omega
      obtain ⟨y, hy⟩ : ∃ y, l[left + (right - left) / 2]? = some y :=
        ⟨_, List.getElem?_eq_getElem hmid⟩
      dsimp only
      rw [hy]
      dsimp only
      cases hcmp : cmp y x with
      | lt =>
        -- everything up to `mid` is below `x`: it is no greater than `y`
        refine ih _ right (by omega) hright (by omega) ?_ hhigh
        intro j z hj hz
        by_cases hjl : j < left
        · exact hlow j z hjl hz
        · exact TransCmp.lt_of_isLE_of_lt (h.isLE_of_getElem? (by omega) hz hy) hcmp
      | gt =>
        -- everything from `mid` on is above `x`: it is no smaller than `y`
        refine ih left _ (by omega) (by omega) (by omega) hlow ?_
        intro j z hj hz
        exact TransCmp.gt_of_isGE_of_gt
          (OrientedCmp.isGE_of_isLE (h.isLE_of_getElem? hj hy hz)) hcmp
      | eq => exact ⟨y, hy, hcmp⟩
    · rw [if_neg hlt]
      have hmeet : left = right := by omega
      subst hmeet
      exact ⟨hright, hlow, hhigh⟩

theorem binarySearch_spec (h : Sorted cmp l) :
    match binarySearch cmp l x with
    | .ok i => ∃ y, l[i]? = some y ∧ cmp y x = .eq
    | .error i => i ≤ l.length ∧ (∀ j y, j < i → l[j]? = some y → cmp y x = .lt) ∧
        (∀ j y, i ≤ j → l[j]? = some y → cmp y x = .gt) := by
  refine binarySearchBy.go_spec h l.length 0 l.length (Nat.zero_le _) le_rfl (by omega) ?_ ?_
  · intro j y hj _
    omega
  · intro j y hj hy
    rw [List.getElem?_eq_none hj] at hy
    cases hy

theorem binarySearch_ok (h : Sorted cmp l) {i : Nat} (hi : binarySearch cmp l x = .ok i) :
    ∃ y, l[i]? = some y ∧ cmp y x = .eq := by
  have hspec := binarySearch_spec (x := x) h
  rw [hi] at hspec
  exact hspec

theorem binarySearch_error (h : Sorted cmp l) {i : Nat} (hi : binarySearch cmp l x = .error i) :
    i ≤ l.length ∧ (∀ j y, j < i → l[j]? = some y → cmp y x = .lt) ∧
      (∀ j y, i ≤ j → l[j]? = some y → cmp y x = .gt) := by
  have hspec := binarySearch_spec (x := x) h
  rw [hi] at hspec
  exact hspec

theorem exists_getElem?_of_mem_take {i : Nat} {y : α} (hy : y ∈ l.take i) :
    ∃ j, j < i ∧ l[j]? = some y := by
  obtain ⟨j, hj, rfl⟩ := List.getElem_of_mem hy
  rw [List.length_take] at hj
  exact ⟨j, by omega, by rw [List.getElem_take]; exact List.getElem?_eq_getElem (by omega)⟩

theorem exists_getElem?_of_mem_drop {i : Nat} {y : α} (hy : y ∈ l.drop i) :
    ∃ j, i ≤ j ∧ l[j]? = some y := by
  obtain ⟨j, hj, rfl⟩ := List.getElem_of_mem hy
  rw [List.length_drop] at hj
  exact ⟨i + j, by omega, by rw [List.getElem_drop]; exact List.getElem?_eq_getElem (by omega)⟩

/-- Inserting at the index `binary_search` returns keeps a sorted vector
sorted, whether it found an equal element or not. -/
theorem sorted_insertIdx_binarySearch (h : Sorted cmp l) :
    Sorted cmp (l.insertIdx (Except.index (binarySearch cmp l x)) x) := by
  cases hsearch : binarySearch cmp l x with
  | ok i =>
    -- an equal element at `i`: what is before it is no greater, what follows no smaller
    obtain ⟨y, hy, hyx⟩ := binarySearch_ok h hsearch
    have hi : i < l.length := (List.getElem?_eq_some_iff.mp hy).1
    refine sorted_insertIdx h hi.le ?_ ?_
    · intro z hz
      obtain ⟨j, hj, hzj⟩ := exists_getElem?_of_mem_take hz
      exact TransCmp.isLE_trans (h.isLE_of_getElem? hj.le hzj hy) (Ordering.isLE_of_eq_eq hyx)
    · intro z hz
      obtain ⟨j, hj, hzj⟩ := exists_getElem?_of_mem_drop hz
      exact TransCmp.isLE_trans (Ordering.isLE_of_eq_eq (OrientedCmp.eq_symm hyx))
        (h.isLE_of_getElem? hj hy hzj)
  | error i =>
    obtain ⟨hi, hlow, hhigh⟩ := binarySearch_error h hsearch
    refine sorted_insertIdx h hi ?_ ?_
    · intro z hz
      obtain ⟨j, hj, hzj⟩ := exists_getElem?_of_mem_take hz
      exact Ordering.isLE_of_eq_lt (hlow j z hj hzj)
    · intro z hz
      obtain ⟨j, hj, hzj⟩ := exists_getElem?_of_mem_drop hz
      exact Ordering.isLE_of_eq_lt (OrientedCmp.lt_of_gt (hhigh j z hj hzj))

end Search

theorem Except.index_le_length {l : List α} {x : α} (h : Sorted cmp l) :
    Except.index (binarySearch cmp l x) ≤ l.length := by
  cases hsearch : binarySearch cmp l x with
  | ok i =>
    obtain ⟨y, hy, -⟩ := binarySearch_ok h hsearch
    exact (List.getElem?_eq_some_iff.mp hy).1.le
  | error i => exact (binarySearch_error h hsearch).1

end SortedVec
