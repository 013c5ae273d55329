/-
# `Ethrex.Lib.MerkleLevels` — binary hash trees built level by level

A list of leaves is hashed up one level at a time: neighbours two by two,
an odd last element paired with itself (`pairs`, `up`), until one node is
left (`top`; with `first` set the leaves are hashed at least once, so a
single leaf still gets a parent).  A membership proof for position `i` is
the list of `i`'s siblings on the way up (`path`), and a verifier folds a
leaf with such a list, putting the running value on the left at an even
position and on the right at an odd one, and halving the position
(`fold`).

`fold_path` is the completeness of that scheme: folding any leaf with its
own path gives the top node, for every non-empty level and every position,
with no assumption on the hash.  `CollisionFree` is the assumption a
verifier that finds its position by value needs: the hash tells apart the
pairs of every level, and then a level of distinct leaves has distinct
parents (`nodup_up`).
-/
import Mathlib.Data.List.Nodup
import Mathlib.Logic.Function.Iterate

namespace MerkleLevels

variable {α : Type} (hash : α → α → α)

/-- The pairs a level is hashed in: neighbours two by two, an odd last
element with itself. -/
def pairs : List α → List (α × α)
  | [] => []
  | [a] => [(a, a)]
  | a :: b :: rest => (a, b) :: pairs rest

/-- The level above. -/
def up (level : List α) : List α := (pairs level).map fun p => hash p.1 p.2

/-- The levels above `level` until one node is left; with `first` set the
level is hashed once even when it is a single node. -/
def top : Nat → Bool → List α → List α
  | 0, _, level => level
  | fuel + 1, first, level =>
    if level.length > 1 || first then top fuel false (up hash level) else level

/-- The partner of position `i` in its pair: the right neighbour of an even
position, or the position itself when it is last, and the left neighbour of
an odd one. -/
def sibling (level : List α) (i : Nat) : Option α :=
  if i % 2 = 0 then level[i + 1]? <|> level[i]? else level[i - 1]?

/-- The siblings of position `i` on the way up, one for each level hashed. -/
def path : Nat → Bool → List α → Nat → List α
  | 0, _, _, _ => []
  | fuel + 1, first, level, i =>
    if level.length > 1 || first then
      (sibling level i).toList ++ path fuel false (up hash level) (i / 2)
    else []

/-- The verifier's fold: the running value on the left at an even position,
on the right at an odd one, the position halved at each step. -/
def fold : α → Nat → List α → α
  | acc, _, [] => acc
  | acc, i, sib :: rest => fold (if i % 2 = 0 then hash acc sib else hash sib acc) (i / 2) rest

/-! ## Pairs -/

section Pairs

variable {hash}

@[simp] theorem pairs_nil : pairs ([] : List α) = [] := rfl
@[simp] theorem pairs_single (a : α) : pairs [a] = [(a, a)] := rfl
@[simp] theorem pairs_cons_cons (a b : α) (rest : List α) :
    pairs (a :: b :: rest) = (a, b) :: pairs rest := rfl

theorem length_pairs (level : List α) : (pairs level).length = (level.length + 1) / 2 := by
  induction level using pairs.induct with
  | case1 => simp
  | case2 a => simp
  | case3 a b rest ih =>
    rw [pairs_cons_cons, List.length_cons, ih, List.length_cons, List.length_cons]
    omega

theorem length_up (level : List α) : (up hash level).length = (level.length + 1) / 2 := by
  rw [up, List.length_map, length_pairs]

theorem mem_of_mem_pairs {level : List α} {p : α × α} (h : p ∈ pairs level) :
    p.1 ∈ level ∧ p.2 ∈ level := by
  induction level using pairs.induct with
  | case1 => cases h
  | case2 a =>
    rw [pairs_single, List.mem_singleton] at h
    subst h
    exact ⟨List.mem_singleton_self a, List.mem_singleton_self a⟩
  | case3 a b rest ih =>
    rw [pairs_cons_cons, List.mem_cons] at h
    rcases h with rfl | h
    · exact ⟨List.mem_cons_self, List.mem_cons_of_mem _ List.mem_cons_self⟩
    · obtain ⟨h1, h2⟩ := ih h
      exact ⟨List.mem_cons_of_mem _ (List.mem_cons_of_mem _ h1),
        List.mem_cons_of_mem _ (List.mem_cons_of_mem _ h2)⟩

theorem nodup_pairs {level : List α} (h : level.Nodup) : (pairs level).Nodup := by
  induction level using pairs.induct with
  | case1 => exact List.nodup_nil
  | case2 a => exact List.nodup_singleton _
  | case3 a b rest ih =>
    rw [List.nodup_cons] at h
    obtain ⟨ha, h⟩ := h
    rw [List.nodup_cons] at h
    rw [pairs_cons_cons, List.nodup_cons]
    refine ⟨fun hmem => ha ?_, ih h.2⟩
    exact List.mem_cons_of_mem _ (mem_of_mem_pairs hmem).1

theorem getElem_up {level : List α} {i : Nat} (hi : i < level.length) :
    ∃ sib, sibling level i = some sib ∧
      (up hash level)[i / 2]? = some (if i % 2 = 0 then hash level[i] sib else hash sib level[i]) := by
  induction level using pairs.induct generalizing i with
  | case1 => cases hi
  | case2 a =>
    have hi0 : i = 0 := by simp at hi; omega
    subst hi0
    exact ⟨a, rfl, rfl⟩
  | case3 a b rest ih =>
    -- the first pair holds positions 0 and 1; past it, the rest shifted by two
    match i, hi with
    | 0, _ => exact ⟨b, rfl, rfl⟩
    | 1, _ => exact ⟨a, rfl, rfl⟩
    | i + 2, hi =>
      obtain ⟨sib, hsib, hup⟩ := ih (i := i) (by simp at hi; omega)
      refine ⟨sib, ?_, ?_⟩
      · unfold sibling at hsib ⊢
        have hpar : (i + 2) % 2 = i % 2 := by omega
        rw [hpar]
        by_cases hev : i % 2 = 0
        · rw [if_pos hev] at hsib ⊢
          exact hsib
        · rw [if_neg hev] at hsib ⊢
          rw [show i + 2 - 1 = (i - 1) + 2 by omega]
          exact hsib
      · have hdiv : (i + 2) / 2 = i / 2 + 1 := by omega
        have hpar : (i + 2) % 2 = i % 2 := by omega
        rw [hdiv, hpar]
        exact hup

end Pairs

/-! ## Completeness of the fold -/

/-- Hashing up from any non-empty level with enough fuel ends at one node,
and folding any position's leaf with its path reaches that node. -/
theorem fold_path :
    ∀ (fuel : Nat) (first : Bool) (level : List α),
      0 < level.length → level.length + (if first then 1 else 0) ≤ fuel + 1 →
      ∃ root, top hash fuel first level = [root] ∧
        ∀ i (hi : i < level.length), fold hash level[i] i (path hash fuel first level i) = root := by
  intro fuel
  induction fuel with
  | zero =>
    intro first level hpos hfuel
    -- no fuel: the level is a single node already
    have hone : level.length = 1 := by split at hfuel <;> omega
    obtain ⟨root, rfl⟩ := List.length_eq_one_iff.mp hone
    refine ⟨root, rfl, ?_⟩
    intro i hi
    have hi0 : i = 0 := by simp at hi; omega
    subst hi0
    rfl
  | succ fuel ih =>
    intro first level hpos hfuel
    by_cases hstep : level.length > 1 || first
    · -- one level up: the fold's first step is that level's hash
      have hup : (up hash level).length + (if false then 1 else 0) ≤ fuel + 1 := by
        rw [length_up, if_neg Bool.false_ne_true]
        split at hfuel <;> omega
      have hpos' : 0 < (up hash level).length := by rw [length_up]; omega
      obtain ⟨root, htop, hfold⟩ := ih false (up hash level) hpos' hup
      refine ⟨root, ?_, ?_⟩
      · rw [top, if_pos hstep, htop]
      · intro i hi
        obtain ⟨sib, hsib, hnext⟩ := @getElem_up _ hash _ _ hi
        have hi' : i / 2 < (up hash level).length := by rw [length_up]; omega
        rw [path, if_pos hstep, hsib, Option.toList_some, List.singleton_append, fold]
        rw [List.getElem?_eq_getElem hi', Option.some.injEq] at hnext
        rw [← hnext]
        exact hfold (i / 2) hi'
    · -- nothing left to hash: a single node, and an empty path
      have hle : level.length ≤ 1 := by
        cases first
        · simpa using hstep
        · simp at hstep
      have hone : level.length = 1 := by omega
      obtain ⟨root, rfl⟩ := List.length_eq_one_iff.mp hone
      refine ⟨root, by rw [top, if_neg hstep], ?_⟩
      intro i hi
      have hi0 : i = 0 := by simp at hi; omega
      subst hi0
      rw [path, if_neg hstep]
      rfl

/-! ## Distinct levels -/

/-- The hash tells apart the pairs of every level above `level`. -/
def CollisionFree (level : List α) : Prop :=
  ∀ k, ∀ p ∈ pairs ((up hash)^[k] level), ∀ q ∈ pairs ((up hash)^[k] level),
    hash p.1 p.2 = hash q.1 q.2 → p = q

variable {hash}

theorem CollisionFree.up {level : List α} (h : CollisionFree hash level) :
    CollisionFree hash (up hash level) := by
  intro k
  rw [← Function.iterate_succ_apply]
  exact h (k + 1)

theorem collisionFree_of_pairs {level : List α}
    (h : ∀ p ∈ pairs level, ∀ q ∈ pairs level, hash p.1 p.2 = hash q.1 q.2 → p = q)
    (hup : CollisionFree hash (up hash level)) : CollisionFree hash level := by
  intro k
  cases k with
  | zero => exact h
  | succ k =>
    rw [Function.iterate_succ_apply]
    exact hup k

theorem collisionFree_of_length_le_two {level : List α} (h : level.length ≤ 2) :
    CollisionFree hash level := by
  have hshort : ∀ k, ((up hash)^[k] level).length ≤ 2 := by
    intro k
    induction k with
    | zero => exact h
    | succ k ih =>
      rw [Function.iterate_succ_apply', length_up]
      omega
  intro k p hp q hq _
  have hone : (pairs ((up hash)^[k] level)).length ≤ 1 := by
    rw [length_pairs]
    have := hshort k
    omega
  generalize pairs ((up hash)^[k] level) = ps at hp hq hone
  rcases ps with _ | ⟨x, _ | ⟨y, rest⟩⟩
  · cases hp
  · rw [List.mem_singleton] at hp hq
    rw [hp, hq]
  · simp at hone

theorem nodup_up {level : List α} (h : level.Nodup) (hcf : CollisionFree hash level) :
    (up hash level).Nodup := by
  refine List.Nodup.map_on ?_ (nodup_pairs h)
  exact hcf 0

end MerkleLevels
