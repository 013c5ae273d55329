/-
# `Ethrex.Trie.Tree` — the tries the nodes stand for

A trie's nodes sit in a store and name their children by hash.  Followed
from the root, they unfold into a `Tree`: a leaf holding the rest of one
path and its value, an extension holding the nibbles all paths below it
share, or a branch with sixteen subtrees and the value of the path that ends
at it.  `Tree.empty` is the absent subtree: the default `NodeHash` under a
branch, and the trie without a root.

`lookup` is what a trie is for: the value at a path.  `Canonical` is the
Merkle-Patricia shape: paths end in the flag `16`, extensions are non-empty
runs of choices over a branch, a branch holds at least two of its sixteen
children and its value, a value is never empty.  A canonical trie is
determined by its lookup (`Canonical.eq_of_lookup_eq`): two tries with the
same contents have the same nodes, hence the same root hash.
-/
import Ethrex.Trie.Nibbles

namespace Ethrex.Mpt

open Ethrex.Rlp

/-- A trie, its children unfolded. -/
inductive Tree where
  | empty
  | leaf (partialPath : List Nat) (value : Bytes)
  | extension (prefixPath : List Nat) (child : Tree)
  | branch (choices : Fin 16 → Tree) (value : Bytes)

namespace Tree

/-- The absent subtree. -/
def isEmpty : Tree → Bool
  | .empty => true
  | _ => false

/-- The child an extension may have. -/
def IsBranch : Tree → Prop
  | .branch _ _ => True
  | _ => False

/-- The value at a path.  A branch holds the value of the path that ends at
it, `[16]` from there; its empty value is no value. -/
def lookup : Tree → List Nat → Option Bytes
  | .empty, _ => none
  | .leaf p v, k => if k = p then some v else none
  | .extension e c, k => if e <+: k then c.lookup (k.drop e.length) else none
  | .branch cs v, c :: r =>
    if h : c < 16 then (cs ⟨c, h⟩).lookup r
    else if c = 16 ∧ r = [] ∧ v ≠ [] then some v else none
  | .branch _ _, [] => none

/-- The number of a branch's children that are there. -/
def occupied (cs : Fin 16 → Tree) : Nat := (List.finRange 16).countP fun i => !(cs i).isEmpty

/-- The Merkle-Patricia shape. -/
def Canonical : Tree → Prop
  | .empty => True
  | .leaf p v => IsTerminated p ∧ v ≠ []
  | .extension e c => e ≠ [] ∧ IsHex e ∧ c.IsBranch ∧ c.Canonical
  | .branch cs v => (∀ i, (cs i).Canonical) ∧ 2 ≤ occupied cs + (if v = [] then 0 else 1)

@[simp] theorem isEmpty_iff {t : Tree} : t.isEmpty = true ↔ t = .empty := by
  cases t <;> simp [isEmpty]

@[simp] theorem isEmpty_eq_false_iff {t : Tree} : t.isEmpty = false ↔ t ≠ .empty := by
  cases t <;> simp [isEmpty]

/-! ## Lookup, one constructor at a time -/

@[simp] theorem lookup_empty (k : List Nat) : Tree.empty.lookup k = none := rfl

theorem lookup_leaf (p : List Nat) (v : Bytes) (k : List Nat) :
    (leaf p v).lookup k = if k = p then some v else none := rfl

@[simp] theorem lookup_extension_append (e k : List Nat) (c : Tree) :
    (extension e c).lookup (e ++ k) = c.lookup k := by
  simp [lookup]

theorem lookup_extension_eq_none {e k : List Nat} (c : Tree) (h : ¬ e <+: k) :
    (extension e c).lookup k = none := by
  simp [lookup, h]

@[simp] theorem lookup_branch_cons (cs : Fin 16 → Tree) (v : Bytes) (i : Fin 16) (r : List Nat) :
    (branch cs v).lookup (i.val :: r) = (cs i).lookup r := by
  simp [lookup]

theorem lookup_branch_flag (cs : Fin 16 → Tree) (v : Bytes) :
    (branch cs v).lookup [16] = if v = [] then none else some v := by
  by_cases hv : v = [] <;> simp [lookup, hv]

theorem eq_of_lookup_leaf {p k : List Nat} {v x : Bytes} (h : (leaf p v).lookup k = some x) :
    k = p ∧ x = v := by
  rw [lookup_leaf] at h
  split at h
  · exact ⟨‹_›, (Option.some.inj h).symm⟩
  · cases h

theorem exists_of_lookup_extension {e k : List Nat} {c : Tree} {x : Bytes}
    (h : (extension e c).lookup k = some x) : ∃ k', k = e ++ k' ∧ c.lookup k' = some x := by
  by_cases hp : e <+: k
  · obtain ⟨k', rfl⟩ := hp
    exact ⟨k', rfl, by simpa using h⟩
  · rw [lookup_extension_eq_none c hp] at h
    cases h

theorem cases_of_lookup_branch {cs : Fin 16 → Tree} {v : Bytes} {k : List Nat} {x : Bytes}
    (h : (branch cs v).lookup k = some x) :
    (∃ (i : Fin 16) (r : List Nat), k = i.val :: r ∧ (cs i).lookup r = some x) ∨
      (k = [16] ∧ v ≠ [] ∧ x = v) := by
  match k, h with
  | c :: r, h =>
    simp only [lookup] at h
    split at h
    · rename_i hc
      exact .inl ⟨⟨c, hc⟩, r, rfl, h⟩
    · split at h
      · rename_i hc
        obtain ⟨rfl, rfl, hv⟩ := hc
        exact .inr ⟨rfl, hv, (Option.some.inj h).symm⟩
      · cases h

/-! ## What a canonical trie holds -/

theorem exists_ne_empty_of_occupied {cs : Fin 16 → Tree} (h : 1 ≤ occupied cs) :
    ∃ i, cs i ≠ .empty := by
  obtain ⟨i, -, hi⟩ := List.countP_pos_iff.mp h
  exact ⟨i, by simpa using hi⟩

theorem exists_two_of_occupied {cs : Fin 16 → Tree} (h : 2 ≤ occupied cs) :
    ∃ i j, i ≠ j ∧ cs i ≠ .empty ∧ cs j ≠ .empty := by
  rw [occupied, List.countP_eq_length_filter] at h
  have hnd : ((List.finRange 16).filter fun i => !(cs i).isEmpty).Nodup :=
    (List.nodup_finRange 16).filter _
  match hl : (List.finRange 16).filter fun i => !(cs i).isEmpty, h, hnd with
  | i :: j :: _, _, hnd =>
    have hi : i ∈ (List.finRange 16).filter fun i => !(cs i).isEmpty := by simp [hl]
    have hj : j ∈ (List.finRange 16).filter fun i => !(cs i).isEmpty := by simp [hl]
    simp only [List.mem_filter, Bool.not_eq_eq_eq_not, Bool.not_true,
      isEmpty_eq_false_iff] at hi hj
    refine ⟨i, j, ?_, hi.2, hj.2⟩
    intro hij; subst hij; simp at hnd

theorem Canonical.exists_lookup {t : Tree} (h : t.Canonical) (hne : t ≠ .empty) :
    ∃ k x, t.lookup k = some x := by
  induction t with
  | empty => exact absurd rfl hne
  | leaf p v => exact ⟨p, v, by simp [lookup_leaf]⟩
  | extension e c ih =>
    obtain ⟨-, -, hb, hc⟩ := h
    have hcne : c ≠ .empty := by rintro rfl; exact hb
    obtain ⟨k, x, hk⟩ := ih hc hcne
    exact ⟨e ++ k, x, by simpa using hk⟩
  | branch cs v ih =>
    obtain ⟨hcs, hocc⟩ := h
    by_cases hv : v = []
    · obtain ⟨i, hi⟩ := @exists_ne_empty_of_occupied cs (by simp [hv] at hocc; omega)
      obtain ⟨k, x, hk⟩ := ih i (hcs i) hi
      exact ⟨i.val :: k, x, by simpa using hk⟩
    · exact ⟨[16], v, by simp [lookup_branch_flag, hv]⟩

theorem Canonical.branch_two_heads {cs : Fin 16 → Tree} {v : Bytes}
    (h : (branch cs v).Canonical) :
    ∃ k₁ x₁ k₂ x₂, (branch cs v).lookup k₁ = some x₁ ∧ (branch cs v).lookup k₂ = some x₂ ∧
      k₁.head? ≠ k₂.head? := by
  obtain ⟨hcs, hocc⟩ := h
  by_cases hv : v = []
  · obtain ⟨i, j, hij, hi, hj⟩ := @exists_two_of_occupied cs (by simpa [hv] using hocc)
    obtain ⟨k₁, x₁, h₁⟩ := (hcs i).exists_lookup hi
    obtain ⟨k₂, x₂, h₂⟩ := (hcs j).exists_lookup hj
    refine ⟨i.val :: k₁, x₁, j.val :: k₂, x₂, by simpa using h₁, by simpa using h₂, ?_⟩
    simpa [Fin.val_inj] using hij
  · obtain ⟨i, hi⟩ := @exists_ne_empty_of_occupied cs (by simp [hv] at hocc; omega)
    obtain ⟨k₁, x₁, h₁⟩ := (hcs i).exists_lookup hi
    refine ⟨i.val :: k₁, x₁, [16], v, by simpa using h₁, by simp [lookup_branch_flag, hv], ?_⟩
    simp only [List.head?_cons, ne_eq, Option.some.injEq]
    omega

theorem prefix_of_common_prefixes {e d k₁ k₂ : List Nat} (h₁ : d <+: e ++ k₁)
    (h₂ : d <+: e ++ k₂) (hk : k₁.head? ≠ k₂.head?) : d <+: e := by
  rcases List.prefix_or_prefix_of_prefix h₁ (List.prefix_append e k₁) with hd | ⟨r, rfl⟩
  · exact hd
  · cases r with
    | nil => simp
    | cons a r =>
      exfalso
      rw [List.prefix_append_right_inj] at h₁ h₂
      obtain ⟨s₁, hs₁⟩ := h₁
      obtain ⟨s₂, hs₂⟩ := h₂
      rw [← hs₁, ← hs₂] at hk
      simp at hk

theorem prefix_of_lookup_extension {e k : List Nat} {c : Tree} {x : Bytes}
    (h : (extension e c).lookup k = some x) : e <+: k := by
  obtain ⟨k', rfl, -⟩ := exists_of_lookup_extension h
  exact List.prefix_append e k'

theorem Canonical.extension_two {e : List Nat} {c : Tree} (h : (extension e c).Canonical) :
    ∃ k₁ x₁ k₂ x₂, c.lookup k₁ = some x₁ ∧ c.lookup k₂ = some x₂ ∧ k₁.head? ≠ k₂.head? := by
  obtain ⟨-, -, hb, hc⟩ := h
  cases c with
  | branch cs v =>
    obtain ⟨k₁, x₁, k₂, x₂, h₁, h₂, hk⟩ := hc.branch_two_heads
    exact ⟨k₁, x₁, k₂, x₂, h₁, h₂, hk⟩
  | _ => exact absurd hb id

theorem Canonical.branch_not_one_head {cs : Fin 16 → Tree} {v : Bytes}
    (h : (branch cs v).Canonical) (hd : Option Nat) :
    ¬ ∀ k x, (branch cs v).lookup k = some x → k.head? = hd := by
  intro hall
  obtain ⟨k₁, x₁, k₂, x₂, h₁, h₂, hk⟩ := h.branch_two_heads
  exact hk ((hall k₁ x₁ h₁).trans (hall k₂ x₂ h₂).symm)

theorem Canonical.extension_not_one_key {e : List Nat} {c : Tree} (h : (extension e c).Canonical)
    (p : List Nat) : ¬ ∀ k x, (extension e c).lookup k = some x → k = p := by
  intro hall
  obtain ⟨k₁, x₁, k₂, x₂, h₁, h₂, hk⟩ := h.extension_two
  have := (hall (e ++ k₁) x₁ (by simpa using h₁)).trans (hall (e ++ k₂) x₂ (by simpa using h₂)).symm
  rw [List.append_cancel_left_eq] at this
  exact hk (congrArg List.head? this)

theorem head_of_lookup_extension {e k : List Nat} {c : Tree} {x : Bytes} (he : e ≠ [])
    (h : (extension e c).lookup k = some x) : k.head? = e.head? := by
  obtain ⟨k', rfl, -⟩ := exists_of_lookup_extension h
  cases e with
  | nil => exact absurd rfl he
  | cons a e => rfl

theorem Canonical.eq_of_lookup_eq {t₁ t₂ : Tree} (h₁ : t₁.Canonical) (h₂ : t₂.Canonical)
    (h : ∀ k, t₁.lookup k = t₂.lookup k) : t₁ = t₂ := by
  -- the values of `t₂` are those of `t₁`
  have h' : ∀ k x, t₂.lookup k = some x → t₁.lookup k = some x := fun k x hx => (h k).trans hx
  have h'' : ∀ k x, t₁.lookup k = some x → t₂.lookup k = some x := fun k x hx => (h k).symm.trans hx
  -- an empty side makes the other empty
  by_cases he₁ : t₁ = .empty
  · subst he₁
    by_contra hne
    obtain ⟨k, x, hk⟩ := h₂.exists_lookup (Ne.symm hne)
    simpa using h' k x hk
  by_cases he₂ : t₂ = .empty
  · subst he₂
    obtain ⟨k, x, hk⟩ := h₁.exists_lookup he₁
    simpa using h'' k x hk
  induction t₁ generalizing t₂ with
  | empty => exact absurd rfl he₁
  | leaf p v =>
    cases t₂ with
    | empty => exact absurd rfl he₂
    | leaf p' v' =>
      obtain ⟨rfl, rfl⟩ := eq_of_lookup_leaf (h'' p v (by simp [lookup_leaf]))
      rfl
    | extension e c =>
      exact absurd (fun k x hx => (eq_of_lookup_leaf (h' k x hx)).1) (h₂.extension_not_one_key p)
    | branch cs w =>
      exact absurd (fun k x hx => congrArg List.head? (eq_of_lookup_leaf (h' k x hx)).1)
        (h₂.branch_not_one_head p.head?)
  | extension e c ih =>
    cases t₂ with
    | empty => exact absurd rfl he₂
    | leaf p v =>
      exact absurd (fun k x hx => (eq_of_lookup_leaf (h'' k x hx)).1) (h₁.extension_not_one_key p)
    | extension e' c' =>
      -- the prefixes agree: each is a prefix of the other
      obtain ⟨k₁, x₁, k₂, x₂, hk₁, hk₂, hk⟩ := h₁.extension_two
      obtain ⟨l₁, y₁, l₂, y₂, hl₁, hl₂, hl⟩ := h₂.extension_two
      have hee' : e' <+: e := prefix_of_common_prefixes
        (prefix_of_lookup_extension (h'' (e ++ k₁) x₁ (by simpa using hk₁)))
        (prefix_of_lookup_extension (h'' (e ++ k₂) x₂ (by simpa using hk₂))) hk
      have he'e : e <+: e' := prefix_of_common_prefixes
        (prefix_of_lookup_extension (h' (e' ++ l₁) y₁ (by simpa using hl₁)))
        (prefix_of_lookup_extension (h' (e' ++ l₂) y₂ (by simpa using hl₂))) hl
      have heq : e = e' := he'e.eq_of_length (le_antisymm he'e.length_le hee'.length_le)
      subst heq
      have hc : c = c' := by
        refine ih h₁.2.2.2 h₂.2.2.2 (fun k => by simpa using h (e ++ k))
          (fun k x hx => by simpa using h' (e ++ k) x (by simpa using hx))
          (fun k x hx => by simpa using h'' (e ++ k) x (by simpa using hx)) ?_ ?_
        · rintro rfl; exact h₁.2.2.1
        · rintro rfl; exact h₂.2.2.1
      rw [hc]
    | branch cs w =>
      exact absurd (fun k x hx => head_of_lookup_extension h₁.1 (h' k x hx))
        (h₂.branch_not_one_head e.head?)
  | branch cs v ih =>
    cases t₂ with
    | empty => exact absurd rfl he₂
    | leaf p w =>
      exact absurd (fun k x hx => congrArg List.head? (eq_of_lookup_leaf (h'' k x hx)).1)
        (h₁.branch_not_one_head p.head?)
    | extension e c =>
      exact absurd (fun k x hx => head_of_lookup_extension h₂.1 (h'' k x hx))
        (h₁.branch_not_one_head e.head?)
    | branch cs' w =>
      -- child by child, then the value at `[16]`
      have hcs : cs = cs' := by
        funext i
        by_cases hi₁ : cs i = .empty
        · by_cases hi₂ : cs' i = .empty
          · rw [hi₁, hi₂]
          · obtain ⟨k, x, hk⟩ := (h₂.1 i).exists_lookup hi₂
            have := h' (i.val :: k) x (by simpa using hk)
            simp [hi₁] at this
        · by_cases hi₂ : cs' i = .empty
          · obtain ⟨k, x, hk⟩ := (h₁.1 i).exists_lookup hi₁
            have := h'' (i.val :: k) x (by simpa using hk)
            simp [hi₂] at this
          · exact ih i (h₁.1 i) (h₂.1 i) (fun k => by simpa using h (i.val :: k))
              (fun k x hx => by simpa using h' (i.val :: k) x (by simpa using hx))
              (fun k x hx => by simpa using h'' (i.val :: k) x (by simpa using hx)) hi₁ hi₂
      have hv := h [16]
      rw [lookup_branch_flag, lookup_branch_flag] at hv
      have hvw : v = w := by
        by_cases hv₁ : v = [] <;> by_cases hw : w = [] <;> simp_all
      rw [hcs, hvw]

end Tree

end Ethrex.Mpt
