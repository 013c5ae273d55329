/-
# `Ethrex.Trie.TreeUpdate` — what a change of one path does to a trie

The operations rebuild the nodes along one path and keep the rest.  What
they must achieve is stated on lookups: the new trie maps the path to the
new value (or to nothing) and agrees with the old one everywhere else,
`Function.update` of the old lookup.  The lemmas here carry such an update
through the shapes the operations build: under an extension
(`lookup_extension_update`), in one child of a branch
(`lookup_branch_update`), at a branch's own value, and where a leaf is
split into two (`fork`), and where a removal leaves a child alone under a
prefix (`prefixed`).

They also recover the Merkle-Patricia shape from the contents: a canonical
trie holding values under two first nibbles is a branch, and a branch of
canonical children holding such values is canonical.  Every shape fact the
correctness proofs need about a rebuilt node follows from its lookup this
way, so no operation's proof counts children.
-/
import Ethrex.Trie.Tree

namespace Ethrex.Mpt

open Ethrex.Rlp

namespace Tree

/-! ## Updates through the shapes the operations build -/

theorem lookup_extension_update {e k : List Nat} {c c' : Tree} {w : Option Bytes}
    (h : c'.lookup = Function.update c.lookup k w) :
    (extension e c').lookup = Function.update (extension e c).lookup (e ++ k) w := by
  funext q
  by_cases hq : e <+: q
  · obtain ⟨q', rfl⟩ := hq
    simp [h, Function.update_apply]
  · have hne : q ≠ e ++ k := fun heq => hq (heq ▸ List.prefix_append e k)
    rw [lookup_extension_eq_none c' hq, Function.update_of_ne hne, lookup_extension_eq_none c hq]

theorem lookup_branch_update {cs : Fin 16 → Tree} {v : Bytes} {i : Fin 16} {c' : Tree}
    {r : List Nat} {w : Option Bytes} (h : c'.lookup = Function.update (cs i).lookup r w) :
    (branch (Function.update cs i c') v).lookup = Function.update (branch cs v).lookup (i.val :: r) w := by
  funext q
  match q with
  | [] => simp [lookup]
  | c :: q' =>
    by_cases hc : c < 16
    · -- the path goes into child `⟨c, hc⟩`, the updated one or another
      have hcq : c :: q' = (⟨c, hc⟩ : Fin 16).val :: q' := rfl
      rw [hcq, lookup_branch_cons]
      by_cases hi : (⟨c, hc⟩ : Fin 16) = i
      · subst hi
        rw [Function.update_self, h]
        by_cases hq : q' = r
        · subst hq
          simp
        · have hne : (⟨c, hc⟩ : Fin 16).val :: q' ≠ (⟨c, hc⟩ : Fin 16).val :: r :=
            fun heq => hq (List.cons.inj heq).2
          rw [Function.update_of_ne hq, Function.update_of_ne hne, lookup_branch_cons]
      · have hne : (⟨c, hc⟩ : Fin 16).val :: q' ≠ i.val :: r :=
          fun heq => hi (Fin.ext (List.cons.inj heq).1)
        rw [Function.update_of_ne hi, Function.update_of_ne hne, lookup_branch_cons]
    · -- the path ends at the branch, or nowhere
      have hne : c :: q' ≠ i.val :: r := fun heq => hc ((List.cons.inj heq).1 ▸ i.isLt)
      rw [Function.update_of_ne hne]
      simp [lookup, hc]

theorem lookup_branch_value (cs : Fin 16 → Tree) (v v' : Bytes) :
    (branch cs v').lookup =
      Function.update (branch cs v).lookup [16] (if v' = [] then none else some v') := by
  funext q
  match q with
  | [] => simp [lookup]
  | c :: q' =>
    by_cases hq : c :: q' = [16]
    · obtain ⟨rfl, rfl⟩ := List.cons_eq_cons.mp hq
      rw [lookup_branch_flag, hq, Function.update_self]
    · rw [Function.update_of_ne hq]
      by_cases hc : c < 16
      · simp [lookup, hc]
      · have hq' : ¬ (c = 16 ∧ q' = []) := fun h => hq (by rw [h.1, h.2])
        simp only [lookup, hc, ↓reduceDIte]
        rw [if_neg (fun h => hq' ⟨h.1, h.2.1⟩), if_neg (fun h => hq' ⟨h.1, h.2.1⟩)]

theorem lookup_leaf_update (p : List Nat) (v v' : Bytes) :
    (leaf p v').lookup = Function.update (leaf p v).lookup p (some v') := by
  funext q
  by_cases hq : q = p
  · subst hq
    simp [lookup_leaf]
  · rw [Function.update_of_ne hq, lookup_leaf, lookup_leaf, if_neg hq, if_neg hq]

theorem lookup_leaf_of_empty (p : List Nat) (v : Bytes) :
    (leaf p v).lookup = Function.update empty.lookup p (some v) := by
  funext q
  by_cases hq : q = p
  · subst hq
    simp [lookup_leaf]
  · rw [Function.update_of_ne hq, lookup_leaf, if_neg hq, lookup_empty]

theorem lookup_extension_extension (a b : List Nat) (c : Tree) :
    (extension a (extension b c)).lookup = (extension (a ++ b) c).lookup := by
  funext q
  by_cases hq : a <+: q
  · obtain ⟨q', rfl⟩ := hq
    by_cases hq' : b <+: q'
    · obtain ⟨q'', rfl⟩ := hq'
      rw [lookup_extension_append, lookup_extension_append, ← List.append_assoc,
        lookup_extension_append]
    · have hn : ¬ (a ++ b) <+: (a ++ q') := fun h => hq' (List.prefix_append_right_inj a |>.mp h)
      rw [lookup_extension_append, lookup_extension_eq_none c hq', lookup_extension_eq_none c hn]
  · have hn : ¬ (a ++ b) <+: q := fun h => hq ((List.prefix_append a b).trans h)
    rw [lookup_extension_eq_none _ hq, lookup_extension_eq_none c hn]

theorem lookup_extension_leaf (a p : List Nat) (v : Bytes) :
    (extension a (leaf p v)).lookup = (leaf (a ++ p) v).lookup := by
  funext q
  by_cases hq : a <+: q
  · obtain ⟨q', rfl⟩ := hq
    simp [lookup_leaf]
  · have hn : q ≠ a ++ p := fun h => hq (h ▸ List.prefix_append a p)
    rw [lookup_extension_eq_none _ hq, lookup_leaf, if_neg hn]

theorem lookup_branch_single {a : Nat} (ha : a < 16) (x : Tree) :
    (branch (fun i => if i.val = a then x else empty) []).lookup = (extension [a] x).lookup := by
  funext q
  match q with
  | [] => simp [lookup]
  | c :: r =>
    by_cases hc : c < 16
    · by_cases hca : c = a
      · subst hca
        simp [lookup, hc]
      · have hn : ¬ [a] <+: c :: r := by simp [Ne.symm hca]
        rw [lookup_extension_eq_none _ hn]
        simp [lookup, hc, hca]
    · have hn : ¬ [a] <+: c :: r := by
        simp only [List.cons_prefix_cons, List.nil_prefix, and_true]
        omega
      rw [lookup_extension_eq_none _ hn]
      simp [lookup, hc]

/-! ## The Merkle-Patricia shape from the contents -/

theorem one_le_occupied {cs : Fin 16 → Tree} {i : Fin 16} (hi : cs i ≠ .empty) :
    1 ≤ occupied cs :=
  List.countP_pos_iff.mpr ⟨i, List.mem_finRange i, by simpa using hi⟩

theorem two_le_occupied {cs : Fin 16 → Tree} {i j : Fin 16} (hij : i ≠ j) (hi : cs i ≠ .empty)
    (hj : cs j ≠ .empty) : 2 ≤ occupied cs := by
  rw [occupied, List.countP_eq_length_filter]
  have hsub : [i, j] ⊆ (List.finRange 16).filter fun i => !(cs i).isEmpty := by
    intro x hx
    rcases List.mem_pair.mp hx with rfl | rfl <;> simpa using ‹_›
  exact List.Nodup.length_le_of_subset (by simp [hij]) hsub

theorem ne_empty_of_lookup {t : Tree} {k : List Nat} {x : Bytes} (h : t.lookup k = some x) :
    t ≠ .empty := by
  rintro rfl
  simp at h

theorem Canonical.isBranch_of_two_heads {t : Tree} (ht : t.Canonical) {k₁ k₂ : List Nat}
    {x₁ x₂ : Bytes} (h₁ : t.lookup k₁ = some x₁) (h₂ : t.lookup k₂ = some x₂)
    (hk : k₁.head? ≠ k₂.head?) : t.IsBranch := by
  cases t with
  | empty => simp at h₁
  | leaf p v =>
    rw [(eq_of_lookup_leaf h₁).1, (eq_of_lookup_leaf h₂).1] at hk
    exact absurd rfl hk
  | extension e c =>
    rw [head_of_lookup_extension ht.1 h₁, head_of_lookup_extension ht.1 h₂] at hk
    exact absurd rfl hk
  | branch cs v => trivial

theorem canonical_branch_of_two_heads {cs : Fin 16 → Tree} {v : Bytes}
    (hcs : ∀ i, (cs i).Canonical) {k₁ k₂ : List Nat} {x₁ x₂ : Bytes}
    (h₁ : (branch cs v).lookup k₁ = some x₁) (h₂ : (branch cs v).lookup k₂ = some x₂)
    (hk : k₁.head? ≠ k₂.head?) : (branch cs v).Canonical := by
  refine ⟨hcs, ?_⟩
  rcases cases_of_lookup_branch h₁ with ⟨i, r₁, rfl, hr₁⟩ | ⟨rfl, hv, -⟩ <;>
    rcases cases_of_lookup_branch h₂ with ⟨j, r₂, rfl, hr₂⟩ | ⟨rfl, hv', -⟩
  · -- two children
    have hij : i ≠ j := fun hij => hk (by rw [hij]; rfl)
    have := two_le_occupied hij (ne_empty_of_lookup hr₁) (ne_empty_of_lookup hr₂)
    omega
  · -- a child and the value
    have := one_le_occupied (ne_empty_of_lookup hr₁)
    simp only [hv', ↓reduceIte]
    omega
  · have := one_le_occupied (ne_empty_of_lookup hr₂)
    simp only [hv, ↓reduceIte]
    omega
  · exact absurd rfl hk

theorem exists_update_eq_some {f : List Nat → Option Bytes} {k q : List Nat} {w x : Bytes}
    (h : f q = some x) : ∃ y, Function.update f k (some w) q = some y := by
  by_cases hq : q = k
  · exact ⟨w, by rw [hq, Function.update_self]⟩
  · exact ⟨x, by rw [Function.update_of_ne hq, h]⟩

theorem Canonical.isBranch_of_update {t t' : Tree} (ht : t.Canonical) (hb : t.IsBranch)
    (ht' : t'.Canonical) {k : List Nat} {w : Bytes}
    (h : t'.lookup = Function.update t.lookup k (some w)) : t'.IsBranch := by
  cases t with
  | branch cs v =>
    obtain ⟨k₁, x₁, k₂, x₂, h₁, h₂, hk⟩ := ht.branch_two_heads
    obtain ⟨y₁, hy₁⟩ := exists_update_eq_some (k := k) (w := w) h₁
    obtain ⟨y₂, hy₂⟩ := exists_update_eq_some (k := k) (w := w) h₂
    rw [← h] at hy₁ hy₂
    exact ht'.isBranch_of_two_heads hy₁ hy₂ hk
  | _ => exact absurd hb id

theorem Canonical.branch_of_update {cs cs' : Fin 16 → Tree} {v v' : Bytes}
    (ht : (branch cs v).Canonical) (hcs' : ∀ i, (cs' i).Canonical) {k : List Nat} {w : Bytes}
    (h : (branch cs' v').lookup = Function.update (branch cs v).lookup k (some w)) :
    (branch cs' v').Canonical := by
  obtain ⟨k₁, x₁, k₂, x₂, h₁, h₂, hk⟩ := ht.branch_two_heads
  obtain ⟨y₁, hy₁⟩ := exists_update_eq_some (k := k) (w := w) h₁
  obtain ⟨y₂, hy₂⟩ := exists_update_eq_some (k := k) (w := w) h₂
  rw [← h] at hy₁ hy₂
  exact canonical_branch_of_two_heads hcs' hy₁ hy₂ hk

/-! ## A leaf split in two -/

/-- The branch where two paths part at two different nibbles `a` and `b`:
each path's rest under a leaf, or, for a path that ends there, the
branch's own value. -/
def fork (a : Nat) (ka : List Nat) (va : Bytes) (b : Nat) (kb : List Nat) (vb : Bytes) : Tree :=
  branch (fun i => if i.val = a then leaf ka va else if i.val = b then leaf kb vb else empty)
    (if a = 16 then va else if b = 16 then vb else [])

section Fork

variable {a b : Nat} {ka kb : List Nat} {va vb : Bytes}

theorem lookup_fork (hab : a ≠ b) (ha : IsTerminated (a :: ka)) (hb : IsTerminated (b :: kb))
    (hva : va ≠ []) (hvb : vb ≠ []) (q : List Nat) :
    (fork a ka va b kb vb).lookup q =
      if q = a :: ka then some va else if q = b :: kb then some vb else none := by
  match q with
  | [] => simp [fork, lookup]
  | c :: r =>
    by_cases hc : c < 16
    · -- into a child: one of the two leaves, or nothing
      simp only [fork, lookup, hc, ↓reduceDIte, List.cons.injEq]
      by_cases hca : c = a
      · subst hca
        simp [lookup_leaf, hab]
      · by_cases hcb : c = b
        · subst hcb
          simp [lookup_leaf, hca]
        · simp [hca, hcb]
    · -- the value, held by the path that ends here
      have ha' : a ≤ 16 ∧ (a = 16 → ka = []) := by
        rcases isTerminated_cons_iff.mp ha with ⟨h, -⟩ | ⟨h, hk⟩
        · exact ⟨by omega, fun h' => by omega⟩
        · exact ⟨by omega, fun _ => hk⟩
      have hb' : b ≤ 16 ∧ (b = 16 → kb = []) := by
        rcases isTerminated_cons_iff.mp hb with ⟨h, -⟩ | ⟨h, hk⟩
        · exact ⟨by omega, fun h' => by omega⟩
        · exact ⟨by omega, fun _ => hk⟩
      simp only [fork, lookup, hc, ↓reduceDIte, List.cons.injEq]
      by_cases hend : c = 16 ∧ r = []
      · obtain ⟨rfl, rfl⟩ := hend
        by_cases ha16 : a = 16
        · subst ha16
          rw [ha'.2 rfl]
          simp [hva]
        · by_cases hb16 : b = 16
          · subst hb16
            rw [hb'.2 rfl]
            simp [ha16, Ne.symm ha16, hvb]
          · simp [ha16, hb16, Ne.symm ha16, Ne.symm hb16]
      · -- neither path ends here: a head of `16` has nothing after it
        have hna : ¬ (c = a ∧ r = ka) := by
          rintro ⟨h₁, h₂⟩
          exact hend ⟨by omega, h₂.trans (ha'.2 (by omega))⟩
        have hnb : ¬ (c = b ∧ r = kb) := by
          rintro ⟨h₁, h₂⟩
          exact hend ⟨by omega, h₂.trans (hb'.2 (by omega))⟩
        rw [if_neg (fun h => hend ⟨h.1, h.2.1⟩), if_neg hna, if_neg hnb]

theorem lookup_fork_update (hab : a ≠ b) (ha : IsTerminated (a :: ka)) (hb : IsTerminated (b :: kb))
    (hva : va ≠ []) (hvb : vb ≠ []) :
    (fork a ka va b kb vb).lookup = Function.update (leaf (b :: kb) vb).lookup (a :: ka) (some va) := by
  funext q
  rw [lookup_fork hab ha hb hva hvb]
  by_cases hq : q = a :: ka
  · rw [if_pos hq, hq, Function.update_self]
  · rw [if_neg hq, Function.update_of_ne hq, lookup_leaf]

theorem canonical_fork (hab : a ≠ b) (ha : IsTerminated (a :: ka)) (hb : IsTerminated (b :: kb))
    (hva : va ≠ []) (hvb : vb ≠ []) : (fork a ka va b kb vb).Canonical := by
  -- the leaves that are there hold terminated rests
  have hcs : ∀ i : Fin 16, (if i.val = a then leaf ka va else if i.val = b then leaf kb vb
      else empty).Canonical := by
    intro i
    split_ifs with hia hib
    · subst hia
      exact ⟨((isTerminated_cons_iff.mp ha).resolve_right fun h => by omega).2, hva⟩
    · subst hib
      exact ⟨((isTerminated_cons_iff.mp hb).resolve_right fun h => by omega).2, hvb⟩
    · trivial
  have h₁ : (fork a ka va b kb vb).lookup (a :: ka) = some va := by
    rw [lookup_fork hab ha hb hva hvb]
    simp
  have h₂ : (fork a ka va b kb vb).lookup (b :: kb) = some vb := by
    rw [lookup_fork hab ha hb hva hvb]
    simp [Ne.symm hab]
  exact canonical_branch_of_two_heads hcs h₁ h₂ (by simpa using hab)

end Fork

/-! ## Removal

A removal takes a path's value away (`Function.update … none`).  What is
left of a node is then rebuilt: a branch with one entry left becomes that
entry, and a child alone under a prefix takes the prefix in (`prefixed`). -/

/-- `t` under the path `p`, as one node: a leaf's or an extension's path
takes `p` in front, a branch goes under an extension by `p`.  What
`ExtensionNode::remove` and `BranchNode::remove` make of a child left alone
under a prefix. -/
def prefixed (p : List Nat) : Tree → Tree
  | .empty => .empty
  | .leaf q v => .leaf (p ++ q) v
  | .extension q c => .extension (p ++ q) c
  | .branch cs v => .extension p (.branch cs v)

theorem lookup_extension_empty (p : List Nat) : (extension p .empty).lookup = empty.lookup := by
  funext q
  simp [lookup]

theorem lookup_prefixed (p : List Nat) (t : Tree) : (t.prefixed p).lookup = (extension p t).lookup := by
  cases t with
  | empty => exact (lookup_extension_empty p).symm
  | leaf q v => exact (lookup_extension_leaf p q v).symm
  | extension q c => exact (lookup_extension_extension p q c).symm
  | branch cs v => rfl

theorem Canonical.prefixed {p : List Nat} (hp : p ≠ []) (hhex : IsHex p) {t : Tree}
    (ht : t.Canonical) : (t.prefixed p).Canonical := by
  cases t with
  | empty => trivial
  | leaf q v => exact ⟨(isTerminated_append_iff hhex).mpr ht.1, ht.2⟩
  | extension q c =>
    obtain ⟨-, hq, hb, hc⟩ := ht
    exact ⟨by simp [hp], Nibbles.IsHex.append hhex hq, hb, hc⟩
  | branch cs v => exact ⟨hp, hhex, trivial, ht⟩

theorem prefixed_ne_empty {p : List Nat} {t : Tree} (ht : t ≠ .empty) : t.prefixed p ≠ .empty := by
  cases t <;> simp_all [prefixed]

theorem update_none_of_lookup {t : Tree} {k : List Nat} (h : t.lookup k = none) :
    Function.update t.lookup k none = t.lookup :=
  Function.update_eq_self_iff.mpr h.symm

theorem lookup_leaf_erase (p : List Nat) (v : Bytes) :
    empty.lookup = Function.update (leaf p v).lookup p none := by
  funext q
  by_cases hq : q = p
  · subst hq
    simp
  · rw [Function.update_of_ne hq, lookup_leaf, if_neg hq, lookup_empty]

theorem lookup_branch_of_forall_empty {cs : Fin 16 → Tree} (hcs : ∀ i, cs i = .empty) {v : Bytes}
    (hv : v ≠ []) : (branch cs v).lookup = (leaf [16] v).lookup := by
  funext q
  match q with
  | [] => simp [lookup]
  | c :: r =>
    by_cases hc : c < 16
    · have hne : c :: r ≠ [16] := fun h => by simp at h; omega
      simp [lookup, hc, hcs, hne]
    · by_cases hr : c = 16 ∧ r = []
      · obtain ⟨rfl, rfl⟩ := hr
        simp [lookup, hv]
      · have hne : c :: r ≠ [16] := fun h => hr (by simp at h; exact h)
        simp only [lookup, hc, ↓reduceDIte, hne, ↓reduceIte]
        rw [if_neg (fun h => hr ⟨h.1, h.2.1⟩)]

theorem Canonical.exists_lookup_erase {cs : Fin 16 → Tree} {v : Bytes} (ht : (branch cs v).Canonical)
    (k : List Nat) : ∃ q x, Function.update (branch cs v).lookup k none q = some x := by
  obtain ⟨k₁, x₁, k₂, x₂, h₁, h₂, hk⟩ := ht.branch_two_heads
  by_cases hk₁ : k₁ = k
  · have hk₂ : k₂ ≠ k := fun h => hk (by rw [hk₁, h])
    exact ⟨k₂, x₂, by rw [Function.update_of_ne hk₂, h₂]⟩
  · exact ⟨k₁, x₁, by rw [Function.update_of_ne hk₁, h₁]⟩

theorem lookup_prefixed_single {cs : Fin 16 → Tree} {i : Fin 16} (hcs : ∀ j, j ≠ i → cs j = .empty) :
    ((cs i).prefixed [i.val]).lookup = (branch cs []).lookup := by
  have hsingle : cs = fun j => if j.val = i.val then cs i else .empty := by
    funext j
    by_cases hj : j = i
    · subst hj
      simp
    · rw [if_neg (fun h => hj (Fin.ext h)), hcs j hj]
  rw [lookup_prefixed, ← lookup_branch_single i.isLt (cs i), ← hsingle]

end Tree

end Ethrex.Mpt
