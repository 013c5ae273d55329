/-
# `Ethrex.Trie.RemoveCorrect` — `remove` from every node kind

What `Node::remove` must return is `Removed`: the value the trie had at the
path, and what is left, the root of a stored canonical trie holding every
other value, or nothing.  As for `insert`, each kind's removal is proved for
any recursive call that removes correctly along shorter paths
(`RemovesBelow`), and `Node.remove_spec` ties the kinds together by
induction on the fuel.

| | |
| :-- | :-- |
| `LeafNode.remove_removed` | the leaf goes with its value when the path is its own |
| `ExtensionNode.remove_spec` | what is left of the child takes the prefix in (`Tree.prefixed`) |
| `BranchNode.remove_spec` | step 1 empties the path's slot or the node's value, step 2 makes a branch with one entry left that entry |
| `Node.remove_spec` | `Node::remove` with `fuel` visits removes correctly along every path shorter than `fuel` |

`BranchNode::remove` is taken in its two steps, as the source's comments
name them (`BranchNode.remove_eq`); step 1 is stated for whatever follows
it, since the source's `do` block runs step 2 inside each of its branches.
-/
import Ethrex.Trie.InsertCorrect

namespace Ethrex.Mpt

open Ethrex.Rlp

theorem Tree.Stored.childrenStored_prefixed {keccak : Bytes → H256} {s : TrieState} {t : Tree}
    (h : t.Stored keccak s) (p : List Nat) : (t.prefixed p).ChildrenStored keccak s := by
  cases t with
  | empty => trivial
  | leaf q v => trivial
  | extension q c => exact h.2
  | branch cs v => exact h

section Remove

variable (keccak : Bytes → H256)

theorem BranchNode.remove_eq (removeChild : Node → Nibbles → TrieM (Option Node × Option ValueRLP))
    (self : BranchNode) (path : Nibbles) :
    BranchNode.remove keccak removeChild self path =
      BranchNode.removeValueThen keccak removeChild self path BranchNode.restructure := rfl

/-- What a removal leaves, `none` for nothing, is the root of `t`. -/
def Remains (s : TrieState) : Option Node → Tree → Prop
  | none, t => t = .empty
  | some n, t => Holds keccak s n t

/-- What removing `k` from `t` must return: the value `t` had there, and the
root of a stored canonical trie holding the rest of `t`. -/
def Removed (t : Tree) (k : List Nat) (r : Option Node × Option ValueRLP) (s : TrieState) : Prop :=
  r.2 = t.lookup k ∧
    ∃ t', Remains keccak s r.1 t' ∧ t'.Canonical ∧ t'.lookup = Function.update t.lookup k none

/-- `removeChild` removes correctly from every stored canonical trie, along
every terminated path shorter than `bound`. -/
def RemovesBelow (removeChild : Node → Nibbles → TrieM (Option Node × Option ValueRLP))
    (bound : Nat) : Prop :=
  ∀ (s : TrieState) (t : Tree) (k : List Nat), t.Canonical → t ≠ .empty →
    t.ChildrenStored keccak s → IsTerminated k → k.length < bound →
      TrieM.Spec (removeChild (t.toNode keccak) ⟨k⟩) s (Removed keccak t k)

variable {keccak}

theorem LeafNode.remove_removed {s : TrieState} {p k : List Nat} {v : Bytes} (hp : IsTerminated p)
    (hv : v ≠ []) : Removed keccak (.leaf p v) k (LeafNode.remove ⟨⟨p⟩, v⟩ ⟨k⟩) s := by
  by_cases hpk : p = k
  · subst hpk
    simp only [LeafNode.remove, if_true]
    exact ⟨by simp [Tree.lookup_leaf], .empty, rfl, trivial, Tree.lookup_leaf_erase p v⟩
  · have hne : (⟨p⟩ : Nibbles) ≠ ⟨k⟩ := fun h => hpk (congrArg Nibbles.data h)
    have hnone : (Tree.leaf p v).lookup k = none := by
      rw [Tree.lookup_leaf, if_neg (Ne.symm hpk)]
    simp only [LeafNode.remove, if_neg hne]
    exact ⟨hnone.symm, .leaf p v, ⟨Tree.noConfusion, rfl, trivial⟩, ⟨hp, hv⟩,
      (Tree.update_none_of_lookup hnone).symm⟩

theorem BranchNode.restructure_spec {s : TrieState} {cs : Fin 16 → Tree} {v : Bytes}
    {value : Option ValueRLP} (hcs : ∀ i, (cs i).Canonical)
    (hs : (Tree.branch cs v).ChildrenStored keccak s) {q : List Nat} {x : Bytes}
    (hx : (Tree.branch cs v).lookup q = some x) :
    TrieM.Spec (BranchNode.restructure ⟨Vector.ofFn fun i => (cs i).nodeHash keccak, v⟩ value) s
      fun r s' => r.2 = value ∧
        ∃ t', Remains keccak s' r.1 t' ∧ t'.Canonical ∧ t'.lookup = (Tree.branch cs v).lookup := by
  -- the children the source counts are the subtrees that are there
  have hchildren : (((List.finRange 16).map fun i =>
      (i, (Vector.ofFn fun j => (cs j).nodeHash keccak)[i])).filter fun c => c.2.isValid) =
      ((List.finRange 16).filter fun i => !(cs i).isEmpty).map fun i => (i, (cs i).nodeHash keccak) := by
    simp only [List.filter_map, Function.comp_def, Fin.getElem_fin, Vector.getElem_ofFn,
      Tree.isValid_nodeHash_eq]
  have hocc : Tree.occupied cs = ((List.finRange 16).filter fun i => !(cs i).isEmpty).length :=
    List.countP_eq_length_filter
  have hmem : ∀ i, i ∈ (List.finRange 16).filter (fun i => !(cs i).isEmpty) ↔ cs i ≠ .empty := by
    simp
  -- the branch as it is, when it keeps two of children and value
  have hbranch : 2 ≤ Tree.occupied cs + (if v = [] then 0 else 1) →
      TrieM.Spec (Pure.pure (Node.branch ⟨Vector.ofFn fun i => (cs i).nodeHash keccak, v⟩) >>=
        fun newNode => (Pure.pure (some newNode, value) : TrieM _)) s
      fun r s' => r.2 = value ∧
        ∃ t', Remains keccak s' r.1 t' ∧ t'.Canonical ∧ t'.lookup = (Tree.branch cs v).lookup :=
    fun h2 => TrieM.Spec.pure_bind (TrieM.Spec.pure fun _ =>
      ⟨rfl, .branch cs v, ⟨Tree.noConfusion, rfl, hs⟩, ⟨hcs, h2⟩, rfl⟩)
  simp only [BranchNode.restructure, hchildren]
  rcases hL : (List.finRange 16).filter (fun i => !(cs i).isEmpty) with _ | ⟨i, _ | ⟨j, rest⟩⟩
  · -- no children: the value alone, as a leaf at the flag
    have hempty : ∀ i, cs i = .empty := fun i => by
      by_contra hi
      simpa [hL] using (hmem i).mpr hi
    have hv : v ≠ [] := by
      rcases Tree.cases_of_lookup_branch hx with ⟨i, r, -, hr⟩ | ⟨-, hv, -⟩
      · rw [hempty i] at hr
        simp at hr
      · exact hv
    simp only [List.map_nil, List.isEmpty_eq_false_iff.mpr hv]
    exact TrieM.Spec.pure_bind (TrieM.Spec.pure fun _ => ⟨rfl, .leaf [16] v,
      ⟨Tree.noConfusion, rfl, trivial⟩, ⟨by decide, hv⟩, (Tree.lookup_branch_of_forall_empty hempty hv).symm⟩)
  · have hi : cs i ≠ .empty := (hmem i).mp (by simp [hL])
    by_cases hv : v = []
    · -- one child and no value: the child takes the branch's place, under its nibble
      subst hv
      have hothers : ∀ j, j ≠ i → cs j = .empty := fun j hj => by
        by_contra hj'
        have := (hmem j).mpr hj'
        rw [hL, List.mem_singleton] at this
        exact hj this
      simp only [List.map_cons, List.map_nil, List.isEmpty_nil, Bool.not_true]
      refine TrieM.Spec.bind (TrieM.Spec.getNodeM_stored keccak (hs i) hi) ?_
      rintro _ s' - ⟨rfl, hs'⟩
      subst s'
      have hrest : ∀ n, n = ((cs i).prefixed [i.val]).toNode keccak →
          TrieM.Spec (Pure.pure n >>= fun newNode => (Pure.pure (some newNode, value) : TrieM _)) s
            fun r s' => r.2 = value ∧
              ∃ t', Remains keccak s' r.1 t' ∧ t'.Canonical ∧ t'.lookup = (Tree.branch cs []).lookup :=
        fun n hn => TrieM.Spec.pure_bind (TrieM.Spec.pure fun _ => ⟨rfl, (cs i).prefixed [i.val],
          ⟨Tree.prefixed_ne_empty hi, hn, (hs i).childrenStored_prefixed _⟩,
          (hcs i).prefixed (List.cons_ne_nil _ _) (by simp [IsHex]), Tree.lookup_prefixed_single hothers⟩)
      -- the node `get_node` reads is the child's root: its kind decides the new node
      revert hrest hi
      cases cs i with
      | empty => exact fun hi _ => absurd rfl hi
      | leaf p w => exact fun _ hrest => hrest _ rfl
      | extension e c => exact fun _ hrest => hrest _ rfl
      | branch ds w => exact fun _ hrest => hrest _ rfl
    · -- one child and the value: the branch stays
      simp only [List.map_cons, List.map_nil, List.isEmpty_eq_false_iff.mpr hv, Bool.not_false]
      refine hbranch ?_
      rw [hocc, hL, if_neg hv]
      simp
  · -- two children or more: the branch stays
    simp only [List.map_cons]
    refine hbranch ?_
    rw [hocc, hL]
    simp only [List.length_cons]
    omega

theorem BranchNode.removeValueThen_spec {β : Type}
    {removeChild : Node → Nibbles → TrieM (Option Node × Option ValueRLP)} {s : TrieState}
    {cs : Fin 16 → Tree} {v : Bytes} {k : List Nat}
    {next : BranchNode → Option ValueRLP → TrieM β} {Q : β → TrieState → Prop}
    (hchild : RemovesBelow keccak removeChild k.length) (hcs : ∀ i, (cs i).Canonical)
    (hs : (Tree.branch cs v).ChildrenStored keccak s) (hk : IsTerminated k)
    (hnext : ∀ (cs' : Fin 16 → Tree) (v' : Bytes) (s' : TrieState), (∀ i, (cs' i).Canonical) → (Tree.branch cs' v').ChildrenStored keccak s' →
      (Tree.branch cs' v').lookup = Function.update (Tree.branch cs v).lookup k none →
      TrieM.Spec (next ⟨Vector.ofFn fun i => (cs' i).nodeHash keccak, v'⟩ ((Tree.branch cs v).lookup k))
        s' Q) :
    TrieM.Spec (BranchNode.removeValueThen keccak removeChild
      ⟨Vector.ofFn fun i => (cs i).nodeHash keccak, v⟩ ⟨k⟩ next) s Q := by
  obtain ⟨c, r, rfl⟩ := List.exists_cons_of_ne_nil hk.ne_nil
  rcases isTerminated_cons_iff.mp hk with ⟨hc, hr⟩ | ⟨rfl, rfl⟩
  · simp only [BranchNode.removeValueThen, Nibbles.nextChoice_cons hc, Fin.getElem_fin,
      Vector.getElem_ofFn]
    have hcr : c :: r = (⟨c, hc⟩ : Fin 16).val :: r := rfl
    by_cases hi : cs ⟨c, hc⟩ = .empty
    · -- no child there: nothing to remove
      have hnone : (Tree.branch cs v).lookup (c :: r) = none := by
        rw [hcr, Tree.lookup_branch_cons, hi, Tree.lookup_empty]
      rw [if_neg (by simp [hi])]
      refine TrieM.Spec.pure_bind ?_
      rw [hnone.symm]
      exact hnext cs v s hcs hs (Tree.update_none_of_lookup hnone).symm
    · -- the child is there: the removal goes on into it
      have hv : ((cs ⟨c, hc⟩).nodeHash keccak).isValid = true := (Tree.isValid_nodeHash keccak).mpr hi
      rw [if_pos hv]
      refine TrieM.Spec.bind (TrieM.Spec.getNodeM_stored keccak (hs ⟨c, hc⟩) hi) ?_
      rintro _ _ - ⟨rfl, rfl⟩
      refine TrieM.Spec.bind (TrieM.Spec.grows (hchild _ _ r (hcs _) hi
        (Tree.Stored.childrenStored (hs _)) hr (by simp))) ?_
      rintro ⟨child, oldValue⟩ s₁ - ⟨⟨hold, t', hrem, ht'c, ht'l⟩, hg₁⟩
      have hold' : oldValue = (Tree.branch cs v).lookup (c :: r) := by
        rw [hcr, Tree.lookup_branch_cons]
        exact hold
      have hl : (Tree.branch (Function.update cs ⟨c, hc⟩ t') v).lookup =
          Function.update (Tree.branch cs v).lookup (c :: r) none := Tree.lookup_branch_update ht'l
      have hset : (Vector.ofFn fun j => (cs j).nodeHash keccak).set c (t'.nodeHash keccak) hc =
          Vector.ofFn fun j => (Function.update cs ⟨c, hc⟩ t' j).nodeHash keccak :=
        (Vector.ofFn_update cs (Tree.nodeHash keccak) ⟨c, hc⟩ t').symm
      cases child with
      | none =>
        -- the child went: its slot is emptied
        obtain rfl : t' = .empty := hrem
        refine TrieM.Spec.pure_bind ?_
        rw [hold', ← Tree.nodeHash_empty keccak, hset]
        exact hnext _ v s₁ (Tree.canonical_update hcs ht'c)
          (Tree.childrenStored_branch_update (fun j => (hs j).grows hg₁) trivial) hl
      | some n =>
        -- the child stays, changed: it is stored again
        obtain ⟨ht'ne, rfl, ht's⟩ := hrem
        refine TrieM.Spec.bind (TrieM.Spec.insertSelf_tree keccak ht'c ht'ne ht's) ?_
        rintro h s₂ - ⟨rfl, hstored, hg₂⟩
        refine TrieM.Spec.pure_bind ?_
        rw [hold', hset]
        exact hnext _ v s₂ (Tree.canonical_update hcs ht'c)
          (Tree.childrenStored_branch_update (fun j => ((hs j).grows hg₁).grows hg₂) hstored) hl
  · -- the path ends here: the node's own value goes
    simp only [BranchNode.removeValueThen, Nibbles.nextChoice_flag]
    by_cases hv : v = []
    · subst hv
      have hnone : (Tree.branch cs []).lookup [16] = none := by simp [Tree.lookup_branch_flag]
      simp only [List.isEmpty_nil, Bool.not_true]
      refine TrieM.Spec.pure_bind ?_
      rw [hnone.symm]
      exact hnext cs [] s hcs hs (Tree.update_none_of_lookup hnone).symm
    · simp only [List.isEmpty_eq_false_iff.mpr hv, Bool.not_false, if_true]
      refine TrieM.Spec.pure_bind ?_
      have hsome : some v = (Tree.branch cs v).lookup [16] := by simp [Tree.lookup_branch_flag, hv]
      rw [hsome]
      refine hnext cs [] s hcs hs ?_
      simpa using Tree.lookup_branch_value cs v []

theorem BranchNode.remove_spec
    {removeChild : Node → Nibbles → TrieM (Option Node × Option ValueRLP)} {s : TrieState}
    {cs : Fin 16 → Tree} {v : Bytes} {k : List Nat}
    (hchild : RemovesBelow keccak removeChild k.length) (ht : (Tree.branch cs v).Canonical)
    (hs : (Tree.branch cs v).ChildrenStored keccak s) (hk : IsTerminated k) :
    TrieM.Spec (BranchNode.remove keccak removeChild ⟨Vector.ofFn fun i => (cs i).nodeHash keccak, v⟩ ⟨k⟩)
      s (Removed keccak (.branch cs v) k) := by
  rw [BranchNode.remove_eq]
  refine BranchNode.removeValueThen_spec hchild ht.1 hs hk ?_
  intro cs' v' s' hcs' hs' hl
  -- something is left, so the restructured node is the root of a trie
  obtain ⟨q, x, hx⟩ := ht.exists_lookup_erase k
  rw [← hl] at hx
  refine (BranchNode.restructure_spec hcs' hs' hx).mono ?_
  rintro r s'' ⟨hval, t', hrem, ht'c, ht'l⟩
  exact ⟨hval, t', hrem, ht'c, ht'l.trans hl⟩

/-- `ExtensionNode::remove` on a stored canonical extension: below the
prefix, the child's removal; what is left of the child takes the prefix in,
or goes, and the extension with it. -/
theorem ExtensionNode.remove_spec
    {removeChild : Node → Nibbles → TrieM (Option Node × Option ValueRLP)} {s : TrieState}
    {e k : List Nat} {c : Tree}
    (hchild : RemovesBelow keccak removeChild k.length) (ht : (Tree.extension e c).Canonical)
    (hs : (Tree.extension e c).ChildrenStored keccak s) (hk : IsTerminated k) :
    TrieM.Spec (ExtensionNode.remove keccak removeChild ⟨⟨e⟩, c.nodeHash keccak⟩ ⟨k⟩) s
      (Removed keccak (.extension e c) k) := by
  obtain ⟨he, hhex, hb, hc⟩ := ht
  have hcne : c ≠ .empty := by
    rintro rfl
    exact hb
  by_cases hp : e <+: k
  · obtain ⟨r, rfl⟩ := hp
    have hr : IsTerminated r := (isTerminated_append_iff hhex).mp hk
    have hlen : r.length < (e ++ r).length := by
      have := List.length_pos_iff.mpr he
      rw [List.length_append]
      omega
    have hskip : Nibbles.skipPrefix ⟨e ++ r⟩ ⟨e⟩ = some ⟨r⟩ := Nibbles.skipPrefix_append ⟨e⟩ r
    simp only [ExtensionNode.remove, hskip]
    refine TrieM.Spec.bind (TrieM.Spec.getNodeM_stored keccak hs hcne) ?_
    rintro _ _ - ⟨rfl, rfl⟩
    refine TrieM.Spec.bind (TrieM.Spec.grows (hchild _ _ r hc hcne (Tree.Stored.childrenStored hs) hr
      hlen)) ?_
    rintro ⟨child, oldValue⟩ s₁ - ⟨⟨hold, t', hrem, ht'c, ht'l⟩, -⟩
    -- whatever is left of the child, the extension's contents are it under the prefix
    have hold' : oldValue = (Tree.extension e c).lookup (e ++ r) := by
      rw [Tree.lookup_extension_append]
      exact hold
    have hl : (t'.prefixed e).lookup = Function.update (Tree.extension e c).lookup (e ++ r) none := by
      rw [Tree.lookup_prefixed]
      exact Tree.lookup_extension_update ht'l
    have hcan : (t'.prefixed e).Canonical := ht'c.prefixed he hhex
    have hdone : ∀ n s', Remains keccak s' n (t'.prefixed e) →
        TrieM.Spec (Pure.pure n >>= fun node => (Pure.pure (node, oldValue) : TrieM _)) s'
          (Removed keccak (.extension e c) (e ++ r)) :=
      fun n s' hn => TrieM.Spec.pure_bind (TrieM.Spec.pure fun _ => ⟨hold', _, hn, hcan, hl⟩)
    cases child with
    | none =>
      obtain rfl : t' = .empty := hrem
      exact hdone none s₁ rfl
    | some n =>
      obtain ⟨ht'ne, rfl, ht's⟩ := hrem
      cases t' with
      | empty => exact absurd rfl ht'ne
      | leaf p w => exact hdone _ s₁ ⟨Tree.noConfusion, rfl, trivial⟩
      | extension q d => exact hdone _ s₁ ⟨Tree.noConfusion, rfl, ht's⟩
      | branch ds w =>
        -- a branch is stored again, under the same prefix
        refine TrieM.Spec.bind (TrieM.Spec.insertSelf_tree keccak (t := .branch ds w) ht'c ht'ne ht's) ?_
        rintro h s₂ - ⟨hh, hstored, -⟩
        rw [hh]
        exact hdone _ s₂ ⟨Tree.noConfusion, rfl, hstored⟩
  · -- the path leaves the prefix: nothing to remove
    have hnone : (Tree.extension e c).lookup k = none := Tree.lookup_extension_eq_none c hp
    have hskip : Nibbles.skipPrefix ⟨k⟩ ⟨e⟩ = none := Nibbles.skipPrefix_eq_none_iff.mpr hp
    simp only [ExtensionNode.remove, hskip]
    exact TrieM.Spec.pure fun _ => ⟨hnone.symm, .extension e c, ⟨Tree.noConfusion, rfl, hs⟩,
      ⟨he, hhex, hb, hc⟩, (Tree.update_none_of_lookup hnone).symm⟩

/-- `Node::remove` with `fuel` visits removes correctly along every path
shorter than `fuel`: a visit to a branch or an extension consumes a nibble
at least, and a leaf ends the walk. -/
theorem Node.remove_spec (fuel : Nat) : RemovesBelow keccak (Node.remove keccak fuel) fuel := by
  induction fuel with
  | zero => intro s t k _ _ _ _ hlen; omega
  | succ fuel ih =>
    intro s t k ht hne hs hk hlen
    have hbelow : RemovesBelow keccak (Node.remove keccak fuel) k.length :=
      fun s t k' ht hne hs hk' hlen' => ih s t k' ht hne hs hk' (by omega)
    cases t with
    | empty => exact absurd rfl hne
    | leaf p v => exact TrieM.Spec.pure fun _ => LeafNode.remove_removed ht.1 ht.2
    | extension e c => exact ExtensionNode.remove_spec hbelow ht hs hk
    | branch cs v => exact BranchNode.remove_spec hbelow ht hs hk

end Remove

end Ethrex.Mpt
