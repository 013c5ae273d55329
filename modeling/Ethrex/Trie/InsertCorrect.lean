/-
# `Ethrex.Trie.InsertCorrect` — `insert` into every node kind

What `Node::insert` must leave is `Inserted`: the root of a stored
canonical trie that maps the path to the value and agrees with the old
one everywhere else.  A node kind's insertion is proved for any recursive
call that inserts correctly along shorter paths (`InsertsBelow`), so that
an induction on the fuel, as `Node.insert` recurses, can tie the kinds
together.

| | |
| :-- | :-- |
| `BranchNode.insert_spec` | the path's child takes the value, a new leaf when the slot is empty, or the branch itself when the path ends |
| `LeafNode.insert_spec` | the same path takes the new value; two paths part into a `fork`, under an extension for the nibbles they share |
| `ExtensionNode.insert_spec` | into the child, into a branch in the extension's place, or into the split-off rest of the prefix |
| `Node.insert_spec` | `Node::insert` with `fuel` visits inserts correctly along every path shorter than `fuel / 2` |

No rebuilt node's shape is checked by counting: `TreeUpdate` turns each
change into the Merkle-Patricia shape from the contents, and the lemmas here
only say what the new contents are.
-/
import Ethrex.Lib.Vector
import Ethrex.Trie.GetCorrect

namespace Ethrex.Mpt

open Ethrex.Rlp

section Insert

variable (keccak : Bytes → H256)

/-- What inserting `value` at `k` into `t` must leave: the root of a stored
canonical trie holding `t`'s values and `value` at `k`. -/
def Inserted (t : Tree) (k : List Nat) (value : Bytes) (n : Node) (s : TrieState) : Prop :=
  ∃ t', Holds keccak s n t' ∧ t'.Canonical ∧ t'.lookup = Function.update t.lookup k (some value)

/-- `insertChild` inserts `value` correctly into every stored canonical
trie, along every terminated path shorter than `bound`. -/
def InsertsBelow (insertChild : Node → Nibbles → ValueRLP → TrieM Node) (value : Bytes)
    (bound : Nat) : Prop :=
  ∀ (s : TrieState) (t : Tree) (k : List Nat), t.Canonical → t ≠ .empty →
    t.ChildrenStored keccak s → IsTerminated k → k.length < bound →
      TrieM.Spec (insertChild (t.toNode keccak) ⟨k⟩ value) s (Inserted keccak t k value)

variable {keccak}

/-! ## Rebuilt branches -/

theorem Tree.toNode_branch_update (cs : Fin 16 → Tree) (v : Bytes) {c : Nat} (hc : c < 16)
    (t : Tree) :
    (Tree.branch (Function.update cs ⟨c, hc⟩ t) v).toNode keccak =
      .branch ⟨(Vector.ofFn fun j => (cs j).nodeHash keccak).set c (t.nodeHash keccak) hc, v⟩ := by
  simp only [Tree.toNode]
  rw [Vector.ofFn_update cs (Tree.nodeHash keccak) ⟨c, hc⟩ t]

theorem Tree.childrenStored_branch_update {s : TrieState} {cs : Fin 16 → Tree} {v : Bytes}
    {i : Fin 16} {t : Tree} (hs : ∀ j, (cs j).Stored keccak s) (ht : t.Stored keccak s) :
    (Tree.branch (Function.update cs i t) v).ChildrenStored keccak s := by
  intro j
  by_cases hj : j = i
  · subst hj
    simpa using ht
  · rw [Function.update_of_ne hj]
    exact hs j

theorem Tree.canonical_update {cs : Fin 16 → Tree} (hcs : ∀ i, (cs i).Canonical) {i : Fin 16}
    {t : Tree} (ht : t.Canonical) : ∀ j, (Function.update cs i t j).Canonical := by
  intro j
  by_cases hj : j = i
  · subst hj
    simpa using ht
  · rw [Function.update_of_ne hj]
    exact hcs j

/-! ## Branches -/

/-- `BranchNode::insert` on a branch of stored canonical children, which
need not hold two values: the path's child takes the value, or the branch
does when the path ends. -/
theorem BranchNode.insert_spec {insertChild : Node → Nibbles → ValueRLP → TrieM Node}
    {s : TrieState} {cs : Fin 16 → Tree} {v : Bytes} {k : List Nat} {value : Bytes}
    (hchild : InsertsBelow keccak insertChild value k.length) (hcs : ∀ i, (cs i).Canonical)
    (hs : (Tree.branch cs v).ChildrenStored keccak s) (hk : IsTerminated k) (hvalue : value ≠ []) :
    TrieM.Spec
      (BranchNode.insert keccak insertChild ⟨Vector.ofFn fun i => (cs i).nodeHash keccak, v⟩ ⟨k⟩
        value) s
      fun n s' => ∃ cs' v', Holds keccak s' n (.branch cs' v') ∧ (∀ i, (cs' i).Canonical) ∧
        (Tree.branch cs' v').lookup = Function.update (Tree.branch cs v).lookup k (some value) := by
  obtain ⟨c, r, rfl⟩ := List.exists_cons_of_ne_nil hk.ne_nil
  rcases isTerminated_cons_iff.mp hk with ⟨hc, hr⟩ | ⟨rfl, rfl⟩
  · simp only [BranchNode.insert, Nibbles.nextChoice_cons hc, Fin.getElem_fin, Vector.getElem_ofFn]
    by_cases hi : cs ⟨c, hc⟩ = .empty
    · -- no child there: a new leaf holds the rest of the path
      have hleaf : (Tree.leaf r value).Canonical := ⟨hr, hvalue⟩
      rw [if_pos (by simp [hi])]
      have hnew := TrieM.Spec.insertSelf_tree keccak (s := s) hleaf (by simp) trivial
      refine TrieM.Spec.bind hnew ?_
      rintro h s' - ⟨rfl, hstored, hg⟩
      refine TrieM.Spec.pure fun _ =>
        ⟨Function.update cs ⟨c, hc⟩ (.leaf r value), v, ⟨Tree.noConfusion, ?_, ?_⟩,
          Tree.canonical_update hcs hleaf, ?_⟩
      · exact (Tree.toNode_branch_update cs v hc _).symm
      · exact Tree.childrenStored_branch_update (fun j => (hs j).grows hg) hstored
      · refine Tree.lookup_branch_update ?_
        rw [hi]
        exact Tree.lookup_leaf_of_empty r value
    · -- the child is there: the insertion goes on into it
      have hv : ((cs ⟨c, hc⟩).nodeHash keccak).isValid = true := (Tree.isValid_nodeHash keccak).mpr hi
      rw [if_neg (by simp [hv])]
      refine TrieM.Spec.bind (TrieM.Spec.getNodeM_stored keccak (hs ⟨c, hc⟩) hi) ?_
      rintro _ _ - ⟨rfl, rfl⟩
      refine TrieM.Spec.bind (TrieM.Spec.grows (hchild _ _ r (hcs _) hi
        (Tree.Stored.childrenStored (hs _)) hr (by simp))) ?_
      rintro n s₁ - ⟨⟨t', ⟨ht'ne, rfl, ht's⟩, ht'c, ht'l⟩, hg₁⟩
      refine TrieM.Spec.bind (TrieM.Spec.insertSelf_tree keccak ht'c ht'ne ht's) ?_
      rintro h s₂ - ⟨rfl, hstored, hg₂⟩
      refine TrieM.Spec.pure fun _ =>
        ⟨Function.update cs ⟨c, hc⟩ t', v, ⟨Tree.noConfusion, ?_, ?_⟩,
          Tree.canonical_update hcs ht'c, Tree.lookup_branch_update ht'l⟩
      · exact (Tree.toNode_branch_update cs v hc _).symm
      · exact Tree.childrenStored_branch_update (fun j => ((hs j).grows hg₁).grows hg₂) hstored
  · -- the path ends here: the branch holds the value
    simp only [BranchNode.insert, Nibbles.nextChoice_flag]
    refine TrieM.Spec.pure fun _ => ⟨cs, value, ⟨Tree.noConfusion, rfl, hs⟩, hcs, ?_⟩
    rw [Tree.lookup_branch_value cs v value, if_neg hvalue]

/-! ## Leaves -/

theorem Tree.toNode_fork {a b : Nat} (hab : a ≠ b) (ka kb : List Nat) (va vb : Bytes) :
    (Tree.fork a ka va b kb vb).toNode keccak =
      .branch ⟨(BranchNode.emptyChoices.set! a ((Tree.leaf ka va).nodeHash keccak)).set! b
        ((Tree.leaf kb vb).nodeHash keccak), if a = 16 then va else if b = 16 then vb else []⟩ := by
  simp only [Tree.fork, Tree.toNode, apply_ite (Tree.nodeHash keccak), Tree.nodeHash_empty]
  rw [Vector.ofFn_ite_ite hab]
  rfl

theorem Tree.childrenStored_fork {s : TrieState} {a b : Nat} {ka kb : List Nat} {va vb : Bytes}
    (ha : a < 16 → (Tree.leaf ka va).Stored keccak s) (hb : b < 16 → (Tree.leaf kb vb).Stored keccak s) :
    (Tree.fork a ka va b kb vb).ChildrenStored keccak s := by
  intro i
  simp only
  split_ifs with hia hib
  · exact ha (hia ▸ i.isLt)
  · exact hb (hib ▸ i.isLt)
  · trivial

/-- `LeafNode::insert` on a stored leaf: the same path takes the new value;
two different paths part into a fork, under an extension for the nibbles
they share. -/
theorem LeafNode.insert_spec {s : TrieState} {p k : List Nat} {v value : Bytes}
    (hp : IsTerminated p) (hv : v ≠ []) (hk : IsTerminated k) (hvalue : value ≠ []) :
    TrieM.Spec (LeafNode.insert keccak ⟨⟨p⟩, v⟩ ⟨k⟩ value) s (Inserted keccak (.leaf p v) k value) := by
  by_cases hpk : p = k
  · subst hpk
    simp only [LeafNode.insert]
    exact TrieM.Spec.pure fun _ =>
      ⟨.leaf p value, ⟨Tree.noConfusion, rfl, trivial⟩, ⟨hp, hvalue⟩, Tree.lookup_leaf_update p v value⟩
  -- the paths part after a common prefix `c`: at `a` the new one, at `b` the old one
  obtain ⟨c, a, ka, b, kb, rfl, rfl, hab⟩ := exists_fork hk hp (Ne.symm hpk)
  have hne : (⟨c ++ b :: kb⟩ : Nibbles) ≠ ⟨c ++ a :: ka⟩ := fun h => hpk (congrArg Nibbles.data h)
  have hka : IsTerminated (a :: ka) := (isTerminated_append_iff hk.isHex_of_append_cons).mp hk
  have hkb : IsTerminated (b :: kb) := (isTerminated_append_iff hp.isHex_of_append_cons).mp hp
  have hfork := Tree.canonical_fork hab hka hkb hvalue hv
  -- the end of the insertion: the fork alone when nothing is shared, else under an extension
  have hrest : ∀ bn s', Node.branch bn = (Tree.fork a ka value b kb v).toNode keccak →
      (Tree.fork a ka value b kb v).ChildrenStored keccak s' →
      TrieM.Spec (if c.length = 0 then pure (Node.branch bn) else
        (Node.branch bn).insertSelf keccak >>= fun child =>
          pure (Node.extension ⟨Nibbles.slice ⟨c ++ a :: ka⟩ 0 c.length, child⟩)) s'
        (Inserted keccak (.leaf (c ++ b :: kb) v) (c ++ a :: ka) value) := by
    intro bn s' hbn hstored
    by_cases hc : c = []
    · subst hc
      refine TrieM.Spec.pure fun _ => ⟨_, ⟨Tree.noConfusion, hbn, hstored⟩, hfork, ?_⟩
      exact Tree.lookup_fork_update hab hka hkb hvalue hv
    · rw [if_neg (by simpa using hc), hbn]
      refine TrieM.Spec.bind (TrieM.Spec.insertSelf_tree keccak hfork Tree.noConfusion hstored) ?_
      intro h s'' _ hP
      obtain ⟨hh, hstored', -⟩ := hP
      rw [hh]
      refine TrieM.Spec.pure fun _ => ⟨.extension c (Tree.fork a ka value b kb v), ⟨Tree.noConfusion,
        by rw [Nibbles.slice_append_zero, Tree.toNode], hstored'⟩, ⟨hc, hk.isHex_of_append_cons, trivial, hfork⟩, ?_⟩
      rw [← Tree.lookup_extension_leaf c (b :: kb) v]
      exact Tree.lookup_extension_update (Tree.lookup_fork_update hab hka hkb hvalue hv)
  simp only [LeafNode.insert, if_neg hne, Nibbles.countPrefix_append_cons c ka kb hab,
    Nibbles.nibbleAt_append_cons, Nibbles.offset_append_cons]
  by_cases hb16 : b = 16
  · -- the old path ends here: the branch keeps its value, the new leaf goes under `a`
    rw [if_pos hb16]
    subst hb16
    obtain rfl : kb = [] := ((isTerminated_cons_iff.mp hkb).resolve_left fun h => by omega).2
    obtain ⟨ha, hka'⟩ := (isTerminated_cons_iff.mp hka).resolve_right fun h => hab h.1
    refine TrieM.Spec.bind (TrieM.Spec.insertSelf_tree keccak (t := .leaf ka value) ⟨hka', hvalue⟩
      Tree.noConfusion trivial) ?_
    rintro h s' - ⟨hh, hstored, -⟩
    rw [hh]
    refine TrieM.Spec.pure_bind (hrest _ _ ?_ (Tree.childrenStored_fork (fun _ => hstored) (by omega)))
    rw [Tree.toNode_fork hab, if_neg hab, if_pos rfl, Vector.set!_eq_setIfInBounds (i := 16),
      Vector.setIfInBounds_eq_of_size_le (le_refl 16)]
    rfl
  rw [if_neg hb16]
  by_cases ha16 : a = 16
  · -- the new path ends here: the branch takes the value, the old leaf goes under `b`
    rw [if_pos ha16]
    subst ha16
    obtain rfl : ka = [] := ((isTerminated_cons_iff.mp hka).resolve_left fun h => by omega).2
    obtain ⟨hb, hkb'⟩ := (isTerminated_cons_iff.mp hkb).resolve_right fun h => hb16 h.1
    refine TrieM.Spec.bind (TrieM.Spec.insertSelf_tree keccak (t := .leaf kb v) ⟨hkb', hv⟩
      Tree.noConfusion trivial) ?_
    rintro h s' - ⟨hh, hstored, -⟩
    rw [hh]
    refine TrieM.Spec.pure_bind (hrest _ _ ?_ (Tree.childrenStored_fork (by omega) (fun _ => hstored)))
    rw [Tree.toNode_fork hab, if_pos rfl, Vector.set!_eq_setIfInBounds (i := 16),
      Vector.setIfInBounds_eq_of_size_le (le_refl 16)]
    rfl
  · -- both go on: two leaves
    rw [if_neg ha16]
    obtain ⟨ha, hka'⟩ := (isTerminated_cons_iff.mp hka).resolve_right fun h => ha16 h.1
    obtain ⟨hb, hkb'⟩ := (isTerminated_cons_iff.mp hkb).resolve_right fun h => hb16 h.1
    refine TrieM.Spec.bind (TrieM.Spec.insertSelf_tree keccak (t := .leaf ka value) ⟨hka', hvalue⟩
      Tree.noConfusion trivial) ?_
    rintro h s' - ⟨hh, hstored, -⟩
    rw [hh]
    refine TrieM.Spec.bind (TrieM.Spec.insertSelf_tree keccak (t := .leaf kb v) ⟨hkb', hv⟩
      Tree.noConfusion trivial) ?_
    rintro h₂ s'' - ⟨hh₂, hstored₂, hg₂⟩
    rw [hh₂]
    refine TrieM.Spec.pure_bind (hrest _ _ ?_
      (Tree.childrenStored_fork (fun _ => hstored.grows hg₂) (fun _ => hstored₂)))
    rw [Tree.toNode_fork hab, if_neg ha16, if_neg hb16]
    rfl

/-! ## Extensions

`ExtensionNode::insert` has three ways on: the whole prefix is shared and the
insertion goes into the child; nothing is shared and a branch takes the
extension's place; or the paths part inside the prefix and the extension is
split.  One lemma each, and `ExtensionNode.insert_spec` sorts a path into them
(`exists_prefix_or_fork`). -/

theorem ExtensionNode.insert_spec_of_prefix {insertChild : Node → Nibbles → ValueRLP → TrieM Node}
    {s : TrieState} {e k : List Nat} {c : Tree} {value : Bytes}
    (hchild : InsertsBelow keccak insertChild value (e ++ k).length)
    (ht : (Tree.extension e c).Canonical) (hs : (Tree.extension e c).ChildrenStored keccak s)
    (hk : IsTerminated (e ++ k)) :
    TrieM.Spec (ExtensionNode.insert keccak insertChild ⟨⟨e⟩, c.nodeHash keccak⟩ ⟨e ++ k⟩ value) s
      (Inserted keccak (.extension e c) (e ++ k) value) := by
  obtain ⟨he, hhex, hb, hc⟩ := ht
  have hcne : c ≠ .empty := by
    rintro rfl
    exact hb
  have hk' : IsTerminated k := (isTerminated_append_iff hhex).mp hk
  have hlen : k.length < (e ++ k).length := by
    have := List.length_pos_iff.mpr he
    rw [List.length_append]
    omega
  simp only [ExtensionNode.insert, Nibbles.countPrefix_append, Nibbles.len_eq, if_true,
    Nibbles.offset_append]
  refine TrieM.Spec.bind (TrieM.Spec.getNodeM_stored keccak hs hcne) ?_
  rintro _ _ - ⟨rfl, rfl⟩
  refine TrieM.Spec.bind (TrieM.Spec.grows (hchild _ _ k hc hcne (Tree.Stored.childrenStored hs) hk'
    hlen)) ?_
  rintro n s₁ - ⟨⟨t', ⟨ht'ne, rfl, ht's⟩, ht'c, ht'l⟩, -⟩
  refine TrieM.Spec.bind (TrieM.Spec.insertSelf_tree keccak ht'c ht'ne ht's) ?_
  rintro h s₂ - ⟨rfl, hstored, -⟩
  exact TrieM.Spec.pure fun _ => ⟨.extension e t', ⟨Tree.noConfusion, rfl, hstored⟩,
    ⟨he, hhex, hc.isBranch_of_update hb ht'c ht'l, ht'c⟩, Tree.lookup_extension_update ht'l⟩

theorem BranchNode.insert_single_spec {insertChild : Node → Nibbles → ValueRLP → TrieM Node}
    {s : TrieState} {x : Tree} {a b : Nat} {ka : List Nat} {value : Bytes} (hb : b < 16) (hab : a ≠ b)
    (hchild : InsertsBelow keccak insertChild value (a :: ka).length) (hx : x.Canonical)
    (hxne : x ≠ .empty) (hxs : x.Stored keccak s) (hk : IsTerminated (a :: ka)) (hvalue : value ≠ []) :
    TrieM.Spec (BranchNode.insert keccak insertChild
        (BranchNode.new (BranchNode.emptyChoices.set! b (x.nodeHash keccak))) ⟨a :: ka⟩ value) s
      fun n s' => ∃ t', Holds keccak s' n t' ∧ t'.Canonical ∧
        t'.lookup = Function.update (Tree.extension [b] x).lookup (a :: ka) (some value) := by
  have hnode : BranchNode.new (BranchNode.emptyChoices.set! b (x.nodeHash keccak)) =
      ⟨Vector.ofFn fun i => (if i.val = b then x else .empty : Tree).nodeHash keccak, []⟩ := by
    simp only [apply_ite (Tree.nodeHash keccak), Tree.nodeHash_empty, Vector.ofFn_ite]
    rfl
  have hcs : ∀ i : Fin 16, (if i.val = b then x else .empty : Tree).Canonical := fun i => by
    split
    · exact hx
    · trivial
  have hstored : (Tree.branch (fun i => if i.val = b then x else .empty) []).ChildrenStored keccak s :=
    fun i => by
      dsimp only
      split
      · exact hxs
      · trivial
  rw [hnode]
  refine (BranchNode.insert_spec hchild hcs hstored hk hvalue).mono ?_
  rintro n s' ⟨cs', v', hholds, hcs', hl⟩
  rw [Tree.lookup_branch_single hb] at hl
  refine ⟨_, hholds, ?_, hl⟩
  -- the old values sit under `b` and the new one under `a`: two heads
  obtain ⟨q, y, hq⟩ := hx.exists_lookup hxne
  obtain ⟨z, hz⟩ := Tree.exists_update_eq_some (k := a :: ka) (w := value)
    (show (Tree.extension [b] x).lookup ([b] ++ q) = some y by rw [Tree.lookup_extension_append]; exact hq)
  rw [← hl] at hz
  have hnew : (Tree.branch cs' v').lookup (a :: ka) = some value := by rw [hl, Function.update_self]
  exact Tree.canonical_branch_of_two_heads hcs' hz hnew (by simpa using Ne.symm hab)

theorem ExtensionNode.insert_spec_of_fork {insertChild : Node → Nibbles → ValueRLP → TrieM Node}
    {s : TrieState} {c : Tree} {a b : Nat} {ka kb : List Nat} {value : Bytes} (hab : a ≠ b)
    (hchild : InsertsBelow keccak insertChild value (a :: ka).length)
    (ht : (Tree.extension (b :: kb) c).Canonical) (hs : (Tree.extension (b :: kb) c).ChildrenStored keccak s)
    (hk : IsTerminated (a :: ka)) (hvalue : value ≠ []) :
    TrieM.Spec (ExtensionNode.insert keccak insertChild ⟨⟨b :: kb⟩, c.nodeHash keccak⟩ ⟨a :: ka⟩ value) s
      (Inserted keccak (.extension (b :: kb) c) (a :: ka) value) := by
  obtain ⟨-, hhex, hbr, hc⟩ := ht
  have hb : b < 16 := hhex b (by simp)
  have hcne : c ≠ .empty := by
    rintro rfl
    exact hbr
  have hb16 : b ≠ 16 := by omega
  simp only [ExtensionNode.insert, Nibbles.countPrefix_cons_cons, if_neg hab, Nibbles.len_eq,
    Nibbles.nibbleAt_cons_zero, hb16, ↓reduceIte, Nibbles.offset_cons]
  by_cases hkb : kb = []
  · -- a one-nibble prefix: the child goes under `b` itself
    subst hkb
    simp only [List.length_singleton, ↓reduceIte]
    refine TrieM.Spec.pure_bind (TrieM.Spec.pure_bind ((BranchNode.insert_single_spec hb hab hchild hc hcne
      hs hk hvalue).mono ?_))
    rintro n s' ⟨t', hholds, ht'c, ht'l⟩
    exact ⟨t', hholds, ht'c, ht'l⟩
  · -- a longer prefix: its rest becomes an extension under `b`
    have hrest : (Tree.extension kb c).Canonical :=
      ⟨hkb, fun y hy => hhex y (List.mem_cons_of_mem b hy), hbr, hc⟩
    rw [if_neg (show ¬ (b :: kb).length = 1 by simpa using hkb)]
    refine TrieM.Spec.bind (TrieM.Spec.insertSelf_tree keccak (t := .extension kb c) hrest Tree.noConfusion hs) ?_
    rintro h s' - ⟨rfl, hstored, -⟩
    refine TrieM.Spec.pure_bind ((BranchNode.insert_single_spec hb hab hchild hrest Tree.noConfusion
      hstored hk hvalue).mono ?_)
    rintro n s'' ⟨t', hholds, ht'c, ht'l⟩
    exact ⟨t', hholds, ht'c, by rw [ht'l, Tree.lookup_extension_extension]; rfl⟩

theorem ExtensionNode.insert_spec_of_split {insertChild : Node → Nibbles → ValueRLP → TrieM Node}
    {s : TrieState} {c : Tree} {d ka kb : List Nat} {a b : Nat} {value : Bytes} (hd : d ≠ [])
    (hab : a ≠ b) (hchild : InsertsBelow keccak insertChild value (d ++ a :: ka).length)
    (ht : (Tree.extension (d ++ b :: kb) c).Canonical)
    (hs : (Tree.extension (d ++ b :: kb) c).ChildrenStored keccak s) (hk : IsTerminated (d ++ a :: ka)) :
    TrieM.Spec (ExtensionNode.insert keccak insertChild ⟨⟨d ++ b :: kb⟩, c.nodeHash keccak⟩ ⟨d ++ a :: ka⟩
        value) s
      (Inserted keccak (.extension (d ++ b :: kb) c) (d ++ a :: ka) value) := by
  obtain ⟨-, hhex, hb, hc⟩ := ht
  have hdhex : IsHex d := Nibbles.IsHex.sublist hhex (List.sublist_append_left d _)
  have hrest : (Tree.extension (b :: kb) c).Canonical :=
    ⟨List.cons_ne_nil b kb, Nibbles.IsHex.sublist hhex (List.sublist_append_right d _), hb, hc⟩
  have hka : IsTerminated (a :: ka) := (isTerminated_append_iff hdhex).mp hk
  have hlen : (a :: ka).length < (d ++ a :: ka).length := by
    have := List.length_pos_iff.mpr hd
    rw [List.length_append]
    omega
  have hm : d.length ≠ (d ++ b :: kb).length := by simp
  have hm0 : d.length ≠ 0 := by simpa using hd
  simp only [ExtensionNode.insert, Nibbles.countPrefix_append_cons d ka kb hab, Nibbles.len_eq,
    if_neg hm, if_neg hm0, Nibbles.offset_append]
  refine TrieM.Spec.bind (TrieM.Spec.grows (hchild _ (.extension (b :: kb) c) (a :: ka) hrest
    Tree.noConfusion hs hka hlen)) ?_
  rintro n s₁ - ⟨⟨t', ⟨ht'ne, rfl, ht's⟩, ht'c, ht'l⟩, -⟩
  refine TrieM.Spec.bind (TrieM.Spec.insertSelf_tree keccak ht'c ht'ne ht's) ?_
  rintro h s₂ - ⟨rfl, hstored, -⟩
  -- the split-off rest keeps its values under `b` and takes the new one under `a`: a branch
  have hbranch : t'.IsBranch := by
    obtain ⟨q, x, hq⟩ := hc.exists_lookup (by rintro rfl; exact hb)
    obtain ⟨y, hy⟩ := Tree.exists_update_eq_some (k := a :: ka) (w := value)
      (show (Tree.extension (b :: kb) c).lookup ((b :: kb) ++ q) = some x by
        rw [Tree.lookup_extension_append]; exact hq)
    rw [← ht'l] at hy
    have hnew : t'.lookup (a :: ka) = some value := by rw [ht'l, Function.update_self]
    exact ht'c.isBranch_of_two_heads hy hnew (by simpa using Ne.symm hab)
  refine TrieM.Spec.pure fun _ => ⟨.extension d t', ⟨Tree.noConfusion,
    by rw [Nibbles.slice_append_zero, Tree.toNode], hstored⟩, ⟨hd, hdhex, hbranch, ht'c⟩, ?_⟩
  rw [← Tree.lookup_extension_extension d (b :: kb) c]
  exact Tree.lookup_extension_update ht'l

theorem ExtensionNode.insert_spec {insertChild : Node → Nibbles → ValueRLP → TrieM Node}
    {s : TrieState} {e : List Nat} {c : Tree} {k : List Nat} {value : Bytes}
    (hchild : InsertsBelow keccak insertChild value k.length) (ht : (Tree.extension e c).Canonical)
    (hs : (Tree.extension e c).ChildrenStored keccak s) (hk : IsTerminated k) (hvalue : value ≠ []) :
    TrieM.Spec (ExtensionNode.insert keccak insertChild ⟨⟨e⟩, c.nodeHash keccak⟩ ⟨k⟩ value) s
      (Inserted keccak (.extension e c) k value) := by
  rcases exists_prefix_or_fork hk ht.2.1 with ⟨r, rfl⟩ | ⟨d, a, ka, b, kb, rfl, rfl, hab⟩
  · exact ExtensionNode.insert_spec_of_prefix hchild ht hs hk
  · cases d with
    | nil => exact ExtensionNode.insert_spec_of_fork hab hchild ht hs hk hvalue
    | cons x d => exact ExtensionNode.insert_spec_of_split (List.cons_ne_nil x d) hab hchild ht hs hk

/-! ## Nodes -/

theorem InsertsBelow.mono {insertChild : Node → Nibbles → ValueRLP → TrieM Node} {value : Bytes}
    {bound bound' : Nat} (h : InsertsBelow keccak insertChild value bound) (hle : bound' ≤ bound) :
    InsertsBelow keccak insertChild value bound' :=
  fun s t k ht hne hs hk hlen => h s t k ht hne hs hk (Nat.lt_of_lt_of_le hlen hle)

/-- `Node::insert` with `fuel` visits inserts correctly along every path
shorter than half the fuel.  The induction is on the fuel: one visit goes to
the node's kind, whose recursive calls are along shorter paths. -/
theorem Node.insert_spec {value : Bytes} (hvalue : value ≠ []) (fuel : Nat) :
    InsertsBelow keccak (Node.insert keccak fuel) value (fuel / 2) := by
  induction fuel with
  | zero => intro s t k _ _ _ _ hlen; omega
  | succ fuel ih =>
    intro s t k ht hne hs hk hlen
    have hbelow : InsertsBelow keccak (Node.insert keccak fuel) value k.length := ih.mono (by omega)
    cases t with
    | empty => exact absurd rfl hne
    | leaf p v => exact LeafNode.insert_spec ht.1 ht.2 hk hvalue
    | extension e c => exact ExtensionNode.insert_spec hbelow ht hs hk hvalue
    | branch cs v =>
      refine (BranchNode.insert_spec hbelow ht.1 hs hk hvalue).mono ?_
      rintro n s' ⟨cs', v', hholds, hcs', hl⟩
      exact ⟨_, hholds, ht.branch_of_update hcs' hl, hl⟩

end Insert

end Ethrex.Mpt
