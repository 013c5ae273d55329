/-
# `Ethrex.Trie.GetCorrect` — `get` reads the trie's contents

`Node::get` from the root of a stored canonical tree returns the tree's
value at the path, for every path `from_bytes` can make.  The induction is
on the fuel, one unit per node visit; a visit to a branch or an extension
consumes at least one nibble (an extension's prefix is not empty), so a
path of length `n` never needs more than `n + 1` visits and the fuel never
runs out first.

The paths must be terminated: `BranchNode::get` answers the node's own
value for every path that `next_choice` does not take into a child, the
empty path included, while a tree holds a branch's value at `[16]` only.
The walk keeps a terminated path terminated, and the two readings agree
there.
-/
import Ethrex.Trie.NodeCodec
import Ethrex.Trie.TreeUpdate

namespace Ethrex.Mpt

open Ethrex.Rlp

section Get

variable (keccak : Bytes → H256)

/-- `Node::get` on the root of a stored canonical tree is the tree's lookup. -/
theorem Node.get_toNode {s : TrieState} {fuel : Nat} {t : Tree} (ht : t.Canonical)
    (hne : t ≠ .empty) (hs : t.ChildrenStored keccak s) {k : List Nat} (hk : IsTerminated k)
    (hfuel : k.length < fuel) : Node.get s fuel (t.toNode keccak) ⟨k⟩ = .ok (t.lookup k) := by
  induction fuel generalizing t k with
  | zero => omega
  | succ fuel ih =>
    cases t with
    | empty => exact absurd rfl hne
    | leaf p v =>
      by_cases hkp : k = p
      · subst hkp
        simp [Tree.toNode, Node.get, LeafNode.get, Tree.lookup_leaf]
      · have hpk : (⟨p⟩ : Nibbles) ≠ ⟨k⟩ := fun h => hkp (congrArg Nibbles.data h).symm
        simp [Tree.toNode, Node.get, LeafNode.get, Tree.lookup_leaf, hkp, hpk]
    | extension e c =>
      obtain ⟨he, hhex, hb, hc⟩ := ht
      have hcne : c ≠ .empty := by
        rintro rfl
        exact hb
      simp only [Tree.toNode, Node.get, ExtensionNode.get]
      by_cases hp : e <+: k
      · -- the prefix matches: on into the child, with the rest of the path
        obtain ⟨k', rfl⟩ := hp
        have hk' : IsTerminated k' := (isTerminated_append_iff hhex).mp hk
        have hlen : k'.length < fuel := by
          have : 0 < e.length := List.length_pos_iff.mpr he
          simp only [List.length_append] at hfuel
          omega
        have hskip : Nibbles.skipPrefix ⟨e ++ k'⟩ ⟨e⟩ = some ⟨k'⟩ := Nibbles.skipPrefix_append ⟨e⟩ k'
        rw [hskip]
        simp only [Tree.Stored.getNode hs hcne, Except.ok_bind]
        exact (ih hc hcne (Tree.Stored.childrenStored hs) hk' hlen).trans
          (by rw [Tree.lookup_extension_append])
      · have hskip : Nibbles.skipPrefix ⟨k⟩ ⟨e⟩ = none := Nibbles.skipPrefix_eq_none_iff.mpr hp
        rw [hskip, Tree.lookup_extension_eq_none c hp]
        rfl
    | branch cs v =>
      obtain ⟨hcs, -⟩ := ht
      obtain ⟨c, r, rfl⟩ := List.exists_cons_of_ne_nil hk.ne_nil
      simp only [Tree.toNode, Node.get, BranchNode.get]
      rcases isTerminated_cons_iff.mp hk with ⟨hc, hr⟩ | ⟨rfl, rfl⟩
      · -- a choice: the chosen child, if it is there
        rw [Nibbles.nextChoice_cons hc]
        have hcr : c :: r = (⟨c, hc⟩ : Fin 16).val :: r := rfl
        rw [hcr, Tree.lookup_branch_cons]
        simp only [Fin.getElem_fin, Vector.getElem_ofFn]
        by_cases hi : cs ⟨c, hc⟩ = .empty
        · rw [hi]
          simp
        · have hv : ((cs ⟨c, hc⟩).nodeHash keccak).isValid = true :=
            (Tree.isValid_nodeHash keccak).mpr hi
          rw [if_pos hv, Tree.Stored.getNode (hs ⟨c, hc⟩) hi, Except.ok_bind]
          exact ih (hcs ⟨c, hc⟩) hi (Tree.Stored.childrenStored (hs ⟨c, hc⟩)) hr (by simp at hfuel; omega)
      · -- the flag: the branch's own value
        rw [Nibbles.nextChoice_flag, Tree.lookup_branch_flag]
        by_cases hv : v = [] <;> simp [hv]

end Get

end Ethrex.Mpt
