/-
# `Ethrex.Trie.Stored` — a tree in a trie state

The link between the stored nodes and the `Tree` they unfold to.  A tree's
root is a node (`toNode`) whose children are named by their hashes
(`nodeHash`, computed bottom-up as `insert_self` computes them); the tree is
`Stored` in a state when every node of it is `Found` under its hash: decoded
from the hash itself when inline, in the cache when hashed.

`TrieM.Spec x s Q` is what the correctness theorems prove of an operation
`x` run from `s`: it succeeds and ends in a state where `Q` holds, unless the
cache it leaves holds two different nodes under one hash.  Its rules
(`Spec.bind` and one per primitive) are the only way the proofs of the
operations look at `TrieM`.  The cache only grows, so a collision-free final
cache makes every cache met on the way collision-free; and in a
collision-free cache a node once found is found again.
-/
import Ethrex.Trie.Trie
import Ethrex.Trie.Tree
import Ethrex.Lib.AssocList

namespace Ethrex.Mpt

open Ethrex.Rlp

section Hashes

variable (keccak : Bytes → H256)

namespace Tree

/-- The hash of the tree's root node, its children's hashes computed first. -/
def nodeHash : Tree → NodeHash
  | .empty => default
  | .leaf p v => Node.computeHash keccak (.leaf ⟨⟨p⟩, v⟩)
  | .extension e c => Node.computeHash keccak (.extension ⟨⟨e⟩, c.nodeHash⟩)
  | .branch cs v => Node.computeHash keccak (.branch ⟨Vector.ofFn fun i => (cs i).nodeHash, v⟩)

/-- The tree's root node; the empty tree has none, and is given the empty
branch. -/
def toNode : Tree → Node
  | .empty => .branch (BranchNode.new BranchNode.emptyChoices)
  | .leaf p v => .leaf ⟨⟨p⟩, v⟩
  | .extension e c => .extension ⟨⟨e⟩, c.nodeHash keccak⟩
  | .branch cs v => .branch ⟨Vector.ofFn fun i => (cs i).nodeHash keccak, v⟩

theorem nodeHash_eq {t : Tree} (h : t ≠ .empty) :
    t.nodeHash keccak = (t.toNode keccak).computeHash keccak := by
  cases t with
  | empty => exact absurd rfl h
  | _ => rfl

@[simp] theorem nodeHash_empty : Tree.empty.nodeHash keccak = default := rfl

end Tree

/-- Where a hash says its node is: an inline hash decodes to it, a hashed
one finds it in the cache.  Irreducible: a hash computed from a tree is
never evaluated to decide which case applies. -/
@[irreducible] def Found (s : TrieState) (h : NodeHash) (n : Node) : Prop :=
  match h with
  | .inline _ => s.getNode h = .ok (some n)
  | .hashed _ => s.cache.lookup h = some n

theorem found_inline_iff {s : TrieState} {e : Bytes} {n : Node} :
    Found s (.inline e) n ↔ Node.decodeRaw e = .ok n := by
  unfold Found
  simp only [TrieState.getNode]
  split <;> simp_all

theorem found_hashed_iff {s : TrieState} {x : H256} {n : Node} :
    Found s (.hashed x) n ↔ s.cache.lookup (.hashed x) = some n := by
  unfold Found; rfl

theorem Found.getNode {s : TrieState} {h : NodeHash} {n : Node} (hf : Found s h n) :
    s.getNode h = .ok (some n) := by
  cases h with
  | inline _ => simp [TrieState.getNode, found_inline_iff.mp hf]
  | hashed _ => simp [TrieState.getNode, found_hashed_iff.mp hf]

theorem Found.extend {s : TrieState} {h : NodeHash} {n : Node} (hf : Found s h n)
    {w : List (NodeHash × Node)} (hw : (w ++ s.cache).Functional) : Found (s.extend w) h n := by
  cases h with
  | inline _ => exact found_inline_iff.mpr (found_inline_iff.mp hf)
  | hashed _ => exact found_hashed_iff.mpr (List.lookup_append_of_lookup hw (found_hashed_iff.mp hf))

namespace Tree

/-- Every node of the tree is found under its hash. -/
def Stored (s : TrieState) : Tree → Prop
  | .empty => True
  | .leaf p v => Found s ((leaf p v).nodeHash keccak) ((leaf p v).toNode keccak)
  | .extension e c =>
    Found s ((extension e c).nodeHash keccak) ((extension e c).toNode keccak) ∧ c.Stored s
  | .branch cs v =>
    Found s ((branch cs v).nodeHash keccak) ((branch cs v).toNode keccak) ∧ ∀ i, (cs i).Stored s

/-- Every node below the root is found under its hash. -/
def ChildrenStored (s : TrieState) : Tree → Prop
  | .extension _ c => c.Stored keccak s
  | .branch cs _ => ∀ i, (cs i).Stored keccak s
  | _ => True

variable {keccak}

theorem stored_iff {s : TrieState} {t : Tree} :
    t.Stored keccak s ↔
      (t ≠ .empty → Found s (t.nodeHash keccak) (t.toNode keccak)) ∧ t.ChildrenStored keccak s := by
  cases t with
  | empty => exact ⟨fun _ => ⟨fun h => absurd rfl h, trivial⟩, fun _ => trivial⟩
  | leaf p v => exact ⟨fun h => ⟨fun _ => h, trivial⟩, fun h => h.1 Tree.noConfusion⟩
  | extension e c => exact ⟨fun h => ⟨fun _ => h.1, h.2⟩, fun h => ⟨h.1 Tree.noConfusion, h.2⟩⟩
  | branch cs v => exact ⟨fun h => ⟨fun _ => h.1, h.2⟩, fun h => ⟨h.1 Tree.noConfusion, h.2⟩⟩

theorem Stored.childrenStored {s : TrieState} {t : Tree} (h : t.Stored keccak s) :
    t.ChildrenStored keccak s :=
  (stored_iff.mp h).2

theorem Stored.getNode {s : TrieState} {t : Tree} (h : t.Stored keccak s) (hne : t ≠ .empty) :
    s.getNode (t.nodeHash keccak) = .ok (some (t.toNode keccak)) :=
  ((stored_iff.mp h).1 hne).getNode

theorem Stored.extend {s : TrieState} {t : Tree} (h : t.Stored keccak s)
    {w : List (NodeHash × Node)} (hw : (w ++ s.cache).Functional) : t.Stored keccak (s.extend w) := by
  induction t with
  | empty => trivial
  | leaf p v => exact Found.extend h hw
  | extension e c ih => exact ⟨h.1.extend hw, ih h.2⟩
  | branch cs v ih => exact ⟨h.1.extend hw, fun i => ih i (h.2 i)⟩

theorem ChildrenStored.extend {s : TrieState} {t : Tree} (h : t.ChildrenStored keccak s)
    {w : List (NodeHash × Node)} (hw : (w ++ s.cache).Functional) :
    t.ChildrenStored keccak (s.extend w) := by
  cases t with
  | extension e c => exact Stored.extend h hw
  | branch cs v => exact fun i => Stored.extend (h i) hw
  | _ => trivial

end Tree

/-- `s'` is `s` with cache entries added, and its cache has no collision. -/
def TrieState.Grows (s s' : TrieState) : Prop := ∃ w, s' = s.extend w ∧ s'.cache.Functional

theorem TrieState.Grows.trans {s s' s'' : TrieState} (h : s.Grows s') (h' : s'.Grows s'') :
    s.Grows s'' := by
  obtain ⟨w, rfl, -⟩ := h
  obtain ⟨w', rfl, hf⟩ := h'
  exact ⟨w' ++ w, TrieState.extend_extend s w w', hf⟩

variable {keccak} in
theorem Tree.Stored.grows {s s' : TrieState} {t : Tree} (h : t.Stored keccak s) (hg : s.Grows s') :
    t.Stored keccak s' := by
  obtain ⟨w, rfl, hf⟩ := hg
  exact h.extend hf

variable {keccak} in
theorem Tree.ChildrenStored.grows {s s' : TrieState} {t : Tree} (h : t.ChildrenStored keccak s)
    (hg : s.Grows s') : t.ChildrenStored keccak s' := by
  obtain ⟨w, rfl, hf⟩ := hg
  exact h.extend hf

/-- The node `n` is the root of `t`, and the rest of `t` is stored in `s`. -/
def Holds (s : TrieState) (n : Node) (t : Tree) : Prop :=
  t ≠ .empty ∧ n = t.toNode keccak ∧ t.ChildrenStored keccak s

/-- The entries `insert_self` adds for a node: none for an inline one. -/
def Node.cacheEntries (n : Node) : List (NodeHash × Node) :=
  match n.computeHash keccak with
  | .hashed h => [(.hashed h, n)]
  | .inline _ => []

theorem Node.insertSelf_apply (n : Node) (s : TrieState) :
    n.insertSelf keccak s = (.ok (n.computeHash keccak), n.cacheEntries keccak) := by
  simp only [Node.insertSelf, TrieM.bind_apply, insertNode, Node.cacheEntries]
  rcases n.computeHash keccak with h | e <;> rfl

end Hashes

namespace TrieM

variable {α β : Type}

/-- Run from `s`, `x` succeeds and ends where `Q` holds, unless the cache it
leaves has two different nodes under one hash. -/
def Spec (x : TrieM α) (s : TrieState) (Q : α → TrieState → Prop) : Prop :=
  ((x s).2 ++ s.cache).Functional → ∃ a, (x s).1 = .ok a ∧ Q a (s.extend (x s).2)

theorem Spec.pure {s : TrieState} {a : α} {Q : α → TrieState → Prop}
    (h : s.cache.Functional → Q a s) : Spec (Pure.pure a) s Q := by
  intro hf
  exact ⟨a, rfl, by simpa using h (by simpa using hf)⟩

theorem Spec.bind {s : TrieState} {x : TrieM α} {f : α → TrieM β} {P : α → TrieState → Prop}
    {Q : β → TrieState → Prop} (hx : Spec x s P)
    (hf : ∀ a s', s'.cache.Functional → P a s' → Spec (f a) s' Q) : Spec (x >>= f) s Q := by
  intro hfun
  rw [bind_apply] at hfun ⊢
  rcases hxs : x s with ⟨r, w⟩
  rw [hxs] at hfun
  cases r with
  | error e =>
    obtain ⟨a, ha, -⟩ := hx (by simpa [hxs] using hfun)
    simp [hxs] at ha
  | ok a =>
    simp only at hfun ⊢
    have hw : (w ++ s.cache).Functional := by
      rw [List.append_assoc] at hfun; exact hfun.of_append_right
    obtain ⟨a', ha', hP⟩ := hx (by simpa [hxs] using hw)
    simp only [hxs, Except.ok.injEq] at ha' hP
    subst ha'
    obtain ⟨b, hb, hQ⟩ := hf a (s.extend w) hw hP (by simpa [List.append_assoc] using hfun)
    exact ⟨b, hb, by rwa [TrieState.extend_extend] at hQ⟩

theorem Spec.mono {s : TrieState} {x : TrieM α} {P Q : α → TrieState → Prop} (h : Spec x s P)
    (hpq : ∀ a s', P a s' → Q a s') : Spec x s Q := fun hf =>
  let ⟨a, ha, hp⟩ := h hf
  ⟨a, ha, hpq a _ hp⟩

theorem Spec.pure_bind {s : TrieState} {a : α} {f : α → TrieM β} {Q : β → TrieState → Prop}
    (h : Spec (f a) s Q) : Spec ((Pure.pure a : TrieM α) >>= f) s Q :=
  Spec.bind (P := fun a' s' => a' = a ∧ s' = s) (Spec.pure fun _ => ⟨rfl, rfl⟩)
    fun _ _ _ ⟨ha, hs⟩ => ha ▸ hs ▸ h

theorem Spec.map {s : TrieState} {x : TrieM α} {f : α → β} {P : α → TrieState → Prop}
    {Q : β → TrieState → Prop} (hx : Spec x s P) (hf : ∀ a s', P a s' → Q (f a) s') :
    Spec (f <$> x) s Q :=
  Spec.bind hx fun a s' _ hp => Spec.pure fun _ => hf a s' hp

theorem Spec.grows {s : TrieState} {x : TrieM α} {Q : α → TrieState → Prop} (h : Spec x s Q) :
    Spec x s fun a s' => Q a s' ∧ s.Grows s' := fun hf =>
  let ⟨a, ha, hq⟩ := h hf
  ⟨a, ha, hq, _, rfl, hf⟩

theorem Spec.getNodeM_ok {s : TrieState} {hash : NodeHash} {r : Option Node}
    {Q : Option Node → TrieState → Prop} (h : s.getNode hash = .ok r)
    (hq : s.cache.Functional → Q r s) : Spec (Mpt.getNodeM hash) s Q := by
  have happ : Mpt.getNodeM hash s = (s.getNode hash, []) := rfl
  intro hf
  rw [happ] at hf ⊢
  exact ⟨r, h, by simpa using hq (by simpa using hf)⟩

theorem Spec.insertSelf (keccak : Bytes → H256) {s : TrieState} {n : Node}
    {Q : NodeHash → TrieState → Prop}
    (hq : (n.cacheEntries keccak ++ s.cache).Functional →
      Q (n.computeHash keccak) (s.extend (n.cacheEntries keccak))) :
    Spec (n.insertSelf keccak) s Q := by
  intro hf
  rw [Node.insertSelf_apply] at hf ⊢
  exact ⟨_, rfl, hq hf⟩

end TrieM

end Ethrex.Mpt
