/-
# `Ethrex.Trie.CommitCorrect` — what `Trie::hash` commits

`Trie::hash` commits: `commit_node_tail_recursive` walks from the root
through the cache, takes each node it meets out of the cache, and appends
it, children first, to the batch that `put_batch` writes under the node's
hash.  A node not in the cache is taken to be in the database already.

| | |
| :-- | :-- |
| `Committed` | what a part of the walk did: entries taken out, each written, and the children of each taken out too |
| `commitNodeTailRecursive_spec` | the walk succeeds and takes its node out |
| `Committed.taken_out_nodes` | so it takes out every hashed node of a tree stored in the cache |
| `Committed.written_nodes` | and the batch writes each of them in an encoding that reads back |
| `TrieState.getNode_written` | a cache whose nodes the database holds answers `get_node` as the database does |
| `Trie.hash_openAt_get` | after `Trie::hash`, `Trie::open` at the hash over the database reads the map the trie held |
| `Trie.hash_openAt_inline_root` | but a root shorter than a hash is never written, and `Trie::open` at its hash reads no value |

The proof of `Trie.hash_openAt_get` reads the reopened trie against a ghost
state: the database, with a cache of the tree's own nodes (`Tree.nodes`).
The tree is stored there, so `get` on the ghost reads the map; and the ghost
answers every `get_node` as the database alone does, so `get` on the
reopened trie reads the same.

The walk does not follow an inline node that is not cached, and it need
not: a node whose encoding is shorter than a hash has no hashed child
(`Node.isHashed_computeHash`), as a hash alone is 32 bytes of the encoding.

## The hypotheses

The cache holds hashed nodes only, as `insert_node` caches nothing else, so
the database keys of the nodes written, their hashes' bytes, tell them
apart.  Every cached node's database encoding is shorter than `2 ^ 64`
bytes.  The root is hashed, its encoding at least as long as a hash: an
inline root is not in the cache, so the walk writes nothing under its hash
and `Trie::open` there finds no node.  And the root hash is not
`EMPTY_TRIE_HASH`, which `Trie::open` takes for the empty trie: a collision
of `keccak` between the root's encoding and the empty string's.
-/
import Ethrex.Trie.NodeStorage
import Ethrex.Trie.TrieCorrect
import Ethrex.Lib.EntryMap
import Ethrex.Lib.HashStandIn

namespace Ethrex.Mpt

open Ethrex.Rlp

/-- A hash proper, not an inline encoding. -/
def NodeHash.IsHashed : NodeHash → Prop
  | .hashed _ => True
  | .inline _ => False

instance : DecidablePred NodeHash.IsHashed := fun h =>
  match h with
  | .hashed _ => inferInstanceAs (Decidable True)
  | .inline _ => inferInstanceAs (Decidable False)

/-- The children `commit_node_tail_recursive` goes on to: a branch's valid
choices, an extension's child. -/
def Node.children : Node → List NodeHash
  | .branch b => b.choices.toList.filter NodeHash.isValid
  | .extension e => [e.child]
  | .leaf _ => []

/-! ## The walk -/

section Walk

variable {cache cache' cache'' : List (NodeHash × Node)} {acc acc' acc'' : List (Bytes × Bytes)}

/-- What a part of `commit_node_tail_recursive` did, from `cache` and `acc`
to `cache'` and `acc'`: it only took entries out of the cache; it appended
to `acc` entries of the cache, under their hash's bytes; each node it took
out it appended, and it took out the children of each. -/
structure Committed (cache : List (NodeHash × Node)) (acc : List (Bytes × Bytes))
    (cache' : List (NodeHash × Node)) (acc' : List (Bytes × Bytes)) : Prop where
  lookup : ∀ h, cache'.lookup h = cache.lookup h ∨ cache'.lookup h = none
  length_le : cache'.length ≤ cache.length
  appended : ∃ new, acc' = acc ++ new ∧
    ∀ e ∈ new, ∃ h n, cache.lookup h = some n ∧ e = (h.toBytes, n.encode)
  written : ∀ h n, cache.lookup h = some n → cache'.lookup h = none → (h.toBytes, n.encode) ∈ acc'
  closed : ∀ h n, cache.lookup h = some n → cache'.lookup h = none →
    ∀ c ∈ n.children, cache'.lookup c = none

namespace Committed

theorem refl : Committed cache acc cache acc where
  lookup _ := .inl rfl
  length_le := le_rfl
  appended := ⟨[], by simp, by simp⟩
  written _ _ hl hl' := by simp [hl] at hl'
  closed _ _ hl hl' := by simp [hl] at hl'

theorem lookup_of_some (hc : Committed cache acc cache' acc') {h : NodeHash} {n : Node}
    (hn : cache'.lookup h = some n) : cache.lookup h = some n := by
  rcases hc.lookup h with e | e
  · rwa [← e]
  · simp [e] at hn

theorem lookup_none (hc : Committed cache acc cache' acc') {h : NodeHash}
    (hn : cache.lookup h = none) : cache'.lookup h = none := by
  rcases hc.lookup h with e | e <;> rw [e]
  exact hn

theorem mem_acc (hc : Committed cache acc cache' acc') {e : Bytes × Bytes} (he : e ∈ acc) :
    e ∈ acc' := by
  obtain ⟨new, rfl, -⟩ := hc.appended
  exact List.mem_append_left _ he

theorem trans (h₁ : Committed cache acc cache' acc') (h₂ : Committed cache' acc' cache'' acc'') :
    Committed cache acc cache'' acc'' where
  lookup h := by
    rcases h₂.lookup h with e | e
    · rw [e]
      exact h₁.lookup h
    · exact .inr e
  length_le := h₂.length_le.trans h₁.length_le
  appended := by
    obtain ⟨new₁, rfl, hnew₁⟩ := h₁.appended
    obtain ⟨new₂, rfl, hnew₂⟩ := h₂.appended
    refine ⟨new₁ ++ new₂, by simp, fun e he => ?_⟩
    rcases List.mem_append.mp he with he | he
    · exact hnew₁ e he
    · obtain ⟨h, n, hl, rfl⟩ := hnew₂ e he
      exact ⟨h, n, h₁.lookup_of_some hl, rfl⟩
  written h n hl hl'' := by
    -- taken out by the first part, or still there for the second
    cases hl' : cache'.lookup h with
    | none => exact h₂.mem_acc (h₁.written h n hl hl')
    | some n' =>
      obtain rfl : n' = n := Option.some.inj ((h₁.lookup_of_some hl').symm.trans hl)
      exact h₂.written h n' hl' hl''
  closed h n hl hl'' c hc := by
    cases hl' : cache'.lookup h with
    | none => exact h₂.lookup_none (h₁.closed h n hl hl' c hc)
    | some n' =>
      obtain rfl : n' = n := Option.some.inj ((h₁.lookup_of_some hl').symm.trans hl)
      exact h₂.closed h n' hl' hl'' c hc

theorem take_out {x : NodeHash} {n : Node} (hx : cache.lookup x = some n)
    (hc : Committed (cache.filter fun e => e.1 ≠ x) acc cache' acc')
    (hchildren : ∀ c ∈ n.children, cache'.lookup c = none) :
    Committed cache acc cache' (acc' ++ [(x.toBytes, n.encode)]) where
  lookup h := by
    rcases hc.lookup h with e | e
    · rw [e, EntryMap.lookup_filter_ne]
      split
      · exact .inr rfl
      · exact .inl rfl
    · exact .inr e
  length_le := by
    refine hc.length_le.trans (List.length_filter_le _ _)
  appended := by
    obtain ⟨new, rfl, hnew⟩ := hc.appended
    refine ⟨new ++ [(x.toBytes, n.encode)], by simp, fun e he => ?_⟩
    rcases List.mem_append.mp he with he | he
    · obtain ⟨h, m, hl, rfl⟩ := hnew e he
      rw [EntryMap.lookup_filter_ne] at hl
      split at hl
      · cases hl
      · exact ⟨h, m, hl, rfl⟩
    · obtain rfl := List.mem_singleton.mp he
      exact ⟨x, n, hx, rfl⟩
  written h m hl hl' := by
    by_cases hhx : h = x
    · subst hhx
      obtain rfl := Option.some.inj (hl.symm.trans hx)
      exact List.mem_append_right _ (List.mem_singleton_self _)
    · have hlf : (cache.filter fun e => e.1 ≠ x).lookup h = some m := by
        rw [EntryMap.lookup_filter_ne, if_neg hhx, hl]
      exact List.mem_append_left _ (hc.written h m hlf hl')
  closed h m hl hl' := by
    by_cases hhx : h = x
    · subst hhx
      obtain rfl := Option.some.inj (hl.symm.trans hx)
      exact hchildren
    · have hlf : (cache.filter fun e => e.1 ≠ x).lookup h = some m := by
        rw [EntryMap.lookup_filter_ne, if_neg hhx, hl]
      exact hc.closed h m hlf hl'

end Committed

theorem foldlM_committed {fuel : Nat}
    {f : List (NodeHash × Node) × List (Bytes × Bytes) → NodeHash →
      Except TrieError (List (NodeHash × Node) × List (Bytes × Bytes))}
    (hf : ∀ cache acc c, cache.length < fuel → ∃ cache' acc', f (cache, acc) c = .ok (cache', acc') ∧
      Committed cache acc cache' acc' ∧ (c.isValid → cache'.lookup c = none))
    (l : List NodeHash) (cache : List (NodeHash × Node)) (acc : List (Bytes × Bytes))
    (hlen : cache.length < fuel) :
    ∃ cache' acc', l.foldlM f (cache, acc) = .ok (cache', acc') ∧ Committed cache acc cache' acc' ∧
      ∀ c ∈ l, c.isValid → cache'.lookup c = none := by
  induction l generalizing cache acc with
  | nil => exact ⟨cache, acc, rfl, .refl, by simp⟩
  | cons c l ih =>
    obtain ⟨cache₁, acc₁, hf₁, hc₁, hout₁⟩ := hf cache acc c hlen
    obtain ⟨cache₂, acc₂, hf₂, hc₂, hout₂⟩ := ih cache₁ acc₁ (lt_of_le_of_lt hc₁.length_le hlen)
    refine ⟨cache₂, acc₂, by simp [List.foldlM_cons, hf₁, hf₂], hc₁.trans hc₂, ?_⟩
    intro c' hc' hvalid
    rcases List.mem_cons.mp hc' with rfl | hc'
    · exact hc₂.lookup_none (hout₁ hvalid)
    · exact hout₂ c' hc' hvalid

/-- `commit_node_tail_recursive` with more fuel than the cache has entries
succeeds, commits, and takes its node out. -/
theorem commitNodeTailRecursive_spec (fuel : Nat) :
    ∀ (cache : List (NodeHash × Node)) (x : NodeHash) (acc : List (Bytes × Bytes)),
      cache.length < fuel → ∃ cache' acc', TrieState.commitNodeTailRecursive fuel cache x acc = .ok (cache', acc') ∧
        Committed cache acc cache' acc' ∧ cache'.lookup x = none := by
  induction fuel with
  | zero => exact fun _ _ _ h => absurd h (Nat.not_lt_zero _)
  | succ fuel ih =>
    intro cache x acc hlen
    cases hx : cache.lookup x with
    | none => exact ⟨cache, acc, by simp [TrieState.commitNodeTailRecursive, hx], .refl, hx⟩
    | some n =>
      -- the node's entry goes, so the children have one entry less to walk
      have hlen' : (cache.filter fun e => e.1 ≠ x).length < fuel := by
        have hmem := List.mem_of_lookup_eq_some hx
        have hlt : (cache.filter fun e => e.1 ≠ x).length < cache.length :=
          List.length_filter_lt_length_iff_exists.mpr ⟨(x, n), hmem, by simp⟩
        omega
      have hout : (cache.filter fun e => e.1 ≠ x).lookup x = none := by
        rw [EntryMap.lookup_filter_ne, if_pos rfl]
      -- the node is written after its children, whatever their walk
      have hdone : ∀ cache' acc', Committed (cache.filter fun e => e.1 ≠ x) acc cache' acc' →
          (∀ c ∈ n.children, cache'.lookup c = none) →
          Committed cache acc cache' (acc' ++ [(x.toBytes, n.encode)]) ∧ cache'.lookup x = none :=
        fun cache' acc' hc hchildren => ⟨hc.take_out hx hchildren, hc.lookup_none hout⟩
      cases n with
      | branch b =>
        obtain ⟨cache', acc', hrun, hc, hchildren⟩ := foldlM_committed
          (f := fun r child =>
            if child.isValid then TrieState.commitNodeTailRecursive fuel r.1 child r.2 else pure r)
          (fun cache acc c hlen => by
            by_cases hv : c.isValid
            · obtain ⟨cache', acc', hrun, hc, hout⟩ := ih cache c acc hlen
              exact ⟨cache', acc', by simp [hv, hrun], hc, fun _ => hout⟩
            · exact ⟨cache, acc, by simp [hv], .refl, fun h => absurd h hv⟩)
          b.choices.toList _ acc hlen'
        refine ⟨cache', _, ?_, hdone cache' acc' hc fun c hc' => ?_⟩
        · simp only [TrieState.commitNodeTailRecursive, hx]
          exact (congrArg (· >>= _) hrun).trans rfl
        · obtain ⟨hc', hv⟩ := List.mem_filter.mp hc'
          exact hchildren c hc' hv
      | extension e =>
        obtain ⟨cache', acc', hrun, hc, hchild⟩ := ih _ e.child acc hlen'
        refine ⟨cache', _, ?_, hdone cache' acc' hc (by simpa [Node.children] using hchild)⟩
        simp only [TrieState.commitNodeTailRecursive, hx]
        rw [hrun]
        rfl
      | leaf l =>
        refine ⟨_, _, ?_, hdone _ acc .refl (by simp [Node.children])⟩
        simp only [TrieState.commitNodeTailRecursive, hx]
        rfl

end Walk

/-! ## Hashed children -/

theorem Node.le_length_encodeRaw {n : Node} {x : H256} (hc : .hashed x ∈ n.children) :
    32 ≤ n.encodeRaw.length := by
  have hx : 32 ≤ (Slice.encode x.toList).length := by
    simpa using le_length_slice_encode x.toList
  cases n with
  | branch b =>
    have hmem : Slice.encode x.toList ∈
        b.choices.toList.map BranchNode.choiceItem ++ [Slice.encode b.value] :=
      List.mem_append_left _ (List.mem_map.mpr ⟨_, (List.mem_filter.mp hc).1, rfl⟩)
    have hle := (List.sublist_flatten_of_mem hmem).length_le
    simp only [Node.encodeRaw, BranchNode.encodeRaw_eq, Encoder.finish, List.length_append]
    omega
  | extension e =>
    have hchild : e.child = .hashed x := by simpa [Node.children, eq_comm] using hc
    simp only [Node.encodeRaw, ExtensionNode.encodeRaw, hchild, Encoder.finish,
      Encoder.encodeBytes_tempBuf, List.length_append]
    omega
  | leaf l => simp [Node.children] at hc

section Hashes

variable (keccak : Bytes → H256)

theorem Node.isHashed_computeHash {n : Node} {h : NodeHash} (hc : h ∈ n.children) (hh : h.IsHashed) :
    (n.computeHash keccak).IsHashed := by
  cases h with
  | inline _ => exact absurd hh id
  | hashed x =>
    have hlen := Node.le_length_encodeRaw hc
    simp [Node.computeHash, NodeHash.fromEncodedRaw, hlen, NodeHash.IsHashed]

end Hashes

/-! ## The nodes of a tree -/

section Nodes

variable (keccak : Bytes → H256)

/-- The nodes of a tree under their hashes, the root first: what a cache
holds when it holds the tree. -/
def Tree.nodes : Tree → List (NodeHash × Node)
  | .empty => []
  | .leaf p v => [((Tree.leaf p v).nodeHash keccak, (Tree.leaf p v).toNode keccak)]
  | .extension p c =>
    ((Tree.extension p c).nodeHash keccak, (Tree.extension p c).toNode keccak) :: c.nodes
  | .branch cs v => ((Tree.branch cs v).nodeHash keccak, (Tree.branch cs v).toNode keccak) ::
      (List.finRange 16).flatMap fun i => (cs i).nodes

variable {keccak}

theorem Found.unique {s : TrieState} {h : NodeHash} {n n' : Node} (hf : Found s h n)
    (hf' : Found s h n') : n = n' := by
  have h := hf.getNode.symm.trans hf'.getNode
  simpa using h

theorem Found.of_mem {s s' : TrieState} {h : NodeHash} {n : Node} (hf : Found s h n)
    (hl : s'.cache.Functional) (hmem : (h, n) ∈ s'.cache) : Found s' h n := by
  cases h with
  | inline _ => exact found_inline_iff.mpr (found_inline_iff.mp hf)
  | hashed _ => exact found_hashed_iff.mpr (List.lookup_eq_some_of_mem hl hmem)

namespace Tree

theorem stored_iff_nodes {s : TrieState} {t : Tree} :
    t.Stored keccak s ↔ ∀ e ∈ t.nodes keccak, Found s e.1 e.2 := by
  induction t with
  | empty => simp [Stored, nodes]
  | leaf p v => simp [Stored, nodes]
  | extension p c ih => simp [Stored, nodes, ih]
  | branch cs v ih =>
    simp only [Stored, nodes, List.mem_cons, List.mem_flatMap, List.mem_finRange, true_and,
      forall_eq_or_imp, ih]
    exact and_congr_right fun _ => ⟨fun h e ⟨i, he⟩ => h i e he, fun h i e he => h e ⟨i, he⟩⟩

theorem Stored.functional_nodes {s : TrieState} {t : Tree} (hs : t.Stored keccak s) :
    (t.nodes keccak).Functional := by
  intro p hp q hq he
  have hq' : Found s p.1 q.2 := he ▸ stored_iff_nodes.mp hs q hq
  exact (stored_iff_nodes.mp hs p hp).unique hq'

theorem Stored.to_nodes {s : TrieState} {t : Tree} (hs : t.Stored keccak s)
    (db : Bytes → Option Bytes) : t.Stored keccak ⟨db, t.nodes keccak⟩ :=
  stored_iff_nodes.mpr fun e he => (stored_iff_nodes.mp hs e he).of_mem hs.functional_nodes he

theorem storable_of_mem_nodes {t : Tree} (ht : t.Canonical) {e : NodeHash × Node}
    (he : e ∈ t.nodes keccak) : e.2.Storable := by
  induction t with
  | empty => simp [nodes] at he
  | leaf p v =>
    obtain rfl := List.mem_singleton.mp he
    exact storable_toNode keccak ht
  | extension p c ih =>
    rcases List.mem_cons.mp he with rfl | he
    · exact storable_toNode keccak ht
    · exact ih ht.2.2.2 he
  | branch cs v ih =>
    rcases List.mem_cons.mp he with rfl | he
    · exact storable_toNode keccak ht
    · obtain ⟨i, -, he⟩ := List.mem_flatMap.mp he
      exact ih i (ht.1 i) he

end Tree

end Nodes

/-! ## What the walk takes out -/

section Closure

variable {keccak : Bytes → H256} {s : TrieState} {cache' : List (NodeHash × Node)}
  {acc acc' : List (Bytes × Bytes)}

theorem Committed.taken_out_child (hc : Committed s.cache acc cache' acc') {t : Tree}
    (hne : t ≠ .empty) (hf : Found s (t.nodeHash keccak) (t.toNode keccak))
    (ht : (t.nodeHash keccak).IsHashed → cache'.lookup (t.nodeHash keccak) = none)
    {h : NodeHash} (hch : h ∈ (t.toNode keccak).children) (hh : h.IsHashed) :
    cache'.lookup h = none := by
  -- the parent of a hashed child is hashed
  have hth : (t.nodeHash keccak).IsHashed := by
    rw [Tree.nodeHash_eq keccak hne]
    exact Node.isHashed_computeHash keccak hch hh
  generalize t.nodeHash keccak = r at hth hf ht
  cases r with
  | inline _ => exact absurd hth id
  | hashed _ => exact hc.closed _ _ (found_hashed_iff.mp hf) (ht hth) h hch

theorem Tree.mem_children_branch {cs : Fin 16 → Tree} {v : ValueRLP} (i : Fin 16)
    (hh : ((cs i).nodeHash keccak).IsHashed) :
    (cs i).nodeHash keccak ∈ ((Tree.branch cs v).toNode keccak).children := by
  simp only [Tree.toNode, Node.children, List.mem_filter, Vector.toList_ofFn, List.mem_ofFn]
  refine ⟨⟨i, rfl⟩, ?_⟩
  generalize (cs i).nodeHash keccak = r at hh ⊢
  cases r with
  | inline _ => exact absurd hh id
  | hashed _ => rfl

/-- A walk from the root of a stored tree takes out every hashed node of the
tree, by induction on the tree: a node taken out had its children taken
out. -/
theorem Committed.taken_out_nodes (hc : Committed s.cache acc cache' acc') {t : Tree}
    (hs : t.Stored keccak s)
    (ht : (t.nodeHash keccak).IsHashed → cache'.lookup (t.nodeHash keccak) = none) :
    ∀ e ∈ t.nodes keccak, e.1.IsHashed → cache'.lookup e.1 = none := by
  induction t with
  | empty => simp [Tree.nodes]
  | leaf p v =>
    intro e he
    -- reduce the pair's projections before matching `ht`, not inside the unifier
    rw [List.mem_singleton.mp he]
    dsimp only
    exact ht
  | extension p c ih =>
    intro e he
    rcases List.mem_cons.mp he with rfl | he
    · exact ht
    · have hch : c.nodeHash keccak ∈ ((Tree.extension p c).toNode keccak).children := by
        simp [Tree.toNode, Node.children]
      exact ih hs.2 (fun hh => hc.taken_out_child Tree.noConfusion hs.1 ht hch hh) e he
  | branch cs v ih =>
    intro e he
    rcases List.mem_cons.mp he with he | he
    · rw [he]
      dsimp only
      exact ht
    · obtain ⟨i, -, he⟩ := List.mem_flatMap.mp he
      exact ih i (hs.2 i)
        (fun hh => hc.taken_out_child Tree.noConfusion hs.1 ht (Tree.mem_children_branch i hh) hh) e he

end Closure

/-! ## The batch -/

theorem NodeHash.eq_of_toBytes_eq {h h' : NodeHash} (hh : h.IsHashed) (hh' : h'.IsHashed)
    (he : h.toBytes = h'.toBytes) : h = h' := by
  cases h with
  | inline _ => exact absurd hh id
  | hashed x =>
    cases h' with
    | inline _ => exact absurd hh' id
    | hashed y => simpa [NodeHash.toBytes, List.Vector.toList_injective.eq_iff] using he

theorem putBatch_eq_foldl (db : Bytes → Option Bytes) (keyValues : List (Bytes × Bytes)) :
    putBatch db keyValues = keyValues.foldl List.updateEntry db := rfl

theorem putBatch_of_mem {db : Bytes → Option Bytes} {keyValues : List (Bytes × Bytes)}
    (hl : keyValues.Functional) {key value : Bytes} (hmem : (key, value) ∈ keyValues) :
    putBatch db keyValues key = some value := by
  rw [putBatch_eq_foldl]
  exact List.foldl_updateEntry_of_mem hl hmem db

section Batch

variable {cache cache' : List (NodeHash × Node)} {acc : List (Bytes × Bytes)}

theorem Committed.functional (hc : Committed cache [] cache' acc)
    (hcache : ∀ e ∈ cache, e.1.IsHashed) : acc.Functional := by
  obtain ⟨new, rfl, hnew⟩ := hc.appended
  intro p hp q hq hpq
  obtain ⟨h₁, n₁, hl₁, rfl⟩ := hnew p (by simpa using hp)
  obtain ⟨h₂, n₂, hl₂, rfl⟩ := hnew q (by simpa using hq)
  have hh : h₁ = h₂ := NodeHash.eq_of_toBytes_eq (hcache _ (List.mem_of_lookup_eq_some hl₁))
    (hcache _ (List.mem_of_lookup_eq_some hl₂)) hpq
  subst hh
  obtain rfl := Option.some.inj (hl₁.symm.trans hl₂)
  rfl

theorem Committed.putBatch_eq (hc : Committed cache [] cache' acc)
    (hcache : ∀ e ∈ cache, e.1.IsHashed) (db : Bytes → Option Bytes) {h : NodeHash} {n : Node}
    (hl : cache.lookup h = some n) (hl' : cache'.lookup h = none) :
    putBatch db acc h.toBytes = some n.encode :=
  putBatch_of_mem (hc.functional hcache) (hc.written h n hl hl')

end Batch

/-- `TrieState::commit`: the walk from the root, with enough fuel, and the
batch it gathered written over the database. -/
theorem TrieState.commit_spec (s : TrieState) (root : NodeHash) :
    ∃ cache' acc, s.commit root = .ok ⟨putBatch s.db acc, []⟩ ∧ Committed s.cache [] cache' acc ∧
      cache'.lookup root = none := by
  obtain ⟨cache', acc, hrun, hc, hout⟩ :=
    commitNodeTailRecursive_spec (s.cache.length + 1) s.cache root [] (Nat.lt_succ_self _)
  refine ⟨cache', acc, ?_, hc, hout⟩
  rw [TrieState.commit, hrun]
  rfl

/-! ## Reading the database back -/

theorem ExtensionNode.get_congr {s s' : TrieState} (h : ∀ x, s.getNode x = s'.getNode x)
    (getChild : Node → Nibbles → Except TrieError (Option ValueRLP)) (n : ExtensionNode)
    (path : Nibbles) : n.get getChild s path = n.get getChild s' path := by
  simp only [ExtensionNode.get, h]

theorem BranchNode.get_congr {s s' : TrieState} (h : ∀ x, s.getNode x = s'.getNode x)
    (getChild : Node → Nibbles → Except TrieError (Option ValueRLP)) (n : BranchNode)
    (path : Nibbles) : n.get getChild s path = n.get getChild s' path := by
  simp only [BranchNode.get, h]

theorem Node.get_congr {s s' : TrieState} (h : ∀ x, s.getNode x = s'.getNode x) :
    ∀ fuel n path, Node.get s fuel n path = Node.get s' fuel n path
  | 0, _, _ => rfl
  | fuel + 1, .branch n, path => by
    have hchild : Node.get s fuel = Node.get s' fuel := funext₂ (Node.get_congr h fuel)
    rw [Node.get, Node.get, hchild, BranchNode.get_congr h]
  | fuel + 1, .extension n, path => by
    have hchild : Node.get s fuel = Node.get s' fuel := funext₂ (Node.get_congr h fuel)
    rw [Node.get, Node.get, hchild, ExtensionNode.get_congr h]
  | _ + 1, .leaf _, _ => rfl

theorem TrieState.get_congr {s s' : TrieState} (h : ∀ x, s.getNode x = s'.getNode x)
    (root : Option NodeHash) (path : Bytes) :
    (⟨root, s⟩ : Trie).get path = (⟨root, s'⟩ : Trie).get path := by
  simp only [Trie.get, h, Node.get_congr h]

/-- The database holds every hashed node of `cache`, in an encoding that
reads back. -/
def Written (db : Bytes → Option Bytes) (cache : List (NodeHash × Node)) : Prop :=
  ∀ x n, cache.lookup (.hashed x) = some n →
    ∃ rlp, db (NodeHash.hashed x).toBytes = some rlp ∧ decode Node.decodeUnfinished rlp = .ok n

theorem TrieState.getNode_written {db : Bytes → Option Bytes} {cache : List (NodeHash × Node)}
    (hdb : Written db cache) (h : NodeHash) :
    (⟨db, cache⟩ : TrieState).getNode h = (⟨db, []⟩ : TrieState).getNode h := by
  cases h with
  | inline _ => rfl
  | hashed x =>
    cases hx : cache.lookup (.hashed x) with
    | none => simp [TrieState.getNode, hx]
    | some n =>
      obtain ⟨rlp, hrlp, hdec⟩ := hdb x n hx
      simp [TrieState.getNode, hx, hrlp, hdec]

theorem Committed.written_nodes {keccak : Bytes → H256} {s : TrieState} {t : Tree}
    {cache' : List (NodeHash × Node)} {acc : List (Bytes × Bytes)} (hc : Committed s.cache [] cache' acc)
    (hcache : ∀ e ∈ s.cache, e.1.IsHashed ∧ e.2.encode.length < 2 ^ 64) (ht : t.Canonical)
    (hs : t.Stored keccak s)
    (hroot : (t.nodeHash keccak).IsHashed → cache'.lookup (t.nodeHash keccak) = none) :
    Written (putBatch s.db acc) (t.nodes keccak) := by
  intro x n hx
  have hmem := List.mem_of_lookup_eq_some hx
  have hl : s.cache.lookup (.hashed x) = some n :=
    found_hashed_iff.mp (Tree.stored_iff_nodes.mp hs _ hmem)
  have hout := hc.taken_out_nodes hs hroot _ hmem trivial
  refine ⟨n.encode, hc.putBatch_eq (fun e he => (hcache e he).1) s.db hl hout, ?_⟩
  exact Node.decode_encode_of_storable (Tree.storable_of_mem_nodes ht hmem)
    (hcache _ (List.mem_of_lookup_eq_some hl)).2

namespace Trie

variable {keccak : Bytes → H256}

theorem openAt_finalize (db : Bytes → Option Bytes) {r : NodeHash} (hh : r.IsHashed)
    (hempty : r.finalize keccak ≠ emptyTrieHash keccak) :
    openAt keccak db (r.finalize keccak) = ⟨some r, ⟨db, []⟩⟩ := by
  cases r with
  | inline _ => exact absurd hh id
  | hashed x =>
    simp only [NodeHash.finalize] at hempty
    simp [openAt, NodeHash.finalize, hempty]

theorem db_runOps (self : Trie) (ops : List Op) : (self.runOps keccak ops).2.state.db = self.state.db := by
  obtain ⟨w, hw⟩ := runOps_grows keccak self ops
  rw [hw, TrieState.db_extend]

/-- `Trie::hash` commits the map the trie holds: `Trie::open` at the hash,
over the database it leaves, reads that map, and goes on reading it after any
further operations on the trie. -/
theorem hash_openAt_get {self : Trie} {M : Bytes → Option ValueRLP} (h : self.Maps keccak M)
    (hcache : ∀ e ∈ self.state.cache, e.1.IsHashed ∧ e.2.encode.length < 2 ^ 64)
    (hroot : ∀ r ∈ self.root, r.IsHashed ∧ r.finalize keccak ≠ emptyTrieHash keccak) :
    ∃ self', self.hash keccak = (.ok (self.hashNoCommit keccak), self') ∧
      ∀ ops path, (openAt keccak (self'.runOps keccak ops).2.state.db (self.hashNoCommit keccak)).get path =
        .ok (M path) := by
  obtain ⟨t, ⟨htc, hr⟩, hM⟩ := h
  cases hroot_eq : self.root with
  | none =>
    -- the empty trie: nothing to commit, and `Trie::open` takes the empty hash for no root
    simp only [hroot_eq] at hr
    subst hr
    refine ⟨self, by simp [Trie.hash, hashNoCommit, hroot_eq], fun ops path => ?_⟩
    rw [← hM.1 path]
    simp [openAt, hashNoCommit, hroot_eq, Trie.get, Tree.lookup]
  | some r =>
    simp only [hroot_eq] at hr
    obtain ⟨hne, rfl, hs⟩ := hr
    obtain ⟨hh, hempty⟩ := hroot _ hroot_eq
    obtain ⟨cache', acc, hcommit, hc, hout⟩ := self.state.commit_spec (t.nodeHash keccak)
    refine ⟨{ self with state := ⟨putBatch self.state.db acc, []⟩ },
      by simp [Trie.hash, hashNoCommit, hroot_eq, hcommit], fun ops path => ?_⟩
    rw [db_runOps, show self.hashNoCommit keccak = (t.nodeHash keccak).finalize keccak by
      simp [hashNoCommit, hroot_eq], openAt_finalize _ hh hempty]
    -- the database answers as a cache of the tree's nodes would
    have hwritten := TrieState.getNode_written
      (hc.written_nodes hcache htc hs fun _ => hout)
    have hghost : (⟨some (t.nodeHash keccak), ⟨putBatch self.state.db acc, t.nodes keccak⟩⟩ : Trie).Maps
        keccak M :=
      ⟨t, ⟨htc, hne, rfl, hs.to_nodes _⟩, hM⟩
    rw [← TrieState.get_congr hwritten, get_maps hghost]

/-- The trie of the fixed calls: an extension over a branch that holds a
hashed leaf and an inline one, all hashed into the cache. -/
theorem hash_openAt_get_long_short :
    (stateless.runOps firstBytes32 longShort).2.Maps firstBytes32
        (Op.runMap (fun _ => none) longShort).2 ∧
      (∀ e ∈ (stateless.runOps firstBytes32 longShort).2.state.cache,
        e.1.IsHashed ∧ e.2.encode.length < 2 ^ 64) ∧
      (∀ r ∈ (stateless.runOps firstBytes32 longShort).2.root,
        r.IsHashed ∧ r.finalize firstBytes32 ≠ emptyTrieHash firstBytes32) ∧
      ∃ self', (stateless.runOps firstBytes32 longShort).2.hash firstBytes32 =
          (.ok ((stateless.runOps firstBytes32 longShort).2.hashNoCommit firstBytes32), self') ∧
        ∀ ops path, (openAt firstBytes32 (self'.runOps firstBytes32 ops).2.state.db
          ((stateless.runOps firstBytes32 longShort).2.hashNoCommit firstBytes32)).get path =
            .ok ((Op.runMap (fun _ => none) longShort).2 path) := by
  have hv : ∀ op ∈ longShort, op.Valid := by decide
  have hf : (stateless.runOps firstBytes32 longShort).2.state.cache.Functional := by decide
  have hM := (runOps_maps (new_maps fun _ => none) hv hf).2
  have hcache : ∀ e ∈ (stateless.runOps firstBytes32 longShort).2.state.cache,
      e.1.IsHashed ∧ e.2.encode.length < 2 ^ 64 := by
    decide
  have hroot : ∀ r ∈ (stateless.runOps firstBytes32 longShort).2.root,
      r.IsHashed ∧ r.finalize firstBytes32 ≠ emptyTrieHash firstBytes32 := by
    decide
  exact ⟨hM, hcache, hroot, hash_openAt_get hM hcache hroot⟩

/-- An inline root is not committed: `commit_node_tail_recursive` finds it
in no cache and takes it to be in the database, so `Trie::hash` writes
nothing, and `Trie::open` at the hash it returns, over a database that holds
nothing there, answers no path with a value.  The hash is `keccak` of the
root's encoding; were it `EMPTY_TRIE_HASH`, the reopened trie would be
empty. -/
theorem hash_openAt_inline_root {self : Trie} {raw : Bytes}
    (hroot : self.root = some (.inline raw))
    (hcache : ∀ e ∈ self.state.cache, e.1.IsHashed)
    (hdb : self.state.db (keccak raw).toList = none) :
    self.hash keccak = (.ok (keccak raw), { self with state := ⟨self.state.db, []⟩ }) ∧
      ∀ path v, (openAt keccak self.state.db (keccak raw)).get path ≠ .ok (some v) := by
  -- the cache holds hashed nodes only, so the walk stops at the root and the batch is empty
  have hlookup : self.state.cache.lookup (.inline raw) = none := by
    cases hl : self.state.cache.lookup (.inline raw) with
    | none => rfl
    | some n => exact absurd (hcache _ (List.mem_of_lookup_eq_some hl)) id
  have hcommit : self.state.commit (.inline raw) = .ok ⟨self.state.db, []⟩ := by
    simp [TrieState.commit, TrieState.commitNodeTailRecursive, hlookup, putBatch]
  refine ⟨by simp [Trie.hash, hroot, hcommit, NodeHash.finalize], fun path v => ?_⟩
  -- the reopened trie has no root, or one that the database does not hold
  by_cases he : keccak raw = emptyTrieHash keccak
  · simp [openAt, Trie.get, he]
  · simp [openAt, Trie.get, he, TrieState.getNode, NodeHash.toBytes, hdb]

/-- `Trie::new` over an empty database, after one insert whose leaf encodes
in five bytes. -/
def oneShortLeaf : Trie := ((new fun _ => none).insert firstBytes32 [0x12] [0x56]).2

/-- The trie holds `[0x56]` at `[0x12]`, under an inline root; after
`Trie::hash`, the trie reopened at the hash holds nothing there. -/
theorem hash_openAt_one_short_leaf :
    oneShortLeaf.get [0x12] = .ok (some [0x56]) ∧
      oneShortLeaf.root = some (.inline [0xc4, 0x82, 0x20, 0x12, 0x56]) ∧
      (∀ e ∈ oneShortLeaf.state.cache, e.1.IsHashed) ∧
      oneShortLeaf.state.db (firstBytes32 [0xc4, 0x82, 0x20, 0x12, 0x56]).toList = none ∧
      oneShortLeaf.hash firstBytes32 = (.ok (firstBytes32 [0xc4, 0x82, 0x20, 0x12, 0x56]),
        { oneShortLeaf with state := ⟨oneShortLeaf.state.db, []⟩ }) ∧
      ∀ path v, (openAt firstBytes32 oneShortLeaf.state.db
        (firstBytes32 [0xc4, 0x82, 0x20, 0x12, 0x56])).get path ≠ .ok (some v) := by
  have hget : oneShortLeaf.get [0x12] = .ok (some [0x56]) := by decide
  have hroot : oneShortLeaf.root = some (.inline [0xc4, 0x82, 0x20, 0x12, 0x56]) := by decide
  have hcache : ∀ e ∈ oneShortLeaf.state.cache, e.1.IsHashed := by decide
  have hdb : oneShortLeaf.state.db (firstBytes32 [0xc4, 0x82, 0x20, 0x12, 0x56]).toList = none := rfl
  exact ⟨hget, hroot, hcache, hdb, hash_openAt_inline_root hroot hcache hdb⟩

end Trie

end Ethrex.Mpt
