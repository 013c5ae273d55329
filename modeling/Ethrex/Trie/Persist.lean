/-
# `Ethrex.Trie.Persist` — a trie over its database

A trie that `Trie::open` returns has an empty cache: its nodes are in the
database, and `get_node` decodes them from there.  The correctness theorems
of `get`, `insert` and `remove` are about tries whose nodes are all in the
cache.  This module carries them over to tries whose nodes are anywhere
between the two, and follows a trie through sessions: opened at a hash,
changed by calls, committed by `Trie::hash`, and opened again at the new hash.

The operations read the state through `get_node` only, and cache hashed
nodes only (`TrieM.Conforms`).  A database that holds a list `g` of nodes
(`Written`) answers `get_node` as a cache holding `g` would, so a trie and
the same trie with `g` below its cache (`Trie.withCache`, the ghost) go
through every call alike: same results, same new cache entries.  The ghost
has its whole tree in the cache, where the theorems of `TrieCorrect` apply.
The commit walks the real cache, not the ghost's: a node it does not reach
is in `g` already, since the children of a node of `g` are in `g`.

The hypothesis is the one of `TrieCorrect`, with the database added: no hash
names two different nodes, in the cache or in the cache and the database
(`TrieState.Consistent`).

| | |
| :-- | :-- |
| `TrieM.Conforms` | an operation reads through `get_node` and caches hashed nodes only |
| `Node.insert_conforms`, `Node.remove_conforms` | every node operation does |
| `Trie.step_ghosts` | a trie and its ghost go through a call alike |
| `Persisted` | nodes of the database that answer for it as a cache |
| `Committed.written_ghost_nodes` | the commit leaves every hashed node of the ghost's tree in the database |
| `Trie.Keeps` | the trie holds a map through its cache and its database |
| `Trie.Keeps.runOps` | every call answers as the map says and keeps the map it leaves |
| `Trie.Keeps.hash` | `Trie::open` at the hash holds the map again |
| `Trie.openAt_runOps_hash` | a whole session, from one committed hash to the next |
-/
import Ethrex.Trie.CommitCorrect

namespace Ethrex.Mpt

open Ethrex.Rlp

/-! ## States that answer alike -/

/-- Two states whose `get_node` answers every hash alike. -/
def TrieState.Agree (s s' : TrieState) : Prop := ∀ h, s.getNode h = s'.getNode h

theorem TrieState.Agree.extend {s s' : TrieState} (h : s.Agree s') (w : List (NodeHash × Node)) :
    (s.extend w).Agree (s'.extend w) := by
  intro x
  cases x with
  | inline _ => rfl
  | hashed y =>
    have hx := h (.hashed y)
    simp only [TrieState.getNode, TrieState.extend, List.lookup_append] at hx ⊢
    cases w.lookup (.hashed y) <;> simp [hx]

theorem TrieState.agree_written {db : Bytes → Option Bytes} {g : List (NodeHash × Node)}
    (hg : Written db g) (w : List (NodeHash × Node)) :
    (⟨db, w ++ g⟩ : TrieState).Agree ⟨db, w⟩ := by
  have h := (show (⟨db, g⟩ : TrieState).Agree ⟨db, []⟩ from TrieState.getNode_written hg).extend w
  simpa [TrieState.extend] using h

/-! ## Operations that go through `get_node` and `insert_node` -/

/-- An operation that reads the state through `get_node` only and caches
hashed nodes only, as one built from `get_node` and `insert_node` does. -/
structure TrieM.Conforms {α : Type} (x : TrieM α) : Prop where
  agree : ∀ s s', s.Agree s' → x s = x s'
  hashed : ∀ s, ∀ e ∈ (x s).2, e.1.IsHashed

namespace TrieM.Conforms

variable {α β : Type}

theorem pure (a : α) : Conforms (Pure.pure a : TrieM α) :=
  ⟨fun _ _ _ => rfl, fun _ e he => by simp at he⟩

theorem throw (e : TrieError) : Conforms (throw e : TrieM α) :=
  ⟨fun _ _ _ => rfl, fun _ e he => by simp at he⟩

theorem bind {x : TrieM α} {f : α → TrieM β} (hx : Conforms x) (hf : ∀ a, Conforms (f a)) :
    Conforms (x >>= f) where
  agree s s' h := by
    rw [TrieM.bind_apply, TrieM.bind_apply, hx.agree s s' h]
    rcases x s' with ⟨_ | a, w⟩
    · rfl
    · simp only
      rw [(hf a).agree _ _ (h.extend w)]
  hashed s e he := by
    rw [TrieM.bind_apply] at he
    rcases hxs : x s with ⟨_ | a, w⟩ <;> rw [hxs] at he
    · exact hx.hashed s e (by rw [hxs]; exact he)
    · rcases List.mem_append.mp he with he | he
      · exact (hf a).hashed _ e he
      · exact hx.hashed s e (by rw [hxs]; exact he)

theorem map {x : TrieM α} (f : α → β) (hx : Conforms x) : Conforms (f <$> x) :=
  bind hx fun a => pure (f a)

theorem getNodeM (h : NodeHash) : Conforms (Mpt.getNodeM h) :=
  ⟨fun _ _ hs => by simp [Mpt.getNodeM, hs h], fun _ e he => by simp [Mpt.getNodeM] at he⟩

theorem insertSelf (keccak : Bytes → H256) (n : Node) : Conforms (n.insertSelf keccak) where
  agree s s' _ := by rw [Node.insertSelf_apply, Node.insertSelf_apply]
  hashed s e he := by
    rw [Node.insertSelf_apply] at he
    simp only [Node.cacheEntries] at he
    split at he
    · obtain rfl := List.mem_singleton.mp he
      trivial
    · simp at he

end TrieM.Conforms

section Operations

variable (keccak : Bytes → H256)

/-- `Node::insert` goes through `get_node` and `insert_node`, by induction on
the fuel: each kind's body is a chain of binds over them and the recursive
call. -/
theorem Node.insert_conforms :
    ∀ fuel n path value, (Node.insert keccak fuel n path value).Conforms
  | 0, _, _, _ => TrieM.Conforms.throw _
  | fuel + 1, n, path, value => by
    have ih := Node.insert_conforms fuel
    -- each kind's body, with the branch insertion an extension falls back to
    rcases n with n | n | n
    all_goals first
      | unfold Node.insert BranchNode.insert
      | unfold Node.insert ExtensionNode.insert BranchNode.insert
      | unfold Node.insert LeafNode.insert
    all_goals
      try dsimp only
      repeat first
        | with_reducible apply TrieM.Conforms.bind
        | with_reducible exact TrieM.Conforms.pure _
        | with_reducible exact TrieM.Conforms.throw _
        | with_reducible exact TrieM.Conforms.getNodeM _
        | with_reducible exact TrieM.Conforms.insertSelf keccak _
        | with_reducible exact ih _ _ _
        | split
        | intro _

theorem Node.remove_conforms : ∀ fuel n path, (Node.remove keccak fuel n path).Conforms
  | 0, _, _ => TrieM.Conforms.throw _
  | fuel + 1, n, path => by
    have ih := Node.remove_conforms fuel
    rcases n with n | n | n
    all_goals first
      | unfold Node.remove BranchNode.remove
      | unfold Node.remove ExtensionNode.remove
      | unfold Node.remove
    all_goals
      try dsimp only
      repeat first
        | with_reducible apply TrieM.Conforms.bind
        | with_reducible apply TrieM.Conforms.map
        | with_reducible exact TrieM.Conforms.pure _
        | with_reducible exact TrieM.Conforms.throw _
        | with_reducible exact TrieM.Conforms.getNodeM _
        | with_reducible exact TrieM.Conforms.insertSelf keccak _
        | with_reducible exact ih _ _
        | split
        | intro _

end Operations

/-! ## A trie and its ghost -/

namespace Trie

/-- The trie with `g` below its cache: the ghost of a trie whose database
holds `g`. -/
def withCache (self : Trie) (g : List (NodeHash × Node)) : Trie :=
  ⟨self.root, ⟨self.state.db, self.state.cache ++ g⟩⟩

@[simp] theorem withCache_root (self : Trie) (g : List (NodeHash × Node)) :
    (self.withCache g).root = self.root := rfl

@[simp] theorem withCache_db (self : Trie) (g : List (NodeHash × Node)) :
    (self.withCache g).state.db = self.state.db := rfl

@[simp] theorem withCache_cache (self : Trie) (g : List (NodeHash × Node)) :
    (self.withCache g).state.cache = self.state.cache ++ g := rfl

variable {keccak : Bytes → H256}

theorem withCache_agree (self : Trie) {g : List (NodeHash × Node)} (hg : Written self.state.db g) :
    (self.withCache g).state.Agree self.state :=
  TrieState.agree_written hg self.state.cache

theorem onState_withCache {α : Type} {x : TrieM α} (hx : x.Conforms) (self : Trie)
    {g : List (NodeHash × Node)} (hg : Written self.state.db g) :
    (self.withCache g).onState x = ((self.onState x).1, (self.onState x).2.withCache g) := by
  have h : x ⟨self.state.db, self.state.cache ++ g⟩ = x self.state :=
    hx.agree _ _ (withCache_agree self hg)
  simp only [onState, TrieM.run, h, withCache, TrieState.extend, List.append_assoc]

theorem onState_ghost {α : Type} {x : TrieM α} (hx : x.Conforms) (self : Trie)
    {res : Except TrieError α × Trie} (h : self.onState x = res) :
    (∃ w, res.2.state = self.state.extend w ∧ ∀ e ∈ w, e.1.IsHashed) ∧
      ∀ g, Written self.state.db g → (self.withCache g).onState x = (res.1, res.2.withCache g) := by
  subst h
  exact ⟨⟨_, rfl, hx.hashed self.state⟩, fun g hg => onState_withCache hx self hg⟩

/-- A call on the trie adds hashed nodes to the cache, and runs on the ghost
as on the trie. -/
def Ghosts {α : Type} (self : Trie) (call : Trie → Except TrieError α × Trie) : Prop :=
  (∃ w, (call self).2.state = self.state.extend w ∧ ∀ e ∈ w, e.1.IsHashed) ∧
    ∀ g, Written self.state.db g → call (self.withCache g) = ((call self).1, (call self).2.withCache g)

theorem insert_ghosts (self : Trie) (path : Bytes) (value : ValueRLP) :
    self.Ghosts fun t => t.insert keccak path value := by
  unfold Ghosts Trie.insert
  dsimp only [withCache_root]
  generalize hres : ({ self with root := none } : Trie).onState _ = res
  have hop := onState_ghost ?_ _ hres
  · obtain ⟨⟨w, hw, hh⟩, hghost⟩ := hop
    refine ⟨?_, fun g hg => ?_⟩
    · rcases res with ⟨_ | hash, t⟩ <;> exact ⟨w, hw, hh⟩
    · rw [show ({ self.withCache g with root := none } : Trie) = ({ self with root := none } : Trie).withCache g
        from rfl, hghost g hg]
      rcases res with ⟨_ | hash, t⟩ <;> rfl
  · repeat first
      | with_reducible apply TrieM.Conforms.bind
      | with_reducible exact TrieM.Conforms.pure _
      | with_reducible exact TrieM.Conforms.getNodeM _
      | with_reducible exact TrieM.Conforms.insertSelf keccak _
      | with_reducible exact Node.insert_conforms keccak _ _ _ _
      | split
      | intro _

theorem remove_ghosts (self : Trie) (path : Bytes) : self.Ghosts fun t => t.remove keccak path := by
  unfold Ghosts Trie.remove
  cases hr : self.root with
  | none =>
    simp only [withCache_root, hr]
    exact ⟨⟨[], rfl, by simp⟩, fun _ _ => trivial⟩
  | some root =>
    simp only [withCache_root, hr]
    generalize hres : ({ self with root := none } : Trie).onState _ = res
    have hop := onState_ghost ?_ _ hres
    · obtain ⟨⟨w, hw, hh⟩, hghost⟩ := hop
      refine ⟨?_, fun g hg => ?_⟩
      · rcases res with ⟨_ | ⟨root', oldValue⟩, t⟩ <;> exact ⟨w, hw, hh⟩
      · rw [show ({ self.withCache g with root := none } : Trie) = ({ self with root := none } : Trie).withCache g
          from rfl, hghost g hg]
        rcases res with ⟨_ | ⟨root', oldValue⟩, t⟩ <;> rfl
    · repeat first
        | with_reducible apply TrieM.Conforms.bind
        | with_reducible apply TrieM.Conforms.map
        | with_reducible exact TrieM.Conforms.pure _
        | with_reducible exact TrieM.Conforms.throw _
        | with_reducible exact TrieM.Conforms.getNodeM _
        | with_reducible exact TrieM.Conforms.insertSelf keccak _
        | with_reducible exact Node.remove_conforms keccak _ _ _
        | split
        | intro _

theorem step_ghosts (self : Trie) (op : Op) : self.Ghosts fun t => t.step keccak op := by
  cases op with
  | insert path value =>
    obtain ⟨hw, hghost⟩ := insert_ghosts self path value
    exact ⟨hw, fun g hg => by simp only [step, hghost g hg]⟩
  | remove path => exact remove_ghosts self path

end Trie

/-! ## The nodes the database holds -/

theorem NodeHash.IsHashed.exists {h : NodeHash} (hh : h.IsHashed) : ∃ x, h = .hashed x := by
  cases h with
  | hashed x => exact ⟨x, rfl⟩
  | inline _ => exact absurd hh id

/-- No hash names two different nodes: not two in the cache, nor one in the
cache and another in the database. -/
def TrieState.Consistent (s : TrieState) : Prop :=
  s.cache.Functional ∧
    ∀ e ∈ s.cache, ∀ rlp ∈ s.db e.1.toBytes, decode Node.decodeUnfinished rlp = .ok e.2

instance (s : TrieState) : Decidable s.Consistent :=
  inferInstanceAs (Decidable (_ ∧ _))

theorem TrieState.Consistent.of_grows {s s' : TrieState} {w : List (NodeHash × Node)}
    (hw : s' = s.extend w) (hc : s'.Consistent) : s.Consistent := by
  subst hw
  exact ⟨hc.1.of_append_right, fun e he => hc.2 e (List.mem_append_right _ he)⟩

/-- Every hashed child of a node of `g` has a node in `g`. -/
def HoldsChildren (g : List (NodeHash × Node)) : Prop :=
  ∀ e ∈ g, ∀ c ∈ e.2.children, c.IsHashed → ∃ m, (c, m) ∈ g

/-- Nodes of the database that answer for it as a cache: each hashed one is
written there, a hash names one of them, and their hashed children are among
them. -/
structure Persisted (db : Bytes → Option Bytes) (g : List (NodeHash × Node)) : Prop where
  written : Written db g
  functional : g.Functional
  holdsChildren : HoldsChildren g

theorem persisted_nil (db : Bytes → Option Bytes) : Persisted db [] :=
  ⟨fun _ _ h => by simp at h, List.functional_nil, fun _ h => by simp at h⟩

theorem Persisted.functional_append {s : TrieState} {g : List (NodeHash × Node)}
    (hg : Persisted s.db g) (hc : s.Consistent) (hh : ∀ e ∈ s.cache, e.1.IsHashed) :
    (s.cache ++ g).Functional := by
  have hcross : ∀ p ∈ s.cache, ∀ q ∈ g, p.1 = q.1 → p.2 = q.2 := by
    intro p hp q hq he
    obtain ⟨x, hx⟩ := (hh p hp).exists
    have hl : g.lookup (.hashed x) = some q.2 :=
      List.lookup_eq_some_of_mem hg.functional (by rw [← hx, he]; exact hq)
    obtain ⟨rlp, hdb, hdec⟩ := hg.written x q.2 hl
    have hp' := hc.2 p hp rlp (by rw [hx]; exact hdb)
    exact Except.ok.inj (hp'.symm.trans hdec)
  intro p hp q hq he
  rcases List.mem_append.mp hp with hp | hp <;> rcases List.mem_append.mp hq with hq | hq
  · exact hc.1 p hp q hq he
  · exact hcross p hp q hq he
  · exact (hcross q hq p hp he.symm).symm
  · exact hg.functional p hp q hq he

section Nodes

variable {keccak : Bytes → H256}

theorem Tree.ne_empty_of_isHashed {t : Tree} (hh : (t.nodeHash keccak).IsHashed) : t ≠ .empty := by
  rintro rfl
  exact hh

theorem Tree.mem_nodes_self {t : Tree} (hne : t ≠ .empty) :
    (t.nodeHash keccak, t.toNode keccak) ∈ t.nodes keccak := by
  cases t with
  | empty => exact absurd rfl hne
  | leaf p v => exact List.mem_singleton_self _
  | extension p c => exact List.mem_cons_self
  | branch cs v => exact List.mem_cons_self

theorem Tree.exists_mem_nodes_of_child {t : Tree} {c : NodeHash}
    (hc : c ∈ (t.toNode keccak).children) (hh : c.IsHashed) : ∃ m, (c, m) ∈ t.nodes keccak := by
  cases t with
  | empty =>
    simp only [Tree.toNode, Node.children, BranchNode.new, BranchNode.emptyChoices,
      Vector.toList_replicate, List.mem_filter, List.mem_replicate] at hc
    rw [hc.1.2] at hh
    exact absurd hh id
  | leaf p v => simp [Tree.toNode, Node.children] at hc
  | extension p c' =>
    simp only [Tree.toNode, Node.children, List.mem_singleton] at hc
    subst hc
    exact ⟨_, List.mem_cons_of_mem _ (Tree.mem_nodes_self (Tree.ne_empty_of_isHashed hh))⟩
  | branch cs v =>
    simp only [Tree.toNode, Node.children, List.mem_filter, Vector.toList_ofFn, List.mem_ofFn] at hc
    obtain ⟨⟨i, rfl⟩, -⟩ := hc
    exact ⟨_, List.mem_cons_of_mem _ (List.mem_flatMap.mpr
      ⟨i, List.mem_finRange i, Tree.mem_nodes_self (Tree.ne_empty_of_isHashed hh)⟩)⟩

theorem Tree.holdsChildren_nodes (t : Tree) : HoldsChildren (t.nodes keccak) := by
  induction t with
  | empty => simp [HoldsChildren, Tree.nodes]
  | leaf p v =>
    intro e he c hc hh
    obtain rfl := List.mem_singleton.mp he
    exact Tree.exists_mem_nodes_of_child hc hh
  | extension p c' ih =>
    intro e he c hc hh
    rcases List.mem_cons.mp he with rfl | he
    · exact Tree.exists_mem_nodes_of_child hc hh
    · obtain ⟨m, hm⟩ := ih e he c hc hh
      exact ⟨m, List.mem_cons_of_mem _ hm⟩
  | branch cs v ih =>
    intro e he c hc hh
    rcases List.mem_cons.mp he with rfl | he
    · exact Tree.exists_mem_nodes_of_child hc hh
    · obtain ⟨i, -, he⟩ := List.mem_flatMap.mp he
      obtain ⟨m, hm⟩ := ih i e he c hc hh
      exact ⟨m, List.mem_cons_of_mem _ (List.mem_flatMap.mpr ⟨i, List.mem_finRange i, hm⟩)⟩

end Nodes

/-! ## What the commit writes over a database -/

section Commit

variable {keccak : Bytes → H256} {s : TrieState} {g cache' : List (NodeHash × Node)}
  {acc acc' : List (Bytes × Bytes)}

theorem Committed.kept_child (hc : Committed s.cache acc cache' acc') (hg : HoldsChildren g)
    (hf : (s.cache ++ g).Functional) {h c : NodeHash} {n m : Node}
    (hn : (s.cache ++ g).lookup h = some n) (hI : cache'.lookup h = none ∨ g.lookup h = some n)
    (hch : c ∈ n.children) (hh : c.IsHashed) (hm : (s.cache ++ g).lookup c = some m) :
    cache'.lookup c = none ∨ g.lookup c = some m := by
  have hin_g : g.lookup h = some n → g.lookup c = some m := by
    intro hgl
    obtain ⟨m', hm'⟩ := hg _ (List.mem_of_lookup_eq_some hgl) c hch hh
    have hm'' : (s.cache ++ g).lookup c = some m' :=
      List.lookup_eq_some_of_mem hf (List.mem_append_right _ hm')
    obtain rfl : m' = m := Option.some.inj (hm''.symm.trans hm)
    exact List.lookup_eq_some_of_mem hf.of_append_right hm'
  rcases hI with hout | hgl
  · cases hl : s.cache.lookup h with
    | some n' =>
      obtain rfl : n' = n := by simpa [List.lookup_append, hl] using hn
      exact .inl (hc.closed h n' hl hout c hch)
    | none => exact .inr (hin_g (by simpa [List.lookup_append, hl] using hn))
  · exact .inr (hin_g hgl)

theorem Committed.kept_subtree (hc : Committed s.cache acc cache' acc') (hg : HoldsChildren g)
    (hf : (s.cache ++ g).Functional) {t : Tree} (hne : t ≠ .empty)
    (hft : Found ⟨s.db, s.cache ++ g⟩ (t.nodeHash keccak) (t.toNode keccak))
    (ht : (t.nodeHash keccak).IsHashed →
      cache'.lookup (t.nodeHash keccak) = none ∨ g.lookup (t.nodeHash keccak) = some (t.toNode keccak))
    {c : Tree} (hcs : c.Stored keccak ⟨s.db, s.cache ++ g⟩) (hh : (c.nodeHash keccak).IsHashed)
    (hch : c.nodeHash keccak ∈ (t.toNode keccak).children) :
    cache'.lookup (c.nodeHash keccak) = none ∨ g.lookup (c.nodeHash keccak) = some (c.toNode keccak) := by
  -- the parent of a hashed child is hashed
  have hth : (t.nodeHash keccak).IsHashed := by
    rw [Tree.nodeHash_eq keccak hne]
    exact Node.isHashed_computeHash keccak hch hh
  have hfc := (Tree.stored_iff.mp hcs).1 (Tree.ne_empty_of_isHashed hh)
  obtain ⟨x, hx⟩ := hth.exists
  obtain ⟨y, hy⟩ := hh.exists
  rw [hx] at hft ht
  rw [hy] at hfc hch ⊢
  exact hc.kept_child hg hf (found_hashed_iff.mp hft) (ht trivial) hch trivial (found_hashed_iff.mp hfc)

theorem Committed.kept_nodes (hc : Committed s.cache acc cache' acc') (hg : HoldsChildren g)
    (hf : (s.cache ++ g).Functional) {t : Tree} (hs : t.Stored keccak ⟨s.db, s.cache ++ g⟩)
    (ht : (t.nodeHash keccak).IsHashed →
      cache'.lookup (t.nodeHash keccak) = none ∨ g.lookup (t.nodeHash keccak) = some (t.toNode keccak)) :
    ∀ e ∈ t.nodes keccak, e.1.IsHashed → cache'.lookup e.1 = none ∨ g.lookup e.1 = some e.2 := by
  induction t with
  | empty => simp [Tree.nodes]
  | leaf p v =>
    intro e he
    -- reduce the pair's projections before matching `ht`, not inside the unifier
    rw [List.mem_singleton.mp he]
    dsimp only
    exact ht
  | extension p c ih =>
    intro e he
    rcases List.mem_cons.mp he with rfl | he
    · exact ht
    · have hch : c.nodeHash keccak ∈ ((Tree.extension p c).toNode keccak).children := by
        simp [Tree.toNode, Node.children]
      exact ih hs.2 (fun hh => hc.kept_subtree hg hf Tree.noConfusion hs.1 ht hs.2 hh hch) e he
  | branch cs v ih =>
    intro e he
    rcases List.mem_cons.mp he with he | he
    · rw [he]
      dsimp only
      exact ht
    · obtain ⟨i, -, he⟩ := List.mem_flatMap.mp he
      exact ih i (hs.2 i)
        (fun hh => hc.kept_subtree hg hf Tree.noConfusion hs.1 ht (hs.2 i) hh (Tree.mem_children_branch i hh))
        e he

/-- After the batch, the database decodes a hashed node of the ghost that the
walk took out or that `g` holds: the batch writes under its hash only the
node the cache has there. -/
theorem Committed.putBatch_decodes (hc : Committed s.cache [] cache' acc)
    (hcache : ∀ e ∈ s.cache, e.1.IsHashed ∧ e.2.encode.length < 2 ^ 64) (hg : Written s.db g)
    {x : H256} {n : Node} (hn : (s.cache ++ g).lookup (.hashed x) = some n) (hstor : n.Storable)
    (hI : cache'.lookup (.hashed x) = none ∨ g.lookup (.hashed x) = some n) :
    ∃ rlp, putBatch s.db acc (NodeHash.hashed x).toBytes = some rlp ∧
      decode Node.decodeUnfinished rlp = .ok n := by
  have hcached : ∀ m, s.cache.lookup (.hashed x) = some m →
      m = n ∧ decode Node.decodeUnfinished m.encode = .ok n := by
    intro m hm
    obtain rfl : m = n := by simpa [List.lookup_append, hm] using hn
    exact ⟨rfl, Node.decode_encode_of_storable hstor (hcache _ (List.mem_of_lookup_eq_some hm)).2⟩
  have hin_g : g.lookup (.hashed x) = some n → ∃ rlp, putBatch s.db acc (NodeHash.hashed x).toBytes = some rlp ∧
      decode Node.decodeUnfinished rlp = .ok n := by
    intro hgl
    rw [putBatch_eq_foldl]
    rcases List.foldl_updateEntry_cases acc s.db (NodeHash.hashed x).toBytes with heq | ⟨b, hb, heq⟩
    · -- untouched by the batch: what the database held
      rw [heq]
      exact hg x n hgl
    · -- written by the batch: a node of the cache under the same hash
      obtain ⟨new, hnew_eq, hnew⟩ := hc.appended
      obtain ⟨h', m, hl, he⟩ := hnew _ (by simpa [hnew_eq] using hb)
      obtain ⟨hkey, rfl⟩ := Prod.mk.inj he
      obtain rfl : h' = .hashed x :=
        NodeHash.eq_of_toBytes_eq (hcache _ (List.mem_of_lookup_eq_some hl)).1 trivial hkey.symm
      exact ⟨_, heq, (hcached m hl).2⟩
  rcases hI with hout | hgl
  · cases hl : s.cache.lookup (.hashed x) with
    | some m =>
      obtain ⟨rfl, hdec⟩ := hcached m hl
      exact ⟨_, hc.putBatch_eq (fun e he => (hcache e he).1) s.db hl hout, hdec⟩
    | none => exact hin_g (by simpa [List.lookup_append, hl] using hn)
  · exact hin_g hgl

theorem Committed.written_ghost_nodes (hc : Committed s.cache [] cache' acc)
    (hcache : ∀ e ∈ s.cache, e.1.IsHashed ∧ e.2.encode.length < 2 ^ 64) (hg : Persisted s.db g)
    (hf : (s.cache ++ g).Functional) {t : Tree} (ht : t.Canonical)
    (hs : t.Stored keccak ⟨s.db, s.cache ++ g⟩)
    (hroot : (t.nodeHash keccak).IsHashed → cache'.lookup (t.nodeHash keccak) = none) :
    Written (putBatch s.db acc) (t.nodes keccak) := by
  intro x n hx
  have hmem := List.mem_of_lookup_eq_some hx
  exact hc.putBatch_decodes hcache hg.written (found_hashed_iff.mp (Tree.stored_iff_nodes.mp hs _ hmem))
    (Tree.storable_of_mem_nodes ht hmem)
    (hc.kept_nodes hg.holdsChildren hf hs (fun hh => .inl (hroot hh)) _ hmem trivial)

end Commit

namespace Trie

variable (keccak)

/-- The trie holds the map `M` through its cache and its database: its cache
holds hashed nodes only, and with nodes its database holds below its cache,
it holds `M`. -/
structure Keeps (self : Trie) (M : Bytes → Option ValueRLP) : Prop where
  hashed : ∀ e ∈ self.state.cache, e.1.IsHashed
  ghost : ∃ g, Persisted self.state.db g ∧ (self.withCache g).Maps keccak M

variable {keccak}

theorem keeps_empty (db : Bytes → Option Bytes) {M : Bytes → Option ValueRLP}
    (hM : Tree.empty.MapsBytes M) : (⟨none, ⟨db, []⟩⟩ : Trie).Keeps keccak M :=
  ⟨fun _ h => by simp at h, [], persisted_nil db, .empty, ⟨trivial, rfl⟩, hM⟩

theorem openAt_empty (db : Bytes → Option Bytes) :
    openAt keccak db (emptyTrieHash keccak) = ⟨none, ⟨db, []⟩⟩ := by
  simp [openAt]

/-- `Trie::open` at the empty trie's hash holds the empty map, whatever the
database. -/
theorem keeps_openAt_empty (db : Bytes → Option Bytes) :
    (openAt keccak db (emptyTrieHash keccak)).Keeps keccak fun _ => none := by
  rw [openAt_empty]
  exact keeps_empty db ⟨fun _ => rfl, fun _ _ h => by simp at h⟩

theorem Keeps.get {self : Trie} {M : Bytes → Option ValueRLP} (h : self.Keeps keccak M) (path : Bytes) :
    self.get path = .ok (M path) := by
  obtain ⟨-, g, hg, hM⟩ := h
  rw [← get_maps hM path]
  exact (TrieState.get_congr (withCache_agree self hg.written) self.root path).symm

/-- One call on a trie that holds `M` returns what the map says, and leaves
a trie that holds the map after the call, unless the cache it leaves names
two nodes under one hash. -/
theorem Keeps.step {self : Trie} {M : Bytes → Option ValueRLP} (h : self.Keeps keccak M) {op : Op}
    (hv : op.Valid) (hc : (self.step keccak op).2.state.Consistent) :
    (self.step keccak op).1 = .ok (op.result M) ∧ (self.step keccak op).2.Keeps keccak (op.apply M) := by
  obtain ⟨hh, g, hg, hM⟩ := h
  obtain ⟨⟨w, hw, hwh⟩, hghost⟩ := step_ghosts self op
  have hg' : Persisted (self.step keccak op).2.state.db g := by
    rw [hw, TrieState.db_extend]
    exact hg
  have hh' : ∀ e ∈ (self.step keccak op).2.state.cache, e.1.IsHashed := by
    rw [hw, TrieState.cache_extend]
    intro e he
    rcases List.mem_append.mp he with he | he
    · exact hwh e he
    · exact hh e he
  -- the ghost takes the same step, over a cache that names one node under each hash
  have hstep : (self.withCache g).step keccak op =
      ((self.step keccak op).1, (self.step keccak op).2.withCache g) := hghost g hg.written
  obtain ⟨hok, hM'⟩ := step_maps hM hv (by rw [hstep]; exact hg'.functional_append hc hh')
  rw [hstep] at hok hM'
  exact ⟨hok, hh', g, hg', hM'⟩

/-- Every call of a run on a trie that holds `M` returns what the map says,
and the run leaves a trie that holds the map after it. -/
theorem Keeps.runOps {self : Trie} {M : Bytes → Option ValueRLP} {ops : List Op}
    (h : self.Keeps keccak M) (hv : ∀ op ∈ ops, op.Valid)
    (hc : (self.runOps keccak ops).2.state.Consistent) :
    (self.runOps keccak ops).1 = (Op.runMap M ops).1.map .ok ∧
      (self.runOps keccak ops).2.Keeps keccak (Op.runMap M ops).2 := by
  induction ops generalizing self M with
  | nil => exact ⟨rfl, h⟩
  | cons op ops ih =>
    -- the first call's state is a part of the run's
    obtain ⟨w, hw⟩ := runOps_grows keccak (self.step keccak op).2 ops
    obtain ⟨hok, hK⟩ := h.step (hv op List.mem_cons_self) (hc.of_grows hw)
    obtain ⟨hoks, hK'⟩ := ih hK (fun op' hop' => hv op' (List.mem_cons_of_mem op hop')) hc
    exact ⟨by simp only [Trie.runOps, Op.runMap, List.map_cons, hok, hoks], hK'⟩

/-- `Trie::hash` on a trie that holds `M`, with a hashed root: `Trie::open`
at the hash, over the database the commit leaves, holds `M`. -/
theorem Keeps.hash {self : Trie} {M : Bytes → Option ValueRLP} (h : self.Keeps keccak M)
    (hc : self.state.Consistent) (hlen : ∀ e ∈ self.state.cache, e.2.encode.length < 2 ^ 64)
    (hroot : ∀ r ∈ self.root, r.IsHashed ∧ r.finalize keccak ≠ emptyTrieHash keccak) :
    ∃ self', self.hash keccak = (.ok (self.hashNoCommit keccak), self') ∧
      (openAt keccak self'.state.db (self.hashNoCommit keccak)).Keeps keccak M := by
  obtain ⟨hh, g, hg, t, ⟨htc, hr⟩, hM⟩ := h
  have hf := hg.functional_append hc hh
  cases hroot_eq : self.root with
  | none =>
    -- nothing to commit, and `Trie::open` takes the empty hash for no root
    simp only [withCache_root, hroot_eq] at hr
    subst hr
    refine ⟨self, by simp [Trie.hash, hashNoCommit, hroot_eq], ?_⟩
    rw [show self.hashNoCommit keccak = emptyTrieHash keccak by simp [hashNoCommit, hroot_eq],
      openAt_empty]
    exact keeps_empty _ hM
  | some r =>
    simp only [withCache_root, hroot_eq] at hr
    obtain ⟨hne, rfl, hs⟩ := hr
    obtain ⟨hrh, hempty⟩ := hroot _ hroot_eq
    obtain ⟨cache', acc, hcommit, hcm, hout⟩ := self.state.commit_spec (t.nodeHash keccak)
    refine ⟨{ self with state := ⟨putBatch self.state.db acc, []⟩ },
      by simp [Trie.hash, hashNoCommit, hroot_eq, hcommit], ?_⟩
    rw [show self.hashNoCommit keccak = (t.nodeHash keccak).finalize keccak by
      simp [hashNoCommit, hroot_eq], openAt_finalize _ hrh hempty]
    -- the ghost of the reopened trie is the tree's nodes, all in the database now
    have hw := hcm.written_ghost_nodes (fun e he => ⟨hh e he, hlen e he⟩) hg hf htc hs fun _ => hout
    exact ⟨fun _ h => by simp at h, t.nodes keccak, ⟨hw, hs.functional_nodes, Tree.holdsChildren_nodes t⟩,
      t, ⟨htc, hne, rfl, hs.to_nodes _⟩, hM⟩

/-! ## Two sessions of the fixed examples -/

/-- The first session: the fixed calls on an empty database. -/
def firstSession : Trie :=
  ((openAt firstBytes32 (fun _ => none) (emptyTrieHash firstBytes32)).runOps firstBytes32 longShort).2

/-- The root `Trie::hash` returns after the first session. -/
def sessionRoot : H256 := firstSession.hashNoCommit firstBytes32

/-- The database the first session's commit leaves. -/
def sessionDb : Bytes → Option Bytes := (firstSession.hash firstBytes32).2.state.db

/-- `Trie::open` at the first session's root, over its database, holds the
fixed calls' map. -/
theorem keeps_session :
    (openAt firstBytes32 sessionDb sessionRoot).Keeps firstBytes32 (Op.runMap (fun _ => none) longShort).2 := by
  have h0 : (openAt firstBytes32 (fun _ => none) (emptyTrieHash firstBytes32)).Keeps firstBytes32
      fun _ => none :=
    keeps_openAt_empty _
  have hv : ∀ op ∈ longShort, op.Valid := by decide
  have hc : firstSession.state.Consistent := by decide
  have hK : firstSession.Keeps firstBytes32 (Op.runMap (fun _ => none) longShort).2 := (h0.runOps hv hc).2
  have hlen : ∀ e ∈ firstSession.state.cache, e.2.encode.length < 2 ^ 64 := by decide
  have hroot : ∀ r ∈ firstSession.root,
      r.IsHashed ∧ r.finalize firstBytes32 ≠ emptyTrieHash firstBytes32 := by
    decide
  obtain ⟨self', hhash, hK'⟩ := hK.hash hc hlen hroot
  have hself : (firstSession.hash firstBytes32).2 = self' := by rw [hhash]
  unfold sessionDb sessionRoot
  rw [hself]
  exact hK'

/-- The second session's calls: a third 32-byte value, and the first path
removed. -/
def secondSession : List Op := [.insert [0x14] (List.replicate 32 3), .remove [0x12]]

/-- A session on the database, from a hash at which `Trie::open` holds `M`:
every call of a run returns what the map says, and `Trie::hash` commits the
map the run leaves, so that `Trie::open` at the new hash reads it, and holds
it for the next session, over the database as any further calls leave it. -/
theorem openAt_runOps_hash {db : Bytes → Option Bytes} {root : H256} {M : Bytes → Option ValueRLP}
    {ops : List Op} (h : (openAt keccak db root).Keeps keccak M) (hv : ∀ op ∈ ops, op.Valid)
    (hc : ((openAt keccak db root).runOps keccak ops).2.state.Consistent)
    (hlen : ∀ e ∈ ((openAt keccak db root).runOps keccak ops).2.state.cache, e.2.encode.length < 2 ^ 64)
    (hroot : ∀ r ∈ ((openAt keccak db root).runOps keccak ops).2.root,
      r.IsHashed ∧ r.finalize keccak ≠ emptyTrieHash keccak) :
    ((openAt keccak db root).runOps keccak ops).1 = (Op.runMap M ops).1.map .ok ∧
      ∃ self', ((openAt keccak db root).runOps keccak ops).2.hash keccak =
          (.ok (((openAt keccak db root).runOps keccak ops).2.hashNoCommit keccak), self') ∧
        ∀ ops', (openAt keccak (self'.runOps keccak ops').2.state.db
            (((openAt keccak db root).runOps keccak ops).2.hashNoCommit keccak)).Keeps keccak
              (Op.runMap M ops).2 ∧
          ∀ path, (openAt keccak (self'.runOps keccak ops').2.state.db
            (((openAt keccak db root).runOps keccak ops).2.hashNoCommit keccak)).get path =
              .ok ((Op.runMap M ops).2 path) := by
  obtain ⟨hok, hK⟩ := h.runOps hv hc
  obtain ⟨self', hhash, hK'⟩ := hK.hash hc hlen hroot
  refine ⟨hok, self', hhash, fun ops' => ?_⟩
  rw [db_runOps]
  exact ⟨hK', hK'.get⟩

/-- The second session, on the database the first one committed: the root
and the nodes below it are read from the database, and five new nodes are
hashed into the cache. -/
theorem openAt_runOps_hash_second_session :
    (openAt firstBytes32 sessionDb sessionRoot).Keeps firstBytes32 (Op.runMap (fun _ => none) longShort).2 ∧
      (∀ op ∈ secondSession, op.Valid) ∧
      ((openAt firstBytes32 sessionDb sessionRoot).runOps firstBytes32 secondSession).2.state.Consistent ∧
      (∀ e ∈ ((openAt firstBytes32 sessionDb sessionRoot).runOps firstBytes32 secondSession).2.state.cache,
        e.2.encode.length < 2 ^ 64) ∧
      (∀ r ∈ ((openAt firstBytes32 sessionDb sessionRoot).runOps firstBytes32 secondSession).2.root,
        r.IsHashed ∧ r.finalize firstBytes32 ≠ emptyTrieHash firstBytes32) ∧
      ((openAt firstBytes32 sessionDb sessionRoot).runOps firstBytes32 secondSession).1 =
        (Op.runMap (Op.runMap (fun _ => none) longShort).2 secondSession).1.map .ok ∧
      ∃ self', ((openAt firstBytes32 sessionDb sessionRoot).runOps firstBytes32 secondSession).2.hash
          firstBytes32 =
          (.ok (((openAt firstBytes32 sessionDb sessionRoot).runOps firstBytes32 secondSession).2.hashNoCommit
            firstBytes32), self') ∧
        ∀ ops', (openAt firstBytes32 (self'.runOps firstBytes32 ops').2.state.db
            (((openAt firstBytes32 sessionDb sessionRoot).runOps firstBytes32 secondSession).2.hashNoCommit
              firstBytes32)).Keeps firstBytes32
              (Op.runMap (Op.runMap (fun _ => none) longShort).2 secondSession).2 ∧
          ∀ path, (openAt firstBytes32 (self'.runOps firstBytes32 ops').2.state.db
            (((openAt firstBytes32 sessionDb sessionRoot).runOps firstBytes32 secondSession).2.hashNoCommit
              firstBytes32)).get path =
              .ok ((Op.runMap (Op.runMap (fun _ => none) longShort).2 secondSession).2 path) := by
  have hv : ∀ op ∈ secondSession, op.Valid := by decide
  have hc : ((openAt firstBytes32 sessionDb sessionRoot).runOps firstBytes32 secondSession).2.state.Consistent := by
    decide
  have hlen : ∀ e ∈ ((openAt firstBytes32 sessionDb sessionRoot).runOps firstBytes32 secondSession).2.state.cache,
      e.2.encode.length < 2 ^ 64 := by
    decide
  have hroot : ∀ r ∈ ((openAt firstBytes32 sessionDb sessionRoot).runOps firstBytes32 secondSession).2.root,
      r.IsHashed ∧ r.finalize firstBytes32 ≠ emptyTrieHash firstBytes32 := by
    decide
  exact ⟨keeps_session, hv, hc, hlen, hroot, openAt_runOps_hash keeps_session hv hc hlen hroot⟩

end Trie

end Ethrex.Mpt
