/-
# `Ethrex.Trie.State` — `TrieState`, `TrieError` and the operations' monad

`TrieState` is the trie's view of its storage: the database (an in-memory
`TrieDB`: a map from a hash's bytes to the node's `rlp.rs` encoding) and the
cache of nodes written since the last commit, a `HashMap<NodeHash, Node>`.

The cache is a list of entries, newest first, read with `List.lookup`: the
newest entry for a hash is the one a lookup finds, as `HashMap::insert`
replaces an older one.  The list keeps the entries a `HashMap` would have
overwritten; they are invisible to every lookup, and they make "no two
different nodes were cached under one hash" a property of the state
(`CollisionFree`).

`get`, `insert` and `remove` touch the state through `get_node` and
`insert_node` only; `commit`, which `Trie::hash` calls, is a function of the
state of its own.  So an operation is a function of the state it starts from to its result, or its
error, and the cache entries it inserted: `TrieM`.  An error keeps the
entries inserted before it, as the `&mut TrieState` of the source keeps its
changes when a `?` returns early.
-/
import Ethrex.Trie.Node

namespace Ethrex.Mpt

open Ethrex.Rlp

/-- `TrieError`, less the variants of the database back ends that are not
modelled. -/
inductive TrieError where
  | rlpDecode (e : RLPDecodeError)
  | verify (msg : String)
  | inconsistentTree
  | lockError
  deriving DecidableEq

/-- `InMemoryTrieDB::put_batch`: each pair inserted in turn, a later one
replacing an earlier one under the same key. -/
def putBatch (db : Bytes → Option Bytes) (keyValues : List (Bytes × Bytes)) : Bytes → Option Bytes :=
  keyValues.foldl (fun db (key, value) => Function.update db key (some value)) db

/-- `TrieState`. -/
structure TrieState where
  db : Bytes → Option Bytes
  cache : List (NodeHash × Node)

namespace TrieState

/-- The state after `entries` were inserted into the cache, last first. -/
def extend (s : TrieState) (entries : List (NodeHash × Node)) : TrieState :=
  { s with cache := entries ++ s.cache }

/-- `TrieState::get_node`: an inline node is decoded from its hash, a hashed
one looked up in the cache and then in the database. -/
def getNode (s : TrieState) (hash : NodeHash) : Except TrieError (Option Node) :=
  match hash with
  | .inline encoded =>
    match Node.decodeRaw encoded with
    | .ok node => .ok (some node)
    | .error e => .error (.rlpDecode e)
  | .hashed _ =>
    match s.cache.lookup hash with
    | some node => .ok (some node)
    | none =>
      match s.db hash.toBytes with
      | none => .ok none
      | some rlp =>
        match decode Node.decodeUnfinished rlp with
        | .ok node => .ok (some node)
        | .error e => .error (.rlpDecode e)

/-- `TrieState::commit_node_tail_recursive`, on the cache it changes: a node
still in the cache is taken out of it, its children are committed before
it, and its hash and database encoding are appended to `acc`; a node not in
the cache is taken to be in the database already.  The source's recursion
has no bound; here `fuel` bounds its depth, and out of fuel the model
reports `InconsistentTree`. -/
def commitNodeTailRecursive : Nat → List (NodeHash × Node) → NodeHash → List (Bytes × Bytes) →
    Except TrieError (List (NodeHash × Node) × List (Bytes × Bytes))
  | 0, _, _, _ => .error .inconsistentTree
  | fuel + 1, cache, nodeHash, acc =>
    match cache.lookup nodeHash with
    | none => .ok (cache, acc)
    | some node => do
      -- `HashMap::remove`
      let cache := cache.filter fun e => e.1 ≠ nodeHash
      let (cache, acc) ← match node with
        | .branch n => n.choices.toList.foldlM (fun (cache, acc) child =>
            if child.isValid then commitNodeTailRecursive fuel cache child acc
            else pure (cache, acc)) (cache, acc)
        | .extension n => commitNodeTailRecursive fuel cache n.child acc
        | .leaf _ => pure (cache, acc)
      pure (cache, acc ++ [(nodeHash.toBytes, node.encode)])

/-- `TrieState::commit`: `commit_node` writes in one batch the nodes the root
reaches through the cache, then the cache is cleared.  The recursion is
given one visit more than the cache has entries, as each visit that goes on
takes an entry out. -/
def commit (s : TrieState) (root : NodeHash) : Except TrieError TrieState := do
  let (_, toCommit) ← commitNodeTailRecursive (s.cache.length + 1) s.cache root []
  pure ⟨putBatch s.db toCommit, []⟩

@[simp] theorem extend_nil (s : TrieState) : s.extend [] = s := rfl

theorem extend_extend (s : TrieState) (w w' : List (NodeHash × Node)) :
    (s.extend w).extend w' = s.extend (w' ++ w) := by
  simp [extend]

@[simp] theorem cache_extend (s : TrieState) (w : List (NodeHash × Node)) :
    (s.extend w).cache = w ++ s.cache := rfl

@[simp] theorem db_extend (s : TrieState) (w : List (NodeHash × Node)) :
    (s.extend w).db = s.db := rfl

end TrieState

/-- An operation on a `TrieState`: its result or error, and the cache
entries it inserted, newest first. -/
def TrieM (α : Type) : Type := TrieState → Except TrieError α × List (NodeHash × Node)

namespace TrieM

variable {α β : Type}

/-- Sequencing: the second operation sees the entries the first inserted. -/
def bind (x : TrieM α) (f : α → TrieM β) : TrieM β := fun s =>
  match x s with
  | (.ok a, w) =>
    let (r, w') := f a (s.extend w)
    (r, w' ++ w)
  | (.error e, w) => (.error e, w)

instance : Monad TrieM where
  pure a := fun _ => (.ok a, [])
  bind := bind

instance : MonadExceptOf TrieError TrieM where
  throw e := fun _ => (.error e, [])
  tryCatch x handle := fun s =>
    match x s with
    | (.ok a, w) => (.ok a, w)
    | (.error e, w) =>
      let (r, w') := handle e (s.extend w)
      (r, w' ++ w)

/-- The state after the operation: the cache with its entries. -/
def run (x : TrieM α) (s : TrieState) : Except TrieError α × TrieState :=
  ((x s).1, s.extend (x s).2)

/-- A read of the state. -/
def ofExcept (f : TrieState → Except TrieError α) : TrieM α := fun s => (f s, [])

@[simp] theorem pure_apply (a : α) (s : TrieState) : (pure a : TrieM α) s = (.ok a, []) := rfl

@[simp] theorem throw_apply (e : TrieError) (s : TrieState) :
    (throw e : TrieM α) s = (.error e, []) := rfl

theorem bind_apply (x : TrieM α) (f : α → TrieM β) (s : TrieState) :
    (x >>= f) s = match x s with
      | (.ok a, w) => ((f a (s.extend w)).1, (f a (s.extend w)).2 ++ w)
      | (.error e, w) => (.error e, w) := by
  show bind x f s = _
  unfold bind
  rcases x s with ⟨_ | a, w⟩ <;> rfl

@[simp] theorem ofExcept_apply (f : TrieState → Except TrieError α) (s : TrieState) :
    ofExcept f s = (f s, []) := rfl

end TrieM

/-- `TrieState::get_node` inside an operation. -/
def getNodeM (hash : NodeHash) : TrieM (Option Node) := TrieM.ofExcept fun s => s.getNode hash

/-- `TrieState::insert_node`: only a hashed node is cached; an inline one
lives in its parent. -/
def insertNode (node : Node) (hash : NodeHash) : TrieM Unit := fun _ =>
  match hash with
  | .hashed _ => (.ok (), [(hash, node)])
  | .inline _ => (.ok (), [])

/-- `insert_self` of every node kind: the node is cached under its hash,
which is returned. -/
def Node.insertSelf (keccak : Bytes → H256) (node : Node) : TrieM NodeHash := do
  let hash := node.computeHash keccak
  insertNode node hash
  pure hash

end Ethrex.Mpt
