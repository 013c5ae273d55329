/-
# `Ethrex.Trie.Trie` — `get`, `insert` and `remove` of `ethrex_trie`

The three operations of each node kind (`node/leaf.rs`, `node/extension.rs`,
`node/branch.rs`), their dispatch on `Node` (`node.rs`), and the `Trie` that
holds a root hash over a `TrieState` (`trie.rs`).

A node operation recurses into a child it fetched with `get_node`.  The
recursive call is a parameter of each kind's function (`getChild`,
`insertChild`, `removeChild`), and `Node.get`/`Node.insert`/`Node.remove`
tie the knot with a `fuel` that one unit pays for one node visit.  The
source's recursion has no bound; out of fuel, the model reports
`InconsistentTree`.  The `Trie` entry points pass `visitBound` of the path,
and the correctness theorems show that this is never what ends an
operation on a trie the operations built.

`ExtensionNode::insert` calls itself on the extension it splits off; here
that call goes through `Node.insert` of `Node::Extension`, which dispatches
back to it.
-/
import Ethrex.Trie.State
import Ethrex.Lib.Iterator

namespace Ethrex.Mpt

open Ethrex.Rlp

/-! ## get -/

/-- `LeafNode::get`. -/
def LeafNode.get (self : LeafNode) (path : Nibbles) : Option ValueRLP :=
  if self.partialPath = path then some self.value else none

/-- `ExtensionNode::get`: follow the child if the path starts with the
prefix. -/
def ExtensionNode.get (getChild : Node → Nibbles → Except TrieError (Option ValueRLP))
    (self : ExtensionNode) (state : TrieState) (path : Nibbles) :
    Except TrieError (Option ValueRLP) :=
  match path.skipPrefix self.prefixPath with
  | some path => do
    let some childNode ← state.getNode self.child | throw .inconsistentTree
    getChild childNode path
  | none => pure none

/-- `BranchNode::get`: the child the next nibble chooses, or the node's own
value when the path ends here. -/
def BranchNode.get (getChild : Node → Nibbles → Except TrieError (Option ValueRLP))
    (self : BranchNode) (state : TrieState) (path : Nibbles) :
    Except TrieError (Option ValueRLP) :=
  match path.nextChoice with
  | (some choice, path) =>
    let childHash := self.choices[choice]
    if childHash.isValid then do
      let some childNode ← state.getNode childHash | throw .inconsistentTree
      getChild childNode path
    else pure none
  | (none, _) => pure (if !self.value.isEmpty then some self.value else none)

/-- `Node::get`, with `fuel` node visits. -/
def Node.get (state : TrieState) : Nat → Node → Nibbles → Except TrieError (Option ValueRLP)
  | 0, _, _ => throw .inconsistentTree
  | fuel + 1, .branch n, path => n.get (Node.get state fuel) state path
  | fuel + 1, .extension n, path => n.get (Node.get state fuel) state path
  | _ + 1, .leaf n, path => pure (n.get path)

section Mutation

variable (keccak : Bytes → H256)

/-! ## insert -/

/-- `LeafNode::insert`: the same path takes the new value; otherwise the two
paths part at `matchIndex` into a branch (holding one of the values itself
when its path ends there), under an extension for the shared nibbles. -/
def LeafNode.insert (self : LeafNode) (path : Nibbles) (value : ValueRLP) : TrieM Node := do
  if self.partialPath = path then
    pure (.leaf { self with value })
  else
    let matchIndex := path.countPrefix self.partialPath
    let selfChoiceIdx := self.partialPath.nibbleAt matchIndex
    let newLeafChoiceIdx := path.nibbleAt matchIndex
    let shortened : LeafNode := { self with partialPath := self.partialPath.offset (matchIndex + 1) }
    let branchNode ←
      if selfChoiceIdx = 16 then do
        let newLeaf : LeafNode := ⟨path.offset (matchIndex + 1), value⟩
        let newLeafHash ← (Node.leaf newLeaf).insertSelf keccak
        pure (BranchNode.newWithValue
          (BranchNode.emptyChoices.set! newLeafChoiceIdx newLeafHash) shortened.value)
      else if newLeafChoiceIdx = 16 then do
        let selfHash ← (Node.leaf shortened).insertSelf keccak
        pure (BranchNode.newWithValue (BranchNode.emptyChoices.set! selfChoiceIdx selfHash) value)
      else do
        let newLeaf : LeafNode := ⟨path.offset (matchIndex + 1), value⟩
        let newLeafHash ← (Node.leaf newLeaf).insertSelf keccak
        let selfHash ← (Node.leaf shortened).insertSelf keccak
        pure (BranchNode.new
          ((BranchNode.emptyChoices.set! newLeafChoiceIdx newLeafHash).set! selfChoiceIdx selfHash))
    if matchIndex = 0 then
      pure (.branch branchNode)
    else do
      let child ← (Node.branch branchNode).insertSelf keccak
      pure (.extension ⟨path.slice 0 matchIndex, child⟩)

/-- `BranchNode::insert`: a new leaf under an absent choice, an insertion
into the chosen child otherwise, the node's own value when the path ends. -/
def BranchNode.insert (insertChild : Node → Nibbles → ValueRLP → TrieM Node)
    (self : BranchNode) (path : Nibbles) (value : ValueRLP) : TrieM Node := do
  match path.nextChoice with
  | (some choice, path) =>
    let choiceHash := self.choices[choice]
    if !choiceHash.isValid then
      let childHash ← (Node.leaf ⟨path, value⟩).insertSelf keccak
      pure (.branch { self with choices := self.choices.set choice childHash })
    else
      let some childNode ← getNodeM choiceHash | throw .inconsistentTree
      let childNode ← insertChild childNode path value
      let childHash ← childNode.insertSelf keccak
      pure (.branch { self with choices := self.choices.set choice childHash })
  | (none, _) => pure (.branch { self with value })

/-- `ExtensionNode::insert`: into the child when the whole prefix matches;
into a branch taking the extension's place when nothing matches; otherwise
the extension is split at `matchIndex`. -/
def ExtensionNode.insert (insertChild : Node → Nibbles → ValueRLP → TrieM Node)
    (self : ExtensionNode) (path : Nibbles) (value : ValueRLP) : TrieM Node := do
  let matchIndex := path.countPrefix self.prefixPath
  if matchIndex = self.prefixPath.len then
    let some childNode ← getNodeM self.child | throw .inconsistentTree
    let newChildNode ← insertChild childNode (path.offset matchIndex) value
    let child ← newChildNode.insertSelf keccak
    pure (.extension { self with child })
  else if matchIndex = 0 then
    let newNode ←
      if self.prefixPath.len = 1 then pure self.child
      else (Node.extension ⟨self.prefixPath.offset 1, self.child⟩).insertSelf keccak
    let choices := BranchNode.emptyChoices
    let branchNode ←
      if self.prefixPath.nibbleAt 0 = 16 then do
        match ← getNodeM newNode with
        | some (.leaf leaf) => pure (BranchNode.newWithValue choices leaf.value)
        | _ => throw .inconsistentTree
      else pure (BranchNode.new (choices.set! (self.prefixPath.nibbleAt 0) newNode))
    BranchNode.insert keccak insertChild branchNode path value
  else
    let newExtension : ExtensionNode := ⟨self.prefixPath.offset matchIndex, self.child⟩
    let newNode ← insertChild (.extension newExtension) (path.offset matchIndex) value
    let child ← newNode.insertSelf keccak
    pure (.extension ⟨self.prefixPath.slice 0 matchIndex, child⟩)

/-- `Node::insert`, with `fuel` node visits. -/
def Node.insert : Nat → Node → Nibbles → ValueRLP → TrieM Node
  | 0, _, _, _ => throw .inconsistentTree
  | fuel + 1, .branch n, path, value => n.insert keccak (Node.insert fuel) path value
  | fuel + 1, .extension n, path, value => n.insert keccak (Node.insert fuel) path value
  | _ + 1, .leaf n, path, value => n.insert keccak path value

/-! ## remove -/

/-- `LeafNode::remove`. -/
def LeafNode.remove (self : LeafNode) (path : Nibbles) : Option Node × Option ValueRLP :=
  if self.partialPath = path then (none, some self.value) else (some (.leaf self), none)

/-- `ExtensionNode::remove`: remove below the prefix, then take the child's
place if it became an extension or a leaf, or go if it went. -/
def ExtensionNode.remove (removeChild : Node → Nibbles → TrieM (Option Node × Option ValueRLP))
    (self : ExtensionNode) (path : Nibbles) : TrieM (Option Node × Option ValueRLP) := do
  match path.skipPrefix self.prefixPath with
  | some path =>
    let some childNode ← getNodeM self.child | throw .inconsistentTree
    let (childNode, oldValue) ← removeChild childNode path
    let node ← match childNode with
      | none => pure none
      | some (.branch branchNode) => do
        let child ← (Node.branch branchNode).insertSelf keccak
        pure (some (.extension { self with child }))
      | some (.extension extensionNode) =>
        pure (some (.extension
          { extensionNode with prefixPath := self.prefixPath.extend extensionNode.prefixPath }))
      | some (.leaf leafNode) =>
        pure (some (.leaf
          { leafNode with partialPath := self.prefixPath.extend leafNode.partialPath }))
    pure (node, oldValue)
  | none => pure (some (.extension self), none)

/-- `BranchNode::remove`: remove from the chosen child or from the node's own
value, then restructure a node left with a value and no children (a leaf) or
with one child and no value (the child, its path one nibble longer). -/
def BranchNode.remove (removeChild : Node → Nibbles → TrieM (Option Node × Option ValueRLP))
    (self : BranchNode) (path : Nibbles) : TrieM (Option Node × Option ValueRLP) := do
  -- Step 1: remove the value
  let (self, value) ← match path.nextChoice with
    | (some choiceIndex, path) =>
      if self.choices[choiceIndex].isValid then do
        let some childNode ← getNodeM self.choices[choiceIndex] | throw .inconsistentTree
        let (childNode, oldValue) ← removeChild childNode path
        match childNode with
        | some childNode => do
          let childHash ← childNode.insertSelf keccak
          pure ({ self with choices := self.choices.set choiceIndex childHash }, oldValue)
        | none => pure ({ self with choices := self.choices.set choiceIndex default }, oldValue)
      else pure (self, none)
    | (none, _) =>
      if !self.value.isEmpty then
        let value := self.value
        pure ({ self with value := [] }, if !value.isEmpty then some value else none)
      else pure (self, none)
  -- Step 2: restructure
  let children := ((List.finRange 16).map fun i => (i, self.choices[i])).filter fun c => c.2.isValid
  let newNode ← match children, !self.value.isEmpty with
    | [], true => pure (Node.leaf ⟨Nibbles.fromHex [16], self.value⟩)
    | [(choiceIndex, childHash)], false => do
      let some child ← getNodeM childHash | throw .inconsistentTree
      match child with
      | .branch _ => pure (Node.extension ⟨Nibbles.fromHex [choiceIndex.val], childHash⟩)
      | .extension extensionNode =>
        pure (.extension
          { extensionNode with prefixPath := extensionNode.prefixPath.prepend choiceIndex.val })
      | .leaf leaf =>
        pure (.leaf { leaf with partialPath := leaf.partialPath.prepend choiceIndex.val })
    | _, _ => pure (.branch self)
  pure (some newNode, value)

/-- Step 1 of `BranchNode::remove`, "remove the value", then `next` on the
branch without it and the value: from the chosen child, or the node's own
value when the path ends here. -/
def BranchNode.removeValueThen {β : Type}
    (removeChild : Node → Nibbles → TrieM (Option Node × Option ValueRLP))
    (self : BranchNode) (path : Nibbles) (next : BranchNode → Option ValueRLP → TrieM β) :
    TrieM β := do
  let (self, value) ← match path.nextChoice with
    | (some choiceIndex, path) =>
      if self.choices[choiceIndex].isValid then do
        let some childNode ← getNodeM self.choices[choiceIndex] | throw .inconsistentTree
        let (childNode, oldValue) ← removeChild childNode path
        match childNode with
        | some childNode => do
          let childHash ← childNode.insertSelf keccak
          pure ({ self with choices := self.choices.set choiceIndex childHash }, oldValue)
        | none => pure ({ self with choices := self.choices.set choiceIndex default }, oldValue)
      else pure (self, none)
    | (none, _) =>
      if !self.value.isEmpty then
        let value := self.value
        pure ({ self with value := [] }, if !value.isEmpty then some value else none)
      else pure (self, none)
  next self value

/-- Step 2 of `BranchNode::remove`, "restructure": a value and no children
make a leaf, one child and no value make the child one nibble longer. -/
def BranchNode.restructure (self : BranchNode) (value : Option ValueRLP) :
    TrieM (Option Node × Option ValueRLP) := do
  let children := ((List.finRange 16).map fun i => (i, self.choices[i])).filter fun c => c.2.isValid
  let newNode ← match children, !self.value.isEmpty with
    | [], true => pure (Node.leaf ⟨Nibbles.fromHex [16], self.value⟩)
    | [(choiceIndex, childHash)], false => do
      let some child ← getNodeM childHash | throw .inconsistentTree
      match child with
      | .branch _ => pure (Node.extension ⟨Nibbles.fromHex [choiceIndex.val], childHash⟩)
      | .extension extensionNode =>
        pure (.extension
          { extensionNode with prefixPath := extensionNode.prefixPath.prepend choiceIndex.val })
      | .leaf leaf =>
        pure (.leaf { leaf with partialPath := leaf.partialPath.prepend choiceIndex.val })
    | _, _ => pure (.branch self)
  pure (some newNode, value)

/-- `Node::remove`, with `fuel` node visits. -/
def Node.remove : Nat → Node → Nibbles → TrieM (Option Node × Option ValueRLP)
  | 0, _, _ => throw .inconsistentTree
  | fuel + 1, .branch n, path => n.remove keccak (Node.remove fuel) path
  | fuel + 1, .extension n, path => n.remove keccak (Node.remove fuel) path
  | _ + 1, .leaf n, path => pure (n.remove path)

end Mutation

/-! ## The trie -/

/-- `Trie`: the root's hash, none for the empty trie, over its state. -/
structure Trie where
  root : Option NodeHash
  state : TrieState

namespace Trie

variable (keccak : Bytes → H256)

/-- `Trie::new`: the empty trie over a database. -/
def new (db : Bytes → Option Bytes) : Trie := ⟨none, ⟨db, []⟩⟩

/-- `Trie::stateless`: over the `NullTrieDB`, which holds nothing. -/
def stateless : Trie := new fun _ => none

/-- `EMPTY_TRIE_HASH`: `keccak(RLP_NULL)`. -/
def emptyTrieHash : H256 := keccak [rlpNull]

/-- The node visits an operation along `path` is given: each visit but the
last consumes a nibble, and splitting an extension costs one visit more. -/
def visitBound (path : Nibbles) : Nat := 2 * path.len + 2

/-- An operation on the trie's state, run on the trie (`&mut self.state`). -/
def onState {α : Type} (self : Trie) (x : TrieM α) : Except TrieError α × Trie :=
  let (r, state) := x.run self.state
  (r, { self with state })

/-- `Trie::get`. -/
def get (self : Trie) (path : Bytes) : Except TrieError (Option ValueRLP) :=
  match self.root with
  | some root => do
    let some rootNode ← self.state.getNode root | throw .inconsistentTree
    let path := Nibbles.fromBytes path
    Node.get self.state (visitBound path) rootNode path
  | none => pure none

/-- `Trie::insert`.  The root is taken out first, so an error leaves the
trie without one. -/
def insert (self : Trie) (path : Bytes) (value : ValueRLP) : Except TrieError Unit × Trie :=
  let root := self.root
  let path := Nibbles.fromBytes path
  let op : TrieM NodeHash := do
    let rootNode ← match root with
      | some root => getNodeM root
      | none => pure none
    match rootNode with
    | some rootNode =>
      let rootNode ← Node.insert keccak (visitBound path) rootNode path value
      rootNode.insertSelf keccak
    | none => (Node.leaf ⟨path, value⟩).insertSelf keccak
  match ({ self with root := none } : Trie).onState op with
  | (.ok hash, self) => (.ok (), { self with root := some hash })
  | (.error e, self) => (.error e, self)

/-- `Trie::remove`: the removed value, if the path had one. -/
def remove (self : Trie) (path : Bytes) : Except TrieError (Option ValueRLP) × Trie :=
  match self.root with
  | none => (.ok none, self)
  | some root =>
    let path := Nibbles.fromBytes path
    let op : TrieM (Option NodeHash × Option ValueRLP) := do
      let some rootNode ← getNodeM root | throw .inconsistentTree
      let (rootNode, oldValue) ← Node.remove keccak (visitBound path) rootNode path
      let root ← match rootNode with
        | some rootNode => some <$> rootNode.insertSelf keccak
        | none => pure none
      pure (root, oldValue)
    match ({ self with root := none } : Trie).onState op with
    | (.ok (root, oldValue), self) => (.ok oldValue, { self with root })
    | (.error e, self) => (.error e, self)

/-- `Trie::hash_no_commit`. -/
def hashNoCommit (self : Trie) : H256 :=
  match self.root with
  | some root => root.finalize keccak
  | none => emptyTrieHash keccak

/-- `Trie::hash`: the root's hash, after committing the nodes it reaches. -/
def hash (self : Trie) : Except TrieError H256 × Trie :=
  match self.root with
  | some root =>
    match self.state.commit root with
    | .ok state => (.ok (root.finalize keccak), { self with state })
    | .error e => (.error e, self)
  | none => (.ok (emptyTrieHash keccak), self)

/-- `Trie::open` (`open` is a keyword of Lean's): the trie over a database,
with the root of the given hash; the empty trie's hash is no root. -/
def openAt (db : Bytes → Option Bytes) (root : H256) : Trie :=
  ⟨if root ≠ emptyTrieHash keccak then some (.hashed root) else none, ⟨db, []⟩⟩

/-- The insertion loop of `compute_hash_from_unsorted_iter`. -/
def insertAll (self : Trie) : List (Bytes × ValueRLP) → Except TrieError Unit × Trie
  | [] => (.ok (), self)
  | (path, value) :: rest =>
    match self.insert keccak path value with
    | (.ok (), self) => insertAll self rest
    | (.error e, self) => (.error e, self)

/-- `Trie::compute_hash_from_unsorted_iter`; an error is the source's
`unwrap` panicking. -/
def computeHashFromUnsortedIter (iter : List (Bytes × ValueRLP)) : Except TrieError H256 :=
  match stateless.insertAll keccak iter with
  | (.ok (), trie) => .ok (trie.hashNoCommit keccak)
  | (.error e, _) => .error e

end Trie

/-! ## Iteration (`trie_iter.rs`) -/

/-- `TrieIterator`: the trie, and a stack of the paths walked so far, each
with the node to visit there; the top of the stack is the head of the
list. -/
structure TrieIterator where
  trie : Trie
  stack : List (Nibbles × NodeHash)

namespace TrieIterator

/-- `TrieIterator::new` (also `Trie::into_iter`): the root alone on the
stack, at the empty path. -/
def new (trie : Trie) : TrieIterator :=
  let stack := match trie.root with
    | some root => [(⟨[]⟩, root)]
    | none => []
  ⟨trie, stack⟩

/-- `TrieIterator::next`: pop the top of the stack and read its node.  A
branch pushes its present children, a leaf extends the path by its partial
path, an extension extends it by its prefix and pushes its child there.  A
node that cannot be read ends the iteration. -/
def next (self : TrieIterator) : Option ((Nibbles × Node) × TrieIterator) :=
  match self.stack with
  | [] => none
  | (path, nextNodeHash) :: stack =>
    match self.trie.state.getNode nextNodeHash with
    | .ok (some nextNode) =>
      match nextNode with
      | .branch branchNode =>
        -- last choice first, so that the first is on top
        let stack := (List.finRange 16).reverse.foldl (fun stack choice =>
          let child := branchNode.choices[choice]
          if child.isValid then (path.append choice.val, child) :: stack else stack) stack
        some ((path, nextNode), ⟨self.trie, stack⟩)
      | .extension extensionNode =>
        let path := path.extend extensionNode.prefixPath
        some ((path, nextNode), ⟨self.trie, (path, extensionNode.child) :: stack⟩)
      | .leaf leaf => some ((path.extend leaf.partialPath, nextNode), ⟨self.trie, stack⟩)
    | _ => none

end TrieIterator

end Ethrex.Mpt
