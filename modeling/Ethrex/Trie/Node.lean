/-
# `Ethrex.Trie.Node` — the nodes of `ethrex_trie::node` and their hashes

A node names its children by `NodeHash`: the node's raw encoding itself when
that is shorter than 32 bytes (`Inline`), its Keccak-256 otherwise
(`Hashed`).  An absent branch child is `Inline []`, the `NodeHash` default,
and is the one hash `is_valid` rejects.

`encode_raw` is the encoding hashes are computed from; `decode_raw` is what
`TrieState::get_node` reads an inline child back with.  The Keccak function
is a parameter `keccak : Bytes → H256` of everything that hashes.

The database encoding of `rlp.rs` (a type byte, then each node as an RLP
struct, byte vectors as lists of `u8` items) is here too: it is what
`get_node` decodes when a hash is not in the cache.
-/
import Ethrex.Trie.Nibbles

namespace Ethrex.Mpt

open Ethrex.Rlp

/-- `ValueRLP`, `PathRLP`, `NodeRLP`: byte vectors. -/
abbrev ValueRLP := Bytes

/-- `NodeHash`. -/
inductive NodeHash where
  | hashed (hash : H256)
  | inline (encoded : Bytes)
  deriving DecidableEq

namespace NodeHash

/-- `NodeHash::default()`: the absent child. -/
instance : Inhabited NodeHash := ⟨.inline []⟩

/-- `NodeHash::from_encoded_raw`. -/
def fromEncodedRaw (keccak : Bytes → H256) (encoded : Bytes) : NodeHash :=
  if encoded.length ≥ 32 then .hashed (keccak encoded) else .inline encoded

/-- `NodeHash::finalize`: an inline node is hashed here. -/
def finalize (keccak : Bytes → H256) : NodeHash → H256
  | .inline x => keccak x
  | .hashed x => x

/-- `NodeHash::is_valid`: everything but the default. -/
def isValid : NodeHash → Bool
  | .inline [] => false
  | _ => true

/-- `From<NodeHash> for Vec<u8>`. -/
def toBytes : NodeHash → Bytes
  | .hashed x => x.toList
  | .inline x => x

/-- `From<Vec<u8>> for NodeHash`. -/
def ofBytes (value : Bytes) : NodeHash :=
  if h : value.length = 32 then .hashed ⟨value, h⟩ else .inline value

@[simp] theorem isValid_default : (default : NodeHash).isValid = false := rfl

@[simp] theorem isValid_hashed (x : H256) : (NodeHash.hashed x).isValid = true := rfl

theorem isValid_inline {x : Bytes} (h : x ≠ []) : (NodeHash.inline x).isValid = true := by
  cases x with
  | nil => exact absurd rfl h
  | cons _ _ => rfl

end NodeHash

/-- `LeafNode`; the source's field `partial` is `partialPath` here. -/
structure LeafNode where
  partialPath : Nibbles
  value : ValueRLP
  deriving DecidableEq

/-- `ExtensionNode`; the source's field `prefix` is `prefixPath` here. -/
structure ExtensionNode where
  prefixPath : Nibbles
  child : NodeHash
  deriving DecidableEq

/-- `BranchNode`: sixteen children and a value, empty for none. -/
structure BranchNode where
  choices : Vector NodeHash 16
  value : ValueRLP
  deriving DecidableEq

/-- `Node`. -/
inductive Node where
  | branch (n : BranchNode)
  | extension (n : ExtensionNode)
  | leaf (n : LeafNode)
  deriving DecidableEq

namespace BranchNode

/-- `BranchNode::EMPTY_CHOICES`. -/
def emptyChoices : Vector NodeHash 16 := Vector.replicate 16 default

/-- `BranchNode::new`: no value. -/
def new (choices : Vector NodeHash 16) : BranchNode := ⟨choices, []⟩

/-- `BranchNode::new_with_value`. -/
def newWithValue (choices : Vector NodeHash 16) (value : ValueRLP) : BranchNode := ⟨choices, value⟩

/-- One child in `BranchNode::encode_raw`: a hash as its 32 bytes, an inline
node as its encoding, an absent child as the empty string. -/
def encodeChoice (encoder : Encoder) : NodeHash → Encoder
  | .hashed hash => encoder.encodeBytes hash.toList
  | .inline raw => if !raw.isEmpty then encoder.encodeRaw raw else encoder.encodeBytes []

/-- `BranchNode::encode_raw`. -/
def encodeRaw (self : BranchNode) : Bytes :=
  (self.choices.toList.foldl encodeChoice Encoder.new |>.encodeBytes self.value).finish

end BranchNode

/-- `LeafNode::encode_raw`. -/
def LeafNode.encodeRaw (self : LeafNode) : Bytes :=
  Encoder.new
    |>.encodeBytes self.partialPath.encodeCompact
    |>.encodeBytes self.value
    |>.finish

/-- `ExtensionNode::encode_raw`: an inline child is embedded, a hashed one
written as its 32 bytes. -/
def ExtensionNode.encodeRaw (self : ExtensionNode) : Bytes :=
  let encoder := Encoder.new.encodeBytes self.prefixPath.encodeCompact
  let encoder := match self.child with
    | .inline x => encoder.encodeRaw x
    | .hashed x => encoder.encodeBytes x.toList
  encoder.finish

namespace Node

/-- `Node::encode_raw`. -/
def encodeRaw : Node → Bytes
  | .branch n => n.encodeRaw
  | .extension n => n.encodeRaw
  | .leaf n => n.encodeRaw

/-- `compute_hash` of each node kind: `from_encoded_raw` of `encode_raw`. -/
def computeHash (keccak : Bytes → H256) (n : Node) : NodeHash :=
  NodeHash.fromEncodedRaw keccak n.encodeRaw

/-- `decode_child`: a 32-byte string is a hash, the empty string the absent
child, anything else an inline node. -/
def decodeChild (rlp : Bytes) : NodeHash :=
  match decodeBytes rlp with
  | .ok (hash, []) =>
    if h : hash.length = 32 then .hashed ⟨hash, h⟩
    else if hash = [] then .inline []
    else .inline rlp
  | _ => .inline rlp

/-- The item loop of `decode_raw`: undecoded items until the list is done or
holds more than seventeen.  The bound `fuel` is never what stops it when
called with `18`. -/
def decodeRawItems : Nat → Decoder → List Bytes → Except RLPDecodeError (List Bytes)
  | 0, _, items => .ok items
  | fuel + 1, decoder, items => do
    let (item, decoder) ← decoder.getEncodedItem
    let items := items ++ [item]
    if decoder.isDone || items.length > 17 then pure items
    else decodeRawItems fuel decoder items

/-- `Node::decode_raw`: two items are a leaf or an extension, as the path's
flag says; seventeen are a branch. -/
def decodeRaw (rlp : Bytes) : Except RLPDecodeError Node := do
  let decoder ← Decoder.new rlp
  let rlpItems ← decodeRawItems 18 decoder []
  if rlpItems.length = 2 then
    let (path, _) ← decodeBytes rlpItems[0]!
    let path := Nibbles.decodeCompact path
    if path.isLeaf then
      let (value, _) ← decodeBytes rlpItems[1]!
      pure (.leaf ⟨path, value⟩)
    else pure (.extension ⟨path, decodeChild rlpItems[1]!⟩)
  else if rlpItems.length = 17 then
    let choices := Vector.ofFn fun i : Fin 16 => decodeChild rlpItems[i.val]!
    let (value, _) ← decodeBytes rlpItems[16]!
    pure (.branch ⟨choices, value⟩)
  else
    throw (.custom ("Invalid arg count for Node, expected 2 or 17, got " ++
      toString rlpItems.length))

end Node

/-! ## The database encoding (`rlp.rs`) -/

/-- `RLPEncode for NodeHash`: its bytes as a `Vec<u8>`, a list of `u8`. -/
def NodeHash.encode (h : NodeHash) : Bytes := Vec.encode U8.encode h.toBytes

/-- `RLPDecode for NodeHash`. -/
def NodeHash.decodeUnfinished (rlp : Bytes) : Except RLPDecodeError (NodeHash × Bytes) := do
  let (hash, rest) ← Vec.decodeUnfinished U8.decodeUnfinished rlp
  pure (NodeHash.ofBytes hash, rest)

/-- `RLPEncode for Nibbles`: the one-field struct of its `Vec<u8>`. -/
def Nibbles.encode (n : Nibbles) : Bytes :=
  Encoder.new |>.encodeField (Vec.encode U8.encode) (n.data.map UInt8.ofNat) |>.finish

/-- `RLPDecode for Nibbles`. -/
def Nibbles.decodeUnfinished (rlp : Bytes) : Except RLPDecodeError (Nibbles × Bytes) := do
  let decoder ← Decoder.new rlp
  let (data, decoder) ←
    decoder.decodeField "data" "Vec<u8>" (Vec.decodeUnfinished U8.decodeUnfinished)
  pure (⟨data.map UInt8.toNat⟩, ← decoder.finish)

/-- `RLPEncode for BranchNode`. -/
def BranchNode.encode (n : BranchNode) : Bytes :=
  Encoder.new
    |>.encodeField (Vec.encode NodeHash.encode) n.choices.toList
    |>.encodeField (Vec.encode U8.encode) n.value
    |>.finish

/-- `RLPEncode for ExtensionNode`. -/
def ExtensionNode.encode (n : ExtensionNode) : Bytes :=
  Encoder.new
    |>.encodeField Nibbles.encode n.prefixPath
    |>.encodeField NodeHash.encode n.child
    |>.finish

/-- `RLPEncode for LeafNode`. -/
def LeafNode.encode (n : LeafNode) : Bytes :=
  Encoder.new
    |>.encodeField Nibbles.encode n.partialPath
    |>.encodeField (Vec.encode U8.encode) n.value
    |>.finish

/-- The message of a branch whose `choices` are not sixteen. -/
def choicesLenErrorMsg : String :=
  "Error decoding field \x27choices\x27 of type [H256;16]: Invalid Length"

/-- `RLPDecode for BranchNode`. -/
def BranchNode.decodeUnfinished (rlp : Bytes) : Except RLPDecodeError (BranchNode × Bytes) := do
  let decoder ← Decoder.new rlp
  let (choices, decoder) ←
    decoder.decodeField "choices" "Vec<NodeHash>" (Vec.decodeUnfinished NodeHash.decodeUnfinished)
  let choices ← if h : choices.length = 16 then pure (⟨choices.toArray, by simpa using h⟩ : Vector NodeHash 16)
    else throw (.custom choicesLenErrorMsg)
  let (value, decoder) ←
    decoder.decodeField "value" "ValueRLP" (Vec.decodeUnfinished U8.decodeUnfinished)
  pure (⟨choices, value⟩, ← decoder.finish)

/-- `RLPDecode for ExtensionNode`. -/
def ExtensionNode.decodeUnfinished (rlp : Bytes) :
    Except RLPDecodeError (ExtensionNode × Bytes) := do
  let decoder ← Decoder.new rlp
  let (pre, decoder) ← decoder.decodeField "prefix" "Nibbles" Nibbles.decodeUnfinished
  let (child, decoder) ← decoder.decodeField "child" "NodeHash" NodeHash.decodeUnfinished
  pure (⟨pre, child⟩, ← decoder.finish)

/-- `RLPDecode for LeafNode`. -/
def LeafNode.decodeUnfinished (rlp : Bytes) : Except RLPDecodeError (LeafNode × Bytes) := do
  let decoder ← Decoder.new rlp
  let (partialPath, decoder) ← decoder.decodeField "partial" "Nibbles" Nibbles.decodeUnfinished
  let (value, decoder) ←
    decoder.decodeField "value" "ValueRLP" (Vec.decodeUnfinished U8.decodeUnfinished)
  pure (⟨partialPath, value⟩, ← decoder.finish)

/-- `NodeType as u8`. -/
def Node.nodeType : Node → UInt8
  | .branch _ => 0
  | .extension _ => 1
  | .leaf _ => 2

/-- `RLPEncode for Node`: the type byte, then the node. -/
def Node.encode (n : Node) : Bytes :=
  n.nodeType :: match n with
    | .branch b => b.encode
    | .extension e => e.encode
    | .leaf l => l.encode

/-- `RLPDecode for Node`. -/
def Node.decodeUnfinished (rlp : Bytes) : Except RLPDecodeError (Node × Bytes) :=
  match rlp with
  | [] => .error .invalidLength
  | nodeType :: rlp =>
    if nodeType = 0 then
      (BranchNode.decodeUnfinished rlp).map fun (n, rem) => (.branch n, rem)
    else if nodeType = 1 then
      (ExtensionNode.decodeUnfinished rlp).map fun (n, rem) => (.extension n, rem)
    else if nodeType = 2 then
      (LeafNode.decodeUnfinished rlp).map fun (n, rem) => (.leaf n, rem)
    else .error .malformedData

end Ethrex.Mpt
