/-
# `Ethrex.Trie.NodeStorage` — the database encoding reads back

`commit` stores each node under its hash in the encoding of `rlp.rs`, not
the one hashed: a type byte, then the node's fields as a struct, a
`NodeHash` as the list of its bytes and `Nibbles` as a struct of its `u8`s.
`Node::decode` inverts `Node::encode` on every node whose parts survive the
trip (`Node.Storable`): its nibbles fit a `u8`, and each child is a hash or
an encoding shorter than one, which `From<Vec<u8>>` turns back into the
same `NodeHash` (`NodeHash.ofBytes_toBytes`).  Every node of a canonical
tree is such a node (`Tree.storable_toNode`).  An encoding is assumed
shorter than `2 ^ 64` bytes, the bound of the length headers.
-/
import Ethrex.Rlp.Universe
import Ethrex.Trie.NodeCodec

namespace Ethrex.Mpt

open Ethrex.Rlp Codec

/-! ## Hashes and paths -/

/-- A child that `From<Vec<u8>>` gives back: a hash, or an inline encoding
shorter than one. -/
def NodeHash.Storable : NodeHash → Prop
  | .hashed _ => True
  | .inline x => x.length < 32

/-- Paths whose nibbles fit the `u8`s the database encoding writes. -/
def Nibbles.Storable (p : Nibbles) : Prop := ∀ x ∈ p.data, x < 256

/-- The nodes the database encoding reads back. -/
def Node.Storable : Node → Prop
  | .branch b => ∀ h ∈ b.choices.toList, h.Storable
  | .extension e => e.prefixPath.Storable ∧ e.child.Storable
  | .leaf l => l.partialPath.Storable

theorem NodeHash.ofBytes_toBytes {h : NodeHash} (hh : h.Storable) : NodeHash.ofBytes h.toBytes = h := by
  cases h with
  | hashed x => simp [toBytes, ofBytes]
  | inline x =>
    have hx : x.length ≠ 32 := by simp only [Storable] at hh; omega
    simp [toBytes, ofBytes, hx]

theorem NodeHash.storable_default : (default : NodeHash).Storable :=
  show ([] : Bytes).length < 32 by decide

theorem NodeHash.encode_ne_nil (h : NodeHash) : h.encode ≠ [] :=
  RLPType.encode_ne_nil (.vec .u8) h.toBytes

theorem roundTrips_nodeHash {h : NodeHash} (hh : h.Storable) (hlen : h.encode.length < 2 ^ 64) :
    RoundTrips NodeHash.encode NodeHash.decodeUnfinished h := by
  intro rest
  have hbytes : RoundTrips (Vec.encode U8.encode) (Vec.decodeUnfinished U8.decodeUnfinished)
      h.toBytes := RLPType.roundTrips_encode (.vec .u8) h.toBytes hlen
  rw [NodeHash.decodeUnfinished, NodeHash.encode, hbytes rest]
  simp [NodeHash.ofBytes_toBytes hh]

theorem roundTrips_nibbles {p : Nibbles} (hp : p.Storable) (hlen : p.encode.length < 2 ^ 64) :
    RoundTrips Nibbles.encode Nibbles.decodeUnfinished p := by
  intro rest
  have hbuf := Encoder.length_tempBuf_lt hlen
  simp only [Encoder.encodeField_tempBuf, Encoder.new_tempBuf, List.nil_append] at hbuf
  have hdata : RoundTrips (Vec.encode U8.encode) (Vec.decodeUnfinished U8.decodeUnfinished)
      (p.data.map UInt8.ofNat) := RLPType.roundTrips_encode (.vec .u8) _ hbuf
  -- each nibble is below `256`, so the `u8`s give it back
  have hback : (p.data.map UInt8.ofNat).map UInt8.toNat = p.data := by
    rw [List.map_map]
    exact (List.map_congr_left fun x hx => UInt8.toNat_ofNat_of_lt' (hp x hx)).trans (List.map_id _)
  rw [Nibbles.decodeUnfinished, Nibbles.encode, Encoder.new_finish _ _ (Encoder.length_tempBuf_lt hlen)]
  simp [Decoder.decodeField_mk_last "data" hdata, hback]

/-! ## Nodes -/

theorem roundTrips_leafNode {l : LeafNode} (hl : l.partialPath.Storable)
    (hlen : l.encode.length < 2 ^ 64) : RoundTrips LeafNode.encode LeafNode.decodeUnfinished l := by
  intro rest
  have hbuf := Encoder.length_tempBuf_lt hlen
  simp only [Encoder.encodeField_tempBuf, Encoder.new_tempBuf, List.nil_append,
    List.length_append] at hbuf
  have hpath := roundTrips_nibbles hl (by omega)
  have hvalue : RoundTrips (Vec.encode U8.encode) (Vec.decodeUnfinished U8.decodeUnfinished) l.value :=
    RLPType.roundTrips_encode (.vec .u8) _ (show (Vec.encode U8.encode l.value).length < 2 ^ 64 by omega)
  rw [LeafNode.decodeUnfinished, LeafNode.encode, Encoder.new_finish _ _ (Encoder.length_tempBuf_lt hlen)]
  simp [Decoder.decodeField_mk _ hpath, Decoder.decodeField_mk_last _ hvalue]

theorem roundTrips_extensionNode {e : ExtensionNode} (he : e.prefixPath.Storable)
    (hc : e.child.Storable) (hlen : e.encode.length < 2 ^ 64) :
    RoundTrips ExtensionNode.encode ExtensionNode.decodeUnfinished e := by
  intro rest
  have hbuf := Encoder.length_tempBuf_lt hlen
  simp only [Encoder.encodeField_tempBuf, Encoder.new_tempBuf, List.nil_append,
    List.length_append] at hbuf
  have hpath := roundTrips_nibbles he (by omega)
  have hchild := roundTrips_nodeHash hc (by omega)
  rw [ExtensionNode.decodeUnfinished, ExtensionNode.encode,
    Encoder.new_finish _ _ (Encoder.length_tempBuf_lt hlen)]
  simp [Decoder.decodeField_mk _ hpath, Decoder.decodeField_mk_last _ hchild]

theorem roundTrips_branchNode {b : BranchNode} (hb : ∀ h ∈ b.choices.toList, h.Storable)
    (hlen : b.encode.length < 2 ^ 64) : RoundTrips BranchNode.encode BranchNode.decodeUnfinished b := by
  intro rest
  have hbuf := Encoder.length_tempBuf_lt hlen
  simp only [Encoder.encodeField_tempBuf, Encoder.new_tempBuf, List.nil_append,
    List.length_append] at hbuf
  have hchoices : RoundTrips (Vec.encode NodeHash.encode) (Vec.decodeUnfinished NodeHash.decodeUnfinished)
      b.choices.toList :=
    roundTrips_vec_of_length (fun h hh hl => roundTrips_nodeHash (hb h hh) hl) NodeHash.encode_ne_nil
      (by omega)
  have hvalue : RoundTrips (Vec.encode U8.encode) (Vec.decodeUnfinished U8.decodeUnfinished) b.value :=
    RLPType.roundTrips_encode (.vec .u8) _ (show (Vec.encode U8.encode b.value).length < 2 ^ 64 by omega)
  rw [BranchNode.decodeUnfinished, BranchNode.encode,
    Encoder.new_finish _ _ (Encoder.length_tempBuf_lt hlen)]
  simp [Decoder.decodeField_mk _ hchoices, Decoder.decodeField_mk_last _ hvalue]
  rfl

theorem Node.decode_encode_of_storable {n : Node} (hn : n.Storable) (hlen : n.encode.length < 2 ^ 64) :
    decode Node.decodeUnfinished n.encode = .ok n := by
  cases n with
  | branch b =>
    have hb : b.encode.length < 2 ^ 64 := by simp [Node.encode] at hlen; omega
    have h := roundTrips_branchNode hn hb []
    rw [List.append_nil] at h
    simp [decode, Node.encode, Node.nodeType, Node.decodeUnfinished, h]
  | extension e =>
    have he : e.encode.length < 2 ^ 64 := by simp [Node.encode] at hlen; omega
    have h := roundTrips_extensionNode hn.1 hn.2 he []
    rw [List.append_nil] at h
    simp [decode, Node.encode, Node.nodeType, Node.decodeUnfinished, h]
  | leaf l =>
    have hl : l.encode.length < 2 ^ 64 := by simp [Node.encode] at hlen; omega
    have h := roundTrips_leafNode hn hl []
    rw [List.append_nil] at h
    simp [decode, Node.encode, Node.nodeType, Node.decodeUnfinished, h]

/-! ## The nodes of a tree -/

section Tree

variable (keccak : Bytes → H256)

theorem Node.storable_computeHash (n : Node) : (n.computeHash keccak).Storable := by
  unfold Node.computeHash NodeHash.fromEncodedRaw
  split
  · trivial
  · simp only [NodeHash.Storable]
    omega

theorem Tree.storable_nodeHash (t : Tree) : (t.nodeHash keccak).Storable := by
  by_cases ht : t = .empty
  · subst ht
    exact NodeHash.storable_default
  · rw [Tree.nodeHash_eq keccak ht]
    exact Node.storable_computeHash keccak _

theorem Nibbles.storable_of_isHex {l : List Nat} (hl : IsHex l) : Nibbles.Storable ⟨l⟩ :=
  fun x hx => by have := hl x hx; omega

theorem Nibbles.storable_of_isTerminated {l : List Nat} (hl : IsTerminated l) : Nibbles.Storable ⟨l⟩ := by
  obtain ⟨h, hh, rfl⟩ := Nibbles.isTerminated_iff.mp hl
  intro x hx
  rcases List.mem_append.mp hx with hx | hx
  · have := hh x hx; omega
  · simp at hx; omega

theorem Tree.storable_toNode {t : Tree} (ht : t.Canonical) : (t.toNode keccak).Storable := by
  cases t with
  | empty =>
    intro h hh
    simp only [BranchNode.new, BranchNode.emptyChoices, Vector.toList_replicate,
      List.mem_replicate] at hh
    rw [hh.2]
    exact NodeHash.storable_default
  | leaf p v => exact Nibbles.storable_of_isTerminated ht.1
  | extension e c => exact ⟨Nibbles.storable_of_isHex ht.2.1, Tree.storable_nodeHash keccak c⟩
  | branch cs v =>
    intro h hh
    simp only [Vector.toList_ofFn, List.mem_ofFn] at hh
    obtain ⟨i, rfl⟩ := hh
    exact Tree.storable_nodeHash keccak (cs i)

end Tree

end Ethrex.Mpt
