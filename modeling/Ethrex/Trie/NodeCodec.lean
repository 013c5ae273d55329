/-
# `Ethrex.Trie.NodeCodec` — `decode_raw` reads back what `encode_raw` wrote

An inline child is never cached: `get_node` decodes it from the bytes its
parent holds.  A node reached through an inline hash is therefore the node
that was hashed only because `Node::decode_raw` inverts `Node::encode_raw`.
It does for every node whose parts it can tell apart (`Node.WellFormed`): a
leaf's path ends in the terminator, an extension's prefix is hex and its
child is present, and every child is a hash, the absent child, or an inline
node, which is an RLP list.  Every node of a canonical tree is such a node,
which gives `found_insertSelf`: after `insert_self`, a tree's root is found
under the hash it was given, whichever way that hash went.
-/
import Ethrex.Rlp.RoundTrip
import Ethrex.Trie.Stored

namespace Ethrex.Mpt

open Ethrex.Rlp

/-! ## Items of a list -/

/-- A whole RLP item: `get_item_with_prefix` splits exactly it off whatever
follows. -/
def IsItem (x : Bytes) : Prop := x ≠ [] ∧ ∀ rest, getItemWithPrefix (x ++ rest) = .ok (x, rest)

theorem isItem_slice {s : Bytes} (hs : s.length < 2 ^ 64) : IsItem (Slice.encode s) :=
  ⟨Slice.encode_ne_nil s, getItemWithPrefix_slice hs⟩

theorem isItem_list {p : Bytes} (hp : p.length < 2 ^ 64) : IsItem (encodeLength p.length ++ p) :=
  ⟨by simp [encodeLength_ne_nil], getItemWithPrefix_list hp⟩

theorem decodeRawItems_flatten {items : List Bytes} (hitems : ∀ x ∈ items, IsItem x)
    (hne : items ≠ []) {acc : List Bytes} (hlen : acc.length + items.length ≤ 17) {fuel : Nat}
    (hfuel : items.length ≤ fuel) (rem : Bytes) :
    Node.decodeRawItems fuel ⟨items.flatten, rem⟩ acc = .ok (acc ++ items) := by
  induction items generalizing acc fuel with
  | nil => exact absurd rfl hne
  | cons x xs ih =>
    obtain ⟨f, rfl⟩ : ∃ f, fuel = f + 1 := ⟨fuel - 1, by simp at hfuel; omega⟩
    have hx := (hitems x List.mem_cons_self).2 xs.flatten
    simp only [Node.decodeRawItems, Decoder.getEncodedItem, List.flatten_cons, hx, Except.ok_bind,
      Except.pure_eq_ok]
    cases xs with
    | nil => simp [Decoder.isDone]
    | cons y ys =>
      -- another item follows, so the loop goes on with one more in hand
      have hy : y ≠ [] := (hitems y (by simp)).1
      have hdone : Decoder.isDone ⟨(y :: ys).flatten, rem⟩ = false := by
        simp [Decoder.isDone, hy]
      have hmore : ¬ (acc ++ [x]).length > 17 := by
        simp only [List.length_cons] at hlen
        simp
        omega
      rw [hdone, Bool.false_or, if_neg (by simpa using hmore)]
      have hrest : Node.decodeRawItems f ⟨(y :: ys).flatten, rem⟩ (acc ++ [x]) =
          .ok (acc ++ [x] ++ y :: ys) :=
        ih (fun z hz => hitems z (List.mem_cons_of_mem x hz)) (List.cons_ne_nil y ys)
          (by simp at hlen ⊢; omega) (by simp at hfuel ⊢; omega)
      simpa using hrest

/-! ## Children -/

namespace NodeHash

/-- A child `decode_child` gives back: a hash, the absent child, or an
inline node, which is an RLP list. -/
def Decodable : NodeHash → Prop
  | .hashed _ => True
  | .inline raw => raw = [] ∨ ∃ p : Bytes, p.length < 2 ^ 64 ∧ raw = encodeLength p.length ++ p

theorem decodable_default : (default : NodeHash).Decodable := Or.inl rfl

end NodeHash

namespace BranchNode

/-- What `encode_raw` writes for one child. -/
def choiceItem : NodeHash → Bytes
  | .hashed hash => Slice.encode hash.toList
  | .inline raw => if !raw.isEmpty then raw else Slice.encode []

@[simp] theorem encodeChoice_tempBuf (e : Encoder) (h : NodeHash) :
    (encodeChoice e h).tempBuf = e.tempBuf ++ choiceItem h := by
  cases h with
  | hashed _ => rfl
  | inline raw => cases raw <;> rfl

theorem foldl_encodeChoice_tempBuf (l : List NodeHash) (e : Encoder) :
    (l.foldl encodeChoice e).tempBuf = e.tempBuf ++ (l.map choiceItem).flatten := by
  induction l generalizing e with
  | nil => simp
  | cons h l ih => simp [ih]

theorem encodeRaw_eq (n : BranchNode) :
    n.encodeRaw = Encoder.finish ⟨(n.choices.toList.map choiceItem ++ [Slice.encode n.value]).flatten⟩ := by
  rw [encodeRaw, Encoder.finish, Encoder.encodeBytes_tempBuf, foldl_encodeChoice_tempBuf]
  simp [Encoder.finish]

theorem isItem_choiceItem {h : NodeHash} (hd : h.Decodable) : IsItem (choiceItem h) := by
  cases h with
  | hashed x => exact isItem_slice (show x.toList.length < 2 ^ 64 by simp)
  | inline raw =>
    rcases hd with rfl | ⟨p, hp, rfl⟩
    · exact isItem_slice (show ([] : Bytes).length < 2 ^ 64 by simp)
    · have hne : (encodeLength p.length ++ p).isEmpty = false := by simp [encodeLength_ne_nil]
      simp only [choiceItem, hne, Bool.not_false, ↓reduceIte]
      exact isItem_list hp

end BranchNode

theorem Node.decodeChild_choiceItem {h : NodeHash} (hd : h.Decodable) :
    Node.decodeChild (BranchNode.choiceItem h) = h := by
  cases h with
  | hashed x =>
    -- the 32 bytes of a hash come back as a 32-byte string
    have hx : decodeBytes (Slice.encode x.toList) = .ok (x.toList, []) := by
      simpa using roundTrips_slice (show x.toList.length < 2 ^ 64 by simp) []
    simp [BranchNode.choiceItem, Node.decodeChild, hx]
  | inline raw =>
    rcases hd with rfl | ⟨p, hp, rfl⟩
    · rfl
    · -- an inline node is a list, which is not a string
      have hl : decodeBytes (encodeLength p.length ++ p) = .error .unexpectedList := by
        simpa using decodeBytes_list p [] hp
      simp [BranchNode.choiceItem, Node.decodeChild, hl, encodeLength_ne_nil]

/-! ## Nodes -/

/-- The nodes `decode_raw` gives back: a leaf's path is terminated, an
extension's prefix is hex and its child present, and every child is one
`decode_child` reads back. -/
def Node.WellFormed : Node → Prop
  | .leaf n => IsTerminated n.partialPath.data
  | .extension n => IsHex n.prefixPath.data ∧ n.child.isValid ∧ n.child.Decodable
  | .branch n => ∀ i : Fin 16, (n.choices.get i).Decodable

theorem LeafNode.decodeRaw_encodeRaw {n : LeafNode} (hp : IsTerminated n.partialPath.data)
    (hlen : n.encodeRaw.length < 2 ^ 64) : Node.decodeRaw (Node.leaf n).encodeRaw = .ok (.leaf n) := by
  obtain ⟨path, value⟩ := n
  let items := [Slice.encode path.encodeCompact, Slice.encode value]
  have hraw : LeafNode.encodeRaw ⟨path, value⟩ = Encoder.finish ⟨items.flatten⟩ := by
    simp [items, LeafNode.encodeRaw, Encoder.finish]
  rw [hraw] at hlen
  have hbuf : items.flatten.length < 2 ^ 64 := Encoder.length_tempBuf_lt hlen
  have h₁ := le_length_slice_encode path.encodeCompact
  have h₂ := le_length_slice_encode value
  have hsum : (Slice.encode path.encodeCompact).length + (Slice.encode value).length < 2 ^ 64 := by
    simpa [items] using hbuf
  have hitems : ∀ x ∈ items, IsItem x := by
    simp only [items, List.mem_cons, List.not_mem_nil, or_false]
    rintro x (rfl | rfl)
    · exact isItem_slice (by omega)
    · exact isItem_slice (by omega)
  have hdecoded : Node.decodeRawItems 18 ⟨items.flatten, []⟩ [] = .ok ([] ++ items) :=
    decodeRawItems_flatten hitems (by simp [items]) (by simp [items]) (by simp [items]) []
  have hpath : decodeBytes (Slice.encode path.encodeCompact) = .ok (path.encodeCompact, []) := by
    simpa using roundTrips_slice (show path.encodeCompact.length < 2 ^ 64 by omega) []
  have hvalue : decodeBytes (Slice.encode value) = .ok (value, []) := by
    simpa using roundTrips_slice (show value.length < 2 ^ 64 by omega) []
  -- the path's flag says leaf
  have hleaf : path.isLeaf = true := by
    obtain ⟨h, -, hh⟩ := Nibbles.isTerminated_iff.mp hp
    obtain ⟨data⟩ := path
    simp only at hh
    subst hh
    exact Nibbles.isLeaf_terminated h
  have hnew : Decoder.new (Encoder.finish ⟨items.flatten⟩) = .ok ⟨items.flatten, []⟩ :=
    Encoder.new_finish_nil _ hbuf
  rw [Node.encodeRaw, hraw, Node.decodeRaw, hnew, Except.ok_bind, hdecoded, Except.ok_bind]
  simp [items, hpath, hvalue, Nibbles.decodeCompact_encodeCompact path (Or.inr hp), hleaf]

theorem ExtensionNode.decodeRaw_encodeRaw {n : ExtensionNode} (hp : IsHex n.prefixPath.data)
    (hv : n.child.isValid) (hc : n.child.Decodable) (hlen : n.encodeRaw.length < 2 ^ 64) :
    Node.decodeRaw (Node.extension n).encodeRaw = .ok (.extension n) := by
  obtain ⟨path, child⟩ := n
  let items := [Slice.encode path.encodeCompact, BranchNode.choiceItem child]
  -- a present child is written as a branch writes it
  have hraw : ExtensionNode.encodeRaw ⟨path, child⟩ = Encoder.finish ⟨items.flatten⟩ := by
    cases child with
    | hashed x => simp [items, ExtensionNode.encodeRaw, BranchNode.choiceItem, Encoder.finish]
    | inline x =>
      cases x with
      | nil => simp [NodeHash.isValid] at hv
      | cons b x => simp [items, ExtensionNode.encodeRaw, BranchNode.choiceItem, Encoder.finish]
  rw [hraw] at hlen
  have hbuf : items.flatten.length < 2 ^ 64 := Encoder.length_tempBuf_lt hlen
  have h₁ := le_length_slice_encode path.encodeCompact
  have h₂ : (Slice.encode path.encodeCompact).length ≤ items.flatten.length := by simp [items]
  have hitems : ∀ x ∈ items, IsItem x := by
    simp only [items, List.mem_cons, List.not_mem_nil, or_false]
    rintro x (rfl | rfl)
    · exact isItem_slice (by omega)
    · exact BranchNode.isItem_choiceItem hc
  have hnew : Decoder.new (Encoder.finish ⟨items.flatten⟩) = .ok ⟨items.flatten, []⟩ :=
    Encoder.new_finish_nil _ hbuf
  have hdecoded : Node.decodeRawItems 18 ⟨items.flatten, []⟩ [] = .ok ([] ++ items) :=
    decodeRawItems_flatten hitems (by simp [items]) (by simp [items]) (by simp [items]) []
  have hpath : decodeBytes (Slice.encode path.encodeCompact) = .ok (path.encodeCompact, []) := by
    simpa using roundTrips_slice (show path.encodeCompact.length < 2 ^ 64 by omega) []
  -- a hex path carries no terminator, so the flag says extension
  have hext : path.isLeaf = false := by
    obtain ⟨data⟩ := path
    exact Nibbles.isLeaf_hex hp
  rw [Node.encodeRaw, hraw, Node.decodeRaw, hnew, Except.ok_bind, hdecoded, Except.ok_bind]
  simp [items, hpath, Nibbles.decodeCompact_encodeCompact path (Or.inl hp), hext,
    Node.decodeChild_choiceItem hc]

theorem BranchNode.decodeRaw_encodeRaw {n : BranchNode} (hc : ∀ i : Fin 16, (n.choices.get i).Decodable)
    (hlen : n.encodeRaw.length < 2 ^ 64) :
    Node.decodeRaw (Node.branch n).encodeRaw = .ok (.branch n) := by
  obtain ⟨choices, value⟩ := n
  let items := choices.toList.map choiceItem ++ [Slice.encode value]
  have hraw : BranchNode.encodeRaw ⟨choices, value⟩ = Encoder.finish ⟨items.flatten⟩ :=
    encodeRaw_eq _
  rw [hraw] at hlen
  have hbuf : items.flatten.length < 2 ^ 64 := Encoder.length_tempBuf_lt hlen
  have h₁ := le_length_slice_encode value
  have h₂ : (Slice.encode value).length ≤ items.flatten.length := by simp [items]
  have hitems : ∀ x ∈ items, IsItem x := by
    intro x hx
    simp only [items, List.mem_append, List.mem_map, List.mem_singleton] at hx
    rcases hx with ⟨h, hh, rfl⟩ | rfl
    · obtain ⟨i, hi, rfl⟩ := Vector.mem_iff_getElem.mp (Vector.mem_toList_iff.mp hh)
      exact isItem_choiceItem (hc ⟨i, hi⟩)
    · exact isItem_slice (by omega)
  have hnew : Decoder.new (Encoder.finish ⟨items.flatten⟩) = .ok ⟨items.flatten, []⟩ :=
    Encoder.new_finish_nil _ hbuf
  have hdecoded : Node.decodeRawItems 18 ⟨items.flatten, []⟩ [] = .ok ([] ++ items) :=
    decodeRawItems_flatten hitems (by simp [items]) (by simp [items]) (by simp [items]) []
  have hvalue : decodeBytes (Slice.encode value) = .ok (value, []) := by
    simpa using roundTrips_slice (show value.length < 2 ^ 64 by omega) []
  -- each of the first sixteen items is read back as its child
  have hchoices : (Vector.ofFn fun i : Fin 16 => Node.decodeChild items[i.val]!) = choices := by
    ext i hi
    have hget : items[i]! = choiceItem choices[i] := by
      have hi' : i < (choices.toList.map choiceItem).length := by simpa using hi
      simp [items, List.getElem?_append_left hi', getElem?_pos choices i hi]
    simp only [Vector.getElem_ofFn, hget]
    exact Node.decodeChild_choiceItem (hc ⟨i, hi⟩)
  have hlast : items[16]! = Slice.encode value := by simp [items]
  have hcount : items.length = 17 := by simp [items]
  rw [Node.encodeRaw, hraw, Node.decodeRaw, hnew, Except.ok_bind, hdecoded, Except.ok_bind]
  simp only [List.nil_append, hcount, hchoices, hlast, hvalue, Except.ok_bind, ↓reduceIte]
  rfl

theorem Node.decodeRaw_encodeRaw {n : Node} (hn : n.WellFormed) (hlen : n.encodeRaw.length < 2 ^ 64) :
    Node.decodeRaw n.encodeRaw = .ok n := by
  cases n with
  | branch n => exact BranchNode.decodeRaw_encodeRaw hn hlen
  | extension n => exact ExtensionNode.decodeRaw_encodeRaw hn.1 hn.2.1 hn.2.2 hlen
  | leaf n => exact LeafNode.decodeRaw_encodeRaw hn hlen

/-! ## The nodes of a canonical tree -/

section Hashes

variable (keccak : Bytes → H256)

theorem Node.exists_encodeRaw_eq_finish (n : Node) : ∃ e : Encoder, n.encodeRaw = e.finish := by
  cases n with
  | branch n => exact ⟨_, rfl⟩
  | extension n => exact ⟨_, rfl⟩
  | leaf n => exact ⟨_, rfl⟩

/-- A child as the trie's operations leave it: a hash, the absent child,
or the raw encoding of a node shorter than a hash. -/
def NodeHash.IsTrieChild : NodeHash → Prop
  | .hashed _ => True
  | .inline raw => raw = [] ∨ ∃ m : Node, m.encodeRaw = raw ∧ raw.length < 32

/-- The nodes the trie's operations build: a leaf's path is terminated, an
extension's prefix is hex and its child present, and every child is a trie
child. -/
def Node.TrieShaped : Node → Prop
  | .leaf n => IsTerminated n.partialPath.data
  | .extension n => IsHex n.prefixPath.data ∧ n.child.isValid ∧ n.child.IsTrieChild
  | .branch n => ∀ i : Fin 16, (n.choices.get i).IsTrieChild

theorem NodeHash.IsTrieChild.decodable {h : NodeHash} (hc : h.IsTrieChild) : h.Decodable := by
  cases h with
  | hashed _ => trivial
  | inline raw =>
    rcases hc with rfl | ⟨m, rfl, hshort⟩
    · exact Or.inl rfl
    · obtain ⟨e, he⟩ := m.exists_encodeRaw_eq_finish
      have hle : e.tempBuf.length ≤ m.encodeRaw.length := by simp [he, Encoder.finish]
      exact Or.inr ⟨e.tempBuf, by omega, by rw [he]; rfl⟩

theorem Node.TrieShaped.wellFormed {n : Node} (hn : n.TrieShaped) : n.WellFormed := by
  cases n with
  | leaf n => exact hn
  | extension n => exact ⟨hn.1, hn.2.1, hn.2.2.decodable⟩
  | branch n => exact fun i => (hn i).decodable

/-- **`decode_raw` inverts `encode_raw` on the nodes the trie builds.** -/
theorem Node.decodeRaw_encodeRaw_of_trieShaped {n : Node} (hn : n.TrieShaped)
    (hlen : n.encodeRaw.length < 2 ^ 64) : Node.decodeRaw n.encodeRaw = .ok n :=
  Node.decodeRaw_encodeRaw hn.wellFormed hlen

/-- An extension over the inline leaf of the empty path. -/
def extensionOverInlineLeaf : Node :=
  .extension ⟨⟨[1]⟩, .inline (Node.leaf ⟨⟨[16]⟩, [7]⟩).encodeRaw⟩

theorem decodeRaw_encodeRaw_extensionOverInlineLeaf :
    extensionOverInlineLeaf.TrieShaped ∧ extensionOverInlineLeaf.encodeRaw.length < 2 ^ 64 ∧
      Node.decodeRaw extensionOverInlineLeaf.encodeRaw = .ok extensionOverInlineLeaf := by
  have hshape : extensionOverInlineLeaf.TrieShaped :=
    ⟨by decide, rfl, Or.inr ⟨_, rfl, by decide⟩⟩
  have hlen : extensionOverInlineLeaf.encodeRaw.length < 2 ^ 64 := by decide
  exact ⟨hshape, hlen, Node.decodeRaw_encodeRaw_of_trieShaped hshape hlen⟩

theorem Node.decodable_computeHash (n : Node) : (n.computeHash keccak).Decodable := by
  unfold Node.computeHash NodeHash.fromEncodedRaw
  split
  · trivial
  · -- inline: the encoding is shorter than a hash
    exact NodeHash.IsTrieChild.decodable (Or.inr ⟨n, rfl, by omega⟩)

theorem Node.isValid_computeHash (n : Node) : (n.computeHash keccak).isValid = true := by
  obtain ⟨e, he⟩ := n.exists_encodeRaw_eq_finish
  unfold Node.computeHash NodeHash.fromEncodedRaw
  split
  · rfl
  · exact NodeHash.isValid_inline (by rw [he]; exact Encoder.finish_ne_nil e)

theorem Tree.decodable_nodeHash (t : Tree) : (t.nodeHash keccak).Decodable := by
  by_cases h : t = .empty
  · subst h
    exact NodeHash.decodable_default
  · rw [Tree.nodeHash_eq keccak h]
    exact Node.decodable_computeHash keccak _

theorem Tree.isValid_nodeHash {t : Tree} : (t.nodeHash keccak).isValid = true ↔ t ≠ .empty := by
  by_cases h : t = .empty
  · subst h
    simp
  · rw [Tree.nodeHash_eq keccak h]
    exact ⟨fun _ => h, fun _ => Node.isValid_computeHash keccak _⟩

theorem Tree.isValid_nodeHash_eq (t : Tree) : (t.nodeHash keccak).isValid = !t.isEmpty := by
  rw [Bool.eq_iff_iff, Tree.isValid_nodeHash keccak]
  simp

theorem Tree.wellFormed_toNode {t : Tree} (ht : t.Canonical) : (t.toNode keccak).WellFormed := by
  cases t with
  | empty => exact fun _ => by simpa [Tree.toNode, BranchNode.new, BranchNode.emptyChoices] using
      NodeHash.decodable_default
  | leaf p v => exact ht.1
  | extension e c =>
    obtain ⟨-, he, hc, -⟩ := ht
    -- the child is a branch, so it has a node and a valid hash
    have hne : c ≠ .empty := by
      rintro rfl
      exact hc
    refine ⟨he, ?_, Tree.decodable_nodeHash keccak c⟩
    rw [Tree.nodeHash_eq keccak hne]
    exact Node.isValid_computeHash keccak _
  | branch cs v => exact fun i => by simpa [Tree.toNode] using Tree.decodable_nodeHash keccak (cs i)

theorem found_insertSelf {s : TrieState} {n : Node} (hn : n.WellFormed) :
    Found (s.extend (n.cacheEntries keccak)) (n.computeHash keccak) n := by
  unfold Node.cacheEntries
  cases hc : n.computeHash keccak with
  | hashed x =>
    rw [found_hashed_iff]
    simp
  | inline e =>
    -- an inline hash is the encoding itself, shorter than a hash
    have he : n.encodeRaw.length < 32 ∧ n.encodeRaw = e := by
      unfold Node.computeHash NodeHash.fromEncodedRaw at hc
      split at hc
      · cases hc
      · cases hc
        exact ⟨by omega, rfl⟩
    rw [found_inline_iff, ← he.2]
    exact Node.decodeRaw_encodeRaw hn (by omega)

theorem TrieM.Spec.getNodeM_stored {s : TrieState} {t : Tree} (hs : t.Stored keccak s)
    (hne : t ≠ .empty) :
    TrieM.Spec (getNodeM (t.nodeHash keccak)) s fun r s' => r = some (t.toNode keccak) ∧ s' = s :=
  TrieM.Spec.getNodeM_ok (Tree.Stored.getNode hs hne) fun _ => ⟨rfl, rfl⟩

theorem TrieM.Spec.insertSelf_tree {s : TrieState} {t : Tree} (ht : t.Canonical)
    (hne : t ≠ .empty) (hs : t.ChildrenStored keccak s) :
    TrieM.Spec ((t.toNode keccak).insertSelf keccak) s
      fun h s' => h = t.nodeHash keccak ∧ t.Stored keccak s' ∧ s.Grows s' := by
  have hfound : ∀ {w}, (w ++ s.cache).Functional → w = (t.toNode keccak).cacheEntries keccak →
      t.Stored keccak (s.extend w) := by
    rintro w hw rfl
    refine Tree.stored_iff.mpr ⟨fun _ => ?_, hs.extend hw⟩
    rw [Tree.nodeHash_eq keccak hne]
    exact found_insertSelf keccak (Tree.wellFormed_toNode keccak ht)
  have h := TrieM.Spec.grows (TrieM.Spec.insertSelf keccak (n := t.toNode keccak)
    (Q := fun h s' => h = t.nodeHash keccak ∧ t.Stored keccak s')
    fun hw => ⟨(Tree.nodeHash_eq keccak hne).symm, hfound hw rfl⟩)
  exact h.mono fun _ _ ⟨⟨h₁, h₂⟩, h₃⟩ => ⟨h₁, h₂, h₃⟩

end Hashes

end Ethrex.Mpt
