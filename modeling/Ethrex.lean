import Ethrex.Lib.BigEndian
import Ethrex.Lib.Except
import Ethrex.Lib.Codec
import Ethrex.Rlp.Encode
import Ethrex.Rlp.Decode
import Ethrex.Rlp.Item
import Ethrex.Rlp.Structs
import Ethrex.Rlp.RoundTrip
import Ethrex.Rlp.Universe
import Ethrex.Rlp.Canonicity
import Ethrex.Types.Transaction
import Ethrex.Types.TransactionRoundTrip
import Ethrex.Types.Block
import Ethrex.Types.Receipt
import Ethrex.Types.BlockRoundTrip
import Ethrex.Trie.Nibbles
import Ethrex.Trie.Node
import Ethrex.Trie.State
import Ethrex.Lib.Iterator
import Ethrex.Trie.Trie
import Ethrex.Lib.AssocList
import Ethrex.Trie.Tree
import Ethrex.Trie.Stored
import Ethrex.Trie.NodeCodec
import Ethrex.Trie.TreeUpdate
import Ethrex.Trie.GetCorrect
import Ethrex.Lib.Vector
import Ethrex.Trie.InsertCorrect
import Ethrex.Trie.RemoveCorrect
import Ethrex.Trie.TrieCorrect
import Ethrex.Trie.IterCorrect
import Ethrex.Trie.NodeStorage
import Ethrex.Trie.CommitCorrect
import Ethrex.Trie.Persist
import Ethrex.Types.Account
import Ethrex.Store.AccountUpdates
import Ethrex.Lib.Checked
import Ethrex.Levm.CallFrame
import Ethrex.Levm.Memory
import Ethrex.Levm.Storage
import Ethrex.Blockchain.ForkChoice
import Ethrex.Lib.Outcome
import Ethrex.P2p.Frame
import Ethrex.Lib.Fifo
import Ethrex.P2p.Channel
import Ethrex.P2p.Ecdsa
import Ethrex.P2p.Handshake
import Ethrex.P2p.Discv4
import Ethrex.Types.Signing
import Ethrex.Vm.ExecuteBlock
import Ethrex.Blockchain.AddBlock
import Ethrex.Rlp.Wrapping
import Ethrex.Levm.Precompile
import Ethrex.Levm.JumpDest
import Ethrex.Levm.Arithmetic
import Ethrex.Lib.TwosComplement
import Ethrex.Levm.ArithmeticCorrect
import Ethrex.Types.Fees
import Ethrex.Blockchain.BaseFee
import Ethrex.P2p.BlockHeaders
import Ethrex.L2.StateDiff
import Ethrex.Lib.MerkleLevels
import Ethrex.L2.MerkleTree
import Ethrex.P2p.Kademlia
import Ethrex.Blockchain.Payload
import Ethrex.P2p.Discv4RoundTrip
import Ethrex.Lib.SortedVec
import Ethrex.Lib.Loop
import Ethrex.Lib.EntryMap
import Ethrex.Blockchain.TransactionQueue
import Ethrex.Blockchain.FillTransactions
import Ethrex.Levm.BlobBaseFee
import Ethrex.Lib.Buckets
import Ethrex.Lib.Recency
import Ethrex.P2p.RoutingTable
