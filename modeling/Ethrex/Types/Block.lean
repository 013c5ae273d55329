/-
# `Ethrex.Types.Block` — the blocks of `ethrex_common::types::block`

Headers, bodies, blocks and withdrawals with their RLP codecs, each a struct
of the crate's `Encoder`/`Decoder`.  Two fields do not go through a base
impl directly:

* the header's `nonce` is a `u64` written as its eight big-endian bytes
  (`to_be_bytes`, a `[u8; 8]`) and read back through `from_be_bytes`;
* the header's last five fields are optional: the encoder writes only those
  present, and the decoder reads each with `decode_optional_field`, which
  takes any error for "absent" and leaves the input where it was.

The block hash is `keccak` of the header's encoding; the hash function is a
parameter here.  `Block`'s `OnceCell` caching that hash is not modelled, nor
are the gas and base-fee checks of the module: no modelled function reads
them.
-/
import Ethrex.Types.Transaction

namespace Ethrex.Types

open Ethrex.Rlp

/-! ## Withdrawals -/

/-- `Withdrawal` (EIP-4895). -/
structure Withdrawal where
  index : UInt64
  validatorIndex : UInt64
  address : Address
  amount : UInt64
  deriving DecidableEq

/-- `impl RLPEncode for Withdrawal`. -/
def Withdrawal.encode (w : Withdrawal) : Bytes :=
  Encoder.new
    |>.encodeField U64.encode w.index
    |>.encodeField U64.encode w.validatorIndex
    |>.encodeField Fixed.encode w.address
    |>.encodeField U64.encode w.amount
    |>.finish

/-- `impl RLPDecode for Withdrawal`. -/
def Withdrawal.decodeUnfinished (rlp : Bytes) : Except RLPDecodeError (Withdrawal × Bytes) := do
  let decoder ← Decoder.new rlp
  let (index, decoder) ← decoder.decodeField "index" "u64" U64.decodeUnfinished
  let (validatorIndex, decoder) ← decoder.decodeField "validator_index" "u64" U64.decodeUnfinished
  let (address, decoder) ← decoder.decodeField "address" "Address" (Fixed.decodeUnfinished 20)
  let (amount, decoder) ← decoder.decodeField "amount" "u64" U64.decodeUnfinished
  pure ({ index, validatorIndex, address, amount }, ← decoder.finish)

/-! ## Headers -/

/-- `u64::to_be_bytes`. -/
def toBeBytes (x : UInt64) : FixedBytes 8 :=
  ⟨BigEndian.toBytes 8 x.toNat, BigEndian.length_toBytes 8 x.toNat⟩

/-- `u64::from_be_bytes`. -/
def fromBeBytes (bytes : FixedBytes 8) : UInt64 := UInt64.ofNat (BigEndian.ofBytes bytes.toList)

@[simp] theorem fromBeBytes_toBeBytes (x : UInt64) : fromBeBytes (toBeBytes x) = x := by
  have hx : x.toNat < 256 ^ 8 := x.toNat_lt
  rw [fromBeBytes, toBeBytes, List.Vector.toList_mk, BigEndian.ofBytes_toBytes_of_lt hx,
    UInt64.ofNat_toNat]

/-- `BlockHeader`. -/
structure BlockHeader where
  parentHash : H256
  ommersHash : H256
  coinbase : Address
  stateRoot : H256
  transactionsRoot : H256
  receiptsRoot : H256
  logsBloom : Bloom
  difficulty : U256
  number : UInt64
  gasLimit : UInt64
  gasUsed : UInt64
  timestamp : UInt64
  extraData : Bytes
  prevRandao : H256
  nonce : UInt64
  baseFeePerGas : Option UInt64
  withdrawalsRoot : Option H256
  blobGasUsed : Option UInt64
  excessBlobGas : Option UInt64
  parentBeaconBlockRoot : Option H256
  deriving DecidableEq

/-- `BlockHeader::default()`, derived: zero hashes and numbers, no extra
data and no optional field. -/
instance : Inhabited BlockHeader :=
  ⟨{ parentHash := .replicate 32 0, ommersHash := .replicate 32 0, coinbase := .replicate 20 0,
     stateRoot := .replicate 32 0, transactionsRoot := .replicate 32 0,
     receiptsRoot := .replicate 32 0, logsBloom := .replicate 256 0, difficulty := 0, number := 0,
     gasLimit := 0, gasUsed := 0, timestamp := 0, extraData := [],
     prevRandao := .replicate 32 0, nonce := 0, baseFeePerGas := none, withdrawalsRoot := none,
     blobGasUsed := none, excessBlobGas := none, parentBeaconBlockRoot := none }⟩

/-- `impl RLPEncode for BlockHeader`. -/
def BlockHeader.encode (h : BlockHeader) : Bytes :=
  Encoder.new
    |>.encodeField Fixed.encode h.parentHash
    |>.encodeField Fixed.encode h.ommersHash
    |>.encodeField Fixed.encode h.coinbase
    |>.encodeField Fixed.encode h.stateRoot
    |>.encodeField Fixed.encode h.transactionsRoot
    |>.encodeField Fixed.encode h.receiptsRoot
    |>.encodeField Fixed.encode h.logsBloom
    |>.encodeField U256.encode h.difficulty
    |>.encodeField U64.encode h.number
    |>.encodeField U64.encode h.gasLimit
    |>.encodeField U64.encode h.gasUsed
    |>.encodeField U64.encode h.timestamp
    |>.encodeField ByteString.encode h.extraData
    |>.encodeField Fixed.encode h.prevRandao
    |>.encodeField Fixed.encode (toBeBytes h.nonce)
    |>.encodeOptionalField U64.encode h.baseFeePerGas
    |>.encodeOptionalField Fixed.encode h.withdrawalsRoot
    |>.encodeOptionalField U64.encode h.blobGasUsed
    |>.encodeOptionalField U64.encode h.excessBlobGas
    |>.encodeOptionalField Fixed.encode h.parentBeaconBlockRoot
    |>.finish

/-- `impl RLPDecode for BlockHeader`. -/
def BlockHeader.decodeUnfinished (rlp : Bytes) :
    Except RLPDecodeError (BlockHeader × Bytes) := do
  let decoder ← Decoder.new rlp
  let (parentHash, decoder) ← decoder.decodeField "parent_hash" "H256" (Fixed.decodeUnfinished 32)
  let (ommersHash, decoder) ← decoder.decodeField "ommers_hash" "H256" (Fixed.decodeUnfinished 32)
  let (coinbase, decoder) ← decoder.decodeField "coinbase" "Address" (Fixed.decodeUnfinished 20)
  let (stateRoot, decoder) ← decoder.decodeField "state_root" "H256" (Fixed.decodeUnfinished 32)
  let (transactionsRoot, decoder) ←
    decoder.decodeField "transactions_root" "H256" (Fixed.decodeUnfinished 32)
  let (receiptsRoot, decoder) ←
    decoder.decodeField "receipts_root" "H256" (Fixed.decodeUnfinished 32)
  let (logsBloom, decoder) ← decoder.decodeField "logs_bloom" "Bloom" (Fixed.decodeUnfinished 256)
  let (difficulty, decoder) ← decoder.decodeField "difficulty" "U256" U256.decodeUnfinished
  let (number, decoder) ← decoder.decodeField "number" "BlockNumber" U64.decodeUnfinished
  let (gasLimit, decoder) ← decoder.decodeField "gas_limit" "u64" U64.decodeUnfinished
  let (gasUsed, decoder) ← decoder.decodeField "gas_used" "u64" U64.decodeUnfinished
  let (timestamp, decoder) ← decoder.decodeField "timestamp" "u64" U64.decodeUnfinished
  let (extraData, decoder) ← decoder.decodeField "extra_data" "Bytes" ByteString.decodeUnfinished
  let (prevRandao, decoder) ← decoder.decodeField "prev_randao" "H256" (Fixed.decodeUnfinished 32)
  let (nonce, decoder) ← decoder.decodeField "nonce" "[u8; 8]" (Fixed.decodeUnfinished 8)
  let nonce := fromBeBytes nonce
  let (baseFeePerGas, decoder) := decoder.decodeOptionalField U64.decodeUnfinished
  let (withdrawalsRoot, decoder) := decoder.decodeOptionalField (Fixed.decodeUnfinished 32)
  let (blobGasUsed, decoder) := decoder.decodeOptionalField U64.decodeUnfinished
  let (excessBlobGas, decoder) := decoder.decodeOptionalField U64.decodeUnfinished
  let (parentBeaconBlockRoot, decoder) := decoder.decodeOptionalField (Fixed.decodeUnfinished 32)
  let header : BlockHeader :=
    { parentHash, ommersHash, coinbase, stateRoot, transactionsRoot, receiptsRoot, logsBloom,
      difficulty, number, gasLimit, gasUsed, timestamp, extraData, prevRandao, nonce,
      baseFeePerGas, withdrawalsRoot, blobGasUsed, excessBlobGas, parentBeaconBlockRoot }
  pure (header, ← decoder.finish)

/-- `BlockHeader::compute_block_hash`, for a given `keccak`. -/
def BlockHeader.computeBlockHash (keccak : Bytes → H256) (h : BlockHeader) : H256 :=
  keccak h.encode

/-! ## Bodies and blocks -/

/-- `BlockBody`. -/
structure BlockBody where
  transactions : List Transaction
  ommers : List BlockHeader
  withdrawals : Option (List Withdrawal)
  deriving DecidableEq

/-- `BlockBody::default()`, derived: no transactions, no ommers, no
withdrawals. -/
instance : Inhabited BlockBody := ⟨{ transactions := [], ommers := [], withdrawals := none }⟩

/-- `impl RLPEncode for BlockBody`. -/
def BlockBody.encode (body : BlockBody) : Bytes :=
  Encoder.new
    |>.encodeField (Vec.encode Transaction.encode) body.transactions
    |>.encodeField (Vec.encode BlockHeader.encode) body.ommers
    |>.encodeOptionalField (Vec.encode Withdrawal.encode) body.withdrawals
    |>.finish

/-- `impl RLPDecode for BlockBody`. -/
def BlockBody.decodeUnfinished (rlp : Bytes) : Except RLPDecodeError (BlockBody × Bytes) := do
  let decoder ← Decoder.new rlp
  let (transactions, decoder) ←
    decoder.decodeField "transactions" "Vec<Transaction>" (Vec.decodeUnfinished Transaction.decodeUnfinished)
  let (ommers, decoder) ←
    decoder.decodeField "ommers" "Vec<BlockHeader>" (Vec.decodeUnfinished BlockHeader.decodeUnfinished)
  let (withdrawals, decoder) :=
    decoder.decodeOptionalField (Vec.decodeUnfinished Withdrawal.decodeUnfinished)
  pure ({ transactions, ommers, withdrawals }, ← decoder.finish)

/-- `Block`, without its cached hash. -/
structure Block where
  header : BlockHeader
  body : BlockBody
  deriving DecidableEq

/-- `Block::default()`, derived. -/
instance : Inhabited Block := ⟨{ header := default, body := default }⟩

/-- `impl RLPEncode for Block`: the header, then the body's fields inline. -/
def Block.encode (block : Block) : Bytes :=
  Encoder.new
    |>.encodeField BlockHeader.encode block.header
    |>.encodeField (Vec.encode Transaction.encode) block.body.transactions
    |>.encodeField (Vec.encode BlockHeader.encode) block.body.ommers
    |>.encodeOptionalField (Vec.encode Withdrawal.encode) block.body.withdrawals
    |>.finish

/-- `impl RLPDecode for Block`. -/
def Block.decodeUnfinished (rlp : Bytes) : Except RLPDecodeError (Block × Bytes) := do
  let decoder ← Decoder.new rlp
  let (header, decoder) ← decoder.decodeField "header" "BlockHeader" BlockHeader.decodeUnfinished
  let (transactions, decoder) ←
    decoder.decodeField "transactions" "Vec<Transaction>" (Vec.decodeUnfinished Transaction.decodeUnfinished)
  let (ommers, decoder) ←
    decoder.decodeField "ommers" "Vec<BlockHeader>" (Vec.decodeUnfinished BlockHeader.decodeUnfinished)
  let (withdrawals, decoder) :=
    decoder.decodeOptionalField (Vec.decodeUnfinished Withdrawal.decodeUnfinished)
  let remaining ← decoder.finish
  let body : BlockBody := { transactions, ommers, withdrawals }
  pure ({ header, body }, remaining)

end Ethrex.Types
