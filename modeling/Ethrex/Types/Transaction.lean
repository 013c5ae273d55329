/-
# `Ethrex.Types.Transaction` — the transactions of `ethrex_common::types::transaction`

The five transaction types with their field-by-field codecs, and the two
envelopes of EIP-2718 the node uses:

* the canonical form (`encode_canonical` / `decode_canonical`): a legacy
  transaction as its RLP list, a typed one as its type byte before its RLP
  list; this is what the transactions trie hashes;
* the network form (`RLPEncode`/`RLPDecode for Transaction`): a legacy
  transaction as its list, a typed one as an RLP byte string holding its
  canonical form; this is what block bodies and pooled transactions carry.

The decoder of the network form recognises a wrapped typed transaction by
`is_encoded_as_bytes`, that is by a long-form string prefix only.

`MempoolTransaction` is the mempool's record of a transaction with its
arrival time and sender, and the accessors block execution reads
(`effective_gas_price` among them).  Hashing and the serde impls of the
module are not modelled: no modelled function uses them.
-/
import Ethrex.Rlp.Universe

namespace Ethrex.Types

open Ethrex.Rlp

/-! ## Field types -/

/-- `TxKind`: the recipient of a transaction, or contract creation. -/
inductive TxKind where
  | call (address : Address)
  | create
  deriving DecidableEq

/-- `impl RLPEncode for TxKind`: creation is `RLP_NULL`. -/
def TxKind.encode : TxKind → Bytes
  | .call address => Fixed.encode address
  | .create => [rlpNull]

/-- `impl RLPDecode for TxKind`. -/
def TxKind.decodeUnfinished (rlp : Bytes) : Except RLPDecodeError (TxKind × Bytes) :=
  match rlp with
  | [] => .error .invalidLength
  | firstByte :: rest =>
    if firstByte = rlpNull then .ok (.create, rest)
    else (Fixed.decodeUnfinished 20 rlp).map fun (t, rest) => (.call t, rest)

/-- `PrivilegedTxType`. -/
inductive PrivilegedTxType where
  | deposit
  | withdrawal
  deriving DecidableEq

/-- `PrivilegedTxType::from_u8`. -/
def PrivilegedTxType.fromU8 (value : UInt8) : Option PrivilegedTxType :=
  if value = 0x01 then some .deposit
  else if value = 0x02 then some .withdrawal
  else none

/-- `impl RLPEncode for PrivilegedTxType`: the discriminant as one raw byte. -/
def PrivilegedTxType.encode : PrivilegedTxType → Bytes
  | .deposit => [0x01]
  | .withdrawal => [0x02]

/-- `impl RLPDecode for PrivilegedTxType`: a `u8`, then `from_u8`. -/
def PrivilegedTxType.decodeUnfinished (rlp : Bytes) :
    Except RLPDecodeError (PrivilegedTxType × Bytes) := do
  let decoded ← U8.decodeUnfinished rlp
  match PrivilegedTxType.fromU8 decoded.1 with
  | some txType => pure (txType, decoded.2)
  | none => throw (.custom "Invalid")

/-- `TxType`. -/
inductive TxType where
  | legacy
  | eip2930
  | eip1559
  | eip4844
  | privileged
  deriving DecidableEq

/-- `impl From<TxType> for u8`. -/
def TxType.toU8 : TxType → UInt8
  | .legacy => 0x00
  | .eip2930 => 0x01
  | .eip1559 => 0x02
  | .eip4844 => 0x03
  | .privileged => 0x7e

/-- `Vec<(Address, Vec<H256>)>`, the access list of EIP-2930. -/
abbrev AccessList := List (Address × List H256)

/-- The RLP type of an access list. -/
def accessListType : RLPType := .vec (.tuple2 (.array 20) (.vec (.array 32)))

/-- `Vec<(Address, Vec<H256>)>::encode`. -/
def AccessList.encode (l : AccessList) : Bytes := accessListType.encode l

/-- `Vec<(Address, Vec<H256>)>::decode_unfinished`. -/
def AccessList.decodeUnfinished : DecodeFn AccessList := accessListType.decodeUnfinished

/-- The RLP type of `Vec<H256>`. -/
def hashListType : RLPType := .vec (.array 32)

/-- `Vec<H256>::encode`. -/
def HashList.encode (l : List H256) : Bytes := hashListType.encode l

/-- `Vec<H256>::decode_unfinished`. -/
def HashList.decodeUnfinished : DecodeFn (List H256) := hashListType.decodeUnfinished

/-! ## The five transaction types -/

/-- `LegacyTransaction`. -/
structure LegacyTransaction where
  nonce : UInt64
  gasPrice : UInt64
  gas : UInt64
  «to» : TxKind
  value : U256
  data : Bytes
  v : U256
  r : U256
  s : U256
  deriving DecidableEq

/-- `EIP2930Transaction`. -/
structure EIP2930Transaction where
  chainId : UInt64
  nonce : UInt64
  gasPrice : UInt64
  gasLimit : UInt64
  «to» : TxKind
  value : U256
  data : Bytes
  accessList : AccessList
  signatureYParity : Bool
  signatureR : U256
  signatureS : U256
  deriving DecidableEq

/-- `EIP1559Transaction`. -/
structure EIP1559Transaction where
  chainId : UInt64
  nonce : UInt64
  maxPriorityFeePerGas : UInt64
  maxFeePerGas : UInt64
  gasLimit : UInt64
  «to» : TxKind
  value : U256
  data : Bytes
  accessList : AccessList
  signatureYParity : Bool
  signatureR : U256
  signatureS : U256
  deriving DecidableEq

/-- `EIP4844Transaction`: the recipient is an address, never creation. -/
structure EIP4844Transaction where
  chainId : UInt64
  nonce : UInt64
  maxPriorityFeePerGas : UInt64
  maxFeePerGas : UInt64
  gas : UInt64
  «to» : Address
  value : U256
  data : Bytes
  accessList : AccessList
  maxFeePerBlobGas : U256
  blobVersionedHashes : List H256
  signatureYParity : Bool
  signatureR : U256
  signatureS : U256
  deriving DecidableEq

/-- `PrivilegedL2Transaction`. -/
structure PrivilegedL2Transaction where
  chainId : UInt64
  nonce : UInt64
  maxPriorityFeePerGas : UInt64
  maxFeePerGas : UInt64
  gasLimit : UInt64
  «to» : TxKind
  value : U256
  data : Bytes
  accessList : AccessList
  txType : PrivilegedTxType
  signatureYParity : Bool
  signatureR : U256
  signatureS : U256
  deriving DecidableEq

/-! ## Field-by-field codecs -/

/-- `impl RLPEncode for LegacyTransaction`. -/
def LegacyTransaction.encode (tx : LegacyTransaction) : Bytes :=
  Encoder.new
    |>.encodeField U64.encode tx.nonce
    |>.encodeField U64.encode tx.gasPrice
    |>.encodeField U64.encode tx.gas
    |>.encodeField TxKind.encode tx.«to»
    |>.encodeField U256.encode tx.value
    |>.encodeField ByteString.encode tx.data
    |>.encodeField U256.encode tx.v
    |>.encodeField U256.encode tx.r
    |>.encodeField U256.encode tx.s
    |>.finish

/-- `impl RLPDecode for LegacyTransaction`. -/
def LegacyTransaction.decodeUnfinished (rlp : Bytes) :
    Except RLPDecodeError (LegacyTransaction × Bytes) := do
  let decoder ← Decoder.new rlp
  let (nonce, decoder) ← decoder.decodeField "nonce" "u64" U64.decodeUnfinished
  let (gasPrice, decoder) ← decoder.decodeField "gas_price" "u64" U64.decodeUnfinished
  let (gas, decoder) ← decoder.decodeField "gas" "u64" U64.decodeUnfinished
  let («to», decoder) ← decoder.decodeField "to" "TxKind" TxKind.decodeUnfinished
  let (value, decoder) ← decoder.decodeField "value" "U256" U256.decodeUnfinished
  let (data, decoder) ← decoder.decodeField "data" "Bytes" ByteString.decodeUnfinished
  let (v, decoder) ← decoder.decodeField "v" "U256" U256.decodeUnfinished
  let (r, decoder) ← decoder.decodeField "r" "U256" U256.decodeUnfinished
  let (s, decoder) ← decoder.decodeField "s" "U256" U256.decodeUnfinished
  let tx : LegacyTransaction := { nonce, gasPrice, gas, «to», value, data, v, r, s }
  pure (tx, ← decoder.finish)

/-- `impl RLPEncode for EIP2930Transaction`. -/
def EIP2930Transaction.encode (tx : EIP2930Transaction) : Bytes :=
  Encoder.new
    |>.encodeField U64.encode tx.chainId
    |>.encodeField U64.encode tx.nonce
    |>.encodeField U64.encode tx.gasPrice
    |>.encodeField U64.encode tx.gasLimit
    |>.encodeField TxKind.encode tx.«to»
    |>.encodeField U256.encode tx.value
    |>.encodeField ByteString.encode tx.data
    |>.encodeField AccessList.encode tx.accessList
    |>.encodeField Bool.encode tx.signatureYParity
    |>.encodeField U256.encode tx.signatureR
    |>.encodeField U256.encode tx.signatureS
    |>.finish

/-- `impl RLPDecode for EIP2930Transaction`. -/
def EIP2930Transaction.decodeUnfinished (rlp : Bytes) :
    Except RLPDecodeError (EIP2930Transaction × Bytes) := do
  let decoder ← Decoder.new rlp
  let (chainId, decoder) ← decoder.decodeField "chain_id" "u64" U64.decodeUnfinished
  let (nonce, decoder) ← decoder.decodeField "nonce" "u64" U64.decodeUnfinished
  let (gasPrice, decoder) ← decoder.decodeField "gas_price" "u64" U64.decodeUnfinished
  let (gasLimit, decoder) ← decoder.decodeField "gas_limit" "u64" U64.decodeUnfinished
  let («to», decoder) ← decoder.decodeField "to" "TxKind" TxKind.decodeUnfinished
  let (value, decoder) ← decoder.decodeField "value" "U256" U256.decodeUnfinished
  let (data, decoder) ← decoder.decodeField "data" "Bytes" ByteString.decodeUnfinished
  let (accessList, decoder) ←
    decoder.decodeField "access_list" "Vec<(Address, Vec<H256>)>" AccessList.decodeUnfinished
  let (signatureYParity, decoder) ←
    decoder.decodeField "signature_y_parity" "bool" Bool.decodeUnfinished
  let (signatureR, decoder) ← decoder.decodeField "signature_r" "U256" U256.decodeUnfinished
  let (signatureS, decoder) ← decoder.decodeField "signature_s" "U256" U256.decodeUnfinished
  let tx : EIP2930Transaction :=
    { chainId, nonce, gasPrice, gasLimit, «to», value, data, accessList, signatureYParity,
      signatureR, signatureS }
  pure (tx, ← decoder.finish)

/-- `impl RLPEncode for EIP1559Transaction`. -/
def EIP1559Transaction.encode (tx : EIP1559Transaction) : Bytes :=
  Encoder.new
    |>.encodeField U64.encode tx.chainId
    |>.encodeField U64.encode tx.nonce
    |>.encodeField U64.encode tx.maxPriorityFeePerGas
    |>.encodeField U64.encode tx.maxFeePerGas
    |>.encodeField U64.encode tx.gasLimit
    |>.encodeField TxKind.encode tx.«to»
    |>.encodeField U256.encode tx.value
    |>.encodeField ByteString.encode tx.data
    |>.encodeField AccessList.encode tx.accessList
    |>.encodeField Bool.encode tx.signatureYParity
    |>.encodeField U256.encode tx.signatureR
    |>.encodeField U256.encode tx.signatureS
    |>.finish

/-- `impl RLPDecode for EIP1559Transaction`. -/
def EIP1559Transaction.decodeUnfinished (rlp : Bytes) :
    Except RLPDecodeError (EIP1559Transaction × Bytes) := do
  let decoder ← Decoder.new rlp
  let (chainId, decoder) ← decoder.decodeField "chain_id" "u64" U64.decodeUnfinished
  let (nonce, decoder) ← decoder.decodeField "nonce" "u64" U64.decodeUnfinished
  let (maxPriorityFeePerGas, decoder) ←
    decoder.decodeField "max_priority_fee_per_gas" "u64" U64.decodeUnfinished
  let (maxFeePerGas, decoder) ← decoder.decodeField "max_fee_per_gas" "u64" U64.decodeUnfinished
  let (gasLimit, decoder) ← decoder.decodeField "gas_limit" "u64" U64.decodeUnfinished
  let («to», decoder) ← decoder.decodeField "to" "TxKind" TxKind.decodeUnfinished
  let (value, decoder) ← decoder.decodeField "value" "U256" U256.decodeUnfinished
  let (data, decoder) ← decoder.decodeField "data" "Bytes" ByteString.decodeUnfinished
  let (accessList, decoder) ←
    decoder.decodeField "access_list" "Vec<(Address, Vec<H256>)>" AccessList.decodeUnfinished
  let (signatureYParity, decoder) ←
    decoder.decodeField "signature_y_parity" "bool" Bool.decodeUnfinished
  let (signatureR, decoder) ← decoder.decodeField "signature_r" "U256" U256.decodeUnfinished
  let (signatureS, decoder) ← decoder.decodeField "signature_s" "U256" U256.decodeUnfinished
  let tx : EIP1559Transaction :=
    { chainId, nonce, maxPriorityFeePerGas, maxFeePerGas, gasLimit, «to», value, data,
      accessList, signatureYParity, signatureR, signatureS }
  pure (tx, ← decoder.finish)

/-- `impl RLPEncode for EIP4844Transaction`. -/
def EIP4844Transaction.encode (tx : EIP4844Transaction) : Bytes :=
  Encoder.new
    |>.encodeField U64.encode tx.chainId
    |>.encodeField U64.encode tx.nonce
    |>.encodeField U64.encode tx.maxPriorityFeePerGas
    |>.encodeField U64.encode tx.maxFeePerGas
    |>.encodeField U64.encode tx.gas
    |>.encodeField Fixed.encode tx.«to»
    |>.encodeField U256.encode tx.value
    |>.encodeField ByteString.encode tx.data
    |>.encodeField AccessList.encode tx.accessList
    |>.encodeField U256.encode tx.maxFeePerBlobGas
    |>.encodeField HashList.encode tx.blobVersionedHashes
    |>.encodeField Bool.encode tx.signatureYParity
    |>.encodeField U256.encode tx.signatureR
    |>.encodeField U256.encode tx.signatureS
    |>.finish

/-- `impl RLPDecode for EIP4844Transaction`. -/
def EIP4844Transaction.decodeUnfinished (rlp : Bytes) :
    Except RLPDecodeError (EIP4844Transaction × Bytes) := do
  let decoder ← Decoder.new rlp
  let (chainId, decoder) ← decoder.decodeField "chain_id" "u64" U64.decodeUnfinished
  let (nonce, decoder) ← decoder.decodeField "nonce" "u64" U64.decodeUnfinished
  let (maxPriorityFeePerGas, decoder) ←
    decoder.decodeField "max_priority_fee_per_gas" "u64" U64.decodeUnfinished
  let (maxFeePerGas, decoder) ← decoder.decodeField "max_fee_per_gas" "u64" U64.decodeUnfinished
  let (gas, decoder) ← decoder.decodeField "gas" "u64" U64.decodeUnfinished
  let («to», decoder) ← decoder.decodeField "to" "Address" (Fixed.decodeUnfinished 20)
  let (value, decoder) ← decoder.decodeField "value" "U256" U256.decodeUnfinished
  let (data, decoder) ← decoder.decodeField "data" "Bytes" ByteString.decodeUnfinished
  let (accessList, decoder) ←
    decoder.decodeField "access_list" "Vec<(Address, Vec<H256>)>" AccessList.decodeUnfinished
  let (maxFeePerBlobGas, decoder) ←
    decoder.decodeField "max_fee_per_blob_gas" "U256" U256.decodeUnfinished
  let (blobVersionedHashes, decoder) ←
    decoder.decodeField "blob_versioned_hashes" "Vec<H256>" HashList.decodeUnfinished
  let (signatureYParity, decoder) ←
    decoder.decodeField "signature_y_parity" "bool" Bool.decodeUnfinished
  let (signatureR, decoder) ← decoder.decodeField "signature_r" "U256" U256.decodeUnfinished
  let (signatureS, decoder) ← decoder.decodeField "signature_s" "U256" U256.decodeUnfinished
  let tx : EIP4844Transaction :=
    { chainId, nonce, maxPriorityFeePerGas, maxFeePerGas, gas, «to», value, data, accessList,
      maxFeePerBlobGas, blobVersionedHashes, signatureYParity, signatureR, signatureS }
  pure (tx, ← decoder.finish)

/-- `impl RLPEncode for PrivilegedL2Transaction`. -/
def PrivilegedL2Transaction.encode (tx : PrivilegedL2Transaction) : Bytes :=
  Encoder.new
    |>.encodeField U64.encode tx.chainId
    |>.encodeField U64.encode tx.nonce
    |>.encodeField U64.encode tx.maxPriorityFeePerGas
    |>.encodeField U64.encode tx.maxFeePerGas
    |>.encodeField U64.encode tx.gasLimit
    |>.encodeField TxKind.encode tx.«to»
    |>.encodeField U256.encode tx.value
    |>.encodeField ByteString.encode tx.data
    |>.encodeField AccessList.encode tx.accessList
    |>.encodeField PrivilegedTxType.encode tx.txType
    |>.encodeField Bool.encode tx.signatureYParity
    |>.encodeField U256.encode tx.signatureR
    |>.encodeField U256.encode tx.signatureS
    |>.finish

/-- `impl RLPDecode for PrivilegedL2Transaction`. -/
def PrivilegedL2Transaction.decodeUnfinished (rlp : Bytes) :
    Except RLPDecodeError (PrivilegedL2Transaction × Bytes) := do
  let decoder ← Decoder.new rlp
  let (chainId, decoder) ← decoder.decodeField "chain_id" "u64" U64.decodeUnfinished
  let (nonce, decoder) ← decoder.decodeField "nonce" "u64" U64.decodeUnfinished
  let (maxPriorityFeePerGas, decoder) ←
    decoder.decodeField "max_priority_fee_per_gas" "u64" U64.decodeUnfinished
  let (maxFeePerGas, decoder) ← decoder.decodeField "max_fee_per_gas" "u64" U64.decodeUnfinished
  let (gasLimit, decoder) ← decoder.decodeField "gas_limit" "u64" U64.decodeUnfinished
  let («to», decoder) ← decoder.decodeField "to" "TxKind" TxKind.decodeUnfinished
  let (value, decoder) ← decoder.decodeField "value" "U256" U256.decodeUnfinished
  let (data, decoder) ← decoder.decodeField "data" "Bytes" ByteString.decodeUnfinished
  let (accessList, decoder) ←
    decoder.decodeField "access_list" "Vec<(Address, Vec<H256>)>" AccessList.decodeUnfinished
  let (txType, decoder) ←
    decoder.decodeField "tx_type" "PrivilegedTxType" PrivilegedTxType.decodeUnfinished
  let (signatureYParity, decoder) ←
    decoder.decodeField "signature_y_parity" "bool" Bool.decodeUnfinished
  let (signatureR, decoder) ← decoder.decodeField "signature_r" "U256" U256.decodeUnfinished
  let (signatureS, decoder) ← decoder.decodeField "signature_s" "U256" U256.decodeUnfinished
  let tx : PrivilegedL2Transaction :=
    { chainId, nonce, maxPriorityFeePerGas, maxFeePerGas, gasLimit, «to», value, data,
      accessList, txType, signatureYParity, signatureR, signatureS }
  pure (tx, ← decoder.finish)

/-! ## `Transaction` and its two envelopes -/

/-- `Transaction`. -/
inductive Transaction where
  | legacyTransaction (tx : LegacyTransaction)
  | eip2930Transaction (tx : EIP2930Transaction)
  | eip1559Transaction (tx : EIP1559Transaction)
  | eip4844Transaction (tx : EIP4844Transaction)
  | privilegedL2Transaction (tx : PrivilegedL2Transaction)
  deriving DecidableEq

/-- `Transaction::tx_type`. -/
def Transaction.txType : Transaction → TxType
  | .legacyTransaction _ => .legacy
  | .eip2930Transaction _ => .eip2930
  | .eip1559Transaction _ => .eip1559
  | .eip4844Transaction _ => .eip4844
  | .privilegedL2Transaction _ => .privileged

/-- `Transaction::encode_canonical`: the type byte, unless legacy, then the
transaction's own encoding. -/
def Transaction.encodeCanonical (tx : Transaction) : Bytes :=
  (match tx with
    | .legacyTransaction _ => []
    | _ => [tx.txType.toU8]) ++
  (match tx with
    | .legacyTransaction t => t.encode
    | .eip2930Transaction t => t.encode
    | .eip1559Transaction t => t.encode
    | .eip4844Transaction t => t.encode
    | .privilegedL2Transaction t => t.encode)

/-! The canonical form of each kind of transaction, for `simp`. -/

@[simp] theorem encodeCanonical_legacyTransaction (t : LegacyTransaction) :
    (Transaction.legacyTransaction t).encodeCanonical = t.encode := by
  rw [Transaction.encodeCanonical]
  simp only [List.nil_append]

@[simp] theorem encodeCanonical_eip2930Transaction (t : EIP2930Transaction) :
    (Transaction.eip2930Transaction t).encodeCanonical = 0x01 :: t.encode := by
  rw [Transaction.encodeCanonical]
  simp only [Transaction.txType, TxType.toU8, List.singleton_append]

@[simp] theorem encodeCanonical_eip1559Transaction (t : EIP1559Transaction) :
    (Transaction.eip1559Transaction t).encodeCanonical = 0x02 :: t.encode := by
  rw [Transaction.encodeCanonical]
  simp only [Transaction.txType, TxType.toU8, List.singleton_append]

@[simp] theorem encodeCanonical_eip4844Transaction (t : EIP4844Transaction) :
    (Transaction.eip4844Transaction t).encodeCanonical = 0x03 :: t.encode := by
  rw [Transaction.encodeCanonical]
  simp only [Transaction.txType, TxType.toU8, List.singleton_append]

@[simp] theorem encodeCanonical_privilegedL2Transaction (t : PrivilegedL2Transaction) :
    (Transaction.privilegedL2Transaction t).encodeCanonical = 0x7e :: t.encode := by
  rw [Transaction.encodeCanonical]
  simp only [Transaction.txType, TxType.toU8, List.singleton_append]

/-- The error both decoders return for an unknown type byte. -/
def invalidTxType (ty : UInt8) : RLPDecodeError :=
  .custom ("Invalid transaction type: " ++ toString ty)

/-- `Transaction::decode_canonical`: a first byte below `0x7f` is a type. -/
def Transaction.decodeCanonical (bytes : Bytes) : Except RLPDecodeError Transaction :=
  match bytes with
  | txType :: txBytes =>
    if txType < 0x7f then
      if txType = 0x0 then (decode LegacyTransaction.decodeUnfinished txBytes).map .legacyTransaction
      else if txType = 0x1 then
        (decode EIP2930Transaction.decodeUnfinished txBytes).map .eip2930Transaction
      else if txType = 0x2 then
        (decode EIP1559Transaction.decodeUnfinished txBytes).map .eip1559Transaction
      else if txType = 0x3 then
        (decode EIP4844Transaction.decodeUnfinished txBytes).map .eip4844Transaction
      else if txType = 0x7e then
        (decode PrivilegedL2Transaction.decodeUnfinished txBytes).map .privilegedL2Transaction
      else .error (invalidTxType txType)
    else (decode LegacyTransaction.decodeUnfinished bytes).map .legacyTransaction
  | [] => (decode LegacyTransaction.decodeUnfinished bytes).map .legacyTransaction

/-- `impl RLPEncode for Transaction`, the network form: a typed transaction
is the byte string of its canonical form. -/
def Transaction.encode : Transaction → Bytes
  | .legacyTransaction t => t.encode
  | tx => ByteString.encode tx.encodeCanonical

/-- `impl RLPDecode for Transaction`. -/
def Transaction.decodeUnfinished (rlp : Bytes) : Except RLPDecodeError (Transaction × Bytes) := do
  if ← isEncodedAsBytes rlp then
    let payload ← getRlpBytesItemPayload rlp
    match payload with
    | [] => throw .invalidLength
    | txType :: txEncoding =>
      if txType = 0x0 then
        (LegacyTransaction.decodeUnfinished txEncoding).map fun (tx, rem) =>
          (.legacyTransaction tx, rem)
      else if txType = 0x1 then
        (EIP2930Transaction.decodeUnfinished txEncoding).map fun (tx, rem) =>
          (.eip2930Transaction tx, rem)
      else if txType = 0x2 then
        (EIP1559Transaction.decodeUnfinished txEncoding).map fun (tx, rem) =>
          (.eip1559Transaction tx, rem)
      else if txType = 0x3 then
        (EIP4844Transaction.decodeUnfinished txEncoding).map fun (tx, rem) =>
          (.eip4844Transaction tx, rem)
      else if txType = 0x7e then
        (PrivilegedL2Transaction.decodeUnfinished txEncoding).map fun (tx, rem) =>
          (.privilegedL2Transaction tx, rem)
      else throw (invalidTxType txType)
  else
    (LegacyTransaction.decodeUnfinished rlp).map fun (tx, rem) => (.legacyTransaction tx, rem)

/-! ## The mempool record -/

/-- `MempoolTransaction`. -/
structure MempoolTransaction where
  timestamp : BitVec 128
  sender : Address
  inner : Transaction
  deriving DecidableEq

/-- `impl RLPEncode for MempoolTransaction`: the timestamp and the transaction. -/
def MempoolTransaction.encode (m : MempoolTransaction) : Bytes :=
  Encoder.new
    |>.encodeField U128.encode m.timestamp
    |>.encodeField Transaction.encode m.inner
    |>.finish

/-- `impl RLPDecode for MempoolTransaction`: the timestamp, the sender and
the transaction. -/
def MempoolTransaction.decodeUnfinished (rlp : Bytes) :
    Except RLPDecodeError (MempoolTransaction × Bytes) := do
  let decoder ← Decoder.new rlp
  let (timestamp, decoder) ← decoder.decodeField "timestamp" "u128" U128.decodeUnfinished
  let (sender, decoder) ← decoder.decodeField "sender" "Address" (Fixed.decodeUnfinished 20)
  let (inner, decoder) ← decoder.decodeField "inner" "Transaction" Transaction.decodeUnfinished
  pure ({ timestamp, sender, inner }, ← decoder.finish)

/-! ## What execution reads of a transaction -/

/-- `Transaction::gas_limit`. -/
def Transaction.gasLimit : Transaction → UInt64
  | .legacyTransaction tx => tx.gas
  | .eip2930Transaction tx => tx.gasLimit
  | .eip1559Transaction tx => tx.gasLimit
  | .eip4844Transaction tx => tx.gas
  | .privilegedL2Transaction tx => tx.gasLimit

/-- `Transaction::gas_price`: the fee cap of a dynamic-fee transaction. -/
def Transaction.gasPrice : Transaction → UInt64
  | .legacyTransaction tx => tx.gasPrice
  | .eip2930Transaction tx => tx.gasPrice
  | .eip1559Transaction tx => tx.maxFeePerGas
  | .eip4844Transaction tx => tx.maxFeePerGas
  | .privilegedL2Transaction tx => tx.maxFeePerGas

/-- `Transaction::max_priority_fee`. -/
def Transaction.maxPriorityFee : Transaction → Option UInt64
  | .legacyTransaction _ => none
  | .eip2930Transaction _ => none
  | .eip1559Transaction tx => some tx.maxPriorityFeePerGas
  | .eip4844Transaction tx => some tx.maxPriorityFeePerGas
  | .privilegedL2Transaction tx => some tx.maxPriorityFeePerGas

/-- `Transaction::max_fee_per_gas`. -/
def Transaction.maxFeePerGas : Transaction → Option UInt64
  | .legacyTransaction _ => none
  | .eip2930Transaction _ => none
  | .eip1559Transaction tx => some tx.maxFeePerGas
  | .eip4844Transaction tx => some tx.maxFeePerGas
  | .privilegedL2Transaction tx => some tx.maxFeePerGas

/-- `Transaction::max_fee_per_blob_gas`. -/
def Transaction.maxFeePerBlobGas : Transaction → Option U256
  | .eip4844Transaction tx => some tx.maxFeePerBlobGas
  | _ => none

/-- `Transaction::to`: a blob transaction always calls. -/
def Transaction.to : Transaction → TxKind
  | .legacyTransaction tx => tx.«to»
  | .eip2930Transaction tx => tx.«to»
  | .eip1559Transaction tx => tx.«to»
  | .eip4844Transaction tx => .call tx.«to»
  | .privilegedL2Transaction tx => tx.«to»

/-- `Transaction::value`. -/
def Transaction.value : Transaction → U256
  | .legacyTransaction tx => tx.value
  | .eip2930Transaction tx => tx.value
  | .eip1559Transaction tx => tx.value
  | .eip4844Transaction tx => tx.value
  | .privilegedL2Transaction tx => tx.value

/-- `Transaction::data`. -/
def Transaction.data : Transaction → Bytes
  | .legacyTransaction tx => tx.data
  | .eip2930Transaction tx => tx.data
  | .eip1559Transaction tx => tx.data
  | .eip4844Transaction tx => tx.data
  | .privilegedL2Transaction tx => tx.data

/-- `Transaction::access_list`. -/
def Transaction.accessList : Transaction → AccessList
  | .legacyTransaction _ => []
  | .eip2930Transaction tx => tx.accessList
  | .eip1559Transaction tx => tx.accessList
  | .eip4844Transaction tx => tx.accessList
  | .privilegedL2Transaction tx => tx.accessList

/-- `Transaction::blob_versioned_hashes`. -/
def Transaction.blobVersionedHashes : Transaction → List H256
  | .eip4844Transaction tx => tx.blobVersionedHashes
  | _ => []

/-- `Transaction::effective_gas_price`.  A dynamic-fee transaction has none
without a base fee; its `u64` arithmetic wraps, as in a release build. -/
def Transaction.effectiveGasPrice (tx : Transaction) (baseFeePerGas : Option UInt64) : Option UInt64 :=
  match tx.txType with
  | .legacy => some tx.gasPrice
  | .eip2930 => some tx.gasPrice
  | .eip1559 | .eip4844 => do
    let priorityFeePerGas := min (← tx.maxPriorityFee) ((← tx.maxFeePerGas) - (← baseFeePerGas))
    some (priorityFeePerGas + (← baseFeePerGas))
  | .privileged => some tx.gasPrice

end Ethrex.Types
