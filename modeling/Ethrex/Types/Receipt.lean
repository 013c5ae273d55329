/-
# `Ethrex.Types.Receipt` — the receipts of `ethrex_common::types::receipt`

A receipt has two framings, like a transaction:

* `encode_inner` (the consensus encoding, hashed into the receipts root): the
  type byte unless legacy, then the RLP list of the fields;
* the network encoding (`RLPEncode for Receipt`): a legacy receipt as its
  list, a typed one as the byte string of its inner encoding.

Both decoders turn the type byte back into a `TxType` by the same match;
`txTypeFromByte` is that match, written once.  `Receipt::new` computes the
bloom with `bloom_from_logs`, which accrues each log's address and topics
into a 2048-bit filter (`Bloom::accrue` of the `ethbloom` crate); Keccak-256
is a parameter there.
-/
import Ethrex.Types.Transaction

namespace Ethrex.Types

open Ethrex.Rlp

/-- `Log`. -/
structure Log where
  address : Address
  topics : List H256
  data : Bytes
  deriving DecidableEq

/-- `impl RLPEncode for Log`. -/
def Log.encode (log : Log) : Bytes :=
  Encoder.new
    |>.encodeField Fixed.encode log.address
    |>.encodeField HashList.encode log.topics
    |>.encodeField ByteString.encode log.data
    |>.finish

/-- `impl RLPDecode for Log`. -/
def Log.decodeUnfinished (rlp : Bytes) : Except RLPDecodeError (Log × Bytes) := do
  let decoder ← Decoder.new rlp
  let (address, decoder) ← decoder.decodeField "address" "Address" (Fixed.decodeUnfinished 20)
  let (topics, decoder) ← decoder.decodeField "topics" "Vec<H256>" HashList.decodeUnfinished
  let (data, decoder) ← decoder.decodeField "data" "Bytes" ByteString.decodeUnfinished
  pure ({ address, topics, data }, ← decoder.finish)

/-- `Receipt`. -/
structure Receipt where
  txType : TxType
  succeeded : Bool
  cumulativeGasUsed : UInt64
  bloom : Bloom
  logs : List Log
  deriving DecidableEq

/-- The match both receipt decoders make on a type byte. -/
def txTypeFromByte (ty : UInt8) : Except RLPDecodeError TxType :=
  if ty = 0x0 then .ok .legacy
  else if ty = 0x1 then .ok .eip2930
  else if ty = 0x2 then .ok .eip1559
  else if ty = 0x3 then .ok .eip4844
  else if ty = 0x7e then .ok .privileged
  else .error (invalidTxType ty)

/-- `Receipt::encode_inner`: the type byte unless legacy, then the fields'
list. -/
def Receipt.encodeInner (r : Receipt) : Bytes :=
  (match r.txType with
    | .legacy => []
    | _ => [r.txType.toU8]) ++
  (Encoder.new
    |>.encodeField Bool.encode r.succeeded
    |>.encodeField U64.encode r.cumulativeGasUsed
    |>.encodeField Fixed.encode r.bloom
    |>.encodeField (Vec.encode Log.encode) r.logs
    |>.finish)

/-- `Receipt::decode_inner`: a first byte below `0x7f` is a type.  The
bytes after the list are not checked. -/
def Receipt.decodeInner (rlp : Bytes) : Except RLPDecodeError Receipt := do
  let (txType, rlp) ← match rlp with
    | ty :: rest =>
      if ty < 0x7f then do
        let txType ← txTypeFromByte ty
        pure (txType, rest)
      else pure (.legacy, rlp)
    | [] => pure (.legacy, rlp)
  let decoder ← Decoder.new rlp
  let (succeeded, decoder) ← decoder.decodeField "succeeded" "bool" Bool.decodeUnfinished
  let (cumulativeGasUsed, decoder) ←
    decoder.decodeField "cumulative_gas_used" "u64" U64.decodeUnfinished
  let (bloom, decoder) ← decoder.decodeField "bloom" "Bloom" (Fixed.decodeUnfinished 256)
  let (logs, decoder) ←
    decoder.decodeField "logs" "Vec<Log>" (Vec.decodeUnfinished Log.decodeUnfinished)
  let _ ← decoder.finish
  pure { txType, succeeded, cumulativeGasUsed, bloom, logs }

/-- `impl RLPEncode for Receipt`: a typed receipt is the byte string of its
inner encoding. -/
def Receipt.encode (r : Receipt) : Bytes :=
  match r.txType with
  | .legacy => r.encodeInner
  | _ => ByteString.encode r.encodeInner

/-- `impl RLPDecode for Receipt`. -/
def Receipt.decodeUnfinished (rlp : Bytes) : Except RLPDecodeError (Receipt × Bytes) := do
  let (txType, rlp) ←
    if ← isEncodedAsBytes rlp then do
      let payload ← getRlpBytesItemPayload rlp
      match payload with
      | [] => throw .invalidLength
      | ty :: rest =>
        let txType ← txTypeFromByte ty
        pure (txType, rest)
    else pure (.legacy, rlp)
  let decoder ← Decoder.new rlp
  let (succeeded, decoder) ← decoder.decodeField "succeeded" "bool" Bool.decodeUnfinished
  let (cumulativeGasUsed, decoder) ←
    decoder.decodeField "cumulative_gas_used" "u64" U64.decodeUnfinished
  let (bloom, decoder) ← decoder.decodeField "bloom" "Bloom" (Fixed.decodeUnfinished 256)
  let (logs, decoder) ←
    decoder.decodeField "logs" "Vec<Log>" (Vec.decodeUnfinished Log.decodeUnfinished)
  pure ({ txType, succeeded, cumulativeGasUsed, bloom, logs }, ← decoder.finish)

/-! ## Blooms -/

/-- `Bloom::accrue` of `Input::Raw`: three 11-bit indices from the first six
bytes of the input's Keccak-256, each setting one bit, counted from the
last byte. -/
def bloomAccrue (keccak : Bytes → H256) (bloom : Bloom) (input : Bytes) : Bloom :=
  let hash := (keccak input).toList
  (List.range 3).foldl (fun b i =>
    let index := (hash[2 * i]!.toNat * 256 + hash[2 * i + 1]!.toNat) % 2048
    let pos : Fin 256 := ⟨255 - index / 8, by omega⟩
    b.set pos (b.get pos ||| (1 <<< (index % 8)).toUInt8)) bloom

/-- `bloom_from_logs`. -/
def bloomFromLogs (keccak : Bytes → H256) (logs : List Log) : Bloom :=
  logs.foldl (fun bloom log =>
    log.topics.foldl (fun bloom topic => bloomAccrue keccak bloom topic.toList)
      (bloomAccrue keccak bloom log.address.toList))
    (List.Vector.replicate 256 0)

/-- `Receipt::new`. -/
def Receipt.new (keccak : Bytes → H256) (txType : TxType) (succeeded : Bool)
    (cumulativeGasUsed : UInt64) (logs : List Log) : Receipt :=
  { txType, succeeded, cumulativeGasUsed, bloom := bloomFromLogs keccak logs, logs }

end Ethrex.Types
