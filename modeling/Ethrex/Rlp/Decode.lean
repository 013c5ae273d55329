/-
# `Ethrex.Rlp.Decode` — the decoders of `ethrex_rlp::decode`

Every `impl RLPDecode` of `crates/common/rlp/decode.rs` as its
`decode_unfinished`: a function from the input to the decoded value and the
bytes left after it, or an `RLPDecodeError`.  `?` is `Except`'s bind.

`decode_rlp_item` and `get_item_with_prefix` compute the same split of their
input — the same five arms, the same checks in the same order — and differ
only in what they return.  The split is `itemSplit`, returning whether the
item is a list, the length of its header and the length of its payload; the
two functions are `itemSplit` followed by their own slicing.

Lengths are `Nat` here.  The `usize` sums in the long-form arms
(`length_of_length + length + 1`) are exact: a `Vec` never holds more than
`isize::MAX` bytes, so a length that overflows is rejected by the very next
comparison with `data.len()` in the model, where the Rust code would wrap or
panic.  `Ethrex.Rlp.Wrapping` is the split with the `usize` sums, and proves
that it returns what this one returns on every input whose head announces no
length that wraps.

The item loop of `Vec::decode_unfinished` is `decodeItems`, bounded by the
payload length: every decoder of the crate consumes at least one byte per
item, so the bound is never what stops it.
-/
import Ethrex.Rlp.Encode
import Ethrex.Lib.Codec

namespace Ethrex.Rlp

/-- `RLPDecodeError`, less `InvalidCompression` (no modelled function
produces it). -/
inductive RLPDecodeError where
  | invalidLength
  | malformedData
  | malformedBoolean
  | unexpectedList
  | unexpectedString
  | custom (msg : String)
  deriving DecidableEq, Repr

/-- The error's `Display` text, from its `#[error(..)]` attributes. -/
def RLPDecodeError.toText : RLPDecodeError → String
  | .invalidLength => "InvalidLength"
  | .malformedData => "MalformedData"
  | .malformedBoolean => "MalformedBoolean"
  | .unexpectedList => "UnexpectedList"
  | .unexpectedString => "UnexpectedString"
  | .custom msg => msg

/-- The type of a `decode_unfinished`: the value and the bytes after it. -/
abbrev DecodeFn (α : Type) := Bytes → Except RLPDecodeError (α × Bytes)

/-- `RLPDecode::decode`, the trait's provided method: no bytes may remain. -/
def decode {α : Type} (dec : DecodeFn α) (rlp : Bytes) :
    Except RLPDecodeError α := do
  let (decoded, remaining) ← dec rlp
  if !remaining.isEmpty then throw .invalidLength
  pure decoded

/-! ## Padding and item splitting -/

/-- `static_left_pad::<N>`: `data` left-padded with zeros to `n` bytes;
a leading zero byte is `MalformedData`, more than `n` bytes `InvalidLength`. -/
def staticLeftPad (n : Nat) (data : Bytes) : Except RLPDecodeError Bytes :=
  match data with
  | [] => .ok (List.replicate n 0)
  | d :: _ =>
    if d = 0 then .error .malformedData
    else if data.length > n then .error .invalidLength
    else .ok (List.replicate (n - data.length) 0 ++ data)

/-- The shared body of `decode_rlp_item` and `get_item_with_prefix`: whether
the item at the head of `data` is a list, the length of its header, and the
length of its payload, after every check the two functions make. -/
def itemSplit (data : Bytes) : Except RLPDecodeError (Bool × Nat × Nat) :=
  match data with
  | [] => .error .invalidLength
  | firstByte :: _ =>
    if firstByte ≤ 0x7F then .ok (false, 0, 1)
    else if firstByte ≤ 0xB7 then
      let length := (firstByte - 0x80).toNat
      if data.length < length + 1 then .error .invalidLength
      else .ok (false, 1, length)
    else if firstByte ≤ 0xBF then
      let lengthOfLength := (firstByte - 0xB7).toNat
      if data.length < lengthOfLength + 1 then .error .invalidLength
      else do
        let lengthBytes := (data.take (lengthOfLength + 1)).drop 1
        let length := BigEndian.ofBytes (← staticLeftPad 8 lengthBytes)
        if data.length < lengthOfLength + length + 1 then .error .invalidLength
        else .ok (false, lengthOfLength + 1, length)
    else if firstByte ≤ 0xF7 then
      let length := (firstByte - rlpEmptyList).toNat
      if data.length < length + 1 then .error .invalidLength
      else .ok (true, 1, length)
    else
      let listLength := (firstByte - 0xF7).toNat
      if data.length < listLength + 1 then .error .invalidLength
      else do
        let lengthBytes := (data.take (listLength + 1)).drop 1
        let payloadLength := BigEndian.ofBytes (← staticLeftPad 8 lengthBytes)
        if data.length < listLength + payloadLength + 1 then .error .invalidLength
        else .ok (true, listLength + 1, payloadLength)

/-- `decode_rlp_item`: whether the head item is a list, its payload (without
its header), and the bytes after it. -/
def decodeRlpItem (data : Bytes) : Except RLPDecodeError (Bool × Bytes × Bytes) := do
  let (isList, header, length) ← itemSplit data
  pure (isList, (data.take (header + length)).drop header, data.drop (header + length))

/-- `get_item_with_prefix`: the head item with its header, and the bytes
after it. -/
def getItemWithPrefix (data : Bytes) : Except RLPDecodeError (Bytes × Bytes) := do
  let (_, header, length) ← itemSplit data
  pure (data.take (header + length), data.drop (header + length))

/-- `is_encoded_as_bytes`: only the long-form string prefixes count. -/
def isEncodedAsBytes (rlp : Bytes) : Except RLPDecodeError Bool :=
  match rlp with
  | [] => .error .malformedData
  | pre :: _ => .ok (0xb8 ≤ pre && pre ≤ 0xbf)

/-- `get_rlp_bytes_item_payload`: everything after a long-form string header,
the bytes after the item included; `u8` arithmetic on the prefix. -/
def getRlpBytesItemPayload (rlp : Bytes) : Except RLPDecodeError Bytes :=
  match rlp with
  | [] => .error .invalidLength
  | pre :: _ =>
    let offset := (pre - 0xb8 + 1).toNat
    if offset + 1 ≤ rlp.length then .ok (rlp.drop (offset + 1)) else .error .invalidLength

/-- `decode_bytes`: the payload of a string item and the bytes after it. -/
def decodeBytes (data : Bytes) : Except RLPDecodeError (Bytes × Bytes) := do
  let (isList, payload, rest) ← decodeRlpItem data
  if isList then throw .unexpectedList
  pure (payload, rest)

/-! ## Scalars -/

/-- `impl RLPDecode for bool`. -/
def Bool.decodeUnfinished : Bytes → Except RLPDecodeError (Bool × Bytes)
  | [] => .error .invalidLength
  | b :: rest =>
    if b = rlpNull then .ok (false, rest)
    else if b = 0x01 then .ok (true, rest)
    else .error .malformedBoolean

/-- `impl RLPDecode for u8`: a byte below `0x80`, `RLP_NULL` for zero, or
`0x81` and one byte. -/
def U8.decodeUnfinished : Bytes → Except RLPDecodeError (UInt8 × Bytes)
  | [] => .error .invalidLength
  | [firstByte] =>
    if firstByte ≤ 0x7f then .ok (firstByte, [])
    else if firstByte = rlpNull then .ok (0, [])
    else .error .malformedData
  | firstByte :: second :: rest =>
    if firstByte ≤ 0x7f then .ok (firstByte, second :: rest)
    else if firstByte = rlpNull then .ok (0, second :: rest)
    else if firstByte = rlpNull + 1 then .ok (second, rest)
    else .error .malformedData

/-- The body shared by the impls for `u16`, `u32`, `u64`, `usize` and `u128`:
a string payload, left-padded to `w` bytes, read big-endian. -/
def decodeUint (w : Nat) (rlp : Bytes) : Except RLPDecodeError (Nat × Bytes) := do
  let (bytes, rest) ← decodeBytes rlp
  let paddedBytes ← staticLeftPad w bytes
  pure (BigEndian.ofBytes paddedBytes, rest)

/-- `impl RLPDecode for u16`. -/
def U16.decodeUnfinished (rlp : Bytes) : Except RLPDecodeError (UInt16 × Bytes) :=
  (decodeUint 2 rlp).map fun (n, rest) => (UInt16.ofNat n, rest)
/-- `impl RLPDecode for u32`. -/
def U32.decodeUnfinished (rlp : Bytes) : Except RLPDecodeError (UInt32 × Bytes) :=
  (decodeUint 4 rlp).map fun (n, rest) => (UInt32.ofNat n, rest)
/-- `impl RLPDecode for u64`. -/
def U64.decodeUnfinished (rlp : Bytes) : Except RLPDecodeError (UInt64 × Bytes) :=
  (decodeUint 8 rlp).map fun (n, rest) => (UInt64.ofNat n, rest)
/-- `impl RLPDecode for usize`. -/
def Usize.decodeUnfinished (rlp : Bytes) : Except RLPDecodeError (UInt64 × Bytes) :=
  (decodeUint 8 rlp).map fun (n, rest) => (UInt64.ofNat n, rest)
/-- `impl RLPDecode for u128`. -/
def U128.decodeUnfinished (rlp : Bytes) : Except RLPDecodeError (BitVec 128 × Bytes) :=
  (decodeUint 16 rlp).map fun (n, rest) => (BitVec.ofNat 128 n, rest)

/-- `impl RLPDecode for U256`: the same, padded to 32 bytes. -/
def U256.decodeUnfinished (rlp : Bytes) : Except RLPDecodeError (U256 × Bytes) := do
  let (bytes, rest) ← decodeBytes rlp
  let paddedBytes ← staticLeftPad 32 bytes
  pure (BitVec.ofNat 256 (BigEndian.ofBytes paddedBytes), rest)

/-! ## Byte strings -/

/-- `impl RLPDecode for [u8; N]`: a string payload of exactly `n` bytes. -/
def Fixed.decodeUnfinished (n : Nat) (rlp : Bytes) :
    Except RLPDecodeError (FixedBytes n × Bytes) := do
  let (decodedBytes, rest) ← decodeBytes rlp
  if h : decodedBytes.length = n then pure (⟨decodedBytes, h⟩, rest)
  else throw .invalidLength

/-- `impl RLPDecode for Bytes`. -/
def ByteString.decodeUnfinished (rlp : Bytes) : Except RLPDecodeError (Bytes × Bytes) :=
  decodeBytes rlp

/-- `impl RLPDecode for String`: the payload must be UTF-8. -/
def Str.decodeUnfinished (rlp : Bytes) : Except RLPDecodeError (String × Bytes) := do
  let (strBytes, rest) ← decodeBytes rlp
  match String.fromUTF8? ⟨strBytes.toArray⟩ with
  | some value => pure (value, rest)
  | none => throw .malformedData

/-- `impl RLPDecode for Ipv4Addr`. -/
def Ipv4.decodeUnfinished (rlp : Bytes) : Except RLPDecodeError (Ipv4Addr × Bytes) := do
  let (ipBytes, rest) ← decodeBytes rlp
  if h : ipBytes.length = 4 then pure (⟨⟨ipBytes, h⟩⟩, rest)
  else throw .invalidLength

/-- `impl RLPDecode for Ipv6Addr`. -/
def Ipv6.decodeUnfinished (rlp : Bytes) : Except RLPDecodeError (Ipv6Addr × Bytes) := do
  let (ipBytes, rest) ← decodeBytes rlp
  if h : ipBytes.length = 16 then pure (⟨⟨ipBytes, h⟩⟩, rest)
  else throw .invalidLength

/-- `impl RLPDecode for IpAddr`: the version is read off the payload length. -/
def Ip.decodeUnfinished (rlp : Bytes) : Except RLPDecodeError (IpAddr × Bytes) := do
  let (ipBytes, rest) ← decodeBytes rlp
  if h4 : ipBytes.length = 4 then pure (.v4 ⟨⟨ipBytes, h4⟩⟩, rest)
  else if h16 : ipBytes.length = 16 then pure (.v6 ⟨⟨ipBytes, h16⟩⟩, rest)
  else throw .invalidLength

/-! ## Lists and tuples -/

/-- The loop `while !current_slice.is_empty()` of `Vec::decode_unfinished`:
decode items until the payload is used up.  It is the library loop
`Codec.many`; its `fuel` bounds the iterations, and is the payload
length, which no decoder that consumes input reaches. -/
def decodeItems {α : Type} (dec : DecodeFn α) (fuel : Nat) (current : Bytes) :
    Except RLPDecodeError (List α) :=
  Codec.many .invalidLength dec fuel current

/-- `impl<T: RLPDecode> RLPDecode for Vec<T>`. -/
def Vec.decodeUnfinished {α : Type} (dec : DecodeFn α) (rlp : Bytes) :
    Except RLPDecodeError (List α × Bytes) :=
  match rlp with
  | [] => .error .invalidLength
  | first :: rest =>
    if first = rlpEmptyList then .ok ([], rest)
    else do
      let (isList, payload, inputRest) ← decodeRlpItem rlp
      if !isList then throw .malformedData
      let result ← decodeItems dec payload.length payload
      pure (result, inputRest)

/-- `impl RLPDecode for (T1, T2)`: the list must hold exactly the two fields. -/
def Tuple2.decodeUnfinished {α β : Type} (decA : DecodeFn α) (decB : DecodeFn β)
    (rlp : Bytes) : Except RLPDecodeError ((α × β) × Bytes) := do
  if rlp.isEmpty then throw .invalidLength
  let (isList, payload, inputRest) ← decodeRlpItem rlp
  if !isList then throw .malformedData
  let (first, firstRest) ← decA payload
  let (second, secondRest) ← decB firstRest
  if !secondRest.isEmpty then throw .malformedData
  pure ((first, second), inputRest)

/-- `impl RLPDecode for (T1, T2, T3)`. -/
def Tuple3.decodeUnfinished {α β γ : Type} (decA : DecodeFn α)
    (decB : DecodeFn β) (decC : DecodeFn γ) (rlp : Bytes) :
    Except RLPDecodeError ((α × β × γ) × Bytes) := do
  if rlp.isEmpty then throw .invalidLength
  let (isList, payload, inputRest) ← decodeRlpItem rlp
  if !isList then throw .malformedData
  let (first, firstRest) ← decA payload
  let (second, secondRest) ← decB firstRest
  let (third, thirdRest) ← decC secondRest
  if !thirdRest.isEmpty then throw .malformedData
  pure ((first, second, third), inputRest)

/-- `impl RLPDecode for (T1, T2, T3, T4)`. -/
def Tuple4.decodeUnfinished {α β γ δ : Type} (decA : DecodeFn α)
    (decB : DecodeFn β) (decC : DecodeFn γ) (decD : DecodeFn δ)
    (rlp : Bytes) : Except RLPDecodeError ((α × β × γ × δ) × Bytes) := do
  if rlp.isEmpty then throw .invalidLength
  let (isList, payload, inputRest) ← decodeRlpItem rlp
  if !isList then throw .malformedData
  let (first, firstRest) ← decA payload
  let (second, secondRest) ← decB firstRest
  let (third, thirdRest) ← decC secondRest
  let (fourth, fourthRest) ← decD thirdRest
  if !fourthRest.isEmpty then throw .malformedData
  pure ((first, second, third, fourth), inputRest)

end Ethrex.Rlp
