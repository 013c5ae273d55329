/-
# `Ethrex.Rlp.Encode` — the encoders of `ethrex_rlp::encode`

Every `impl RLPEncode` of `crates/common/rlp/encode.rs`, as a function to the
bytes it appends to its buffer.  A Rust `encode(&self, buf)` only ever
appends, so returning the appended bytes loses nothing.

Two families share one body each, and each member is that body at its own
constants:

* the integer impls for `u8`, `u16`, `u32`, `u64`, `usize` and `u128` are
  `encodeUint` at their byte width (`usize` is eight bytes: the crate targets
  64-bit machines);
* the header written before a string (`[u8]::encode`) and before a list
  (`encode_length`) is `lengthHeader` at `0x80`/`0xb7` and at `0xc0`/`0xf7`.

The fixed hashes `H32` … `H512`, `Address`, `Signature` and `Bloom` encode
through `as_bytes()`, that is through `[u8; N]`, so they are `FixedBytes n`
here; `Ipv4Addr` and `Ipv6Addr` encode their octets the same way.
-/
import Ethrex.Lib.BigEndian
import Mathlib.Data.Vector.Basic

namespace Ethrex.Rlp

/-- A byte string: `Vec<u8>`, `&[u8]` and `bytes::Bytes` alike. -/
abbrev Bytes := List UInt8

/-- `[u8; N]`, and every `ethereum_types` hash that wraps one. -/
abbrev FixedBytes (n : Nat) := List.Vector UInt8 n

/-- `ethereum_types::H160`, alias `Address`. -/
abbrev Address := FixedBytes 20
/-- `ethereum_types::H256`. -/
abbrev H256 := FixedBytes 32
/-- `ethereum_types::Bloom`, 2048 bits. -/
abbrev Bloom := FixedBytes 256
/-- `ethereum_types::U256`. -/
abbrev U256 := BitVec 256

/-- `std::net::Ipv4Addr`, by its octets. -/
structure Ipv4Addr where
  octets : FixedBytes 4
  deriving DecidableEq

/-- `std::net::Ipv6Addr`, by its octets. -/
structure Ipv6Addr where
  octets : FixedBytes 16
  deriving DecidableEq

/-- `std::net::IpAddr`. -/
inductive IpAddr where
  | v4 (ip : Ipv4Addr)
  | v6 (ip : Ipv6Addr)
  deriving DecidableEq

/-- `RLP_NULL`: the empty string, which is also how zero is written. -/
def rlpNull : UInt8 := 0x80

/-- `RLP_EMPTY_LIST`. -/
def rlpEmptyList : UInt8 := 0xC0

/-! ## Headers -/

/-- The header before a payload of `len` bytes: one byte `short + len` below 56
bytes, else `long + k` followed by the `k` significant big-endian bytes of
`len` as a `usize`.  Strings use `short = 0x80`, `long = 0xb7`; lists use
`0xc0` and `0xf7` (`encode_length`). -/
def lengthHeader (short long : UInt8) (len : Nat) : Bytes :=
  if len < 56 then [short + UInt8.ofNat len]
  else
    let bytes := BigEndian.toBytes 8 len
    let start := BigEndian.firstNonZero bytes
    (long + UInt8.ofNat (bytes.length - start)) :: bytes.drop start

/-- `encode_length`: the header of a list whose payload has `total_len` bytes. -/
def encodeLength (totalLen : Nat) : Bytes := lengthHeader 0xc0 0xf7 totalLen

/-! ## Scalars -/

/-- `impl RLPEncode for bool`. -/
def Bool.encode (b : Bool) : Bytes := if b then [0x01] else [rlpNull]

/-- The body shared by the unsigned integer impls, for a `w`-byte integer `n`:
zero is `RLP_NULL`, `1..=0x7f` is its own byte, anything larger is a short
string of its significant big-endian bytes. -/
def encodeUint (w n : Nat) : Bytes :=
  if n = 0 then [rlpNull]
  else if n ≤ 0x7f then [UInt8.ofNat n]
  else
    let bytes := BigEndian.toBytes w n
    let start := BigEndian.firstNonZero bytes
    (rlpNull + UInt8.ofNat (bytes.length - start)) :: bytes.drop start

/-- `impl RLPEncode for u8`. -/
def U8.encode (x : UInt8) : Bytes := encodeUint 1 x.toNat
/-- `impl RLPEncode for u16`. -/
def U16.encode (x : UInt16) : Bytes := encodeUint 2 x.toNat
/-- `impl RLPEncode for u32`. -/
def U32.encode (x : UInt32) : Bytes := encodeUint 4 x.toNat
/-- `impl RLPEncode for u64`. -/
def U64.encode (x : UInt64) : Bytes := encodeUint 8 x.toNat
/-- `impl RLPEncode for usize`. -/
def Usize.encode (x : UInt64) : Bytes := encodeUint 8 x.toNat
/-- `impl RLPEncode for u128`. -/
def U128.encode (x : BitVec 128) : Bytes := encodeUint 16 x.toNat

/-! ## Byte strings -/

/-- `impl RLPEncode for [u8]`: a single byte below `0x80` is its own
encoding, anything else is a header and the bytes. -/
def Slice.encode (s : Bytes) : Bytes :=
  match s with
  | [b] => if b < rlpNull then [b] else lengthHeader rlpNull 0xb7 1 ++ s
  | _ => lengthHeader rlpNull 0xb7 s.length ++ s

/-- `impl RLPEncode for [u8; N]`, through `as_ref()`. -/
def Fixed.encode {n : Nat} (v : FixedBytes n) : Bytes := Slice.encode v.toList

/-- `impl RLPEncode for Bytes`. -/
def ByteString.encode (b : Bytes) : Bytes := Slice.encode b

/-- `impl RLPEncode for String`, through `as_bytes()`. -/
def Str.encode (s : String) : Bytes := Slice.encode s.toByteArray.data.toList

/-- `impl RLPEncode for U256`: the big-endian bytes after the leading zero
bytes, as a byte string. -/
def U256.encode (x : U256) : Bytes :=
  let leadingZerosInBytes := x.clz.toNat / 8
  Slice.encode ((BigEndian.toBytes 32 x.toNat).drop leadingZerosInBytes)

/-- `impl RLPEncode for Ipv4Addr`. -/
def Ipv4.encode (ip : Ipv4Addr) : Bytes := Fixed.encode ip.octets
/-- `impl RLPEncode for Ipv6Addr`. -/
def Ipv6.encode (ip : Ipv6Addr) : Bytes := Fixed.encode ip.octets

/-- `impl RLPEncode for IpAddr`. -/
def Ip.encode : IpAddr → Bytes
  | .v4 ip => Ipv4.encode ip
  | .v6 ip => Ipv6.encode ip

/-! ## Lists and tuples -/

/-- `impl<T: RLPEncode> RLPEncode for Vec<T>`: `0xc0` when empty, else the
list header over the summed item lengths and the items in order. -/
def Vec.encode {α : Type} (enc : α → Bytes) (xs : List α) : Bytes :=
  if xs.isEmpty then [0xc0]
  else encodeLength (xs.map fun x => (enc x).length).sum ++ (xs.map enc).flatten

/-- `impl RLPEncode for (S, T)`. -/
def Tuple2.encode {α β : Type} (encA : α → Bytes) (encB : β → Bytes) (v : α × β) : Bytes :=
  encodeLength ((encA v.1).length + (encB v.2).length) ++ encA v.1 ++ encB v.2

/-- `impl RLPEncode for (S, T, U)`. -/
def Tuple3.encode {α β γ : Type} (encA : α → Bytes) (encB : β → Bytes) (encC : γ → Bytes)
    (v : α × β × γ) : Bytes :=
  encodeLength ((encA v.1).length + (encB v.2.1).length + (encC v.2.2).length) ++
    encA v.1 ++ encB v.2.1 ++ encC v.2.2

/-- `impl RLPEncode for (S, T, U, V)`. -/
def Tuple4.encode {α β γ δ : Type} (encA : α → Bytes) (encB : β → Bytes) (encC : γ → Bytes)
    (encD : δ → Bytes) (v : α × β × γ × δ) : Bytes :=
  encodeLength ((encA v.1).length + (encB v.2.1).length + (encC v.2.2.1).length +
      (encD v.2.2.2).length) ++
    encA v.1 ++ encB v.2.1 ++ encC v.2.2.1 ++ encD v.2.2.2

end Ethrex.Rlp
