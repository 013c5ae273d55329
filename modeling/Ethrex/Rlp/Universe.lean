/-
# `Ethrex.Rlp.Universe` — the types of the crate, and their round trip

The types that implement both `RLPEncode` and `RLPDecode` in the crate are
the base impls closed under `Vec<T>` and tuples of two to four components.
`RLPType` is that grammar, one constructor per base impl (`array n` stands
for `[u8; n]` and the hashes that encode through it: `H32` … `H512`,
`Address`, `Signature`, `Bloom`).  `Val` is the Rust type a code names, and
`encode`/`decodeUnfinished` pick the impls by recursion on the code, as
trait resolution does on the type.

The round trip is one induction on the code, each case the lemma of
`Ethrex.Rlp.RoundTrip` for that impl, with the item and component
hypotheses supplied by the induction.  The only assumption is that the
encoding is shorter than `2 ^ 64` bytes, as every Rust buffer is.
-/
import Ethrex.Rlp.RoundTrip

namespace Ethrex.Rlp

open Codec

/-- The RLP types of the crate. -/
inductive RLPType where
  | bool
  | u8
  | u16
  | u32
  | u64
  | usize
  | u128
  | u256
  | array (n : Nat)
  | bytes
  | string
  | ipv4
  | ipv6
  | ip
  | vec (t : RLPType)
  | tuple2 (a b : RLPType)
  | tuple3 (a b c : RLPType)
  | tuple4 (a b c d : RLPType)
  deriving DecidableEq, Repr

namespace RLPType

/-- The Rust type a code stands for. -/
@[reducible] def Val : RLPType → Type
  | bool => Bool
  | u8 => UInt8
  | u16 => UInt16
  | u32 => UInt32
  | u64 => UInt64
  | usize => UInt64
  | u128 => BitVec 128
  | u256 => U256
  | array n => FixedBytes n
  | bytes => Bytes
  | string => String
  | ipv4 => Ipv4Addr
  | ipv6 => Ipv6Addr
  | ip => IpAddr
  | vec t => List t.Val
  | tuple2 a b => a.Val × b.Val
  | tuple3 a b c => a.Val × b.Val × c.Val
  | tuple4 a b c d => a.Val × b.Val × c.Val × d.Val

/-- `RLPEncode::encode` at the type. -/
def encode : (t : RLPType) → t.Val → Bytes
  | bool => Bool.encode
  | u8 => U8.encode
  | u16 => U16.encode
  | u32 => U32.encode
  | u64 => U64.encode
  | usize => Usize.encode
  | u128 => U128.encode
  | u256 => U256.encode
  | array _ => Fixed.encode
  | bytes => ByteString.encode
  | string => Str.encode
  | ipv4 => Ipv4.encode
  | ipv6 => Ipv6.encode
  | ip => Ip.encode
  | vec t => Vec.encode t.encode
  | tuple2 a b => Tuple2.encode a.encode b.encode
  | tuple3 a b c => Tuple3.encode a.encode b.encode c.encode
  | tuple4 a b c d => Tuple4.encode a.encode b.encode c.encode d.encode

/-- `RLPDecode::decode_unfinished` at the type. -/
def decodeUnfinished : (t : RLPType) → DecodeFn t.Val
  | bool => Bool.decodeUnfinished
  | u8 => U8.decodeUnfinished
  | u16 => U16.decodeUnfinished
  | u32 => U32.decodeUnfinished
  | u64 => U64.decodeUnfinished
  | usize => Usize.decodeUnfinished
  | u128 => U128.decodeUnfinished
  | u256 => U256.decodeUnfinished
  | array n => Fixed.decodeUnfinished n
  | bytes => ByteString.decodeUnfinished
  | string => Str.decodeUnfinished
  | ipv4 => Ipv4.decodeUnfinished
  | ipv6 => Ipv6.decodeUnfinished
  | ip => Ip.decodeUnfinished
  | vec t => Vec.decodeUnfinished t.decodeUnfinished
  | tuple2 a b => Tuple2.decodeUnfinished a.decodeUnfinished b.decodeUnfinished
  | tuple3 a b c => Tuple3.decodeUnfinished a.decodeUnfinished b.decodeUnfinished c.decodeUnfinished
  | tuple4 a b c d =>
    Tuple4.decodeUnfinished a.decodeUnfinished b.decodeUnfinished c.decodeUnfinished
      d.decodeUnfinished

example : RLPType.encode (.tuple2 .u8 .u16) (61, 75) = [0xc2, 61, 75] := by decide

/-! ## Encodings are never empty -/

theorem encodeUint_ne_nil (w n : Nat) : encodeUint w n ≠ [] := by
  unfold encodeUint
  split_ifs <;> simp

theorem encode_ne_nil : (t : RLPType) → (v : t.Val) → t.encode v ≠ []
  | bool, b => by cases b <;> simp [encode, Bool.encode]
  | u8, _ => encodeUint_ne_nil _ _
  | u16, _ => encodeUint_ne_nil _ _
  | u32, _ => encodeUint_ne_nil _ _
  | u64, _ => encodeUint_ne_nil _ _
  | usize, _ => encodeUint_ne_nil _ _
  | u128, _ => encodeUint_ne_nil _ _
  | u256, _ => Slice.encode_ne_nil _
  | array _, _ => Slice.encode_ne_nil _
  | bytes, _ => Slice.encode_ne_nil _
  | string, _ => Slice.encode_ne_nil _
  | ipv4, _ => Slice.encode_ne_nil _
  | ipv6, _ => Slice.encode_ne_nil _
  | ip, .v4 _ => Slice.encode_ne_nil _
  | ip, .v6 _ => Slice.encode_ne_nil _
  | vec _, xs => by
      unfold encode Vec.encode
      split <;> simp [encodeLength_ne_nil]
  | tuple2 .., _ => by simp [encode, Tuple2.encode, encodeLength_ne_nil]
  | tuple3 .., _ => by simp [encode, Tuple3.encode, encodeLength_ne_nil]
  | tuple4 .., _ => by simp [encode, Tuple4.encode, encodeLength_ne_nil]

/-! ## The round trip -/

theorem roundTrips_encode : (t : RLPType) → (v : t.Val) → (t.encode v).length < 2 ^ 64 →
    RoundTrips t.encode t.decodeUnfinished v
  | bool, b, _ => roundTrips_bool b
  | u8, x, _ => roundTrips_u8 x
  | u16, x, _ => roundTrips_u16 x
  | u32, x, _ => roundTrips_u32 x
  | u64, x, _ => roundTrips_u64 x
  | usize, x, _ => roundTrips_usize x
  | u128, x, _ => roundTrips_u128 x
  | u256, x, _ => roundTrips_u256 x
  | array n, v, h => by
      have hle := le_length_slice_encode v.toList
      simp only [encode, Fixed.encode] at h
      exact roundTrips_fixed (by simp at hle; omega) v
  | bytes, b, h => roundTrips_byteString (Nat.lt_of_le_of_lt (le_length_slice_encode b) h)
  | string, s, h => roundTrips_str (Nat.lt_of_le_of_lt (le_length_slice_encode _) h)
  | ipv4, a, _ => roundTrips_ipv4 a
  | ipv6, a, _ => roundTrips_ipv6 a
  | ip, a, _ => roundTrips_ip a
  | vec t, xs, h =>
      roundTrips_vec_of_length (fun x _ hx => roundTrips_encode t x hx) (encode_ne_nil t) h
  | tuple2 a b, v, h => by
      simp only [encode, Tuple2.encode, List.length_append] at h
      exact roundTrips_tuple2 (roundTrips_encode a v.1 (by omega))
        (roundTrips_encode b v.2 (by omega)) (by simp; omega)
  | tuple3 a b c, v, h => by
      simp only [encode, Tuple3.encode, List.length_append] at h
      exact roundTrips_tuple3 (roundTrips_encode a v.1 (by omega))
        (roundTrips_encode b v.2.1 (by omega)) (roundTrips_encode c v.2.2 (by omega))
        (by simp; omega)
  | tuple4 a b c d, v, h => by
      simp only [encode, Tuple4.encode, List.length_append] at h
      exact roundTrips_tuple4 (roundTrips_encode a v.1 (by omega))
        (roundTrips_encode b v.2.1 (by omega)) (roundTrips_encode c v.2.2.1 (by omega))
        (roundTrips_encode d v.2.2.2 (by omega)) (by simp; omega)

/-- The RLP round trip, with any bytes after the encoding and without. -/
theorem decode_encode (t : RLPType) (v : t.Val) (hv : (t.encode v).length < 2 ^ 64) :
    (∀ rest, t.decodeUnfinished (t.encode v ++ rest) = .ok (v, rest)) ∧
      decode t.decodeUnfinished (t.encode v) = .ok v :=
  ⟨roundTrips_encode t v hv, decode_of_roundTrips (roundTrips_encode t v hv)⟩

theorem decode_encode_pair :
    ((tuple2 u8 u16).encode (61, 75)).length < 2 ^ 64 ∧
      decode (tuple2 u8 u16).decodeUnfinished ((tuple2 u8 u16).encode (61, 75)) = .ok (61, 75) :=
  ⟨by decide, (decode_encode (tuple2 u8 u16) (61, 75) (by decide)).2⟩

end RLPType

end Ethrex.Rlp
