/-
# `Ethrex.P2p.Discv4RoundTrip` — discovery packets written and read back

The writing side of discovery v4: the RLP encoders of the six messages and
of `Endpoint`, `Node` and `NodeRecord` (`discv4.rs`, `types.rs`), and
`Message::encode_with_header`, which prefixes the packet type, signs the
Keccak of type and message, and puts the Keccak of signature, type and
message in front.

`Packet.decode_encodeWithHeader` reads every such packet back: the message
is the one written, the hash is the packet's first 32 bytes, and the node
id is the signing key's, assuming that key recovery inverts signing
(`DiscSigner.RecoversSigner`).  A message is readable when its encoding
is shorter than `2^64` bytes, as every byte slice is, and for an
`ENRResponse`, when the record is one the record decoder accepts
(`NodeRecord.Encodable`): its `id` pair holds the string `id`, each value
is one RLP item, and the encoding has at most 300 bytes.
The `id` field is not written; the decoder takes it from the pair.
-/
import Ethrex.P2p.Discv4
import Ethrex.Trie.NodeCodec

namespace Ethrex.P2p

open Ethrex.Rlp Codec
open Ethrex.Mpt (IsItem)

/-! ## Encoders -/

/-- `impl RLPEncode for Endpoint`. -/
def Endpoint.encode (self : Endpoint) : Bytes :=
  Encoder.new.encodeField Ip.encode self.ip |>.encodeField U16.encode self.udpPort
    |>.encodeField U16.encode self.tcpPort |>.finish

/-- `impl RLPEncode for Node`. -/
def Node.encode (self : Node) : Bytes :=
  Encoder.new.encodeField Ip.encode self.ip |>.encodeField U16.encode self.udpPort
    |>.encodeField U16.encode self.tcpPort |>.encodeField Fixed.encode self.nodeId |>.finish

/-- `impl RLPEncode for NodeRecord`: the `id` field is not written. -/
def NodeRecord.encode (self : NodeRecord) : Bytes :=
  Encoder.new.encodeField Fixed.encode self.signature |>.encodeField U64.encode self.seq
    |>.encodeKeyValueList self.pairs |>.finish

/-- `impl RLPEncode for PingMessage`. -/
def PingMessage.encode (self : PingMessage) : Bytes :=
  Encoder.new.encodeField U8.encode self.version |>.encodeField Endpoint.encode self.from
    |>.encodeField Endpoint.encode self.to |>.encodeField U64.encode self.expiration
    |>.encodeOptionalField U64.encode self.enrSeq |>.finish

/-- `impl RLPEncode for PongMessage`. -/
def PongMessage.encode (self : PongMessage) : Bytes :=
  Encoder.new.encodeField Endpoint.encode self.to |>.encodeField Fixed.encode self.pingHash
    |>.encodeField U64.encode self.expiration |>.encodeOptionalField U64.encode self.enrSeq |>.finish

/-- `impl RLPEncode for FindNodeMessage`. -/
def FindNodeMessage.encode (self : FindNodeMessage) : Bytes :=
  Encoder.new.encodeField Fixed.encode self.target |>.encodeField U64.encode self.expiration |>.finish

/-- `impl RLPEncode for NeighborsMessage`. -/
def NeighborsMessage.encode (self : NeighborsMessage) : Bytes :=
  Encoder.new.encodeField (Vec.encode Node.encode) self.nodes |>.encodeField U64.encode self.expiration
    |>.finish

/-- `impl RLPEncode for ENRRequestMessage`. -/
def ENRRequestMessage.encode (self : ENRRequestMessage) : Bytes :=
  Encoder.new.encodeField U64.encode self.expiration |>.finish

/-- `impl RLPEncode for ENRResponseMessage`. -/
def ENRResponseMessage.encode (self : ENRResponseMessage) : Bytes :=
  Encoder.new.encodeField Fixed.encode self.requestHash |>.encodeField NodeRecord.encode self.nodeRecord
    |>.finish

/-- `Message::packet_type`. -/
def Message.packetType : Message → UInt8
  | .ping _ => 0x01
  | .pong _ => 0x02
  | .findNode _ => 0x03
  | .neighbors _ => 0x04
  | .enrRequest _ => 0x05
  | .enrResponse _ => 0x06

/-- `Message::encode_with_type`. -/
def Message.encodeWithType (self : Message) : Bytes :=
  self.packetType :: match self with
    | .ping msg => msg.encode
    | .pong msg => msg.encode
    | .findNode msg => msg.encode
    | .enrRequest msg => msg.encode
    | .enrResponse msg => msg.encode
    | .neighbors msg => msg.encode

/-- `Signature::to_bytes`: `r` and `s`, 32 bytes each, big-endian. -/
def Signature.toBytes (self : Signature) : Bytes :=
  BigEndian.toBytes 32 self.r ++ BigEndian.toBytes 32 self.s

/-- `k256` reads back what it writes: a signature's 64 bytes parse to it,
and a recovery id's byte to it. -/
structure Secp256k1.ReadsBack {SK PK : Type} (c : Secp256k1 SK PK) : Prop where
  signature : ∀ sig : Signature, c.signatureFromSlice sig.toBytes = some sig
  recoveryId : ∀ rid : RecoveryId, c.recoveryIdFromByte rid.byte = some rid

/-- The primitives of packet encoding: those of decoding, signing with a
secret key, and the public key of a secret key. -/
structure DiscSigner (SK PK : Type) extends DiscCrypto SK PK where
  /-- `SigningKey::sign_prehash_recoverable`. -/
  signPrehashRecoverable : SK → Bytes → Signature × RecoveryId
  /-- `SigningKey::verifying_key`. -/
  verifyingKey : SK → PK

/-- Key recovery inverts signing: a signature of a digest recovers the
public key of the key that made it. -/
def DiscSigner.RecoversSigner {SK PK : Type} (signer : DiscSigner SK PK) : Prop :=
  ∀ nodeSigner digest, signer.recoverFromPrehash digest (signer.signPrehashRecoverable nodeSigner digest).1
    (signer.signPrehashRecoverable nodeSigner digest).2 = .ok (signer.verifyingKey nodeSigner)

/-- The records the record decoder reads back: the first pair under the key
`id` holds the record's `id` as an RLP string, every value is one RLP item,
and the record is no longer than `MAX_NODE_RECORD_ENCODED_SIZE`. -/
structure NodeRecord.Encodable (r : NodeRecord) : Prop where
  id : ∃ pair, r.pairs.find? (fun p => p.1 == idKey) = some pair ∧
    (decode Str.decodeUnfinished pair.2).toOption = some r.id
  items : ∀ pair ∈ r.pairs, IsItem pair.2
  size : r.encode.length ≤ maxNodeRecordEncodedSize

/-- What `decode_with_type` needs of a message besides its length: an
`ENRResponse`'s record must be one the record decoder reads back. -/
def Message.Encodable : Message → Prop
  | .enrResponse msg => msg.nodeRecord.Encodable
  | _ => True

/-- `Message::encode_with_header`: 65 bytes kept for the signature, the
type and the message after them; the signature of their Keccak is written
in, and the Keccak of it all goes in front. -/
def Message.encodeWithHeader {SK PK : Type} (signer : DiscSigner SK PK) (self : Message) (nodeSigner : SK) :
    Bytes :=
  let signatureSize := 65
  let data : Bytes := List.replicate signatureSize 0 ++ self.encodeWithType
  let digest := signer.keccak (data.drop signatureSize)
  let (signature, recoveryId) := signer.signPrehashRecoverable nodeSigner digest.toList
  let data := signature.toBytes ++ [recoveryId.byte] ++ data.drop signatureSize
  let hash := signer.keccak data
  hash.toList ++ data

/-! ## The fields and the messages read back -/

section RoundTrip

theorem Endpoint.encode_ne_nil (e : Endpoint) : e.encode ≠ [] := Encoder.finish_ne_nil _

theorem Node.encode_ne_nil (n : Node) : n.encode ≠ [] := Encoder.finish_ne_nil _

theorem roundTrips_endpoint {e : Endpoint} (h : e.encode.length < 2 ^ 64) :
    RoundTrips Endpoint.encode Endpoint.decodeUnfinished e := by
  intro rest
  rw [Endpoint.decodeUnfinished, Endpoint.encode, Encoder.new_finish _ _ (Encoder.length_tempBuf_lt h)]
  simp [roundTrips_ip, roundTrips_u16]

theorem roundTrips_node {n : Node} (h : n.encode.length < 2 ^ 64) :
    RoundTrips Node.encode Node.decodeUnfinished n := by
  intro rest
  rw [Node.decodeUnfinished, Node.encode, Encoder.new_finish _ _ (Encoder.length_tempBuf_lt h)]
  simp [roundTrips_ip, roundTrips_u16, roundTrips_fixed (by decide : (64 : Nat) < 2 ^ 64)]
  rfl

theorem roundTrips_ping {m : PingMessage} (h : m.encode.length < 2 ^ 64) :
    RoundTrips PingMessage.encode PingMessage.decodeUnfinished m := by
  intro rest
  obtain ⟨hfrom, hto⟩ : m.from.encode.length < 2 ^ 64 ∧ m.to.encode.length < 2 ^ 64 := by
    simp only [PingMessage.encode, Encoder.finish, Encoder.encodeField_tempBuf,
      Encoder.encodeOptionalField_tempBuf, Encoder.new_tempBuf, List.length_append] at h
    omega
  rw [PingMessage.decodeUnfinished, PingMessage.encode, Encoder.new_finish _ _ (Encoder.length_tempBuf_lt h)]
  simp [roundTrips_u8, roundTrips_endpoint hfrom, roundTrips_endpoint hto, roundTrips_u64]
  -- the sequence number, when absent, is the last field: nothing follows
  rw [Decoder.decodeOptionalField_elim_last (fun v _ => roundTrips_u64 v) (fun _ => ⟨_, rfl⟩)]
  exact ⟨rfl, rfl⟩

theorem roundTrips_pong {m : PongMessage} (h : m.encode.length < 2 ^ 64) :
    RoundTrips PongMessage.encode PongMessage.decodeUnfinished m := by
  intro rest
  have hto : m.to.encode.length < 2 ^ 64 := by
    simp only [PongMessage.encode, Encoder.finish, Encoder.encodeField_tempBuf,
      Encoder.encodeOptionalField_tempBuf, Encoder.new_tempBuf, List.length_append] at h
    omega
  rw [PongMessage.decodeUnfinished, PongMessage.encode, Encoder.new_finish _ _ (Encoder.length_tempBuf_lt h)]
  simp [roundTrips_endpoint hto, roundTrips_fixed (by decide : (32 : Nat) < 2 ^ 64), roundTrips_u64]
  rw [Decoder.decodeOptionalField_elim_last (fun v _ => roundTrips_u64 v) (fun _ => ⟨_, rfl⟩)]
  exact ⟨rfl, rfl⟩

theorem roundTrips_findNode {m : FindNodeMessage} (h : m.encode.length < 2 ^ 64) :
    RoundTrips FindNodeMessage.encode FindNodeMessage.decodeUnfinished m := by
  intro rest
  rw [FindNodeMessage.decodeUnfinished, FindNodeMessage.encode,
    Encoder.new_finish _ _ (Encoder.length_tempBuf_lt h)]
  simp [roundTrips_fixed (by decide : (64 : Nat) < 2 ^ 64), roundTrips_u64]
  rfl

theorem roundTrips_neighbors {m : NeighborsMessage} (h : m.encode.length < 2 ^ 64) :
    RoundTrips NeighborsMessage.encode NeighborsMessage.decodeUnfinished m := by
  intro rest
  have hnodes : (Vec.encode Node.encode m.nodes).length < 2 ^ 64 := by
    simp only [NeighborsMessage.encode, Encoder.finish, Encoder.encodeField_tempBuf,
      Encoder.new_tempBuf, List.length_append] at h
    omega
  rw [NeighborsMessage.decodeUnfinished, NeighborsMessage.encode,
    Encoder.new_finish _ _ (Encoder.length_tempBuf_lt h)]
  simp [roundTrips_vec_of_length (fun n _ hn => roundTrips_node hn) Node.encode_ne_nil hnodes,
    roundTrips_u64]
  rfl

theorem roundTrips_enrRequest {m : ENRRequestMessage} (h : m.encode.length < 2 ^ 64) :
    RoundTrips ENRRequestMessage.encode ENRRequestMessage.decodeUnfinished m := by
  intro rest
  rw [ENRRequestMessage.decodeUnfinished, ENRRequestMessage.encode,
    Encoder.new_finish _ _ (Encoder.length_tempBuf_lt h)]
  simp [roundTrips_u64]
  rfl

theorem decodeNodeRecordOptionalFields_keyValueList (pairs : List (Bytes × Bytes))
    (hkeys : ∀ pair ∈ pairs, pair.1.length < 2 ^ 64) (hitems : ∀ pair ∈ pairs, IsItem pair.2)
    (acc : List (Bytes × Bytes)) (rem : Bytes) :
    decodeNodeRecordOptionalFields acc ⟨pairs.flatMap (fun pair => ByteString.encode pair.1 ++ pair.2), rem⟩ =
      .ok (acc ++ pairs, ⟨[], rem⟩) := by
  induction pairs generalizing acc with
  | nil =>
    -- no key is read from an empty payload
    have hnone : (Decoder.mk [] rem).decodeOptionalField ByteString.decodeUnfinished = (none, ⟨[], rem⟩) :=
      Decoder.decodeOptionalField_of_error (e := .invalidLength) rfl
    rw [decodeNodeRecordOptionalFields]
    split
    · rename_i k d₁ hkey
      rw [List.flatMap_nil, hnone] at hkey
      cases hkey
    · rename_i d₁ hkey
      rw [List.flatMap_nil, hnone] at hkey
      cases hkey
      rw [List.append_nil]
  | cons pair rest ih =>
    obtain ⟨key, value⟩ := pair
    have hkey : (Decoder.mk ((key, value) :: rest |>.flatMap fun pair => ByteString.encode pair.1 ++ pair.2)
        rem).decodeOptionalField ByteString.decodeUnfinished =
        (some key, ⟨value ++ rest.flatMap fun pair => ByteString.encode pair.1 ++ pair.2, rem⟩) := by
      rw [List.flatMap_cons, List.append_assoc]
      exact Decoder.decodeOptionalField_mk (roundTrips_byteString (hkeys _ List.mem_cons_self)) _ rem
    have hvalue : (Decoder.mk (value ++ rest.flatMap fun pair => ByteString.encode pair.1 ++ pair.2)
        rem).getEncodedItem = .ok (value, ⟨rest.flatMap fun pair => ByteString.encode pair.1 ++ pair.2, rem⟩) := by
      simp [Decoder.getEncodedItem, (hitems _ List.mem_cons_self).2]
    have hnext := ih (fun p hp => hkeys p (List.mem_cons_of_mem _ hp))
      (fun p hp => hitems p (List.mem_cons_of_mem _ hp)) (acc ++ [(key, value)])
    rw [decodeNodeRecordOptionalFields]
    split
    · rename_i k d₁ hkey'
      rw [hkey] at hkey'
      simp only [Prod.mk.injEq, Option.some.injEq] at hkey'
      obtain ⟨rfl, rfl⟩ := hkey'
      split
      · rename_i v d₂ hval
        rw [hvalue] at hval
        simp only [Except.ok.injEq, Prod.mk.injEq] at hval
        obtain ⟨rfl, rfl⟩ := hval
        rw [hnext, List.append_assoc, List.singleton_append]
      · rename_i e hval
        rw [hvalue] at hval
        cases hval
    · rename_i d₁ hkey'
      rw [hkey] at hkey'
      cases hkey'

theorem NodeRecord.decodeUnfinished_encode {r : NodeRecord} (hr : r.Encodable) :
    NodeRecord.decodeUnfinished r.encode = .ok (r, []) := by
  have hsize := hr.size
  have hlen : r.encode.length < 2 ^ 64 := by
    rw [maxNodeRecordEncodedSize] at hsize
    omega
  -- every key is part of the record, so shorter than it
  have hkeys : ∀ pair ∈ r.pairs, pair.1.length < 2 ^ 64 := by
    intro pair hpair
    have hpart : (ByteString.encode pair.1 ++ pair.2).length ≤
        (r.pairs.flatMap fun pair => ByteString.encode pair.1 ++ pair.2).length := by
      rw [List.length_flatMap]
      exact List.le_sum_of_mem (List.mem_map_of_mem (f := fun pair => (ByteString.encode pair.1 ++ pair.2).length) hpair)
    have hkey := le_length_slice_encode pair.1
    simp only [NodeRecord.encode, Encoder.finish, Encoder.encodeKeyValueList_tempBuf,
      Encoder.encodeField_tempBuf, Encoder.new_tempBuf, List.length_append] at hlen hpart
    rw [ByteString.encode] at hpart
    omega
  obtain ⟨⟨key, id⟩, hfind, hid⟩ := hr.id
  unfold NodeRecord.decodeUnfinished
  rw [if_neg (by omega), NodeRecord.encode, Encoder.new_finish_nil _ (Encoder.length_tempBuf_lt hlen)]
  simp only [Encoder.encodeKeyValueList_tempBuf, Encoder.encodeField_tempBuf, Encoder.new_tempBuf,
    List.nil_append, List.append_assoc, Outcome.ofExcept_ok, Outcome.ok_bind,
    Decoder.decodeField_mk _ (roundTrips_fixed (by decide : (64 : Nat) < 2 ^ 64) _),
    Decoder.decodeField_mk _ (roundTrips_u64 _)]
  rw [decodeNodeRecordOptionalFields_keyValueList r.pairs hkeys hr.items [] [], Outcome.ok_bind]
  simp only [List.nil_append, hfind, hid, Outcome.unwrap_some, Outcome.ok_bind, Decoder.finish_mk_nil,
    Outcome.ofExcept_ok, Outcome.pure_eq_ok]

theorem ENRResponseMessage.decodeUnfinished_encode {m : ENRResponseMessage} (hr : m.nodeRecord.Encodable)
    (rest : Bytes) : ENRResponseMessage.decodeUnfinished (m.encode ++ rest) = .ok (m, rest) := by
  have hlen : (Encoder.new.encodeField Fixed.encode m.requestHash
      |>.encodeField NodeRecord.encode m.nodeRecord).tempBuf.length < 2 ^ 64 := by
    have hsize := hr.size
    have hhash := length_slice_encode_le m.requestHash.toList
    simp only [Encoder.encodeField_tempBuf, Encoder.new_tempBuf, List.length_append, List.nil_append,
      Fixed.encode, List.Vector.toList_length, maxNodeRecordEncodedSize] at hsize hhash ⊢
    omega
  unfold ENRResponseMessage.decodeUnfinished
  rw [ENRResponseMessage.encode, Encoder.new_finish _ _ hlen]
  simp only [Encoder.encodeField_tempBuf, Encoder.new_tempBuf, List.nil_append, Outcome.ofExcept_ok,
    Outcome.ok_bind, Decoder.decodeField_mk _ (roundTrips_fixed (by decide : (32 : Nat) < 2 ^ 64) _)]
  rw [decodeFieldOutcome, NodeRecord.decodeUnfinished_encode hr]
  rfl

theorem eq_ok_of_roundTrips {α : Type} {enc : α → Bytes} {dec : DecodeFn α} {v : α}
    (h : RoundTrips enc dec v) : dec (enc v) = .ok (v, []) := by
  simpa using h []

theorem Message.decodeWithType_encodeWithType {m : Message} (hm : m.Encodable)
    (hlen : m.encodeWithType.length < 2 ^ 64) :
    Message.decodeWithType m.packetType (m.encodeWithType.drop 1) = .ok m := by
  -- the message after its type byte fits as well
  have hbody : (m.encodeWithType.drop 1).length < 2 ^ 64 := by
    rw [List.length_drop]
    omega
  cases m with
  | ping msg =>
    simp [Message.decodeWithType, Message.packetType, Message.encodeWithType,
      eq_ok_of_roundTrips (roundTrips_ping hbody)]
  | pong msg =>
    simp [Message.decodeWithType, Message.packetType, Message.encodeWithType,
      eq_ok_of_roundTrips (roundTrips_pong hbody)]
  | findNode msg =>
    simp [Message.decodeWithType, Message.packetType, Message.encodeWithType,
      eq_ok_of_roundTrips (roundTrips_findNode hbody)]
  | neighbors msg =>
    simp [Message.decodeWithType, Message.packetType, Message.encodeWithType,
      eq_ok_of_roundTrips (roundTrips_neighbors hbody)]
  | enrRequest msg =>
    simp [Message.decodeWithType, Message.packetType, Message.encodeWithType,
      eq_ok_of_roundTrips (roundTrips_enrRequest hbody)]
  | enrResponse msg =>
    have h := ENRResponseMessage.decodeUnfinished_encode (m := msg) hm []
    rw [List.append_nil] at h
    simp [Message.decodeWithType, Message.packetType, Message.encodeWithType, h]

end RoundTrip

/-! ## Packets -/

section Packet

variable {SK PK : Type} (signer : DiscSigner SK PK)

theorem length_signature_toBytes (sig : Signature) : sig.toBytes.length = 64 := by
  simp [Signature.toBytes]

theorem Message.encodeWithHeader_eq (m : Message) (nodeSigner : SK) :
    m.encodeWithHeader signer nodeSigner =
      let signed := signer.signPrehashRecoverable nodeSigner (signer.keccak m.encodeWithType).toList
      let body := signed.1.toBytes ++ [signed.2.byte] ++ m.encodeWithType
      (signer.keccak body).toList ++ body := by
  simp only [Message.encodeWithHeader, List.drop_left' (List.length_replicate (n := 65) (a := (0 : UInt8)))]

/-- Every message the node writes is read back by `Packet::decode`: the
message itself, the hash in the first 32 bytes, the signature after it, and
the node id of the signing key, provided key recovery inverts signing. -/
theorem Packet.decode_encodeWithHeader (hsigner : signer.RecoversSigner)
    (hreads : signer.toSecp256k1.ReadsBack) {m : Message} (hm : m.Encodable)
    (hlen : m.encodeWithType.length < 2 ^ 64) (nodeSigner : SK) :
    Packet.decode signer.toDiscCrypto (m.encodeWithHeader signer nodeSigner) =
      .ok ⟨(m.encodeWithHeader signer nodeSigner).take 32, ((m.encodeWithHeader signer nodeSigner).take 97).drop 32,
        m, signer.pubkey2id (signer.verifyingKey nodeSigner)⟩ := by
  rw [Message.encodeWithHeader_eq]
  generalize hsigned : signer.signPrehashRecoverable nodeSigner (signer.keccak m.encodeWithType).toList = signed
  obtain ⟨sig, rid⟩ := signed
  have hrecover := hsigner nodeSigner (signer.keccak m.encodeWithType).toList
  rw [hsigned] at hrecover
  dsimp only at hrecover ⊢
  have hsigLen := length_signature_toBytes sig
  have htyped : m.encodeWithType = m.packetType :: m.encodeWithType.drop 1 := by
    cases m <;> rfl
  have hH : (signer.keccak (sig.toBytes ++ [rid.byte] ++ m.encodeWithType)).toList.length = 32 :=
    List.Vector.toList_length _
  -- the parts of the body `Packet::decode` reads
  have hsig : (sig.toBytes ++ [rid.byte] ++ m.encodeWithType).take 64 = sig.toBytes := by
    rw [List.append_assoc, List.take_left' hsigLen]
  have hrid : ((sig.toBytes ++ [rid.byte] ++ m.encodeWithType).take 65).getD 64 0 = rid.byte := by
    rw [List.append_assoc, List.take_append, List.take_of_length_le (by omega), hsigLen,
      List.getD_append_right _ _ _ _ (by omega), hsigLen]
    simp
  have hmsg : (sig.toBytes ++ [rid.byte] ++ m.encodeWithType).drop 65 = m.encodeWithType := by
    rw [List.append_assoc, List.drop_append, List.drop_of_length_le (by omega), hsigLen]
    rfl
  have htype : (sig.toBytes ++ [rid.byte] ++ m.encodeWithType).getD 65 0 = m.packetType := by
    rw [List.getD_append_right _ _ _ _ (by simp [hsigLen]), List.length_append, hsigLen]
    rw [htyped]
    rfl
  have hrest : (sig.toBytes ++ [rid.byte] ++ m.encodeWithType).drop 66 = m.encodeWithType.drop 1 := by
    rw [List.append_assoc, List.drop_append, List.drop_of_length_le (by omega), hsigLen]
    rfl
  have hbody : 66 ≤ (sig.toBytes ++ [rid.byte] ++ m.encodeWithType).length := by
    rw [htyped]
    simp only [List.length_append, hsigLen, List.length_cons]
    omega
  -- the hash and the signature the packet records are the datagram's first 97 bytes
  have hsignature : List.drop 32 (List.take 97 ((signer.keccak (sig.toBytes ++ [rid.byte] ++ m.encodeWithType)).toList ++
      (sig.toBytes ++ [rid.byte] ++ m.encodeWithType))) =
        (sig.toBytes ++ [rid.byte] ++ m.encodeWithType).take 65 := by
    rw [List.take_append, List.take_of_length_le (by omega), hH, List.drop_left' hH]
  rw [List.take_left' hH, hsignature]
  rw [Packet.decode_hashed signer.toDiscCrypto hbody, hsig, hrid, hreads.signature,
    hreads.recoveryId, hmsg, htype, hrest]
  simp only [Outcome.unwrap_some, Outcome.ok_bind, hrecover, Except.mapError, Outcome.ofExcept_ok,
    Message.decodeWithType_encodeWithType hm hlen, Outcome.mapError_ok, Outcome.pure_eq_ok]

end Packet

theorem parseScalarPair_toBytes (sig : Signature) : parseScalarPair sig.toBytes = some sig := by
  obtain ⟨r, s, r_pos, r_lt, s_pos, s_lt⟩ := sig
  have horder : secp256k1Order < 256 ^ 32 := by decide
  have hr : BigEndian.ofBytes ((Signature.toBytes ⟨r, s, r_pos, r_lt, s_pos, s_lt⟩).take 32) = r := by
    rw [Signature.toBytes, List.take_left' (BigEndian.length_toBytes 32 r),
      BigEndian.ofBytes_toBytes_of_lt (by omega)]
  have hs : BigEndian.ofBytes ((Signature.toBytes ⟨r, s, r_pos, r_lt, s_pos, s_lt⟩).drop 32) = s := by
    rw [Signature.toBytes, List.drop_left' (BigEndian.length_toBytes 32 r)]
    exact BigEndian.ofBytes_toBytes_of_lt (show s < 256 ^ 32 by omega)
  unfold parseScalarPair
  rw [dif_pos ⟨length_signature_toBytes _, by rw [hr, hs]; exact ⟨r_pos, r_lt, s_pos, s_lt⟩⟩]
  simp only [Option.some.injEq, Signature.mk.injEq]
  exact ⟨hr, hs⟩

theorem unitSecp256k1_readsBack : unitSecp256k1.ReadsBack := by
  -- the curve's two parsers by name, so that no parse is evaluated
  have hsig : unitSecp256k1.signatureFromSlice = parseScalarPair := rfl
  have hrid : unitSecp256k1.recoveryIdFromByte = fun b => if h : b ≤ 3 then some ⟨b, h⟩ else none := rfl
  refine ⟨fun sig => ?_, fun rid => ?_⟩
  · rw [hsig]
    exact parseScalarPair_toBytes sig
  · rw [hrid]
    exact dif_pos rid.le_three

/-- The signature with `r = s = 1`. -/
def oneSignature : Signature := ⟨1, 1, by decide, by decide, by decide, by decide⟩

/-- Signing on one-point key types: every digest gets `oneSignature` and
recovery id 0, and the constant recovery of `unitDiscCrypto` gives the one
public key back. -/
def unitDiscSigner : DiscSigner Unit Unit :=
  { unitDiscCrypto with
    signPrehashRecoverable := fun _ _ => (oneSignature, ⟨0, by decide⟩)
    verifyingKey := fun _ => () }

theorem length_loopback : [(127 : UInt8), 0, 0, 1].length = 4 := rfl

/-- A ping between two local endpoints, without a sequence number. -/
def localPing : Message :=
  .ping ⟨4, ⟨.v4 ⟨⟨[127, 0, 0, 1], length_loopback⟩⟩, 30303, 30303⟩,
    ⟨.v4 ⟨⟨[127, 0, 0, 1], length_loopback⟩⟩, 30304, 30304⟩, 60, none⟩

theorem localPing_packet_decodes :
    Packet.decode unitDiscSigner.toDiscCrypto (localPing.encodeWithHeader unitDiscSigner ()) =
      .ok ⟨(localPing.encodeWithHeader unitDiscSigner ()).take 32,
        ((localPing.encodeWithHeader unitDiscSigner ()).take 97).drop 32, localPing,
        unitDiscSigner.pubkey2id ()⟩ :=
  Packet.decode_encodeWithHeader unitDiscSigner (fun _ _ => rfl) unitSecp256k1_readsBack
    (show localPing.Encodable from trivial) (by decide) ()

end Ethrex.P2p
