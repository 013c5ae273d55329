/-
# `Ethrex.P2p.Discv4` — decoding discovery packets

`Packet::decode` (`discv4.rs`) reads `hash || signature || packet-type ||
packet-data` off a UDP datagram: it checks the size, checks that the hash is
the Keccak of everything after it, parses the signature and the recovery id
with `unwrap()`, recovers the sender's key and decodes the message.  The
messages are the six of discovery v4; the `ENRResponse` carries a
`NodeRecord` (`types.rs`), whose decoder reads the key/value pairs of the
record with `get_encoded_item().unwrap()` and its `id` with
`String::decode(id).unwrap()`.

A sender chooses every byte of the datagram, the hash included, so each
`unwrap` is reachable: a signature that `Signature::from_slice` refuses, one
whose `r` is zero for instance, panics (`Packet.decode_of_signature`), and so
does a record whose last key has no value
(`decodeNodeRecordOptionalFields_of_dangling_key`) or whose `id` is not an
RLP string (`NodeRecord.decodeUnfinished_of_id`).

Keccak and the curve library, its parsers included, are parameters.  `decode_node_record_optional_fields`
recurses on the decoder; its termination is the length of the payload, which
every key read shortens.
-/
import Ethrex.P2p.Ecdsa
import Ethrex.P2p.Handshake
import Ethrex.Lib.Outcome
import Ethrex.Rlp.Item
import Ethrex.Rlp.Structs
import Mathlib.Data.List.GetD

namespace Ethrex.P2p

open Ethrex.Rlp

/-- `PacketDecodeErr`. -/
inductive PacketDecodeErr where
  | rlpDecodeError (e : RLPDecodeError)
  | invalidSize
  | hashMismatch
  | invalidSignature

/-- `Endpoint`. -/
structure Endpoint where
  ip : IpAddr
  udpPort : UInt16
  tcpPort : UInt16

/-- `Node`. -/
structure Node where
  ip : IpAddr
  udpPort : UInt16
  tcpPort : UInt16
  nodeId : FixedBytes 64

/-- `NodeRecord`: the record's signature and sequence number, its `id`, and
every key/value pair as read, each value with its RLP header. -/
structure NodeRecord where
  signature : FixedBytes 64
  seq : UInt64
  id : String
  pairs : List (Bytes × Bytes)

/-- `PingMessage`. -/
structure PingMessage where
  version : UInt8
  «from» : Endpoint
  «to» : Endpoint
  expiration : UInt64
  enrSeq : Option UInt64

/-- `PongMessage`. -/
structure PongMessage where
  «to» : Endpoint
  pingHash : H256
  expiration : UInt64
  enrSeq : Option UInt64

/-- `FindNodeMessage`. -/
structure FindNodeMessage where
  target : FixedBytes 64
  expiration : UInt64

/-- `NeighborsMessage`. -/
structure NeighborsMessage where
  nodes : List Node
  expiration : UInt64

/-- `ENRRequestMessage`. -/
structure ENRRequestMessage where
  expiration : UInt64

/-- `ENRResponseMessage`. -/
structure ENRResponseMessage where
  requestHash : H256
  nodeRecord : NodeRecord

/-- `discv4::Message`. -/
inductive Message where
  | ping (m : PingMessage)
  | pong (m : PongMessage)
  | findNode (m : FindNodeMessage)
  | neighbors (m : NeighborsMessage)
  | enrRequest (m : ENRRequestMessage)
  | enrResponse (m : ENRResponseMessage)

/-- `Packet`. -/
structure Packet where
  hash : Bytes
  signature : Bytes
  message : Message
  nodeId : FixedBytes 64

/-- `MAX_NODE_RECORD_ENCODED_SIZE`. -/
def maxNodeRecordEncodedSize : Nat := 300

/-- `"id".as_bytes()`. -/
def idKey : Bytes := [0x69, 0x64]

/-! ## Decoders that return values or errors -/

/-- `impl RLPDecode for Endpoint`: the list must hold exactly the three fields. -/
def Endpoint.decodeUnfinished (rlp : Bytes) : Except RLPDecodeError (Endpoint × Bytes) := do
  let decoder ← Decoder.new rlp
  let (ip, decoder) ← decoder.decodeField "ip" "IpAddr" Ip.decodeUnfinished
  let (udpPort, decoder) ← decoder.decodeField "udp_port" "u16" U16.decodeUnfinished
  let (tcpPort, decoder) ← decoder.decodeField "tcp_port" "u16" U16.decodeUnfinished
  let remaining ← decoder.finish
  pure (⟨ip, udpPort, tcpPort⟩, remaining)

/-- `impl RLPDecode for Node`. -/
def Node.decodeUnfinished (rlp : Bytes) : Except RLPDecodeError (Node × Bytes) := do
  let decoder ← Decoder.new rlp
  let (ip, decoder) ← decoder.decodeField "ip" "IpAddr" Ip.decodeUnfinished
  let (udpPort, decoder) ← decoder.decodeField "upd_port" "u16" U16.decodeUnfinished
  let (tcpPort, decoder) ← decoder.decodeField "tcp_port" "u16" U16.decodeUnfinished
  let (nodeId, decoder) ← decoder.decodeField "node_id" "H512" (Fixed.decodeUnfinished 64)
  pure (⟨ip, udpPort, tcpPort, nodeId⟩, decoder.finishUnchecked)

/-- `impl RLPDecode for PingMessage`: elements after the known ones are ignored. -/
def PingMessage.decodeUnfinished (rlp : Bytes) : Except RLPDecodeError (PingMessage × Bytes) := do
  let decoder ← Decoder.new rlp
  let (version, decoder) ← decoder.decodeField "version" "u8" U8.decodeUnfinished
  let (fromEndpoint, decoder) ← decoder.decodeField "from" "Endpoint" Endpoint.decodeUnfinished
  let (toEndpoint, decoder) ← decoder.decodeField "to" "Endpoint" Endpoint.decodeUnfinished
  let (expiration, decoder) ← decoder.decodeField "expiration" "u64" U64.decodeUnfinished
  let (enrSeq, decoder) := decoder.decodeOptionalField U64.decodeUnfinished
  pure (⟨version, fromEndpoint, toEndpoint, expiration, enrSeq⟩, decoder.finishUnchecked)

/-- `impl RLPDecode for PongMessage`. -/
def PongMessage.decodeUnfinished (rlp : Bytes) : Except RLPDecodeError (PongMessage × Bytes) := do
  let decoder ← Decoder.new rlp
  let (toEndpoint, decoder) ← decoder.decodeField "to" "Endpoint" Endpoint.decodeUnfinished
  let (pingHash, decoder) ← decoder.decodeField "ping_hash" "H256" (Fixed.decodeUnfinished 32)
  let (expiration, decoder) ← decoder.decodeField "expiration" "u64" U64.decodeUnfinished
  let (enrSeq, decoder) := decoder.decodeOptionalField U64.decodeUnfinished
  pure (⟨toEndpoint, pingHash, expiration, enrSeq⟩, decoder.finishUnchecked)

/-- `impl RLPDecode for FindNodeMessage`. -/
def FindNodeMessage.decodeUnfinished (rlp : Bytes) : Except RLPDecodeError (FindNodeMessage × Bytes) := do
  let decoder ← Decoder.new rlp
  let (target, decoder) ← decoder.decodeField "target" "H512" (Fixed.decodeUnfinished 64)
  let (expiration, decoder) ← decoder.decodeField "expiration" "u64" U64.decodeUnfinished
  pure (⟨target, expiration⟩, decoder.finishUnchecked)

/-- `impl RLPDecode for NeighborsMessage`. -/
def NeighborsMessage.decodeUnfinished (rlp : Bytes) :
    Except RLPDecodeError (NeighborsMessage × Bytes) := do
  let decoder ← Decoder.new rlp
  let (nodes, decoder) ←
    decoder.decodeField "nodes" "Vec<Node>" (Vec.decodeUnfinished Node.decodeUnfinished)
  let (expiration, decoder) ← decoder.decodeField "expiration" "u64" U64.decodeUnfinished
  pure (⟨nodes, expiration⟩, decoder.finishUnchecked)

/-- `impl RLPDecode for ENRRequestMessage`. -/
def ENRRequestMessage.decodeUnfinished (rlp : Bytes) :
    Except RLPDecodeError (ENRRequestMessage × Bytes) := do
  let decoder ← Decoder.new rlp
  let (expiration, decoder) ← decoder.decodeField "expiration" "u64" U64.decodeUnfinished
  pure (⟨expiration⟩, decoder.finishUnchecked)

/-! ## The node record, which may panic -/

theorem decodeOptionalField_key_length_lt {d d' : Decoder} {k : Bytes}
    (h : d.decodeOptionalField ByteString.decodeUnfinished = (some k, d')) :
    d'.payload.length < d.payload.length := by
  unfold Decoder.decodeOptionalField at h
  split at h
  · rename_i field rest hdec
    simp only [Prod.mk.injEq, Option.some.injEq] at h
    rw [← h.2]
    exact decodeBytes_length_lt hdec
  · simp at h

theorem getEncodedItem_length_le {d d' : Decoder} {v : Bytes} (h : d.getEncodedItem = .ok (v, d')) :
    d'.payload.length ≤ d.payload.length := by
  obtain ⟨⟨item, rest⟩, hitem, h⟩ := Except.bind_eq_ok.mp h
  simp only [pure, Except.pure, Except.ok.injEq, Prod.mk.injEq] at h
  rw [← h.2]
  exact Nat.le_of_lt (getItemWithPrefix_length_lt hitem)

/-- `decode_node_record_optional_fields`: a key, then its value undecoded,
until no key can be read. -/
def decodeNodeRecordOptionalFields (pairs : List (Bytes × Bytes)) (decoder : Decoder) :
    Outcome RLPDecodeError (List (Bytes × Bytes) × Decoder) :=
  match hkey : decoder.decodeOptionalField ByteString.decodeUnfinished with
  | (some k, decoder₁) =>
    match hval : decoder₁.getEncodedItem with
    | .ok (value, decoder₂) =>
      have : decoder₂.payload.length < decoder.payload.length :=
        Nat.lt_of_le_of_lt (getEncodedItem_length_le hval) (decodeOptionalField_key_length_lt hkey)
      decodeNodeRecordOptionalFields (pairs ++ [(k, value)]) decoder₂
    -- `get_encoded_item().unwrap()`
    | .error _ => .panic
  | (none, decoder₁) => .ok (pairs, decoder₁)
termination_by decoder.payload.length

/-- `impl RLPDecode for NodeRecord`. -/
def NodeRecord.decodeUnfinished (rlp : Bytes) : Outcome RLPDecodeError (NodeRecord × Bytes) :=
  if rlp.length > maxNodeRecordEncodedSize then .err .invalidLength
  else do
    let decoder ← Outcome.ofExcept (Decoder.new rlp)
    let (signature, decoder) ←
      Outcome.ofExcept (decoder.decodeField "signature" "H512" (Fixed.decodeUnfinished 64))
    let (seq, decoder) ← Outcome.ofExcept (decoder.decodeField "seq" "u64" U64.decodeUnfinished)
    let (pairs, decoder) ← decodeNodeRecordOptionalFields [] decoder
    match pairs.find? (fun p => p.1 == idKey) with
    | some (_key, id) =>
      -- `String::decode(id).unwrap()`
      let id ← Outcome.unwrap (decode Str.decodeUnfinished id).toOption
      let remaining ← Outcome.ofExcept decoder.finish
      pure (⟨signature, seq, id, pairs⟩, remaining)
    | none => .err (.custom "Invalid node record, \x27id\x27 field missing")

/-- `Decoder::decode_field` on a field whose decoder may panic. -/
def decodeFieldOutcome {α : Type} (self : Decoder) (name typ : String)
    (dec : Bytes → Outcome RLPDecodeError (α × Bytes)) : Outcome RLPDecodeError (α × Decoder) :=
  match dec self.payload with
  | .ok (field, rest) => .ok (field, { self with payload := rest })
  | .err err => .err (fieldDecodeError name typ err)
  | .panic => .panic

/-- `impl RLPDecode for ENRResponseMessage`. -/
def ENRResponseMessage.decodeUnfinished (rlp : Bytes) :
    Outcome RLPDecodeError (ENRResponseMessage × Bytes) := do
  let decoder ← Outcome.ofExcept (Decoder.new rlp)
  let (requestHash, decoder) ←
    Outcome.ofExcept (decoder.decodeField "request_hash" "H256" (Fixed.decodeUnfinished 32))
  let (nodeRecord, decoder) ←
    decodeFieldOutcome decoder "node_record" "NodeRecord" NodeRecord.decodeUnfinished
  pure (⟨requestHash, nodeRecord⟩, decoder.finishUnchecked)

/-- `Message::decode_with_type`: what follows the message is ignored. -/
def Message.decodeWithType (packetType : UInt8) (msg : Bytes) : Outcome RLPDecodeError Message :=
  match packetType with
  | 0x01 => Outcome.ofExcept do
    let (pingMsg, _rest) ← PingMessage.decodeUnfinished msg
    pure (.ping pingMsg)
  | 0x02 => Outcome.ofExcept do
    let (pongMsg, _rest) ← PongMessage.decodeUnfinished msg
    pure (.pong pongMsg)
  | 0x03 => Outcome.ofExcept do
    let (findNodeMsg, _rest) ← FindNodeMessage.decodeUnfinished msg
    pure (.findNode findNodeMsg)
  | 0x04 => Outcome.ofExcept do
    let (neighborsMsg, _rest) ← NeighborsMessage.decodeUnfinished msg
    pure (.neighbors neighborsMsg)
  | 0x05 => Outcome.ofExcept do
    let (enrRequestMsg, _rest) ← ENRRequestMessage.decodeUnfinished msg
    pure (.enrRequest enrRequestMsg)
  | 0x06 => do
    let (enrResponseMsg, _rest) ← ENRResponseMessage.decodeUnfinished msg
    pure (.enrResponse enrResponseMsg)
  | _ => .err .malformedData

/-! ## Packets -/

/-- The primitives of packet decoding. -/
structure DiscCrypto (SK PK : Type) extends Secp256k1 SK PK where
  /-- `Keccak256::digest`. -/
  keccak : Bytes → H256

section Packet

variable {SK PK : Type} (crypto : DiscCrypto SK PK)

/-- `Packet::decode`. -/
def Packet.decode (encodedPacket : Bytes) : Outcome PacketDecodeErr Packet :=
  -- `hash_len`, `signature_len`, `header_size`
  if encodedPacket.length < 32 + 65 + 1 then .err .invalidSize
  else
    let hash := encodedPacket.take 32
    let signatureBytes := (encodedPacket.take 97).drop 32
    let packetType := encodedPacket.getD 97 0
    let encodedMsg := encodedPacket.drop 97
    let headerHash := crypto.keccak (encodedPacket.drop 32)
    if hash ≠ headerHash.toList then .err .hashMismatch
    else do
      let digest := crypto.keccak encodedMsg
      let signature ← Outcome.unwrap (crypto.signatureFromSlice (signatureBytes.take 64))
      let rid ← Outcome.unwrap (crypto.recoveryIdFromByte (signatureBytes.getD 64 0))
      let peerPk ← Outcome.ofExcept
        ((crypto.recoverFromPrehash digest.toList signature rid).mapError fun _ => .invalidSignature)
      let nodeId := crypto.pubkey2id peerPk
      let message ← (Message.decodeWithType packetType (encodedMsg.drop 1)).mapError .rlpDecodeError
      pure ⟨hash, signatureBytes, message, nodeId⟩

/-- A datagram that starts with the Keccak of the rest passes the size and
hash checks: what is decoded next is the signature in the first 65 bytes of
the rest. -/
theorem Packet.decode_hashed {body : Bytes} (hlen : 66 ≤ body.length) :
    Packet.decode crypto ((crypto.keccak body).toList ++ body) =
      (do
        let signature ← Outcome.unwrap (crypto.signatureFromSlice (body.take 64))
        let rid ← Outcome.unwrap (crypto.recoveryIdFromByte ((body.take 65).getD 64 0))
        let peerPk ← Outcome.ofExcept ((crypto.recoverFromPrehash (crypto.keccak (body.drop 65)).toList
          signature rid).mapError fun _ => .invalidSignature)
        let message ← (Message.decodeWithType (body.getD 65 0) (body.drop 66)).mapError .rlpDecodeError
        pure ⟨(crypto.keccak body).toList, body.take 65, message, crypto.pubkey2id peerPk⟩) := by
  have hH : (crypto.keccak body).toList.length = 32 := List.Vector.toList_length _
  have hsig : (((crypto.keccak body).toList ++ body).take 97).drop 32 = body.take 65 := by
    rw [List.take_append, List.take_of_length_le (by omega), hH, List.drop_left' hH]
  have hmsg : ((crypto.keccak body).toList ++ body).drop 97 = body.drop 65 := by
    rw [List.drop_append, List.drop_of_length_le (by omega), hH, List.nil_append]
  have htype : ((crypto.keccak body).toList ++ body).getD 97 0 = body.getD 65 0 := by
    rw [List.getD_append_right _ _ _ _ (by omega), hH]
  unfold Packet.decode
  rw [if_neg (by simp only [List.length_append, hH]; omega), List.take_left' hH,
    List.drop_left' hH, if_neg (not_not.mpr rfl)]
  simp only [hsig, hmsg, htype, List.drop_drop, List.take_take]
  rfl

/-- A signature whose scalars do not parse panics at
`Signature::from_slice(..).unwrap()`, whatever follows it. -/
theorem Packet.decode_of_signature {body : Bytes} (hlen : 66 ≤ body.length)
    (hsig : crypto.signatureFromSlice (body.take 64) = none) :
    Packet.decode crypto ((crypto.keccak body).toList ++ body) = .panic := by
  rw [Packet.decode_hashed crypto hlen, hsig]
  rfl

end Packet

theorem decodeNodeRecordOptionalFields_of_dangling_key {d d' : Decoder} {k : Bytes} {e : RLPDecodeError}
    (hkey : d.decodeOptionalField ByteString.decodeUnfinished = (some k, d'))
    (hval : d'.getEncodedItem = .error e) (pairs : List (Bytes × Bytes)) :
    decodeNodeRecordOptionalFields pairs d = .panic := by
  rw [decodeNodeRecordOptionalFields]
  split
  · rename_i k' d₁ hkey'
    rw [hkey] at hkey'
    simp only [Prod.mk.injEq, Option.some.injEq] at hkey'
    obtain ⟨rfl, rfl⟩ := hkey'
    split
    · rename_i v d₂ hval'
      rw [hval] at hval'
      exact (nomatch hval')
    · rfl
  · rename_i d₁ hkey'
    rw [hkey] at hkey'
    exact (nomatch hkey')

/-! ## Input from the network that panics -/

/-- Each parser of remote input has inputs on which it panics rather than
returning an `Err`: a frame whose header MAC is wrong, an auth message
announced and sent with fewer than 113 bytes, an announced handshake size
larger than the receive buffer, a discovery packet with a correct hash and
an unparsable signature, and a node record whose last key has no value. -/
theorem remote_input_reaches_panics :
    (∀ (crypto : FrameCrypto) (state : Established) (stream : Bytes), 32 ≤ stream.length →
      (stream.take 32).drop 16 ≠
        macDigest crypto (state.ingressMac ++ headerMacSeed crypto state.macKey state.ingressMac (stream.take 16)) →
      read crypto state stream = .panic) ∧
    (∀ {SK PK : Type} (crypto : HandshakeCrypto SK PK) (staticKey : SK) (sizeBytes body rest : Bytes),
      sizeBytes.length = 2 → BigEndian.ofBytes sizeBytes = body.length → body.length < 113 →
      receiveAuth crypto staticKey (sizeBytes ++ body ++ rest) = .panic) ∧
    (∀ sizeBytes rest : Bytes, sizeBytes.length = 2 → maxDiscPacketSize < BigEndian.ofBytes sizeBytes + 2 →
      receiveHandshakeMsg (sizeBytes ++ rest) = .panic) ∧
    (∀ {SK PK : Type} (crypto : DiscCrypto SK PK) (body : Bytes), 66 ≤ body.length →
      crypto.signatureFromSlice (body.take 64) = none →
      Packet.decode crypto ((crypto.keccak body).toList ++ body) = .panic) ∧
    (∀ (d d' : Decoder) (k : Bytes) (e : RLPDecodeError) (pairs : List (Bytes × Bytes)),
      d.decodeOptionalField ByteString.decodeUnfinished = (some k, d') → d'.getEncodedItem = .error e →
      decodeNodeRecordOptionalFields pairs d = .panic) :=
  ⟨fun crypto _ _ hlen hmac => read_of_headerMac crypto hlen hmac,
    fun crypto staticKey _ _ rest hlen hsize hshort => receiveAuth_of_length_lt crypto staticKey hlen hsize hshort rest,
    fun _ rest hlen hsize => receiveHandshakeMsg_of_size_gt hlen hsize rest,
    fun crypto _ hlen hsig => Packet.decode_of_signature crypto hlen hsig,
    fun _ _ _ _ pairs hkey hval => decodeNodeRecordOptionalFields_of_dangling_key hkey hval pairs⟩

/-- Curve operations on one-point key types, for fixed examples. -/
def unitSecp256k1 : Secp256k1 Unit Unit :=
  ⟨parseScalarPair, fun b => if h : b ≤ 3 then some ⟨b, h⟩ else none, fun _ _ _ => .ok (),
    fun _ => List.Vector.replicate 64 0, fun _ => some (), fun _ _ => List.Vector.replicate 32 0,
    fun _ => .ok ()⟩

/-- Handshake primitives with constant outputs. -/
def unitHandshakeCrypto : HandshakeCrypto Unit Unit :=
  ⟨unitSecp256k1, fun _ => List.replicate 32 0, fun _ => List.Vector.replicate 32 0,
    fun _ _ _ => List.Vector.replicate 32 0, fun _ _ c => c⟩

/-- Discovery primitives with a constant digest. -/
def unitDiscCrypto : DiscCrypto Unit Unit :=
  ⟨unitSecp256k1, fun _ => List.Vector.replicate 32 0⟩

theorem remote_input_panics_at :
    read zeroCrypto zeroSession (List.replicate 32 1) = .panic ∧
      receiveAuth unitHandshakeCrypto () ([0, 0] ++ [] ++ []) = .panic ∧
      receiveHandshakeMsg ([0xff, 0xff] ++ []) = .panic ∧
      Packet.decode unitDiscCrypto ((unitDiscCrypto.keccak (List.replicate 66 0)).toList ++ List.replicate 66 0) =
        .panic ∧
      decodeNodeRecordOptionalFields [] ⟨[0x82, 0x69, 0x64], []⟩ = .panic := by
  have hparse : unitDiscCrypto.signatureFromSlice = parseScalarPair := rfl
  have hzero : unitDiscCrypto.signatureFromSlice ((List.replicate 66 (0 : UInt8)).take 64) = none := by
    rw [hparse]
    exact parseScalarPair_zero_r (by simp)
  exact ⟨remote_input_reaches_panics.1 zeroCrypto zeroSession _ (by decide) (by decide),
    remote_input_reaches_panics.2.1 unitHandshakeCrypto () [0, 0] [] [] rfl rfl (by decide),
    remote_input_reaches_panics.2.2.1 [0xff, 0xff] [] rfl (by decide),
    remote_input_reaches_panics.2.2.2.1 unitDiscCrypto _ (by simp) hzero,
    remote_input_reaches_panics.2.2.2.2 ⟨[0x82, 0x69, 0x64], []⟩ ⟨[], []⟩ idKey .invalidLength [] rfl rfl⟩

end Ethrex.P2p
