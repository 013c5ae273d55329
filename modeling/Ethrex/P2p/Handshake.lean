/-
# `Ethrex.P2p.Handshake` — receiving the RLPx handshake messages

`RLPxConnection::receive_handshake_msg` (`rlpx/connection.rs`) reads a
two-byte size and then that many bytes into a buffer of
`MAX_DISC_PACKET_SIZE` bytes; `receive_auth` and `receive_ack` split off the
size and hand the rest to `decode_auth_message` and `decode_ack_message`
(`rlpx/handshake.rs`), which open the ECIES envelope with `decrypt_message`
and decode the RLP of the message inside.

The envelope is `public-key (65) || iv (16) || ciphertext || mac (32)`.
`decrypt_message` splits it with `split_at` and `rest.len() - 32`, and
compares the MAC with `assert_eq!`: a message shorter than 113 bytes, or a
MAC that does not match under a public key that parses, panics
(`decryptMessage_eq_panic_iff`), and nothing else in `decode_auth_message`
does (`decodeAuthMessage_eq_panic_iff`).  An announced size above 1278 panics in
`receive_handshake_msg` itself, at the slice of the buffer.

The primitives (ECDH, the KDF, SHA-256, HMAC, AES-CTR) are parameters.
`rest.len() - 32` is modelled as a subtraction that panics below zero: in a
build without overflow checks it wraps, and the `split_at` after it panics
instead, with the same outcome.
-/
import Ethrex.P2p.Frame
import Ethrex.P2p.Ecdsa
import Ethrex.Rlp.Structs

namespace Ethrex.P2p

open Ethrex.Rlp

/-- `MAX_DISC_PACKET_SIZE`, the size of the handshake receive buffer. -/
def maxDiscPacketSize : Nat := 1280

/-- The text of `signature::Error`, which `From<k256::ecdsa::Error>` wraps. -/
def signatureErrorText : String := "signature error"

/-- The primitives of the handshake, over the key types `SK` and `PK`. -/
structure HandshakeCrypto (SK PK : Type) extends Secp256k1 SK PK where
  /-- `kdf`: the concatenation KDF over SHA-256, 32 bytes. -/
  kdf : H256 → Bytes
  /-- `sha256`. -/
  sha256 : Bytes → H256
  /-- `sha256_hmac(key, inputs, size_data)`. -/
  sha256Hmac : H256 → List Bytes → Bytes → H256
  /-- `Aes128Ctr64BE` under a key and an IV, applied to the data. -/
  aes128Ctr : Bytes → Bytes → Bytes → Bytes

/-- `AuthMessage`. -/
structure AuthMessage where
  signature : FixedBytes 65
  nodeId : FixedBytes 64
  nonce : H256
  version : UInt8

/-- `AckMessage`. -/
structure AckMessage where
  ephemeralPubkey : FixedBytes 64
  nonce : H256
  version : UInt8

/-- `impl RLPDecode for AuthMessage`: the four fields, and anything after
them in the list ignored. -/
def AuthMessage.decodeUnfinished (rlp : Bytes) : Except RLPDecodeError (AuthMessage × Bytes) := do
  let decoder ← Decoder.new rlp
  let (signature, decoder) ← decoder.decodeField "signature" "Signature" (Fixed.decodeUnfinished 65)
  let (nodeId, decoder) ← decoder.decodeField "node_id" "H512" (Fixed.decodeUnfinished 64)
  let (nonce, decoder) ← decoder.decodeField "nonce" "H256" (Fixed.decodeUnfinished 32)
  let (version, decoder) ← decoder.decodeField "version" "u8" U8.decodeUnfinished
  pure (⟨signature, nodeId, nonce, version⟩, decoder.finishUnchecked)

/-- `impl RLPDecode for AckMessage`. -/
def AckMessage.decodeUnfinished (rlp : Bytes) : Except RLPDecodeError (AckMessage × Bytes) := do
  let decoder ← Decoder.new rlp
  let (ephemeralPubkey, decoder) ←
    decoder.decodeField "ephemeral_pubkey" "H512" (Fixed.decodeUnfinished 64)
  let (nonce, decoder) ← decoder.decodeField "nonce" "H256" (Fixed.decodeUnfinished 32)
  let (version, decoder) ← decoder.decodeField "version" "u8" U8.decodeUnfinished
  pure (⟨ephemeralPubkey, nonce, version⟩, decoder.finishUnchecked)

/-- `<[u8]>::get(..n)`. -/
def getTo (l : Bytes) (n : Nat) : Option Bytes := if n ≤ l.length then some (l.take n) else none

/-- `<[u8]>::get(n..)`. -/
def getFrom (l : Bytes) (n : Nat) : Option Bytes := if n ≤ l.length then some (l.drop n) else none

section Handshake

variable {SK PK : Type} (crypto : HandshakeCrypto SK PK)

/-- `decrypt_message`: open the ECIES envelope `msg` under the static key,
with the size prefix `sizeData` authenticated by the MAC. -/
def decryptMessage (staticKey : SK) (msg sizeData : Bytes) : Outcome RLPxError Bytes := do
  let (pk, rest) ← Outcome.splitAt msg 65
  let (iv, rest) ← Outcome.splitAt rest 16
  let macStart ← Outcome.sub rest.length 32
  let (c, d) ← Outcome.splitAt rest macStart
  let remotePk ← Outcome.ofExcept ((crypto.publicKeyFromSec1 pk).mapError .cryptographyError)
  let sharedSecret := crypto.ecdhXchng staticKey remotePk
  let buf := crypto.kdf sharedSecret
  let aesKey := buf.take 16
  let macKey := crypto.sha256 (buf.drop 16)
  let expectedD := crypto.sha256Hmac macKey [iv, c] sizeData
  Outcome.assert (d == expectedD.toList)
  pure (crypto.aes128Ctr aesKey iv c)

/-- `retrieve_remote_ephemeral_key`: recover the key that signed
`shared_secret ^ remote_nonce`. -/
def retrieveRemoteEphemeralKey (sharedSecret remoteNonce : H256) (signature : FixedBytes 65) :
    Except RLPxError PK := do
  let signaturePrehash := List.zipWith (· ^^^ ·) sharedSecret.toList remoteNonce.toList
  let sign ← (crypto.signatureFromSlice (signature.toList.take 64)).okOr (.cryptographyError signatureErrorText)
  let rid ← (crypto.recoveryIdFromByte (signature.get ⟨64, by norm_num⟩)).okOr .invalidRecoveryId
  (crypto.recoverFromPrehash signaturePrehash sign rid).mapError .cryptographyError

/-- `decode_auth_message`: the auth message and the initiator's ephemeral key. -/
def decodeAuthMessage (staticKey : SK) (msg authData : Bytes) : Outcome RLPxError (AuthMessage × PK) := do
  let payload ← decryptMessage crypto staticKey msg authData
  -- the rest returns `Err` values only
  Outcome.ofExcept do
    let (auth, _padding) ← (AuthMessage.decodeUnfinished payload).mapError .rlpDecodeError
    let peerPk ← (crypto.id2pubkey auth.nodeId).okOr .invalidPeerId
    let staticSharedSecret := crypto.ecdhXchng staticKey peerPk
    let remoteEphemeralKey ← retrieveRemoteEphemeralKey crypto staticSharedSecret auth.nonce auth.signature
    pure (auth, remoteEphemeralKey)

/-- `decode_ack_message`. -/
def decodeAckMessage (staticKey : SK) (msg authData : Bytes) : Outcome RLPxError AckMessage := do
  let payload ← decryptMessage crypto staticKey msg authData
  Outcome.ofExcept do
    let (ack, _padding) ← (AckMessage.decodeUnfinished payload).mapError .rlpDecodeError
    pure ack

/-- `RLPxConnection::receive_handshake_msg`: the size prefix and the message,
and the bytes left on the stream. -/
def receiveHandshakeMsg (stream : Bytes) : Outcome RLPxError (Bytes × Bytes) := do
  let buf := List.replicate maxDiscPacketSize (0 : UInt8)
  let some (sizeBytes, stream) := readExact stream 2
    | throw (.connectionError "Connection dropped")
  let msgSize := BigEndian.ofBytes sizeBytes
  -- `&mut buf[2..msg_size + 2]`
  let target ← Outcome.slice buf 2 (msgSize + 2)
  let some (msg, stream) := readExact stream target.length
    | throw (.connectionError "Connection dropped")
  pure (sizeBytes ++ msg, stream)

/-- `RLPxConnection::receive_auth`, up to the decoded message: the auth
message, the initiator's ephemeral key and the bytes received. -/
def receiveAuth (staticKey : SK) (stream : Bytes) :
    Outcome RLPxError ((AuthMessage × PK × Bytes) × Bytes) := do
  let (msgBytes, stream) ← receiveHandshakeMsg stream
  let sizeData ← Outcome.ofExcept ((getTo msgBytes 2).okOr .invalidMessageLength)
  let msg ← Outcome.ofExcept ((getFrom msgBytes 2).okOr .invalidMessageLength)
  let (auth, remoteEphemeralKey) ← decodeAuthMessage crypto staticKey msg sizeData
  pure ((auth, remoteEphemeralKey, msgBytes), stream)

/-- `RLPxConnection::receive_ack`, up to the recipient's ephemeral key. -/
def receiveAck (staticKey : SK) (stream : Bytes) :
    Outcome RLPxError ((AckMessage × PK × Bytes) × Bytes) := do
  let (msgBytes, stream) ← receiveHandshakeMsg stream
  let sizeData ← Outcome.ofExcept ((getTo msgBytes 2).okOr .invalidMessageLength)
  let msg ← Outcome.ofExcept ((getFrom msgBytes 2).okOr .invalidMessageLength)
  let ack ← decodeAckMessage crypto staticKey msg sizeData
  let remoteEphemeralKey ← Outcome.ofExcept
    ((crypto.id2pubkey ack.ephemeralPubkey).okOr (.notFound "Remote ephemeral key"))
  pure ((ack, remoteEphemeralKey, msgBytes), stream)

theorem decryptMessage_of_length_lt (staticKey : SK) {msg : Bytes} (h : msg.length < 113)
    (sizeData : Bytes) : decryptMessage crypto staticKey msg sizeData = .panic := by
  unfold decryptMessage
  by_cases h₁ : msg.length < 65
  · rw [Outcome.splitAt_of_lt h₁]
    rfl
  rw [Outcome.splitAt_of_le (by omega), Outcome.ok_bind]
  dsimp only
  by_cases h₂ : (msg.drop 65).length < 16
  · rw [Outcome.splitAt_of_lt h₂]
    rfl
  rw [Outcome.splitAt_of_le (by omega), Outcome.ok_bind]
  dsimp only
  -- fewer than 32 bytes are left for the MAC
  rw [Outcome.sub_of_lt (by simp; omega)]
  rfl

/-- Past the decryption, `decode_auth_message` returns values or errors:
it panics exactly when `decrypt_message` does. -/
theorem decodeAuthMessage_eq_panic_iff (staticKey : SK) (msg authData : Bytes) :
    decodeAuthMessage crypto staticKey msg authData = .panic ↔
      decryptMessage crypto staticKey msg authData = .panic := by
  unfold decodeAuthMessage
  rw [Outcome.bind_eq_panic]
  constructor
  · rintro (h | ⟨_, _, h⟩)
    · exact h
    · exact absurd h (Outcome.ofExcept_ne_panic _)
  · exact Or.inl

end Handshake

/-- An announced size above `MAX_DISC_PACKET_SIZE - 2` panics at the slice
of the receive buffer, before anything more is read. -/
theorem receiveHandshakeMsg_of_size_gt {sizeBytes : Bytes} (hlen : sizeBytes.length = 2)
    (hsize : maxDiscPacketSize < BigEndian.ofBytes sizeBytes + 2) (rest : Bytes) :
    receiveHandshakeMsg (sizeBytes ++ rest) = .panic := by
  unfold receiveHandshakeMsg
  rw [readExact_append hlen]
  dsimp only
  rw [Outcome.slice_of_lt (by simpa using hsize)]
  rfl

theorem receiveHandshakeMsg_of_size_le {sizeBytes body : Bytes} (hlen : sizeBytes.length = 2)
    (hsize : BigEndian.ofBytes sizeBytes = body.length) (hfit : body.length + 2 ≤ maxDiscPacketSize)
    (rest : Bytes) :
    receiveHandshakeMsg (sizeBytes ++ body ++ rest) = .ok (sizeBytes ++ body, rest) := by
  unfold receiveHandshakeMsg
  rw [List.append_assoc, readExact_append hlen]
  dsimp only
  rw [hsize, Outcome.slice_of_le (by omega) (by simpa using hfit), Outcome.ok_bind]
  have htarget : ((List.take (body.length + 2) (List.replicate maxDiscPacketSize (0 : UInt8))).drop 2).length =
      body.length := by
    simp only [List.length_drop, List.length_take, List.length_replicate]
    omega
  rw [htarget, readExact_append rfl]
  rfl

section Handshake

variable {SK PK : Type} (crypto : HandshakeCrypto SK PK)

/-- A peer that announces fewer than 113 bytes and sends them makes the
recipient of the connection panic in `receive_auth`. -/
theorem receiveAuth_of_length_lt (staticKey : SK) {sizeBytes body : Bytes} (hlen : sizeBytes.length = 2)
    (hsize : BigEndian.ofBytes sizeBytes = body.length) (hshort : body.length < 113) (rest : Bytes) :
    receiveAuth crypto staticKey (sizeBytes ++ body ++ rest) = .panic := by
  unfold receiveAuth
  rw [receiveHandshakeMsg_of_size_le hlen hsize (by unfold maxDiscPacketSize; omega), Outcome.ok_bind]
  have hto : getTo (sizeBytes ++ body) 2 = some sizeBytes := by
    simp [getTo, hlen, List.take_left' hlen]
  have hfrom : getFrom (sizeBytes ++ body) 2 = some body := by
    simp [getFrom, hlen, List.drop_left' hlen]
  simp only [hto, hfrom, Option.okOr_some, Outcome.ofExcept_ok, Outcome.ok_bind]
  rw [(decodeAuthMessage_eq_panic_iff crypto staticKey body sizeBytes).mpr
    (decryptMessage_of_length_lt crypto staticKey hshort sizeBytes)]
  rfl

end Handshake

end Ethrex.P2p
