/-
# `Ethrex.P2p.Frame` — RLPx frames over an established session

`frame::write` and `frame::read` (`crates/networking/p2p/rlpx/frame.rs`) on
the session state `Established` (`rlpx/connection.rs`).  A frame is a
16-byte header (the frame size in three bytes, the RLP of `(0, 0)`, zero
padding), its MAC, the payload padded to a multiple of 16, and the frame
MAC; the header and the payload are encrypted by the session's AES-CTR
stream, and the MACs come from a running Keccak state.

The cryptography is a parameter, `FrameCrypto`, on the assumptions the
protocol is stated under: a Keccak state is the bytes it has absorbed and
its digest is `keccak` of them; an AES-CTR stream XORs a keystream fixed by
its key and position; the MAC seed is built with some AES block function.
The output stream is the bytes written; the input stream is the bytes the
peer will send, and `read_exact` fails when fewer are left.

What holds: every frame `read` returns is shorter than `2 ^ 24` bytes
(`read_length_lt`), since the size travels in three bytes; when the writer's
egress state is the reader's ingress state, `read` returns what `write`
wrote for every payload below that size, and the two states stay equal
(`read_write`).  `write` itself takes payloads of any size and writes
their size modulo `2 ^ 24`.
-/
import Ethrex.Lib.Outcome
import Ethrex.Lib.Checked
import Ethrex.Rlp.Encode
import Ethrex.Rlp.Decode

namespace Ethrex.P2p

open Ethrex.Rlp

/-- `RLPxError`: the variants the modelled functions raise. -/
inductive RLPxError where
  | connectionError (msg : String)
  | cryptographyError (msg : String)
  | invalidMessageLength
  | invalidPeerId
  | invalidRecoveryId
  | notFound (msg : String)
  | rlpDecodeError (e : RLPDecodeError)
  deriving DecidableEq, Repr

/-- The primitives frames are built from. -/
structure FrameCrypto where
  /-- `Keccak256` digest of everything absorbed. -/
  keccak : Bytes → H256
  /-- `Aes256Enc::encrypt_block` under the MAC secret. -/
  aesEncryptBlock : H256 → Bytes → Bytes
  /-- The AES-256-CTR keystream byte at a position, for a key and the zero IV. -/
  keystream : H256 → Nat → UInt8

/-- An AES-CTR cipher: its key and how many keystream bytes it has used. -/
structure AesCtr where
  key : H256
  position : Nat
  deriving DecidableEq

/-- `StreamCipher::apply_keystream`: XOR with the keystream from the
current position on. -/
def AesCtr.applyKeystream (keystream : H256 → Nat → UInt8) (c : AesCtr) (data : Bytes) :
    Bytes × AesCtr :=
  (data.mapIdx fun i b => b ^^^ keystream c.key (c.position + i),
    { c with position := c.position + data.length })

/-- `Established`: the session keys and the running MAC and cipher states.
A MAC state is the bytes its Keccak hasher has absorbed. -/
structure Established where
  remoteNodeId : Bytes
  macKey : H256
  ingressMac : Bytes
  egressMac : Bytes
  ingressAes : AesCtr
  egressAes : AesCtr

/-- One direction of a session, as `frame::write` or `frame::read` uses it:
the MAC secret, a running Keccak state and an AES-CTR stream. -/
structure Half where
  macKey : H256
  mac : Bytes
  aes : AesCtr
  deriving DecidableEq

/-- The half `frame::write` reads and advances. -/
def Established.egress (s : Established) : Half := ⟨s.macKey, s.egressMac, s.egressAes⟩

/-- The half `frame::read` reads and advances. -/
def Established.ingress (s : Established) : Half := ⟨s.macKey, s.ingressMac, s.ingressAes⟩

/-- The session with its ingress MAC and cipher moved on to those of `h`. -/
def Established.setIngress (s : Established) (h : Half) : Established :=
  { s with ingressMac := h.mac, ingressAes := h.aes }

@[simp] theorem Established.setIngress_egress (s : Established) (h : Half) :
    (s.setIngress h).egress = s.egress := rfl

theorem Established.setIngress_ingress {s : Established} {h : Half} (hk : h.macKey = s.macKey) :
    (s.setIngress h).ingress = h := by
  simp only [Established.setIngress, Established.ingress]
  rw [← hk]

section Frames

variable (crypto : FrameCrypto)

/-- `mac.clone().finalize()[..16]`. -/
def macDigest (mac : Bytes) : Bytes := (crypto.keccak mac).toList.take 16

/-- `H128(a) ^ H128(b)`. -/
def xorBlock (a b : Bytes) : Bytes := List.zipWith (· ^^^ ·) a b

/-- The header MAC seed: the MAC secret's AES of the MAC digest, XOR the
header ciphertext. -/
def headerMacSeed (macKey : H256) (mac headerCiphertext : Bytes) : Bytes :=
  xorBlock (crypto.aesEncryptBlock macKey (macDigest crypto mac)) headerCiphertext

/-- The frame MAC seed: the MAC secret's AES of the MAC digest, XOR the digest. -/
def frameMacSeed (macKey : H256) (mac : Bytes) : Bytes :=
  xorBlock (crypto.aesEncryptBlock macKey (macDigest crypto mac)) (macDigest crypto mac)

/-- `Vec::resize(n, 0)`. -/
def resize (l : Bytes) (n : Nat) : Bytes := l.take n ++ List.replicate (n - l.length) 0

/-- The plain header: the low three bytes of `frame_data.len()`, the RLP of
`(0u8, 0u8)`, and zeros up to 16 bytes. -/
def frameHeader (frameSize : Nat) : Bytes :=
  resize ((BigEndian.toBytes 8 frameSize).drop 5 ++ Tuple2.encode U8.encode U8.encode (0, 0)) 16

/-- `frame::write`: the bytes sent and the session after them. -/
def write (frameData : Bytes) (state : Established) : Bytes × Established :=
  let (headerCiphertext, egressAes) :=
    state.egressAes.applyKeystream crypto.keystream (frameHeader frameData.length)
  let egressMac := state.egressMac ++ headerMacSeed crypto state.macKey state.egressMac headerCiphertext
  let headerMac := macDigest crypto egressMac
  -- pad to the next multiple of 16
  let padded := resize frameData (Checked.roundUp frameData.length 16)
  let (frameCiphertext, egressAes) := egressAes.applyKeystream crypto.keystream padded
  let egressMac := egressMac ++ frameCiphertext
  let egressMac := egressMac ++ frameMacSeed crypto state.macKey egressMac
  let frameMac := macDigest crypto egressMac
  (headerCiphertext ++ headerMac ++ frameCiphertext ++ frameMac,
    { state with egressMac := egressMac, egressAes := egressAes })

/-- `AsyncReadExt::read_exact`: the next `n` bytes, if the peer sends them. -/
def readExact (stream : Bytes) (n : Nat) : Option (Bytes × Bytes) :=
  if n ≤ stream.length then some (stream.take n, stream.drop n) else none

/-- `frame::read`: the payload of the next frame, the session after it, and
the bytes after the frame.  A MAC that does not match, or header data that
is not `(0, 0)`, fails an `assert_eq!`. -/
def read (state : Established) (stream : Bytes) : Outcome RLPxError (Bytes × Established × Bytes) := do
  let some (frameHeader, stream) := readExact stream 32
    | throw (.connectionError "Connection dropped")
  let headerCiphertext := frameHeader.take 16
  let headerMac := frameHeader.drop 16
  let ingressMac := state.ingressMac ++ headerMacSeed crypto state.macKey state.ingressMac headerCiphertext
  Outcome.assert (headerMac == macDigest crypto ingressMac)
  let (headerText, ingressAes) := state.ingressAes.applyKeystream crypto.keystream headerCiphertext
  Outcome.assert ((headerText.drop 3).take 3 == Tuple2.encode U8.encode U8.encode (0, 0))
  let frameSize := BigEndian.ofBytes (headerText.take 3)
  let paddedSize := Checked.roundUp frameSize 16
  let some (frameData, stream) := readExact stream (paddedSize + 16)
    | throw (.connectionError "Connection dropped")
  let frameCiphertext := frameData.take paddedSize
  let frameMac := frameData.drop paddedSize
  let ingressMac := ingressMac ++ frameCiphertext
  let ingressMac := ingressMac ++ frameMacSeed crypto state.macKey ingressMac
  Outcome.assert (frameMac == macDigest crypto ingressMac)
  let (frameText, ingressAes) := ingressAes.applyKeystream crypto.keystream frameCiphertext
  pure (frameText.take frameSize, { state with ingressMac := ingressMac, ingressAes := ingressAes },
    stream)

/-! ### The pieces of a frame -/

@[simp] theorem length_macDigest (mac : Bytes) : (macDigest crypto mac).length = 16 := by
  simp [macDigest]

theorem length_resize (l : Bytes) (n : Nat) : (resize l n).length = n := by
  simp only [resize, List.length_append, List.length_take, List.length_replicate]
  omega

theorem take_resize {l : Bytes} {n : Nat} (h : l.length ≤ n) : (resize l n).take l.length = l := by
  simp [resize, List.take_of_length_le h]

@[simp] theorem length_frameHeader (n : Nat) : (frameHeader n).length = 16 :=
  length_resize _ _

theorem take_frameHeader (n : Nat) : (frameHeader n).take 3 = BigEndian.toBytes 3 n := by
  simp [frameHeader, resize]

theorem encode_zero_zero : Tuple2.encode U8.encode U8.encode ((0 : UInt8), (0 : UInt8)) = [0xc2, 0x80, 0x80] := by
  decide

theorem headerData_frameHeader (n : Nat) :
    ((frameHeader n).drop 3).take 3 = Tuple2.encode U8.encode U8.encode (0, 0) := by
  simp [frameHeader, resize, encode_zero_zero]

theorem readExact_append {a : Bytes} {n : Nat} (h : a.length = n) (b : Bytes) :
    readExact (a ++ b) n = some (a, b) := by
  subst h
  simp [readExact]

end Frames

namespace AesCtr

variable (keystream : H256 → Nat → UInt8)

@[simp] theorem length_applyKeystream (c : AesCtr) (data : Bytes) :
    (c.applyKeystream keystream data).1.length = data.length := by
  simp [applyKeystream]

theorem applyKeystream_applyKeystream (c : AesCtr) (data : Bytes) :
    (c.applyKeystream keystream (c.applyKeystream keystream data).1) =
      (data, (c.applyKeystream keystream data).2) := by
  refine Prod.ext ?_ (by simp [applyKeystream])
  apply List.ext_getElem (by simp)
  intro i _ _
  simp [applyKeystream]

end AesCtr

section Frames

variable (crypto : FrameCrypto)

/-- Every frame read is shorter than `2 ^ 24` bytes: the size is read from
three header bytes, and the payload is the decrypted body cut to it. -/
theorem read_length_lt {state state' : Established} {stream rest payload : Bytes}
    (h : read crypto state stream = .ok (payload, state', rest)) : payload.length < 2 ^ 24 := by
  unfold read at h
  split at h
  case h_2 => exact (nomatch h)
  extract_lets headerCiphertext headerMac ingressMac at h
  obtain ⟨_, -, h⟩ := Outcome.bind_eq_ok.mp h
  split at h
  rename_i headerText _ _
  obtain ⟨_, -, h⟩ := Outcome.bind_eq_ok.mp h
  extract_lets frameSize paddedSize at h
  split at h
  case h_2 => exact (nomatch h)
  extract_lets frameCiphertext frameMac ingressMac ingressMac at h
  obtain ⟨_, -, h⟩ := Outcome.bind_eq_ok.mp h
  split at h
  rename_i frameText _ _
  simp only [Outcome.pure_eq_ok, Outcome.ok.injEq, Prod.mk.injEq] at h
  have hsize : frameSize < 2 ^ 24 := calc
    frameSize < 256 ^ (headerText.take 3).length := BigEndian.ofBytes_lt _
    _ ≤ 256 ^ 3 := Nat.pow_le_pow_right (by norm_num) (by simp)
    _ = 2 ^ 24 := by norm_num
  rw [← h.1]
  exact lt_of_le_of_lt (List.length_take_le _ _) hsize

@[simp] theorem write_ingress (m : Bytes) (a : Established) :
    (write crypto m a).2.ingress = a.ingress := rfl

@[simp] theorem write_macKey (m : Bytes) (a : Established) :
    (write crypto m a).2.macKey = a.macKey := rfl

/-- A frame of fewer than `2 ^ 24` bytes is read back as written, by a
reader whose ingress half is the writer's egress half, with the bytes after
it left on the stream; the reader's ingress half moves on to the writer's
new egress half. -/
theorem read_write {a b : Established} (h : a.egress = b.ingress) {m : Bytes} (hm : m.length < 2 ^ 24)
    (rest : Bytes) :
    read crypto b ((write crypto m a).1 ++ rest) = .ok (m, b.setIngress (write crypto m a).2.egress, rest) := by
  simp only [Established.egress, Established.ingress, Half.mk.injEq] at h
  obtain ⟨hkey, hmac, haes⟩ := h
  -- the header and the body as the writer encrypts them, and as the reader decrypts them
  obtain ⟨hc, aes₁, hH⟩ : ∃ x y, a.egressAes.applyKeystream crypto.keystream (frameHeader m.length) = (x, y) :=
    ⟨_, _, rfl⟩
  have hHdec : b.ingressAes.applyKeystream crypto.keystream hc = (frameHeader m.length, aes₁) := by
    have := AesCtr.applyKeystream_applyKeystream crypto.keystream a.egressAes (frameHeader m.length)
    rwa [hH, haes] at this
  obtain ⟨fc, aes₂, hF⟩ : ∃ x y, aes₁.applyKeystream crypto.keystream
      (resize m (Checked.roundUp m.length 16)) = (x, y) := ⟨_, _, rfl⟩
  have hFdec : aes₁.applyKeystream crypto.keystream fc = (resize m (Checked.roundUp m.length 16), aes₂) := by
    have := AesCtr.applyKeystream_applyKeystream crypto.keystream aes₁ (resize m (Checked.roundUp m.length 16))
    rwa [hF] at this
  have hhc : hc.length = 16 := by
    simpa [hH] using AesCtr.length_applyKeystream crypto.keystream a.egressAes (frameHeader m.length)
  have hfc : fc.length = Checked.roundUp m.length 16 := by
    simpa [hF, length_resize] using
      AesCtr.length_applyKeystream crypto.keystream aes₁ (resize m (Checked.roundUp m.length 16))
  have hsize : BigEndian.ofBytes ((frameHeader m.length).take 3) = m.length := by
    rw [take_frameHeader]
    exact BigEndian.ofBytes_toBytes_of_lt (by simpa using hm)
  simp only [write, hH, hF, hkey, hmac, Established.setIngress, Established.egress]
  unfold read
  rw [List.append_assoc, List.append_assoc, readExact_append (by simp [hhc])]
  simp only [List.take_left' hhc, List.drop_left' hhc, beq_self_eq_true, Outcome.assert_true,
    Outcome.ok_bind, hHdec, headerData_frameHeader, hsize]
  rw [← List.append_assoc, readExact_append (by simp [hfc])]
  simp only [List.take_left' hfc, List.drop_left' hfc, beq_self_eq_true, Outcome.assert_true,
    Outcome.ok_bind, hFdec, take_resize (Checked.le_roundUp (by norm_num : 0 < 16) m.length), Outcome.pure_eq_ok]

/-- A header MAC that does not match the reader's ingress MAC fails the
`assert_eq!` of `frame::read`: a panic, not an `Err`. -/
theorem read_of_headerMac {state : Established} {stream : Bytes} (hlen : 32 ≤ stream.length)
    (hmac : (stream.take 32).drop 16 ≠
      macDigest crypto (state.ingressMac ++ headerMacSeed crypto state.macKey state.ingressMac (stream.take 16))) :
    read crypto state stream = .panic := by
  have hexact : readExact stream 32 = some (stream.take 32, stream.drop 32) := if_pos hlen
  have htake : (stream.take 32).take 16 = stream.take 16 := by
    rw [List.take_take]
    rfl
  unfold read
  rw [hexact]
  dsimp only
  rw [htake, beq_eq_false_iff_ne.mpr hmac, Outcome.assert_false]
  rfl

/-- `write` sends a payload of any size and `read` never returns one of
`2 ^ 24` bytes or more: the size field keeps the low three bytes of the
length, so such a payload is never received as sent, from any session state. -/
theorem read_write_of_length_ge (a b : Established) {m : Bytes} (hm : 2 ^ 24 ≤ m.length)
    (rest : Bytes) (b' : Established) (rest' : Bytes) :
    read crypto b ((write crypto m a).1 ++ rest) ≠ .ok (m, b', rest') := by
  intro h
  have := read_length_lt crypto h
  omega

end Frames

/-- Primitives for fixed examples: all-zero digests and keystream, identity block cipher. -/
def zeroCrypto : FrameCrypto := ⟨fun _ => List.Vector.replicate 32 0, fun _ b => b, fun _ _ => 0⟩

/-- A session under the all-zero key, before any frame. -/
def zeroSession : Established :=
  ⟨[], List.Vector.replicate 32 0, [], [], ⟨List.Vector.replicate 32 0, 0⟩, ⟨List.Vector.replicate 32 0, 0⟩⟩

theorem read_write_sixteen_mebibytes :
    2 ^ 24 ≤ (List.replicate (2 ^ 24) (0 : UInt8)).length ∧
      ∀ b' rest', read zeroCrypto zeroSession ((write zeroCrypto (List.replicate (2 ^ 24) 0) zeroSession).1 ++ []) ≠
        .ok (List.replicate (2 ^ 24) 0, b', rest') :=
  ⟨List.length_replicate.symm.le,
    read_write_of_length_ge zeroCrypto zeroSession zeroSession List.length_replicate.symm.le []⟩

end Ethrex.P2p
