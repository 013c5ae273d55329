/-
# `Ethrex.Rlp.Structs` — the struct helpers of `ethrex_rlp::structs`

Every RLP struct of the node is written by an `Encoder` and read by a
`Decoder`: the encoder collects the fields' encodings in `temp_buf` and
`finish` puts a list header in front; the decoder opens the list, hands the
payload to each field's decoder in turn, and `finish` checks that nothing
of the payload is left.

The buffer the Rust `Encoder` borrows is not modelled: `finish` returns what
it would append to it.  `decode_field` wraps a field's error in a
`Custom` message naming the field; the segment of that message that prints
`std::any::type_name::<T>()` is left out, that text being the compiler's.

The lemmas are what each helper does on input that the matching encoder
wrote, stated once here so that no struct's round trip unfolds a helper.
-/
import Ethrex.Rlp.Item

namespace Ethrex.Rlp

open Codec

/-- `field_decode_error::<T>`: the error `decode_field` returns for field
`fieldName` of type `typ`.  `typ` is `std::any::type_name::<T>()`, a text
Rust leaves unspecified; the decoders pass the field's type as the source
declares it. -/
def fieldDecodeError (fieldName typ : String) (err : RLPDecodeError) : RLPDecodeError :=
  .custom ("Error decoding field \x27" ++ fieldName ++ "\x27 of type " ++ typ ++ ": " ++ err.toText)

/-! ## Decoder -/

/-- `Decoder`: the payload of the list still to be read, and the bytes after
the list. -/
structure Decoder where
  payload : Bytes
  remaining : Bytes
  deriving DecidableEq, Repr

namespace Decoder

/-- `Decoder::new`: the input must start with a list item. -/
def new (buf : Bytes) : Except RLPDecodeError Decoder := do
  let (isList, payload, remaining) ← decodeRlpItem buf
  if isList then pure ⟨payload, remaining⟩ else throw .unexpectedString

/-- `Decoder::decode_field::<T>`, with `T` named by `typ` and decoded by `dec`. -/
def decodeField {α : Type} (self : Decoder) (name typ : String) (dec : DecodeFn α) :
    Except RLPDecodeError (α × Decoder) :=
  match dec self.payload with
  | .ok (field, rest) => .ok (field, { self with payload := rest })
  | .error err => .error (fieldDecodeError name typ err)

/-- `Decoder::get_encoded_item`: the next item with its header, undecoded. -/
def getEncodedItem (self : Decoder) : Except RLPDecodeError (Bytes × Decoder) := do
  let (field, rest) ← getItemWithPrefix self.payload
  pure (field, { self with payload := rest })

/-- `Decoder::decode_optional_field`: any error means "absent", and the
decoder is returned as it was. -/
def decodeOptionalField {α : Type} (self : Decoder) (dec : DecodeFn α) : Option α × Decoder :=
  match dec self.payload with
  | .ok (field, rest) => (some field, { self with payload := rest })
  | .error _ => (none, self)

/-- `Decoder::finish`. -/
def finish (self : Decoder) : Except RLPDecodeError Bytes :=
  if self.payload.isEmpty then .ok self.remaining else .error .malformedData

/-- `Decoder::is_done`. -/
def isDone (self : Decoder) : Bool := self.payload.isEmpty

/-- `Decoder::finish_unchecked`. -/
def finishUnchecked (self : Decoder) : Bytes := self.remaining

variable {α : Type} {d : Decoder} {enc : α → Bytes} {dec : DecodeFn α} {v : α} {r : Bytes}

theorem new_list (p rest : Bytes) (hp : p.length < 2 ^ 64) :
    new (encodeLength p.length ++ p ++ rest) = .ok ⟨p, rest⟩ := by
  rw [new, decodeRlpItem_list p rest hp]
  rfl

theorem new_string (p rest : Bytes) (hp : p.length < 2 ^ 64) :
    new (lengthHeader rlpNull 0xb7 p.length ++ p ++ rest) = .error .unexpectedString := by
  rw [new, decodeRlpItem_string p rest hp]
  rfl

theorem decodeField_of_roundTrips (name : String) {typ : String} (h : RoundTrips enc dec v)
    (hp : d.payload = enc v ++ r) : d.decodeField name typ dec = .ok (v, ⟨r, d.remaining⟩) := by
  simp [decodeField, hp, h r]

/-- Every error of `decode_field` names the field it was decoding and its type. -/
theorem decodeField_error {name typ : String} {e : RLPDecodeError}
    (h : d.decodeField name typ dec = .error e) : ∃ inner, e = fieldDecodeError name typ inner := by
  unfold decodeField at h
  split at h
  · cases h
  · cases h
    exact ⟨_, rfl⟩

theorem decodeOptionalField_of_roundTrips (h : RoundTrips enc dec v)
    (hp : d.payload = enc v ++ r) : d.decodeOptionalField dec = (some v, ⟨r, d.remaining⟩) := by
  simp [decodeOptionalField, hp, h r]

theorem decodeOptionalField_of_error {e : RLPDecodeError} (h : dec d.payload = .error e) :
    d.decodeOptionalField dec = (none, d) := by
  simp [decodeOptionalField, h]

/-! The same steps in the shape a struct decode meets them, for `simp`: the
payload is the remaining fields' encodings, right-nested. -/

@[simp] theorem decodeField_mk (name : String) {typ : String} (h : RoundTrips enc dec v) (r rem : Bytes) :
    (Decoder.mk (enc v ++ r) rem).decodeField name typ dec = .ok (v, ⟨r, rem⟩) :=
  decodeField_of_roundTrips name h rfl

@[simp] theorem decodeField_mk_last (name : String) {typ : String} (h : RoundTrips enc dec v) (rem : Bytes) :
    (Decoder.mk (enc v) rem).decodeField name typ dec = .ok (v, ⟨[], rem⟩) :=
  decodeField_of_roundTrips name h (List.append_nil _).symm

@[simp] theorem decodeOptionalField_mk (h : RoundTrips enc dec v) (r rem : Bytes) :
    (Decoder.mk (enc v ++ r) rem).decodeOptionalField dec = (some v, ⟨r, rem⟩) :=
  decodeOptionalField_of_roundTrips h rfl

@[simp] theorem decodeOptionalField_mk_last (h : RoundTrips enc dec v) (rem : Bytes) :
    (Decoder.mk (enc v) rem).decodeOptionalField dec = (some v, ⟨[], rem⟩) :=
  decodeOptionalField_of_roundTrips h (List.append_nil _).symm

@[simp] theorem finish_mk_nil (rem : Bytes) : (Decoder.mk [] rem).finish = .ok rem := rfl

/-- An optional field as `encode_optional_field` writes it, present or
not: read back as written, provided that when it is absent the field's
decoder fails on what follows. -/
theorem decodeOptionalField_elim {o : Option α} (hsome : ∀ v, o = some v → RoundTrips enc dec v)
    (hnone : o = none → ∃ e, dec r = .error e) (rem : Bytes) :
    (Decoder.mk (o.elim [] enc ++ r) rem).decodeOptionalField dec = (o, ⟨r, rem⟩) := by
  cases o with
  | none =>
    obtain ⟨e, he⟩ := hnone rfl
    exact decodeOptionalField_of_error he
  | some v => exact decodeOptionalField_of_roundTrips (hsome v rfl) rfl

theorem decodeOptionalField_elim_last {o : Option α}
    (hsome : ∀ v, o = some v → RoundTrips enc dec v) (hnone : o = none → ∃ e, dec [] = .error e)
    (rem : Bytes) :
    (Decoder.mk (o.elim [] enc) rem).decodeOptionalField dec = (o, ⟨[], rem⟩) := by
  have h := decodeOptionalField_elim hsome hnone rem
  rwa [List.append_nil] at h

end Decoder

/-! ## Encoder -/

/-- `Encoder`: the fields' encodings collected so far. -/
structure Encoder where
  tempBuf : Bytes

namespace Encoder

/-- `Encoder::new`. -/
def new : Encoder := ⟨[]⟩

/-- `Encoder::encode_field`. -/
def encodeField {α : Type} (self : Encoder) (enc : α → Bytes) (value : α) : Encoder :=
  ⟨self.tempBuf ++ enc value⟩

/-- `Encoder::encode_optional_field`: nothing for `None`. -/
def encodeOptionalField {α : Type} (self : Encoder) (enc : α → Bytes) : Option α → Encoder
  | some value => ⟨self.tempBuf ++ enc value⟩
  | none => self

/-- `Encoder::encode_raw`: bytes already encoded. -/
def encodeRaw (self : Encoder) (value : Bytes) : Encoder := ⟨self.tempBuf ++ value⟩

/-- `Encoder::encode_bytes`: a field encoded as `[u8]`. -/
def encodeBytes (self : Encoder) (value : Bytes) : Encoder := ⟨self.tempBuf ++ Slice.encode value⟩

/-- `Encoder::encode_key_value_list`: each key as a byte string, then its
value as it is, already encoded. -/
def encodeKeyValueList (self : Encoder) (list : List (Bytes × Bytes)) : Encoder :=
  list.foldl (fun e (key, value) => ⟨e.tempBuf ++ ByteString.encode key ++ value⟩) self

/-- `Encoder::finish`: the list header, then the fields. -/
def finish (self : Encoder) : Bytes := encodeLength self.tempBuf.length ++ self.tempBuf

theorem new_finish (e : Encoder) (rest : Bytes) (h : e.tempBuf.length < 2 ^ 64) :
    Decoder.new (e.finish ++ rest) = .ok ⟨e.tempBuf, rest⟩ :=
  Decoder.new_list e.tempBuf rest h

theorem length_tempBuf_lt {e : Encoder} (h : e.finish.length < 2 ^ 64) :
    e.tempBuf.length < 2 ^ 64 := by
  simp only [finish, List.length_append] at h
  omega

theorem finish_ne_nil (e : Encoder) : e.finish ≠ [] := by
  have hpos := length_lengthHeader_pos 0xc0 0xf7 e.tempBuf.length
  apply List.ne_nil_of_length_pos
  rw [finish, List.length_append, encodeLength]
  omega

theorem new_finish_nil (e : Encoder) (h : e.tempBuf.length < 2 ^ 64) :
    Decoder.new e.finish = .ok ⟨e.tempBuf, []⟩ := by
  have := new_finish e [] h
  rwa [List.append_nil] at this

@[simp] theorem new_tempBuf : new.tempBuf = [] := rfl
@[simp] theorem encodeField_tempBuf {α : Type} (e : Encoder) (enc : α → Bytes) (v : α) :
    (e.encodeField enc v).tempBuf = e.tempBuf ++ enc v := rfl
@[simp] theorem encodeOptionalField_tempBuf {α : Type} (e : Encoder) (enc : α → Bytes)
    (o : Option α) : (e.encodeOptionalField enc o).tempBuf = e.tempBuf ++ o.elim [] enc := by
  cases o <;> simp [encodeOptionalField]
@[simp] theorem encodeRaw_tempBuf (e : Encoder) (v : Bytes) :
    (e.encodeRaw v).tempBuf = e.tempBuf ++ v := rfl
@[simp] theorem encodeKeyValueList_tempBuf (e : Encoder) (list : List (Bytes × Bytes)) :
    (e.encodeKeyValueList list).tempBuf =
      e.tempBuf ++ list.flatMap fun pair => ByteString.encode pair.1 ++ pair.2 := by
  induction list generalizing e with
  | nil => simp [encodeKeyValueList]
  | cons pair rest ih =>
    rw [encodeKeyValueList, List.foldl_cons, ← encodeKeyValueList, ih, List.flatMap_cons]
    simp only [List.append_assoc]
@[simp] theorem encodeBytes_tempBuf (e : Encoder) (v : Bytes) :
    (e.encodeBytes v).tempBuf = e.tempBuf ++ Slice.encode v := rfl

end Encoder

end Ethrex.Rlp
