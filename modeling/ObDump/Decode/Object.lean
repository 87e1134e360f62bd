import ObDump.Base.Except
import ObDump.Decode.Fields

/-!
# Decoding a record

Library `Decode`. `decodeObject` of `src/fb_decode.cpp:282–392`. A property's codec is the
decoder that the switch picks for it; the object is the sequence of settings the present
properties make.
-/

namespace ObDump

open Base FlatBuffers

/-- The vtable slot of a property; `src/fb_decode.cpp:16–18`. -/
def slotFor (propertyId : Int) : Nat := ((4 + (propertyId - 1) * 2) % 65536).toNat

/-- In the documented range of ids, a slot is the vtable entry two bytes wide of its index. -/
theorem slotFor_eq {id : Int} (h1 : 1 ≤ id) (h2 : id ≤ 32766) :
    slotFor id = 4 + 2 * (id - 1).toNat := by
  unfold slotFor
  omega

section

variable (lib : Libraries) (t : Table) (prop : PropertyDef) (out : Json)

/-- The switch over the property's type; `src/fb_decode.cpp:301–385`. -/
def decodeField : Except Exc Json :=
  let slot := slotFor prop.id
  let name := prop.name
  match prop.type with
  | .bool => decodeBool lib t slot name out
  | .byte =>
    if prop.isUnsigned then decodeScalar lib t slot name out .uint8
    else decodeScalar lib t slot name out .int8
  | .short =>
    if prop.isUnsigned then decodeScalar lib t slot name out .uint16
    else decodeScalar lib t slot name out .int16
  | .char => decodeScalar lib t slot name out .uint16
  | .int =>
    if prop.isUnsigned then decodeScalar lib t slot name out .uint32
    else decodeScalar lib t slot name out .int32
  | .long | .date | .relation | .dateNano =>
    if prop.isUnsigned then decodeScalar lib t slot name out .uint64
    else decodeScalar lib t slot name out .int64
  | .float => decodeScalar lib t slot name out .float
  | .double => decodeScalar lib t slot name out .double
  | .string =>
    if prop.externalType = ExternalPropertyType.json ∨
        prop.externalType = ExternalPropertyType.javaScript ∨
        prop.externalType = ExternalPropertyType.jsonToNative then
      decodeStringAsJson lib t slot name out
    else decodeString lib t slot name out
  | .boolVector => decodeBoolVector lib t slot name out
  | .byteVector =>
    if prop.externalType = ExternalPropertyType.uuid then
      decodeByteVectorAsBlobString lib t slot name out true
    else if prop.externalType = ExternalPropertyType.int128 ∨
        prop.externalType = ExternalPropertyType.decimal128 ∨
        prop.externalType = ExternalPropertyType.bson then
      decodeByteVectorAsBlobString lib t slot name out false
    else if prop.isUnsigned then decodeNumericVector lib t slot name out .uint8
    else decodeNumericVector lib t slot name out .int8
  | .shortVector =>
    if prop.isUnsigned then decodeNumericVector lib t slot name out .uint16
    else decodeNumericVector lib t slot name out .int16
  | .charVector => decodeNumericVector lib t slot name out .uint16
  | .intVector =>
    if prop.isUnsigned then decodeNumericVector lib t slot name out .uint32
    else decodeNumericVector lib t slot name out .int32
  | .longVector | .dateVector | .dateNanoVector =>
    if prop.isUnsigned then decodeNumericVector lib t slot name out .uint64
    else decodeNumericVector lib t slot name out .int64
  | .floatVector => decodeNumericVector lib t slot name out .float
  | .doubleVector => decodeNumericVector lib t slot name out .double
  | .stringVector => decodeStringVector lib t slot name out
  | .flex => decodeFlex lib t slot name out
  | .unknown => .ok out

/-- One turn of the loop over the properties; `src/fb_decode.cpp:297–386`. -/
def decodeProperty : Except Exc Json :=
  if prop.name = lit "id" then .ok out else decodeField lib t prop out

end

/-- `decodeObject`, `src/fb_decode.cpp:282–392`. -/
def decodeObject (lib : Libraries) (data : Bytes) (entity : EntityDef) : Except Exc Json :=
  if !lib.verifier.rootOffset data then
    throw (.runtimeError
      (lit "corrupt record: invalid root offset (entity " ++ entity.name ++ lit ")"))
  else do
    let pos ← inBounds (getRoot data)
    if !lib.verifier.tableStart data pos then
      throw (.runtimeError
        (lit "corrupt record: invalid vtable (entity " ++ entity.name ++ lit ")"))
    else
      entity.properties.foldlM (fun out prop ↦ decodeProperty lib ⟨data, pos⟩ prop out) (.obj [])

/-! ### The codec of a property -/

/-- The decoders the switch can pick, with the types their templates are instantiated at. -/
inductive Codec where
  | bool
  | scalar (T : Scalar)
  | string
  | stringAsJson
  | boolVector
  | numericVector (T : Scalar)
  | blobString (asUuid : Bool)
  | stringVector
  | flex
  deriving DecidableEq, Repr

/-- The signed or the unsigned type, as the property's flag says. -/
def PropertyDef.integer (p : PropertyDef) (unsigned signed : Scalar) : Scalar :=
  if p.isUnsigned then unsigned else signed

/-- The decoder of a property; none for an unknown type. -/
def PropertyDef.codec (p : PropertyDef) : Option Codec :=
  match p.type with
  | .bool => some .bool
  | .byte => some (.scalar (p.integer .uint8 .int8))
  | .short => some (.scalar (p.integer .uint16 .int16))
  | .char => some (.scalar .uint16)
  | .int => some (.scalar (p.integer .uint32 .int32))
  | .long | .date | .relation | .dateNano => some (.scalar (p.integer .uint64 .int64))
  | .float => some (.scalar .float)
  | .double => some (.scalar .double)
  | .string =>
    if p.externalType = ExternalPropertyType.json ∨
        p.externalType = ExternalPropertyType.javaScript ∨
        p.externalType = ExternalPropertyType.jsonToNative then some .stringAsJson
    else some .string
  | .boolVector => some .boolVector
  | .byteVector =>
    if p.externalType = ExternalPropertyType.uuid then some (.blobString true)
    else if p.externalType = ExternalPropertyType.int128 ∨
        p.externalType = ExternalPropertyType.decimal128 ∨
        p.externalType = ExternalPropertyType.bson then some (.blobString false)
    else some (.numericVector (p.integer .uint8 .int8))
  | .shortVector => some (.numericVector (p.integer .uint16 .int16))
  | .charVector => some (.numericVector .uint16)
  | .intVector => some (.numericVector (p.integer .uint32 .int32))
  | .longVector | .dateVector | .dateNanoVector => some (.numericVector (p.integer .uint64 .int64))
  | .floatVector => some (.numericVector .float)
  | .doubleVector => some (.numericVector .double)
  | .stringVector => some .stringVector
  | .flex => some .flex
  | .unknown => none

/-- Exactly the properties of a known type have a codec. -/
theorem PropertyDef.codec_isSome_iff (p : PropertyDef) :
    (∃ c, p.codec = some c) ↔ p.type ≠ .unknown := by
  unfold codec
  cases p.type <;> simp <;> split_ifs <;> simp

namespace Codec

/-- The layout a codec reads. -/
def shape : Codec → Shape
  | .bool => .scalar 1
  | .scalar T => .scalar T.size
  | .string | .stringAsJson => .string
  | .boolVector | .blobString _ | .flex => .vector 1
  | .numericVector T => .vector T.size
  | .stringVector => .strings

/-- The JSON of a stored value; a layout of another shape has none. -/
def toJson (lib : Libraries) (name : Bytes) : Codec → Stored → Except Exc Json
  | .bool, .scalar _ bits => .ok (.bool (bits != 0))
  | .scalar T, .scalar _ bits => .ok (T.toJson bits)
  | .string, .string s => .ok (.str s)
  | .stringAsJson, .string s => parseOrRaw lib s
  | .boolVector, .vector _ elems => .ok (.arr (elems.map fun bits ↦ .bool (bits != 0)))
  | .numericVector T, .vector _ elems => .ok (.arr (elems.map T.toJson))
  | .blobString asUuid, .vector _ elems =>
    .ok (.str (ObDump.blobString asUuid (elems.map UInt8.ofNat)))
  | .stringVector, .strings ss => .ok (.arr (ss.map Json.str))
  | .flex, .vector _ elems => flexContents lib name (elems.map UInt8.ofNat)
  | _, _ => .error .outOfBounds

/-- The decoder itself. -/
def decode (lib : Libraries) (t : Table) (slot : Nat) (name : Bytes) (out : Json) :
    Codec → Except Exc Json
  | .bool => decodeBool lib t slot name out
  | .scalar T => decodeScalar lib t slot name out T
  | .string => decodeString lib t slot name out
  | .stringAsJson => decodeStringAsJson lib t slot name out
  | .boolVector => decodeBoolVector lib t slot name out
  | .numericVector T => decodeNumericVector lib t slot name out T
  | .blobString asUuid => decodeByteVectorAsBlobString lib t slot name out asUuid
  | .stringVector => decodeStringVector lib t slot name out
  | .flex => decodeFlex lib t slot name out

/-- The check of what an offset points at. -/
def contents (v : Verifier) (buf : Bytes) (pos : Nat) : Codec → Bool
  | .string | .stringAsJson => v.string buf pos
  | .boolVector | .blobString _ | .flex => v.vector buf pos 1
  | .numericVector T => v.vector buf pos T.size
  | .stringVector => v.vector buf pos 4 && v.vectorOfStrings buf pos
  | _ => true

/-- Every check of the decoder accepts the field at offset `off`. -/
def accepts (v : Verifier) (t : Table) (slot off : Nat) (c : Codec) : Bool :=
  match c.shape with
  | .scalar size => v.field t.buf t.pos slot size
  | _ =>
    v.offset t.buf t.pos slot &&
      match follow t.buf (t.pos + off) with
      | some pos => c.contents v t.buf pos
      | none => false

/-- A value behind an offset is accepted when the offset is, and what it points to. -/
theorem accepts_pointer {c : Codec} (hs : ∀ size, c.shape ≠ .scalar size) (v : Verifier)
    (t : Table) (slot off : Nat) :
    c.accepts v t slot off =
      (v.offset t.buf t.pos slot && (follow t.buf (t.pos + off)).any (c.contents v t.buf)) := by
  unfold accepts
  split
  · next size h => exact absurd h (hs size)
  · cases follow t.buf (t.pos + off) <;> rfl

end Codec

/-- The switch runs the property's codec. -/
theorem decodeField_eq_codec (lib : Libraries) (t : Table) (p : PropertyDef) (out : Json) :
    decodeField lib t p out =
      match p.codec with
      | none => .ok out
      | some c => c.decode lib t (slotFor p.id) p.name out := by
  unfold decodeField PropertyDef.codec PropertyDef.integer
  cases p.type <;> first | rfl | (simp only []; split_ifs <;> rfl)

end ObDump
