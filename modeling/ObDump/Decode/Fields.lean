import ObDump.Base.Floats
import ObDump.Decode.Values
import ObDump.FlatBuffers.Stored
import ObDump.FlatBuffers.Verifier
import ObDump.Json.Print
import ObDump.Schema.Model

/-!
# Decoding one field

Library `Decode`. `src/fb_decode.cpp:24–278`. The field decoders come in two families, for
values stored inside the table and for values behind an offset: each decoder is its family
applied to its own checks, texts and conversion. A field's success is characterised
by what the format says is stored in it.
-/

namespace ObDump

open Base FlatBuffers

/-- The libraries the program links. -/
structure Libraries where
  json : Nlohmann
  verifier : Verifier
  flex : FlexBuffers

/-- The reference instances; FlexBuffers bytes are all rejected. -/
def Libraries.reference : Libraries where
  json := .reference
  verifier := .reference
  flex := { verifyBuffer := fun _ ↦ false, getRoot := fun _ ↦ .null }

/-- A `flatbuffers::Table` in its record. -/
structure Table where
  buf : Bytes
  pos : Nat

/-- A read the source makes without a check of its own. -/
def inBounds {α : Type} : Option α → Except Exc α
  | some a => .ok a
  | none => .error .outOfBounds

/-- A read within the record succeeds with what is there. -/
@[simp] theorem inBounds_eq_ok {α : Type} {x : Option α} {a : α} :
    inBounds x = .ok a ↔ x = some a := by
  cases x <;> simp [inBounds]

/-! ### Wire types -/

/-- The scalar types the decoder instantiates its templates at. -/
inductive Scalar where
  | uint8 | int8 | uint16 | int16 | uint32 | int32 | uint64 | int64 | float | double
  deriving DecidableEq, Repr

/-- `sizeof(T)`. -/
def Scalar.size : Scalar → Nat
  | .uint8 | .int8 => 1
  | .uint16 | .int16 => 2
  | .uint32 | .int32 | .float => 4
  | .uint64 | .int64 | .double => 8

/-- The JSON number of a value given by its bits. -/
def Scalar.toJson : Scalar → Nat → Json
  | .uint8, bits | .uint16, bits | .uint32, bits | .uint64, bits => .int bits
  | .int8, bits => .int (signed 8 bits)
  | .int16, bits => .int (signed 16 bits)
  | .int32, bits => .int (signed 32 bits)
  | .int64, bits => .int (signed 64 bits)
  | .float, bits => .float64 (widen (UInt32.ofNat bits))
  | .double, bits => .float64 (UInt64.ofNat bits)

/-- The error of a field that fails a check. -/
def corrupt (what name : Bytes) : Exc :=
  .runtimeError (lit "corrupt record: bad " ++ what ++ lit " '" ++ name ++ lit "'")

section

variable (lib : Libraries) (t : Table) (slot : Nat) (name : Bytes) (out : Json)

/-! ### The two families -/

/-- A value inside the table; the common body of `src/fb_decode.cpp:27–34` and `:40–54`. -/
def decodeInline (T : Scalar) (what : Bytes) (value : Nat → Json) : Except Exc Json := do
  let present ← inBounds (checkField t.buf t.pos slot)
  if !present then pure out
  else if !lib.verifier.field t.buf t.pos slot T.size then throw (corrupt what name)
  else do
    let bits ← inBounds (getField t.buf t.pos slot T.size)
    pure (out.set name (value bits))

/-- A value behind an offset; the common body of `src/fb_decode.cpp:56–136` and `:163–278`. -/
def decodePointer (offset contents : Bytes) (verify : Nat → Bool)
    (value : Nat → Except Exc Json) : Except Exc Json := do
  let present ← inBounds (checkField t.buf t.pos slot)
  if !present then pure out
  else if !lib.verifier.offset t.buf t.pos slot then throw (corrupt offset name)
  else do
    let ptr ← inBounds (getPointer t.buf t.pos slot)
    if !ptr.all verify then throw (corrupt contents name)
    else
      match ptr with
      | none => pure out
      | some pos => do
        let j ← value pos
        pure (out.set name j)

/-! ### The decoders -/

/-- `src/fb_decode.cpp:27–34`. -/
def decodeBool : Except Exc Json :=
  decodeInline lib t slot name out .uint8 (lit "bool field") fun bits ↦ .bool (bits != 0)

/-- `src/fb_decode.cpp:40–54`. -/
def decodeScalar (T : Scalar) : Except Exc Json :=
  decodeInline lib t slot name out T (lit "scalar field") T.toJson

/-- `src/fb_decode.cpp:56–69`. -/
def decodeString : Except Exc Json :=
  decodePointer lib t slot name out (lit "string offset") (lit "string contents")
    (lib.verifier.string t.buf) fun pos ↦ do
      let s ← inBounds (stringBytes t.buf pos)
      pure (.str s)

/-- The parsed content, or the text itself when it does not parse; only a `parse_error` is
caught. `src/fb_decode.cpp:87–91`. -/
def parseOrRaw (s : Bytes) : Except Exc Json :=
  match lib.json.parse s with
  | .ok j => .ok j
  | .error .parseError => .ok (.str s)
  | .error e => .error (.json e)

/-- `src/fb_decode.cpp:76–92`. -/
def decodeStringAsJson : Except Exc Json :=
  decodePointer lib t slot name out (lit "string offset") (lit "string contents")
    (lib.verifier.string t.buf) fun pos ↦ do
      let s ← inBounds (stringBytes t.buf pos)
      parseOrRaw lib s

/-- `src/fb_decode.cpp:96–112`. -/
def decodeBoolVector : Except Exc Json :=
  decodePointer lib t slot name out (lit "vector offset") (lit "bool vector")
    (fun pos ↦ lib.verifier.vector t.buf pos 1) fun pos ↦ do
      let elems ← inBounds (vectorElems t.buf pos 1)
      pure (.arr (elems.map fun bits ↦ .bool (bits != 0)))

/-- `src/fb_decode.cpp:119–136`. -/
def decodeNumericVector (T : Scalar) : Except Exc Json :=
  decodePointer lib t slot name out (lit "vector offset") (lit "vector")
    (fun pos ↦ lib.verifier.vector t.buf pos T.size) fun pos ↦ do
      let elems ← inBounds (vectorElems t.buf pos T.size)
      pure (.arr (elems.map T.toJson))

/-- The text of a blob; `src/fb_decode.cpp:175–176`. -/
def blobString (asUuid : Bool) (data : Bytes) : Bytes :=
  if asUuid then hexAsUuid (toHex data) else toHex data

/-- `src/fb_decode.cpp:163–177`. -/
def decodeByteVectorAsBlobString (asUuid : Bool) : Except Exc Json :=
  decodePointer lib t slot name out (lit "vector offset") (lit "byte vector")
    (fun pos ↦ lib.verifier.vector t.buf pos 1) fun pos ↦ do
      let data ← inBounds (stringBytes t.buf pos)
      pure (.str (blobString asUuid data))

/-- The value inside a Flex field's bytes; `src/fb_decode.cpp:255–258`. -/
def flexContents (data : Bytes) : Except Exc Json :=
  if !lib.flex.verifyBuffer data then
    throw (.runtimeError
      (lit "corrupt record: invalid FlexBuffers contents in '" ++ name ++ lit "'"))
  else pure (flexToJson (lib.flex.getRoot data))

/-- `src/fb_decode.cpp:243–259`. -/
def decodeFlex : Except Exc Json :=
  decodePointer lib t slot name out (lit "vector offset") (lit "Flex byte vector")
    (fun pos ↦ lib.verifier.vector t.buf pos 1) fun pos ↦ do
      let data ← inBounds (stringBytes t.buf pos)
      flexContents lib name data

/-- `src/fb_decode.cpp:261–278`. -/
def decodeStringVector : Except Exc Json :=
  decodePointer lib t slot name out (lit "vector offset") (lit "string vector")
    (fun pos ↦ lib.verifier.vector t.buf pos 4 && lib.verifier.vectorOfStrings t.buf pos)
    fun pos ↦ do
      let ss ← inBounds (vectorStrings t.buf pos)
      pure (.arr (ss.map Json.str))

/-! ### What a decoder does to its output -/

variable {lib t slot name out} {r : Json}

private theorem checkField_eq : checkField t.buf t.pos slot =
    (fieldOffset t.buf t.pos slot).map (fun off ↦ off != 0) := by
  unfold checkField
  cases fieldOffset t.buf t.pos slot <;> rfl

private theorem getField_of {off size : Nat} (h : fieldOffset t.buf t.pos slot = some off)
    (h0 : off ≠ 0) : getField t.buf t.pos slot size = readLE t.buf (t.pos + off) size := by
  simp only [getField, h, Option.bind_eq_bind, Option.bind_some, bne_iff_ne, ne_eq, h0,
    not_false_eq_true, if_true]

private theorem getPointer_of {off : Nat} (h : fieldOffset t.buf t.pos slot = some off)
    (h0 : off ≠ 0) :
    getPointer t.buf t.pos slot = (follow t.buf (t.pos + off)).map some := by
  simp only [getPointer, follow, h, Option.bind_eq_bind, Option.bind_some, bne_iff_ne, ne_eq, h0,
    not_false_eq_true, if_true]
  cases readLE t.buf (t.pos + off) 4 <;> rfl

/-- The value inside the table succeeds exactly when the field is absent, or accepted and
readable. -/
theorem decodeInline_eq_ok {T : Scalar} {what : Bytes} {value : Nat → Json} :
    decodeInline lib t slot name out T what value = .ok r ↔
      ∃ off, fieldOffset t.buf t.pos slot = some off ∧
        (off = 0 ∧ r = out ∨ off ≠ 0 ∧ lib.verifier.field t.buf t.pos slot T.size = true ∧
          ∃ bits, readLE t.buf (t.pos + off) T.size = some bits ∧
            r = out.set name (value bits)) := by
  unfold decodeInline
  rw [bind_eq_ok, checkField_eq]
  cases hoff : fieldOffset t.buf t.pos slot with
  | none => simp [inBounds]
  | some off =>
    simp only [Option.map_some, inBounds_eq_ok, Option.some.injEq, exists_eq_left']
    by_cases h0 : off = 0
    · simp only [h0, bne_self_eq_false, Bool.not_false, if_true, pure, Except.pure,
        Except.ok.injEq, ne_eq, not_true_eq_false, true_and, false_and, or_false]
      exact eq_comm
    · rw [getField_of hoff h0]
      cases lib.verifier.field t.buf t.pos slot T.size with
      | false => simp [h0, throw, throwThe, MonadExceptOf.throw]
      | true =>
        have hb : (off != 0) = true := by simp [h0]
        simp only [hb, Bool.not_true, Bool.false_eq_true, if_false, bind_eq_ok, inBounds_eq_ok,
          ne_eq, h0, not_false_eq_true, false_and, true_and, false_or, pure, Except.pure,
          Except.ok.injEq, @eq_comm _ r]

/-- The value behind an offset succeeds exactly when the field is absent, or every check
accepts it and its content converts. -/
theorem decodePointer_eq_ok {offset contents : Bytes} {verify : Nat → Bool}
    {value : Nat → Except Exc Json} :
    decodePointer lib t slot name out offset contents verify value = .ok r ↔
      ∃ off, fieldOffset t.buf t.pos slot = some off ∧
        (off = 0 ∧ r = out ∨ off ≠ 0 ∧ lib.verifier.offset t.buf t.pos slot = true ∧
          ∃ pos, follow t.buf (t.pos + off) = some pos ∧ verify pos = true ∧
            ∃ j, value pos = .ok j ∧ r = out.set name j) := by
  unfold decodePointer
  rw [bind_eq_ok, checkField_eq]
  cases hoff : fieldOffset t.buf t.pos slot with
  | none => simp [inBounds]
  | some off =>
    simp only [Option.map_some, inBounds_eq_ok, Option.some.injEq, exists_eq_left']
    by_cases h0 : off = 0
    · simp only [h0, bne_self_eq_false, Bool.not_false, if_true, pure, Except.pure,
        Except.ok.injEq, ne_eq, not_true_eq_false, true_and, false_and, or_false]
      exact eq_comm
    · rw [getPointer_of hoff h0]
      cases lib.verifier.offset t.buf t.pos slot with
      | false => simp [h0, throw, throwThe, MonadExceptOf.throw]
      | true =>
        have hb : (off != 0) = true := by simp [h0]
        simp only [hb, Bool.not_true, Bool.false_eq_true, if_false, bind_eq_ok, inBounds_eq_ok,
          ne_eq, h0, not_false_eq_true, false_and, true_and, false_or]
        cases follow t.buf (t.pos + off) with
        | none => simp
        | some pos =>
          simp only [Option.map_some, Option.some.injEq, exists_eq_left', Option.all_some]
          cases verify pos with
          | false => simp [throw, throwThe, MonadExceptOf.throw]
          | true =>
            simp only [Bool.not_true, Bool.false_eq_true, if_false, true_and, bind_eq_ok, pure,
              Except.pure, Except.ok.injEq, @eq_comm _ r]

end

end ObDump
