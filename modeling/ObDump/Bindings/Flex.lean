import ObDump.Bindings.Blobs
import ObDump.Decode.Flex

/-!
# The FlexBuffers helper of the Python binding

Library `Bindings`. `_flex_ref_to_native` and `decode_flex` of
`py/src/ob_dump_reader/decode_helpers.py:61–99`. `flatbuffers.flexbuffers` is not part of the
sources: the texts that `AsString` and `AsKey` make of stored bytes are parameters. `IsInt` is
true for signed and unsigned integers, a key-typed value passes no test and raises.
-/

namespace ObDump

open Base

namespace Py

/-- The text accessors of `flexbuffers.Ref`; a `str` is kept as its UTF-8 bytes. -/
structure FlexRefTexts where
  asString : Bytes → Except PyError Bytes
  asKey : Bytes → Except PyError Bytes

/-- Documented behaviour: a text that is decoded is the stored one. -/
structure FlexRefTexts.Documented (fx : FlexRefTexts) : Prop where
  asString_eq : ∀ {s t}, fx.asString s = .ok t → t = s
  asKey_eq : ∀ {s t}, fx.asKey s = .ok t → t = s

/-- Strings are UTF-8 and keys are ASCII. -/
def FlexRefTexts.reference : FlexRefTexts where
  asString s := if Utf8.valid s then .ok s else .error .unicodeDecodeError
  asKey s := if s.all (· < 0x80) then .ok s else .error .unicodeDecodeError

private theorem eq_of_guarded {c : Prop} [Decidable c] {e : PyError} {s t : Bytes}
    (h : (if c then .ok s else .error e : Except PyError Bytes) = .ok t) : t = s := by
  split at h
  · exact (Except.ok.inj h).symm
  · cases h

private theorem FlexRefTexts.reference_documented : FlexRefTexts.reference.Documented where
  asString_eq h := eq_of_guarded h
  asKey_eq h := eq_of_guarded h

variable (fx : FlexRefTexts)

/-- `IsInt` with `AsInt`. -/
def asInt? (ref : FlexRef) : Option Int := ref.asInt64? <|> ref.asUInt64?.map Int.ofNat

/-- The tests of `decode_helpers.py:67–94` in their order, on the value that a map's or a
vector's elements make. -/
def flexStep (ref : FlexRef) (container : Except PyError Json) : Except PyError Json :=
  if ref.isNull then .ok .null
  else if let some b := ref.asBool? then .ok (.bool b)
  else if let some n := asInt? ref then .ok (.int n)
  else if let some bits := ref.asDouble? then .ok (.float64 bits)
  else if let some s := ref.asString? then (fx.asString s).map Json.str
  else if let some data := ref.asBlob? then (bytes_to_hex (elements false data)).map Json.str
  else if ref.mapKeys?.isSome then container
  else if ref.isVector || ref.isTypedVector || ref.isFixedTypedVector then container
  else .error .valueError

mutual

/-- `_flex_ref_to_native`, `decode_helpers.py:61–94`. -/
def flex_ref_to_native : FlexRef → Except PyError Json
  | .map keys values =>
    flexStep fx (.map keys values) ((flex_map_to_native keys values).map Json.object)
  | .vector xs => flexStep fx (.vector xs) ((flex_vector_to_native xs).map Json.arr)
  | .typedVector xs => flexStep fx (.typedVector xs) ((flex_vector_to_native xs).map Json.arr)
  | .fixedTypedVector xs =>
    flexStep fx (.fixedTypedVector xs) ((flex_vector_to_native xs).map Json.arr)
  | ref => flexStep fx ref (.error .valueError)
termination_by structural ref => ref

/-- The list comprehension of `decode_helpers.py:93`. -/
def flex_vector_to_native : List FlexRef → Except PyError (List Json)
  | [] => .ok []
  | x :: xs => do
    let value ← flex_ref_to_native x
    let rest ← flex_vector_to_native xs
    pure (value :: rest)
termination_by structural xs => xs

/-- The dict comprehension of `decode_helpers.py:81–84`, over the shorter of both vectors. -/
def flex_map_to_native : List Bytes → List FlexRef → Except PyError (List (Bytes × Json))
  | k :: keys, x :: xs => do
    let key ← fx.asKey k
    let value ← flex_ref_to_native x
    let rest ← flex_map_to_native keys xs
    pure ((key, value) :: rest)
  | _, _ => .ok []
termination_by structural _ xs => xs

end

/-- `decode_flex`, `decode_helpers.py:97–99`. -/
def decode_flex (getRoot : Bytes → FlexRef) (b : Bytes) : Except PyError Json :=
  flex_ref_to_native fx (getRoot b)

/-- The accessors decode the text of a string, or of each key of a map. -/
def textsDecode : FlexRef → Bool
  | .string s => (fx.asString s).isOk
  | .map keys _ => keys.all fun k ↦ (fx.asKey k).isOk
  | _ => true

/-- A value that is no key-typed string and whose texts are decoded. -/
def convertible (ref : FlexRef) : Bool := !ref.isKey && textsDecode fx ref

variable {fx}

private theorem text_eq_ok {text : Bytes → Except PyError Bytes}
    (htext : ∀ {s t}, text s = .ok t → t = s) {s : Bytes} (t : Bytes) :
    text s = .ok t ↔ (text s).isOk = true ∧ t = s := by
  cases h : text s with
  | error e => exact iff_of_false (fun he ↦ by cases he) (fun he ↦ Bool.false_ne_true he.1)
  | ok u =>
    rw [htext h, Except.ok.injEq]
    exact ⟨fun he ↦ ⟨rfl, he.symm⟩, fun he ↦ he.2.symm⟩

private theorem bytes_to_hex_eq_ok (data t : Bytes) :
    bytes_to_hex (elements false data) = .ok t ↔ True ∧ t = toHex data := by
  rw [bytes_to_hex, toBytes_unsigned, toHex_eq_hexText, ok_bind, pure, true_and]
  exact ⟨fun he ↦ by cases he; rfl, fun he ↦ by rw [he]; rfl⟩

mutual

private theorem native_eq_ok (hfx : fx.Documented) (ref : FlexRef)
    (h : ref.everywhere FlexRef.mapOk = true) (j : Json) :
    flex_ref_to_native fx ref = .ok j ↔
      ref.everywhere (convertible fx) = true ∧ j = flexToJson ref := by
  -- By the type of the value: a key-typed value and an undecodable text raise.
  match ref with
  | .null | .bool _ | .int _ | .uint _ | .float _ | .indirectInt _ | .indirectUInt _
  | .indirectFloat _ =>
    constructor
    · intro hj
      cases hj
      exact ⟨rfl, rfl⟩
    · rintro ⟨-, rfl⟩
      rfl
  | .key s =>
    apply iff_of_false
    · intro hj
      cases hj
    · rintro ⟨hk, -⟩
      exact Bool.false_ne_true hk
  | .string s => exact map_eq_ok_of (text_eq_ok hfx.asString_eq)
  | .blob data =>
    have hdata : ((bytes_to_hex (elements false data)).map Json.str = .ok j ↔ _) :=
      map_eq_ok_of (bytes_to_hex_eq_ok data)
    exact hdata.trans (and_congr_left' (iff_of_true trivial rfl))
  | .map keys values =>
    simp only [FlexRef.everywhere, FlexRef.mapOk, Bool.and_eq_true, decide_eq_true_eq] at h ⊢
    have hm := map_native_eq_ok hfx keys values h.1.1 h.2
    exact map_eq_ok_of hm
  | .vector xs | .typedVector xs | .fixedTypedVector xs =>
    exact map_eq_ok_of (vector_native_eq_ok hfx xs h)
termination_by structural ref

private theorem vector_native_eq_ok (hfx : fx.Documented) (xs : List FlexRef)
    (h : FlexRef.everywhereElems FlexRef.mapOk xs = true) (js : List Json) :
    flex_vector_to_native fx xs = .ok js ↔
      FlexRef.everywhereElems (convertible fx) xs = true ∧ js = flexVectorToJson xs := by
  match xs with
  | [] =>
    simp [flex_vector_to_native, FlexRef.everywhereElems, flexVectorToJson, eq_comm]
  | x :: xs =>
    simp only [FlexRef.everywhereElems, Bool.and_eq_true] at h ⊢
    rw [flex_vector_to_native, flexVectorToJson]
    simp only [bind_eq_ok, native_eq_ok hfx x h.1, vector_native_eq_ok hfx xs h.2, pure,
      Except.pure, Except.ok.injEq, and_assoc, exists_and_left, exists_eq_left, @eq_comm _ js]
termination_by structural xs

private theorem map_native_eq_ok (hfx : fx.Documented) (keys : List Bytes) (xs : List FlexRef)
    (hl : keys.length = xs.length)
    (h : FlexRef.everywhereElems FlexRef.mapOk xs = true) (ms : List (Bytes × Json)) :
    flex_map_to_native fx keys xs = .ok ms ↔
      (keys.all (fun k ↦ (fx.asKey k).isOk) = true ∧
        FlexRef.everywhereElems (convertible fx) xs = true) ∧
        ms = keys.zip (flexVectorToJson xs) := by
  match keys, xs with
  | [], [] =>
    simp [flex_map_to_native, FlexRef.everywhereElems, flexVectorToJson, eq_comm]
  | k :: keys, x :: xs =>
    simp only [FlexRef.everywhereElems, Bool.and_eq_true] at h ⊢
    have hrest := map_native_eq_ok hfx keys xs (Nat.succ.inj hl) h.2
    rw [flex_map_to_native, flexVectorToJson, List.zip_cons_cons]
    simp only [bind_eq_ok, text_eq_ok hfx.asKey_eq, native_eq_ok hfx x h.1, hrest, pure,
      Except.pure, Except.ok.injEq, List.all_cons, Bool.and_eq_true, and_assoc, exists_and_left,
      exists_eq_left, @eq_comm _ ms]
    exact and_congr_right fun _ ↦ and_left_comm
termination_by structural xs

end

end Py

/-- For every well-formed value, Python returns the JSON of the C++ decoder exactly when no
key-typed string is in it and the library decodes the text of each string and of each map key. -/
theorem decode_flex_agrees_iff {fx : Py.FlexRefTexts} (hfx : fx.Documented)
    (getRoot : Bytes → FlexRef) (b : Bytes) (h : (getRoot b).WellFormed) :
    Py.decode_flex fx getRoot b = .ok (flexToJson (getRoot b)) ↔
      (getRoot b).noKeys = true ∧ (getRoot b).everywhere (Py.textsDecode fx) = true := by
  rw [Py.decode_flex, Py.native_eq_ok hfx _ h, ← Bool.and_eq_true, FlexRef.noKeys,
    ← FlexRef.everywhere_and]
  exact and_iff_left rfl

/-- On a map with a vector of both integer types. -/
theorem decode_flex_agrees_iff_sample :
    Py.decode_flex .reference (fun _ ↦ .map [lit "a"] [.vector [.uint 7, .int (-1)]]) [] =
      .ok (flexToJson (.map [lit "a"] [.vector [.uint 7, .int (-1)]])) := by
  apply (decode_flex_agrees_iff Py.FlexRefTexts.reference_documented _ _ ?_).mpr
  · decide
  · show FlexRef.everywhere FlexRef.mapOk _ = true
    decide

/-- On a vector of one key-typed string Python raises, where C++ returns a vector of one null. -/
theorem decode_flex_disagrees :
    FlexRef.WellFormed (.typedVector [.key (lit "k")]) ∧
      flexToJson (.typedVector [.key (lit "k")]) = .arr [.null] ∧
      Py.decode_flex .reference (fun _ ↦ .typedVector [.key (lit "k")]) [] =
        .error .valueError :=
  ⟨rfl, rfl, rfl⟩

end ObDump
