import ObDump.Json.Value
import ObDump.FlexBuffers.Reference

/-!
# Text and JSON of opaque values

Library `Decode`. `src/fb_decode.cpp:138–235`: hex and UUID text of a blob, and the JSON of a
FlexBuffers value. The hex text is also given digit by digit, without the digit table and
the substring arithmetic.
-/

namespace ObDump

open Base

/-! ### Blobs -/

/-- The digit table of `src/fb_decode.cpp:139`. -/
def kHexDigits : Bytes := lit "0123456789abcdef"

/-- `src/fb_decode.cpp:138–147`. -/
def toHex (data : Bytes) : Bytes :=
  data.flatMap fun b : UInt8 ↦
    [kHexDigits.getD (b >>> 4).toNat 0, kHexDigits.getD (b &&& 0x0F).toNat 0]

/-- `std::string::substr`, for a position inside the string. -/
def substr (s : Bytes) (pos n : Nat) : Bytes := (s.drop pos).take n

/-- `src/fb_decode.cpp:152–156`. -/
def hexAsUuid (hex : Bytes) : Bytes :=
  if hex.length ≠ 32 then hex
  else substr hex 0 8 ++ lit "-" ++ substr hex 8 4 ++ lit "-" ++ substr hex 12 4 ++ lit "-" ++
    substr hex 16 4 ++ lit "-" ++ substr hex 20 12

/-- Lower-case hexadecimal digit of a number below 16. -/
def hexDigit (n : Nat) : UInt8 := UInt8.ofNat (if n < 10 then 0x30 + n else 0x57 + n)

/-- Two digits for each byte, high one first. -/
def hexText (data : Bytes) : Bytes :=
  data.flatMap fun b : UInt8 ↦ [hexDigit (b.toNat / 16), hexDigit (b.toNat % 16)]

/-- A UUID's canonical groups of 4, 2, 2, 2 and 6 bytes; any other length as plain digits. -/
def uuidText (data : Bytes) : Bytes :=
  if data.length = 16 then
    hexText (data.take 4) ++ lit "-" ++ hexText ((data.drop 4).take 2) ++ lit "-" ++
      hexText ((data.drop 6).take 2) ++ lit "-" ++ hexText ((data.drop 8).take 2) ++ lit "-" ++
      hexText (data.drop 10)
  else hexText data

private theorem kHexDigits_getD : ∀ i : Fin 16, kHexDigits.getD i.val 0 = hexDigit i.val := by
  decide

/-- The digit table and the nibble arithmetic yield the hexadecimal text. -/
theorem toHex_eq_hexText (data : Bytes) : toHex data = hexText data := by
  unfold toHex hexText
  congr 1
  funext b
  have hb : b.toNat < 256 := b.toNat_lt
  have hs : (b >>> 4).toNat = b.toNat / 16 := by
    rw [UInt8.toNat_shiftRight]
    exact Nat.shiftRight_eq_div_pow b.toNat 4
  have ha : (b &&& 0x0F).toNat = b.toNat % 16 := by
    rw [UInt8.toNat_and]
    exact Nat.and_two_pow_sub_one_eq_mod b.toNat 4
  have hhigh := kHexDigits_getD ⟨b.toNat / 16, by omega⟩
  have hlow := kHexDigits_getD ⟨b.toNat % 16, by omega⟩
  rw [hs, ha, hhigh, hlow]

/-- Two digits for each byte. -/
@[simp] theorem length_hexText (data : Bytes) : (hexText data).length = 2 * data.length := by
  induction data with
  | nil => rfl
  | cons b data ih =>
    simp only [hexText, List.flatMap_cons, List.length_append, List.length_cons] at ih ⊢
    rw [ih]
    simp only [List.length_nil]
    omega

private theorem drop_hexText (data : Bytes) (n : Nat) :
    (hexText data).drop (2 * n) = hexText (data.drop n) := by
  induction n generalizing data with
  | zero => rfl
  | succ n ih =>
    cases data with
    | nil => simp [hexText]
    | cons b data =>
      rw [Nat.mul_succ, List.drop_succ_cons, ← ih]
      rfl

private theorem take_hexText (data : Bytes) (n : Nat) :
    (hexText data).take (2 * n) = hexText (data.take n) := by
  induction n generalizing data with
  | zero => rfl
  | succ n ih =>
    cases data with
    | nil => simp [hexText]
    | cons b data =>
      have hs : hexText (b :: data) =
          hexDigit (b.toNat / 16) :: hexDigit (b.toNat % 16) :: hexText data := rfl
      rw [Nat.mul_succ, List.take_succ_cons, hs, List.take_succ_cons, List.take_succ_cons, ih]
      rfl

private theorem substr_hexText (data : Bytes) (pos n : Nat) :
    substr (hexText data) (2 * pos) (2 * n) = hexText ((data.drop pos).take n) := by
  rw [substr, drop_hexText, take_hexText]

/-- Grouping the digits of a blob is grouping its bytes. -/
theorem hexAsUuid_toHex (data : Bytes) : hexAsUuid (toHex data) = uuidText data := by
  rw [toHex_eq_hexText]
  unfold hexAsUuid uuidText
  rw [length_hexText]
  by_cases h : data.length = 16
  · have hlast : (data.drop 10).take 6 = data.drop 10 := by
      rw [List.take_of_length_le]
      rw [List.length_drop, h]
    have h0 := substr_hexText data 0 4
    have h4 := substr_hexText data 4 2
    have h6 := substr_hexText data 6 2
    have h8 := substr_hexText data 8 2
    have h10 := substr_hexText data 10 6
    rw [hlast] at h10
    rw [if_neg (by omega), if_pos h, h0, h4, h6, h8, h10, List.drop_zero]
  · rw [if_pos (by omega), if_neg h]

/-! ### FlexBuffers values -/

/-- The tests of `src/fb_decode.cpp:200–234` in their order, on a value whose elements are
converted already. -/
def flexStep (ref : FlexRef) (elems : List Json) : Json :=
  if ref.isNull then .null
  else if let some b := ref.asBool? then .bool b
  else if let some n := ref.asInt64? then .int n
  else if let some n := ref.asUInt64? then .int n
  else if let some bits := ref.asDouble? then .float64 bits
  else if let some s := ref.asString? then .str s
  else if let some data := ref.asBlob? then .str (toHex data)
  else if let some keys := ref.mapKeys? then Json.object (keys.zip elems)
  else if ref.isTypedVector then .arr elems
  else if ref.isFixedTypedVector then .arr elems
  else if ref.isVector then .arr elems
  else .null

mutual

/-- `src/fb_decode.cpp:196–235`. -/
def flexToJson : FlexRef → Json
  | .map keys values => flexStep (.map keys values) (flexVectorToJson values)
  | .vector xs => flexStep (.vector xs) (flexVectorToJson xs)
  | .typedVector xs => flexStep (.typedVector xs) (flexVectorToJson xs)
  | .fixedTypedVector xs => flexStep (.fixedTypedVector xs) (flexVectorToJson xs)
  | ref => flexStep ref []
termination_by structural ref => ref

/-- `src/fb_decode.cpp:187–194`, the elements. -/
def flexVectorToJson : List FlexRef → List Json
  | [] => []
  | x :: xs => flexToJson x :: flexVectorToJson xs
termination_by structural xs => xs

end

/-- A map's branch comes before a vector's. -/
example : flexToJson (.map [lit "k"] [.typedVector [.int 1, .int (-2)]]) =
    .obj [(lit "k", .arr [.int 1, .int (-2)])] := rfl

end ObDump
