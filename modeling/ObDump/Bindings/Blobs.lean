import ObDump.Base.Except
import ObDump.Bindings.Relations
import ObDump.Decode.Fields

/-!
# The hex and UUID helpers of the language bindings

Library `Bindings`. `bytesToHex` and `bytesToUuidString` of `dart/lib/src/decode_helpers.dart`,
`py/src/ob_dump_reader/decode_helpers.py` and `js/src/decodeHelpers.ts`. A generated reader
hands a blob over element by element, each as an unsigned or as a signed byte. Dart and
JavaScript reduce an element to its low eight bits; Python's `bytes` takes 0 to 255 only.
-/

namespace ObDump

open Base FlatBuffers

/-- A blob as a generated reader hands it over: `[ubyte]` elements, or the signed ones of
`[byte]`. -/
def elements (isSigned : Bool) (data : Bytes) : List Int :=
  data.map fun b ↦ if isSigned then signed 8 b.toNat else (b.toNat : Int)

/-- Characters `i` to `j` of a string. -/
def slice (s : Bytes) (i j : Nat) : Bytes := (s.drop i).take (j - i)

/-- The common body of the three UUID helpers, on the hex text. -/
def groupHex (hex : Bytes) : Bytes :=
  if hex.length ≠ 32 then hex
  else slice hex 0 8 ++ lit "-" ++ slice hex 8 12 ++ lit "-" ++ slice hex 12 16 ++ lit "-" ++
    slice hex 16 20 ++ lit "-" ++ slice hex 20 32

/-! ### Dart -/

namespace Dart

/-- `a & b` on signed 64-bit integers. -/
def and (a b : Int) : Int := (BitVec.ofInt 64 a &&& BitVec.ofInt 64 b).toInt

/-- `toRadixString(16)` of a number that is not negative. -/
def toRadixString16 (n : Int) : Bytes :=
  (Nat.toDigits 16 n.toNat).map fun c ↦ UInt8.ofNat c.toNat

/-- `padLeft(width, '0')`. -/
def padLeft (s : Bytes) (width : Nat) : Bytes := List.replicate (width - s.length) 0x30 ++ s

/-- `bytesToHex`, `dart/lib/src/decode_helpers.dart:23–29`. -/
def bytesToHex (bytes : List Int) : Bytes :=
  bytes.flatMap fun b ↦ padLeft (toRadixString16 (and b 0xFF)) 2

/-- `bytesToUuidString`, `dart/lib/src/decode_helpers.dart:36–42`. -/
def bytesToUuidString (bytes : List Int) : Bytes := groupHex (bytesToHex bytes)

end Dart

/-! ### Python -/

namespace Py

/-- `bytes(b)` of a list of integers. -/
def toBytes (b : List Int) : Except PyError Bytes :=
  b.mapM fun n ↦ if 0 ≤ n ∧ n ≤ 255 then .ok (UInt8.ofInt n) else .error .valueError

/-- `bytes_to_hex`, `py/src/ob_dump_reader/decode_helpers.py:39–40`. -/
def bytes_to_hex (b : List Int) : Except PyError Bytes := do
  let data ← toBytes b
  pure (hexText data)

/-- `bytes_to_uuid_string`, `py/src/ob_dump_reader/decode_helpers.py:43–51`. -/
def bytes_to_uuid_string (b : List Int) : Except PyError Bytes := do
  let data ← toBytes b
  pure (groupHex (hexText data))

end Py

/-! ### JavaScript -/

namespace Js

/-- `Buffer.from(b).toString("hex")`: an element keeps its low eight bits.
`js/src/decodeHelpers.ts:22–24`. -/
def bytesToHex (b : List Int) : Bytes := hexText (b.map UInt8.ofInt)

/-- `bytesToUuidString`, `js/src/decodeHelpers.ts:26–34`. -/
def bytesToUuidString (b : List Int) : Bytes := groupHex (bytesToHex b)

end Js

/-- All helpers return the text of the C++ decoder. -/
def BlobTextsAgree (data : Bytes) (elems : List Int) : Prop :=
  Dart.bytesToHex elems = blobString false data ∧
    Dart.bytesToUuidString elems = blobString true data ∧
    Py.bytes_to_hex elems = .ok (blobString false data) ∧
    Py.bytes_to_uuid_string elems = .ok (blobString true data) ∧
    Js.bytesToHex elems = blobString false data ∧
    Js.bytesToUuidString elems = blobString true data

/-! ### One element -/

private theorem ofInt_element (isSigned : Bool) (b : UInt8) :
    UInt8.ofInt (if isSigned then signed 8 b.toNat else (b.toNat : Int)) = b := by
  have hb : b.toNat < 256 := b.toNat_lt
  have hmod : ∀ n : Int, (n = b.toNat ∨ n = b.toNat - 256) → UInt8.ofInt n = b := by
    intro n hn
    rw [← UInt8.toNat_inj, UInt8.ofInt, UInt8.toNat_ofNat']
    omega
  apply hmod
  unfold signed
  split_ifs <;> simp

private theorem Dart.element_eq (n : Int) :
    Dart.padLeft (Dart.toRadixString16 (Dart.and n 0xFF)) 2 = hexText [UInt8.ofInt n] := by
  have hdigits : ∀ k : Fin 256, Dart.padLeft (Dart.toRadixString16 (k.val : Nat)) 2 =
      hexText [UInt8.ofNat k.val] := by
    decide +kernel
  have hlow : Dart.and n 0xFF = ((n % 256).toNat : Nat) := by
    have hmask : BitVec.ofInt 64 n &&& BitVec.ofInt 64 0xFF = BitVec.ofNat 64 (n % 256).toNat := by
      apply BitVec.eq_of_toNat_eq
      have hff : (BitVec.ofInt 64 0xFF).toNat = 2 ^ 8 - 1 := by decide
      rw [BitVec.toNat_and, hff, Nat.and_two_pow_sub_one_eq_mod, BitVec.toNat_ofInt,
        BitVec.toNat_ofNat]
      omega
    rw [Dart.and, hmask, BitVec.toInt_eq_toNat_of_lt]
    · rw [BitVec.toNat_ofNat, Nat.mod_eq_of_lt (by omega)]
    · rw [BitVec.toNat_ofNat, Nat.mod_eq_of_lt (by omega)]
      omega
  have hb : UInt8.ofInt n = UInt8.ofNat (n % 256).toNat := by
    rw [UInt8.ofInt]
    norm_num
  rw [hlow, hdigits ⟨(n % 256).toNat, by omega⟩, hb]

/-! ### Whole blobs -/

private theorem map_ofInt_elements (isSigned : Bool) (data : Bytes) :
    (elements isSigned data).map UInt8.ofInt = data := by
  rw [elements, List.map_map]
  conv_rhs => rw [← List.map_id data]
  apply List.map_congr_left
  intro b _
  exact ofInt_element isSigned b

private theorem Dart.bytesToHex_eq (elems : List Int) :
    Dart.bytesToHex elems = hexText (elems.map UInt8.ofInt) := by
  rw [Dart.bytesToHex, hexText, List.flatMap_map]
  congr 1
  funext n
  rw [Dart.element_eq]
  rfl

private theorem element_in_range (isSigned : Bool) (b : UInt8) :
    (0 ≤ (if isSigned then signed 8 b.toNat else (b.toNat : Int)) ∧
      (if isSigned then signed 8 b.toNat else (b.toNat : Int)) ≤ 255) ↔
        (isSigned = true → b < 128) := by
  have hb : b.toNat < 256 := b.toNat_lt
  have h128 : (128 : UInt8).toNat = 128 := rfl
  rw [UInt8.lt_iff_toNat_lt, h128]
  cases isSigned with
  | false =>
    simp only [Bool.false_eq_true, if_false, false_imp_iff, iff_true]
    omega
  | true =>
    simp only [if_true, forall_const]
    unfold signed
    split
    · omega
    · omega

private theorem Py.toBytes_elements (isSigned : Bool) (data : Bytes) :
    (∃ r, Py.toBytes (elements isSigned data) = .ok r) ↔
      (isSigned = true → ∀ b ∈ data, b < 128) := by
  have hrange : (∃ r, Py.toBytes (elements isSigned data) = .ok r) ↔
      ∀ b ∈ data, isSigned = true → b < 128 := by
    constructor
    · rintro ⟨r, hr⟩ b hb
      rw [Py.toBytes, mapM_eq_ok] at hr
      obtain ⟨c, -, hc⟩ := exists_of_forall₂ hr.flip (List.mem_map_of_mem hb)
      by_contra hne
      rw [← element_in_range] at hne
      rw [if_neg hne] at hc
      cases hc
    · intro h
      apply exists_mapM_eq_ok
      intro n hn
      obtain ⟨b, hb, rfl⟩ := List.mem_map.mp hn
      exact ⟨_, if_pos ((element_in_range isSigned b).mpr (h b hb))⟩
  rw [hrange]
  exact ⟨fun h hs b hb ↦ h b hb hs, fun h b hb hs ↦ h hs b hb⟩

private theorem Py.toBytes_ok {elems : List Int} {r : Bytes} (h : Py.toBytes elems = .ok r) :
    r = elems.map UInt8.ofInt := by
  rw [Py.toBytes, mapM_eq_ok] at h
  induction h with
  | nil => rfl
  | @cons n b _ _ hn _ ih =>
    split_ifs at hn
    cases hn
    rw [List.map_cons, ih]

/-- Bytes handed over unsigned are taken as they are. -/
theorem Py.toBytes_unsigned (data : Bytes) : Py.toBytes (elements false data) = .ok data := by
  obtain ⟨r, hr⟩ := (Py.toBytes_elements false data).mpr (fun h ↦ absurd h Bool.false_ne_true)
  rw [hr, Py.toBytes_ok hr, map_ofInt_elements]

/-- For every blob and either presentation of its bytes, the helpers agree with the C++ decoder
exactly when the bytes are handed over unsigned or are all below 128. -/
theorem blob_texts_agree_iff (isSigned : Bool) (data : Bytes) :
    BlobTextsAgree data (elements isSigned data) ↔ (isSigned = true → ∀ b ∈ data, b < 128) := by
  have hhex : blobString false data = hexText data := toHex_eq_hexText data
  have huuid : blobString true data = groupHex (hexText data) := by
    rw [← hhex]
    rfl
  have hdart : Dart.bytesToHex (elements isSigned data) = hexText data := by
    rw [Dart.bytesToHex_eq, map_ofInt_elements]
  have hjs : Js.bytesToHex (elements isSigned data) = hexText data := by
    rw [Js.bytesToHex, map_ofInt_elements]
  rw [← Py.toBytes_elements, BlobTextsAgree, hhex, huuid, Dart.bytesToUuidString,
    Js.bytesToUuidString, hdart, hjs]
  constructor
  · rintro ⟨-, -, hpy, -⟩
    obtain ⟨r, hr, -⟩ := bind_eq_ok.mp hpy
    exact ⟨r, hr⟩
  · rintro ⟨r, hr⟩
    have hdata := Py.toBytes_ok hr
    rw [map_ofInt_elements] at hdata
    subst hdata
    refine ⟨rfl, rfl, ?_, ?_, rfl, rfl⟩
    · rw [Py.bytes_to_hex, hr]
      rfl
    · rw [Py.bytes_to_uuid_string, hr]
      rfl

/-- A blob of one byte 0xFF, handed over as -1: Python raises. -/
theorem blob_texts_disagree :
    Py.bytes_to_hex (elements true [0xFF]) = .error .valueError ∧
      ¬ BlobTextsAgree [0xFF] (elements true [0xFF]) := by
  have hpy : Py.bytes_to_hex (elements true [0xFF]) = .error .valueError := by decide
  refine ⟨hpy, ?_⟩
  rintro ⟨-, -, h, -⟩
  rw [hpy] at h
  cases h

end ObDump
