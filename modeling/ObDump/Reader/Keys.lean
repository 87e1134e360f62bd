import ObDump.Lmdb.Library

/-!
# Keys of an ObjectBox store

Library `Reader`. The key formats of `include/internal/lmdb_reader.hpp:34–43` and the
big-endian fields of `src/lmdb_reader.cpp:38–48`. Building a key and reading its fields
undo each other.
-/

namespace ObDump

open Base

/-- `src/lmdb_reader.cpp:14–18`. -/
def kKeyTypeData : UInt8 := 0x18
def kKeyTypeRelation : UInt8 := 0x08
def kRelationDirectionForward : UInt8 := 0

/-- `src/lmdb_reader.cpp:38–41`, on the bytes from `p`. -/
def readUint32BE (p : Bytes) : UInt32 :=
  (p.getD 0 0).toUInt32 <<< 24 ||| (p.getD 1 0).toUInt32 <<< 16 |||
    (p.getD 2 0).toUInt32 <<< 8 ||| (p.getD 3 0).toUInt32

/-- `src/lmdb_reader.cpp:43–48`. -/
def writeUint32BE (v : UInt32) : Bytes :=
  [(v >>> 24).toUInt8, (v >>> 16).toUInt8, (v >>> 8).toUInt8, v.toUInt8]

/-- `include/internal/lmdb_reader.hpp:20–25`. -/
structure ObjectRecord where
  entityId : Int
  objectId : UInt32
  data : Bytes
  deriving DecidableEq, Repr

/-- The record of an entry whose key is one of object data; `src/lmdb_reader.cpp:113–119`. -/
def objectRecord (e : Entry) : Option ObjectRecord :=
  if e.1.length = 8 ∧ e.1.getD 0 0 = kKeyTypeData then
    some
      { entityId := ((e.1.getD 3 0).toNat / 4 : Nat)
        objectId := readUint32BE (e.1.drop 4)
        data := e.2 }
  else none

/-! ### Big-endian fields -/

/-- A list of four bytes. -/
theorem eq_four_of_length {p : Bytes} (h : p.length = 4) : ∃ a b c d, p = [a, b, c, d] := by
  match p, h with
  | [a, b, c, d], _ => exact ⟨a, b, c, d, rfl⟩

/-- Reading four bytes yields their big-endian value. -/
theorem toNat_readUint32BE {p : Bytes} (h : p.length = 4) : (readUint32BE p).toNat = ofBE p := by
  obtain ⟨a, b, c, d, rfl⟩ := eq_four_of_length h
  have ha : a.toNat < 256 := a.toNat_lt
  have hb : b.toNat < 256 := b.toNat_lt
  have hc : c.toNat < 256 := c.toNat_lt
  have hd : d.toNat < 256 := d.toNat_lt
  have h24 : (24 : UInt32).toNat % 32 = 24 := rfl
  have h16 : (16 : UInt32).toNat % 32 = 16 := rfl
  have h8 : (8 : UInt32).toNat % 32 = 8 := rfl
  simp only [readUint32BE, List.getD_cons_zero, List.getD_cons_succ, UInt32.toNat_or,
    UInt32.toNat_shiftLeft, UInt8.toNat_toUInt32, h24, h16, h8]
  rw [Nat.mod_eq_of_lt (by rw [Nat.shiftLeft_eq]; omega),
    Nat.mod_eq_of_lt (by rw [Nat.shiftLeft_eq]; omega),
    Nat.mod_eq_of_lt (by rw [Nat.shiftLeft_eq]; omega), or_shift_eq _ hb hc hd, ofBE_four]

/-- Four bytes are written. -/
@[simp] theorem length_writeUint32BE (v : UInt32) : (writeUint32BE v).length = 4 := rfl

/-- The bytes written have the number as their big-endian value. -/
theorem ofBE_writeUint32BE (v : UInt32) : ofBE (writeUint32BE v) = v.toNat := by
  have hv : v.toNat < 2 ^ 32 := v.toNat_lt
  have h24 : (24 : UInt32).toNat % 32 = 24 := rfl
  have h16 : (16 : UInt32).toNat % 32 = 16 := rfl
  have h8 : (8 : UInt32).toNat % 32 = 8 := rfl
  simp only [writeUint32BE, ofBE_four, UInt32.toNat_toUInt8, UInt32.toNat_shiftRight, h24, h16, h8,
    Nat.shiftRight_eq_div_pow]
  omega

/-- A written number reads back. -/
theorem readUint32BE_writeUint32BE (v : UInt32) : readUint32BE (writeUint32BE v) = v := by
  apply UInt32.toNat_inj.mp
  rw [toNat_readUint32BE (length_writeUint32BE v), ofBE_writeUint32BE]

/-- Four bytes read and written again are the same bytes. -/
theorem writeUint32BE_readUint32BE {p : Bytes} (h : p.length = 4) :
    writeUint32BE (readUint32BE p) = p := by
  apply ofBE_inj (by rw [length_writeUint32BE, h])
  rw [ofBE_writeUint32BE, toNat_readUint32BE h]

/-! ### Keys of object data -/

/-- The documented key of an object; `include/internal/lmdb_reader.hpp:34–35`. -/
def dataKey (entityId : Nat) (objectId : UInt32) : Bytes :=
  [kKeyTypeData, 0x00, 0x00, UInt8.ofNat (entityId * 4)] ++ writeUint32BE objectId

/-- A key of eight bytes that starts like one of object data. -/
def IsDataKey (key : Bytes) : Prop := key.length = 8 ∧ key.getD 0 0 = kKeyTypeData

/-- Documented form: bytes 1 and 2 are zero and byte 3 is a multiple of 4. -/
def DocumentedKey (key : Bytes) : Prop :=
  key.getD 1 0 = 0 ∧ key.getD 2 0 = 0 ∧ (key.getD 3 0).toNat % 4 = 0

/-- An object-data key of the documented form is that of an entity id of at most 63. -/
theorem eq_dataKey {key : Bytes} (h : IsDataKey key) (hd : DocumentedKey key) :
    key = dataKey ((key.getD 3 0).toNat / 4) (readUint32BE (key.drop 4)) := by
  obtain ⟨hl, h0⟩ := h
  obtain ⟨h1, h2, h3⟩ := hd
  match key, hl with
  | [a, b, c, d, e, f, g, h], _ =>
    simp only [List.getD_cons_zero, List.getD_cons_succ] at h0 h1 h2 h3 ⊢
    have hdd : UInt8.ofNat (d.toNat / 4 * 4) = d := by
      rw [Nat.div_mul_cancel (Nat.dvd_of_mod_eq_zero h3), UInt8.ofNat_toNat]
    rw [dataKey, hdd, writeUint32BE_readUint32BE rfl, h0, h1, h2]
    rfl

/-- Reading the fields of a data key recovers the ids it was built from. -/
theorem objectRecord_dataKey {entityId : Nat} (he : entityId ≤ 63) (objectId : UInt32)
    (value : Bytes) : objectRecord (dataKey entityId objectId, value) =
      some ⟨entityId, objectId, value⟩ := by
  have hm : (UInt8.ofNat (entityId * 4)).toNat = entityId * 4 := by
    rw [UInt8.toNat_ofNat']
    omega
  have hr : (dataKey entityId objectId).drop 4 = writeUint32BE objectId := rfl
  have hd : (dataKey entityId objectId).getD 3 0 = UInt8.ofNat (entityId * 4) := rfl
  have hdiv : entityId * 4 / 4 = entityId := Nat.mul_div_cancel _ (by decide)
  rw [objectRecord, if_pos ⟨rfl, rfl⟩, hr, hd, hm, hdiv, readUint32BE_writeUint32BE]

/-- Two data keys are ordered as their ids are, entity ids first. -/
theorem dataKey_lt_iff {a b : Nat} (ha : a ≤ 63) (hb : b ≤ 63) (x y : UInt32) :
    dataKey a x < dataKey b y ↔ a < b ∨ a = b ∧ x < y := by
  have hx : x.toNat < 2 ^ 32 := x.toNat_lt
  have hy : y.toNat < 2 ^ 32 := y.toNat_lt
  have hlen : (dataKey a x).length = (dataKey b y).length := rfl
  have hkey : ∀ {n : Nat} (v : UInt32), n ≤ 63 →
      ofBE (dataKey n v) = 0x18 * 2 ^ 56 + n * 4 * 2 ^ 32 + v.toNat := by
    intro n v hn
    have hm : (UInt8.ofNat (n * 4)).toNat = n * 4 := by
      rw [UInt8.toNat_ofNat']
      omega
    have hk : kKeyTypeData.toNat = 0x18 := rfl
    have hz : (0x00 : UInt8).toNat = 0 := rfl
    simp only [dataKey, List.cons_append, List.nil_append, ofBE, ofBE_writeUint32BE,
      List.length_cons, length_writeUint32BE, hm, hk, hz]
    omega
  rw [lt_iff_ofBE_lt hlen, hkey x ha, hkey y hb, UInt32.lt_iff_toNat_lt]
  omega

end ObDump
