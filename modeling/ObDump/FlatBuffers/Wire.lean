import ObDump.Base.Bytes

/-!
# The FlatBuffers table format

Library `FlatBuffers`. Positions are byte indices into the buffer, integers are
little-endian, and every read outside the buffer yields nothing. The accessors follow
the published binary format: a table starts with the signed distance back to its
vtable, a vtable starts with its own size and the table's, then holds one entry for
each field, and a string or vector is reached through an unsigned forward offset and
starts with its element count.
-/

namespace ObDump.FlatBuffers

open Base

/-! ### Reading -/

/-- `n` bytes at `pos`. -/
def readBytes (buf : Bytes) (pos n : Nat) : Option Bytes :=
  if pos + n ≤ buf.length then some ((buf.drop pos).take n) else none

/-- Little-endian integer of `n` bytes at `pos`. -/
def readLE (buf : Bytes) (pos n : Nat) : Option Nat := (readBytes buf pos n).map ofLE

/-- Two's-complement reading of `bits` bits. -/
def signed (bits v : Nat) : Int := if v < 2 ^ (bits - 1) then v else (v : Int) - 2 ^ bits

/-- Start of the vtable of the table at `table`. -/
def vtablePos (buf : Bytes) (table : Nat) : Option Nat := do
  let back ← readLE buf table 4
  let pos := (table : Int) - signed 32 back
  if pos < 0 then none else some pos.toNat

/-- Offset of a field inside its table, 0 when the vtable is too short or its entry is 0. -/
def fieldOffset (buf : Bytes) (table slot : Nat) : Option Nat := do
  let vtable ← vtablePos buf table
  let vtsize ← readLE buf vtable 2
  if slot < vtsize then readLE buf (vtable + slot) 2 else some 0

/-- Position of the root table. -/
def getRoot (buf : Bytes) : Option Nat := readLE buf 0 4

/-- The field is present. -/
def checkField (buf : Bytes) (table slot : Nat) : Option Bool := do
  let off ← fieldOffset buf table slot
  some (off != 0)

/-- A scalar field of `size` bytes, 0 when absent. -/
def getField (buf : Bytes) (table slot size : Nat) : Option Nat := do
  let off ← fieldOffset buf table slot
  if off != 0 then readLE buf (table + off) size else some 0

/-- What a field's offset points at; no position when the field is absent. -/
def getPointer (buf : Bytes) (table slot : Nat) : Option (Option Nat) := do
  let off ← fieldOffset buf table slot
  if off != 0 then
    let o ← readLE buf (table + off) 4
    some (some (table + off + o))
  else some none

/-- Element count of the vector or string at `pos`. -/
def vectorSize (buf : Bytes) (pos : Nat) : Option Nat := readLE buf pos 4

/-- Element `i` of a vector of `size`-byte elements. -/
def vectorGet (buf : Bytes) (pos size i : Nat) : Option Nat :=
  readLE buf (pos + 4 + i * size) size

/-- The bytes of the string, or of the byte vector, at `pos`. -/
def stringBytes (buf : Bytes) (pos : Nat) : Option Bytes := do
  let n ← vectorSize buf pos
  readBytes buf (pos + 4) n

/-- Position of string `i` of a vector of strings. -/
def vectorGetString (buf : Bytes) (pos i : Nat) : Option Nat := do
  let o ← vectorGet buf pos 4 i
  some (pos + 4 + i * 4 + o)

/-! ### Facts about reading -/

/-- A read stays inside the buffer. -/
theorem readLE_bound {buf : Bytes} {pos n v : Nat} (h : readLE buf pos n = some v) :
    pos + n ≤ buf.length := by
  unfold readLE readBytes at h
  split at h
  · assumption
  · simp at h

private theorem ofLE_take (bs : Bytes) (n : Nat) :
    ofLE (bs.take n) = ofLE bs % 256 ^ n := by
  induction n generalizing bs with
  | zero => simp [ofLE, Nat.mod_one]
  | succ n ih =>
    cases bs with
    | nil => simp [ofLE]
    | cons b bs =>
      have hb : b.toNat < 256 := b.toNat_lt
      rw [List.take_succ_cons, ofLE, ofLE, ih, Nat.pow_succ, Nat.mul_comm (256 ^ n) 256,
        Nat.mod_mul]
      have hd : (b.toNat + 256 * ofLE bs) % 256 = b.toNat := by omega
      have hq : (b.toNat + 256 * ofLE bs) / 256 = ofLE bs := by omega
      rw [hd, hq]

/-- A narrower read at the same position sees the low bytes. -/
theorem readLE_narrow {buf : Bytes} {pos n m v : Nat} (h : readLE buf pos n = some v)
    (hm : m ≤ n) : readLE buf pos m = some (v % 256 ^ m) := by
  have hb := readLE_bound h
  unfold readLE readBytes at h ⊢
  rw [if_pos hb, Option.map_some, Option.some.injEq] at h
  rw [if_pos (by omega), Option.map_some, ← h]
  congr 1
  rw [← ofLE_take, List.take_take, Nat.min_eq_left hm]

/-! ### Stored values -/

/-- A value as a table stores it: a scalar by its bit pattern, a vector by its elements'. -/
inductive Stored where
  | scalar (size bits : Nat)
  | string (s : Bytes)
  | vector (size : Nat) (elems : List Nat)
  | strings (ss : List Bytes)

/-- A string at `pos`: count, bytes, terminating NUL. -/
structure StringAt (buf : Bytes) (pos : Nat) (s : Bytes) : Prop where
  aligned : 4 ∣ pos
  positive : 0 < pos
  count : readLE buf pos 4 = some s.length
  content : readBytes buf (pos + 4) s.length = some s
  terminator : buf[pos + 4 + s.length]? = some 0

/-- A vector at `pos`: count, then the elements. -/
structure VectorAt (buf : Bytes) (pos size : Nat) (elems : List Nat) : Prop where
  aligned : 4 ∣ pos
  positive : 0 < pos
  count : readLE buf pos 4 = some elems.length
  inside : pos + 4 + elems.length * size ≤ buf.length
  content : ∀ i (h : i < elems.length), readLE buf (pos + 4 + i * size) size = some elems[i]

/-- The offset at `field` points forward to `pos`. -/
structure PointsTo (buf : Bytes) (field pos : Nat) : Prop where
  aligned : 4 ∣ field
  offset : ∃ o, readLE buf field 4 = some o ∧ 0 < o ∧ o < 2 ^ 31 ∧ pos = field + o

/-- The value stored at the field position `field`. -/
def StoredAt (buf : Bytes) (field : Nat) : Stored → Prop
  | .scalar size bits => size ∣ field ∧ readLE buf field size = some bits
  | .string s => ∃ pos, PointsTo buf field pos ∧ StringAt buf pos s
  | .vector size elems => ∃ pos, PointsTo buf field pos ∧ VectorAt buf pos size elems
  | .strings ss => ∃ pos offs, PointsTo buf field pos ∧ VectorAt buf pos 4 offs ∧
      offs.length = ss.length ∧
      ∀ i (h : i < offs.length) (h' : i < ss.length),
        StringAt buf (pos + 4 + i * 4 + offs[i]) ss[i]

/-- A well-formed root table: its position and its vtable's position and size. The buffer is
below the 2 GiB a signed offset can span. -/
structure RootTable (buf : Bytes) (table vtable vtsize : Nat) : Prop where
  size : buf.length < 2 ^ 31
  root : readLE buf 0 4 = some table
  positive : 0 < table
  aligned : 4 ∣ table
  back : vtablePos buf table = some vtable
  vtableAligned : 2 ∣ vtable
  vtableSize : readLE buf vtable 2 = some vtsize
  vtsizeEven : 2 ∣ vtsize
  vtableInside : vtable + vtsize ≤ buf.length

/-- Entry `i` of the vtable, counted after its two header entries; 0 beyond its end. -/
def vtableEntry (buf : Bytes) (vtable vtsize i : Nat) : Option Nat :=
  if 4 + 2 * i < vtsize then readLE buf (vtable + (4 + 2 * i)) 2 else some 0

/-- The table stores `v` in the field of vtable entry `i`, or has no such field. -/
def StoresField (buf : Bytes) (table vtable vtsize i : Nat) : Option Stored → Prop
  | none => vtableEntry buf vtable vtsize i = some 0
  | some v => ∃ off, 0 < off ∧ vtableEntry buf vtable vtsize i = some off ∧
      StoredAt buf (table + off) v

section

variable {buf : Bytes} {table vtable vtsize : Nat}

/-- The table's own first word is readable. -/
theorem RootTable.table_inside (h : RootTable buf table vtable vtsize) :
    table + 4 ≤ buf.length := by
  have hb := h.back
  unfold vtablePos at hb
  obtain ⟨back, hr, -⟩ := Option.bind_eq_some_iff.mp hb
  exact readLE_bound hr

/-- The vtable is a proper part of the buffer: if it were all of it, it would start at the
root offset and its size would be that offset's low half, which is below the buffer's end. -/
theorem RootTable.vtsize_lt (h : RootTable buf table vtable vtsize) : vtsize < buf.length := by
  have hin := h.vtableInside
  have ht := h.table_inside
  by_contra hge
  have hv : vtable = 0 := by omega
  have hn := readLE_narrow h.root (show 2 ≤ 4 by decide)
  have hs := h.vtableSize
  rw [hv, hn, Option.some.injEq] at hs
  have hle : table % 256 ^ 2 ≤ table := Nat.mod_le _ _
  omega

/-- Looking a field up by its slot is reading its vtable entry. -/
theorem RootTable.fieldOffset_eq (h : RootTable buf table vtable vtsize) (i : Nat) :
    fieldOffset buf table (4 + 2 * i) = vtableEntry buf vtable vtsize i := by
  simp only [fieldOffset, h.back, h.vtableSize, Option.bind_eq_bind, Option.bind_some,
    vtableEntry]

end

end ObDump.FlatBuffers
