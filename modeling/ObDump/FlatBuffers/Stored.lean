import ObDump.Base.Except
import ObDump.FlatBuffers.Wire

/-!
# Reading a stored value back

Library `FlatBuffers`. A value's shape says how to read it from the position of its
field; whatever the layout, a stored value reads back as itself.
-/

namespace ObDump.FlatBuffers

open Base

/-- How a field is laid out. -/
inductive Shape where
  | scalar (size : Nat)
  | string
  | vector (size : Nat)
  | strings
  deriving DecidableEq, Repr

/-- The layout of a value. -/
def Stored.shape : Stored → Shape
  | .scalar size _ => .scalar size
  | .string _ => .string
  | .vector size _ => .vector size
  | .strings _ => .strings

/-- Position an offset points at. -/
def follow (buf : Bytes) (field : Nat) : Option Nat := do
  let o ← readLE buf field 4
  some (field + o)

/-- All elements of a vector of `size`-byte elements. -/
def vectorElems (buf : Bytes) (pos size : Nat) : Option (List Nat) := do
  let n ← vectorSize buf pos
  (List.range n).mapM (vectorGet buf pos size)

/-- All strings of a vector of strings. -/
def vectorStrings (buf : Bytes) (pos : Nat) : Option (List Bytes) := do
  let n ← vectorSize buf pos
  (List.range n).mapM fun i ↦ do stringBytes buf (← vectorGetString buf pos i)

/-- The value of the given shape whose field is at `field`. -/
def readStored (buf : Bytes) (field : Nat) : Shape → Option Stored
  | .scalar size => (readLE buf field size).map (Stored.scalar size)
  | .string => do
    let pos ← follow buf field
    (stringBytes buf pos).map Stored.string
  | .vector size => do
    let pos ← follow buf field
    (vectorElems buf pos size).map (Stored.vector size)
  | .strings => do
    let pos ← follow buf field
    (vectorStrings buf pos).map Stored.strings

/-! ### Reading back -/

/-- Following an offset reaches what it points to. -/
theorem follow_of {buf : Bytes} {field pos : Nat} (h : PointsTo buf field pos) :
    follow buf field = some pos := by
  obtain ⟨o, ho, -, -, rfl⟩ := h.offset
  simp only [follow, ho, Option.bind_eq_bind, Option.bind_some]

/-- A stored string reads back as its bytes. -/
theorem stringBytes_of {buf s : Bytes} {pos : Nat} (h : StringAt buf pos s) :
    stringBytes buf pos = some s := by
  simp only [stringBytes, vectorSize, h.count, h.content, Option.bind_eq_bind, Option.bind_some]

/-- A stored vector reads back as its elements. -/
theorem vectorElems_of {buf : Bytes} {pos size : Nat} {elems : List Nat}
    (h : VectorAt buf pos size elems) : vectorElems buf pos size = some elems := by
  simp only [vectorElems, vectorSize, h.count, Option.bind_eq_bind, Option.bind_some]
  exact mapM_range_eq_some.mpr ⟨rfl, h.content⟩

private theorem vectorStrings_of {buf : Bytes} {pos : Nat} {offs : List Nat} {ss : List Bytes}
    (h : VectorAt buf pos 4 offs) (hl : offs.length = ss.length)
    (hs : ∀ i (h : i < offs.length) (h' : i < ss.length),
      StringAt buf (pos + 4 + i * 4 + offs[i]) ss[i]) : vectorStrings buf pos = some ss := by
  simp only [vectorStrings, vectorSize, h.count, Option.bind_eq_bind, Option.bind_some]
  refine mapM_range_eq_some.mpr ⟨hl.symm, fun i hi ↦ ?_⟩
  have ho := h.content i (hl ▸ hi)
  simp only [vectorGetString, vectorGet, ho, Option.bind_eq_bind, Option.bind_some]
  exact stringBytes_of (hs i (hl ▸ hi) hi)

/-- Every layout of a value reads back as that value. -/
theorem readStored_of_storedAt {buf : Bytes} {field : Nat} {v : Stored}
    (h : StoredAt buf field v) : readStored buf field v.shape = some v := by
  cases v with
  | scalar size bits => simp only [Stored.shape, readStored, h.2, Option.map_some]
  | string s =>
    obtain ⟨pos, hp, hs⟩ := h
    simp only [Stored.shape, readStored, follow_of hp, stringBytes_of hs, Option.bind_eq_bind,
      Option.bind_some, Option.map_some]
  | vector size elems =>
    obtain ⟨pos, hp, hv⟩ := h
    simp only [Stored.shape, readStored, follow_of hp, vectorElems_of hv, Option.bind_eq_bind,
      Option.bind_some, Option.map_some]
  | strings ss =>
    obtain ⟨pos, offs, hp, hv, hl, hs⟩ := h
    simp only [Stored.shape, readStored, follow_of hp, vectorStrings_of hv hl hs,
      Option.bind_eq_bind, Option.bind_some, Option.map_some]

/-! ### Byte vectors -/

private theorem readBytes_succ (buf : Bytes) (pos n : Nat) :
    readBytes buf pos (n + 1) =
      (readLE buf pos 1).bind fun b ↦ (readBytes buf (pos + 1) n).map (UInt8.ofNat b :: ·) := by
  unfold readLE readBytes
  by_cases h : pos + (n + 1) ≤ buf.length
  · have hp : pos < buf.length := by omega
    have hd := List.drop_eq_getElem_cons hp
    rw [if_pos h, if_pos (by omega), Option.map_some, Option.bind_some, if_pos (by omega), hd]
    simp only [Option.map_some, List.take_succ_cons, List.take_zero, ofLE, Nat.mul_zero,
      Nat.add_zero, UInt8.ofNat_toNat]
  · rw [if_neg h]
    split
    · rw [if_neg (by omega)]
      rfl
    · rfl

private theorem readBytes_eq (buf : Bytes) (pos n : Nat) (hp : pos ≤ buf.length) :
    readBytes buf pos n =
      ((List.range n).mapM fun i ↦ readLE buf (pos + i * 1) 1).map (·.map UInt8.ofNat) := by
  induction n generalizing pos with
  | zero => simp [readBytes, hp]
  | succ n ih =>
    rw [readBytes_succ, List.range_succ_eq_map, List.mapM_cons, List.mapM_map]
    simp only [Nat.zero_mul, Nat.add_zero]
    cases hb : readLE buf pos 1 with
    | none => rfl
    | some b =>
      have hlt := readLE_bound hb
      have hs : (fun i ↦ readLE buf (pos + (i + 1) * 1) 1) =
          fun i ↦ readLE buf (pos + 1 + i * 1) 1 := by
        funext i
        rw [show pos + (i + 1) * 1 = pos + 1 + i * 1 by omega]
      simp only [Option.bind_eq_bind, Option.bind_some, Function.comp_def, Nat.succ_eq_add_one,
        hs, ih (pos + 1) hlt]
      cases (List.range n).mapM fun i ↦ readLE buf (pos + 1 + i * 1) 1 with
      | none => rfl
      | some l => rfl

/-- The bytes of a byte vector are its one-byte elements. -/
theorem stringBytes_eq_vectorElems (buf : Bytes) (pos : Nat) :
    stringBytes buf pos = (vectorElems buf pos 1).map (·.map UInt8.ofNat) := by
  unfold stringBytes vectorElems vectorSize
  cases hn : readLE buf pos 4 with
  | none => rfl
  | some n => exact readBytes_eq buf (pos + 4) n (readLE_bound hn)

end ObDump.FlatBuffers
