import ObDump.FlatBuffers.Stored
import ObDump.FlatBuffers.Verifier

/-!
# What the verifier's checks guarantee

Library `FlatBuffers`. `ChecksRanges` says of each check that what it accepts lies in the
buffer, its own range and nothing else; the reference verifier meets it. A read of an accepted
range yields something.
-/

namespace ObDump.FlatBuffers

open Base

/-! ### Reads inside the buffer -/

/-- A read inside the buffer yields a value. -/
theorem exists_readLE {buf : Bytes} {pos n : Nat} (h : pos + n ≤ buf.length) :
    ∃ v, readLE buf pos n = some v := by
  rw [readLE, readBytes, if_pos h]
  exact ⟨_, rfl⟩

/-- The count of the vector or string at `pos` and its elements lie in the buffer. -/
def ElemsInside (buf : Bytes) (pos size : Nat) : Prop :=
  ∃ n, vectorSize buf pos = some n ∧ pos + 4 + n * size ≤ buf.length

/-- A string inside the buffer reads as its bytes. -/
theorem exists_stringBytes {buf : Bytes} {pos : Nat} (h : ElemsInside buf pos 1) :
    ∃ s, stringBytes buf pos = some s := by
  obtain ⟨n, hn, hb⟩ := h
  rw [stringBytes, hn, Option.bind_eq_bind, Option.bind_some, readBytes, if_pos (by omega)]
  exact ⟨_, rfl⟩

/-- An element of a vector inside the buffer reads. -/
theorem exists_vectorGet {buf : Bytes} {pos size n i : Nat}
    (hb : pos + 4 + n * size ≤ buf.length) (hi : i < n) :
    ∃ v, vectorGet buf pos size i = some v := by
  apply exists_readLE
  have hle : (i + 1) * size ≤ n * size := Nat.mul_le_mul_right size hi
  rw [Nat.add_mul] at hle
  omega

/-- A vector inside the buffer reads as its elements. -/
theorem exists_vectorElems {buf : Bytes} {pos size : Nat} (h : ElemsInside buf pos size) :
    ∃ elems, vectorElems buf pos size = some elems := by
  obtain ⟨n, hn, hb⟩ := h
  rw [vectorElems, hn, Option.bind_eq_bind, Option.bind_some]
  apply exists_mapM_eq_some
  intro i hi
  exact exists_vectorGet hb (List.mem_range.mp hi)

/-- A vector inside the buffer whose strings are inside it reads as these strings. -/
theorem exists_vectorStrings {buf : Bytes} {pos : Nat} (h : ElemsInside buf pos 4)
    (hs : ∀ n, vectorSize buf pos = some n → ∀ i < n, ∀ p, vectorGetString buf pos i = some p →
      ElemsInside buf p 1) :
    ∃ ss, vectorStrings buf pos = some ss := by
  obtain ⟨n, hn, hb⟩ := h
  rw [vectorStrings, hn, Option.bind_eq_bind, Option.bind_some]
  apply exists_mapM_eq_some
  intro i hi
  have hin := List.mem_range.mp hi
  obtain ⟨o, ho⟩ := exists_vectorGet hb hin
  have hp : vectorGetString buf pos i = some (pos + 4 + i * 4 + o) := by
    rw [vectorGetString, ho]
    rfl
  rw [hp]
  exact exists_stringBytes (hs n hn i hin _ hp)

/-- With the whole vtable inside the buffer, every even slot can be looked up. -/
theorem exists_fieldOffset {buf : Bytes} {table slot vtable vtsize : Nat}
    (hback : vtablePos buf table = some vtable) (hsize : readLE buf vtable 2 = some vtsize)
    (heven : 2 ∣ vtsize) (hin : vtable + vtsize ≤ buf.length) (hslot : 2 ∣ slot) :
    ∃ off, fieldOffset buf table slot = some off := by
  simp only [fieldOffset, hback, hsize, Option.bind_eq_bind, Option.bind_some]
  split
  · apply exists_readLE
    omega
  · exact ⟨0, rfl⟩

/-! ### The checks -/

namespace Verifier

/-- Each check that passes has found its own range inside the buffer: the root offset, the
vtable with its even size, a field's value, a field's offset, and the count and elements of a
vector, of a string, and of the strings that a vector's offsets point at. -/
structure ChecksRanges (v : Verifier) : Prop where
  rootOffset : ∀ {buf}, v.rootOffset buf = true → 4 ≤ buf.length
  tableStart : ∀ {buf table}, v.tableStart buf table = true →
    ∃ vtable vtsize, vtablePos buf table = some vtable ∧ readLE buf vtable 2 = some vtsize ∧
      2 ∣ vtsize ∧ vtable + vtsize ≤ buf.length
  field : ∀ {buf table slot size off}, v.field buf table slot size = true →
    fieldOffset buf table slot = some off → off ≠ 0 → table + off + size ≤ buf.length
  offset : ∀ {buf table slot off}, v.offset buf table slot = true →
    fieldOffset buf table slot = some off → off ≠ 0 → table + off + 4 ≤ buf.length
  vector : ∀ {buf pos size}, v.vector buf pos size = true → ElemsInside buf pos size
  string : ∀ {buf pos}, v.string buf pos = true → ElemsInside buf pos 1
  vectorOfStrings : ∀ {buf pos n}, v.vectorOfStrings buf pos = true →
    vectorSize buf pos = some n → ∀ i < n, ∀ p, vectorGetString buf pos i = some p →
      ElemsInside buf p 1

private theorem inside_of_scalar {buf : Bytes} {pos size : Nat}
    (h : verifyScalar buf pos size = true) : pos + size ≤ buf.length := by
  simp only [verifyScalar, verifyRange, Bool.and_eq_true, decide_eq_true_eq] at h
  exact h.2.2

private theorem inside_of_offset {buf : Bytes} {pos : Nat} (h : verifyOffsetAt buf pos = true) :
    pos + 4 ≤ buf.length := by
  rw [verifyOffsetAt, Bool.and_eq_true] at h
  exact inside_of_scalar h.1

private theorem inside_of_vector {buf : Bytes} {pos size : Nat}
    (h : verifyVectorAt buf pos size = true) : ElemsInside buf pos size := by
  rw [verifyVectorAt, Bool.and_eq_true] at h
  have hn := h.2
  split at hn
  · next n hread =>
    simp only [verifyRange, Bool.and_eq_true, decide_eq_true_eq] at hn
    refine ⟨n, hread, ?_⟩
    rw [Nat.mul_comm n size]
    omega
  · cases hn

private theorem inside_of_string {buf : Bytes} {pos : Nat} (h : verifyStringAt buf pos = true) :
    ElemsInside buf pos 1 := by
  rw [verifyStringAt, Bool.and_eq_true] at h
  exact inside_of_vector h.1

/-- The documented checks find their ranges inside the buffer. -/
theorem reference_checksRanges : reference.ChecksRanges where
  rootOffset := by
    intro buf h
    have hin := inside_of_offset h
    omega
  tableStart := by
    intro buf table h
    simp only [reference, verifyTableStartAt, Bool.and_eq_true] at h
    have hv := h.2
    split at hv
    · next vtable hback =>
      rw [Bool.and_eq_true] at hv
      have hs := hv.2
      split at hs
      · next vtsize hsize =>
        simp only [verifyRange, Bool.and_eq_true, beq_iff_eq, decide_eq_true_eq] at hs
        exact ⟨vtable, vtsize, hback, hsize, Nat.dvd_of_mod_eq_zero hs.1, hs.2.2⟩
      · cases hs
    · cases hv
  field := by
    intro buf table slot size off h hoff h0
    simp only [reference, hoff, Bool.or_eq_true, beq_iff_eq, h0, false_or] at h
    exact inside_of_scalar h
  offset := by
    intro buf table slot off h hoff h0
    simp only [reference, hoff, Bool.or_eq_true, beq_iff_eq, h0, false_or] at h
    exact inside_of_offset h
  vector := inside_of_vector
  string := inside_of_string
  vectorOfStrings := by
    intro buf pos n h hn i hi p hp
    simp only [reference, hn, List.all_eq_true, List.mem_range] at h
    have hs := h i hi
    rw [hp] at hs
    exact inside_of_string hs

end Verifier

end ObDump.FlatBuffers
