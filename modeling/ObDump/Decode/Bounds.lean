import ObDump.Decode.Object
import ObDump.FlatBuffers.Ranges

/-!
# Reads of a record stay inside it

Library `Decode`. Every read of `decodeObject` and of its decoders comes after the check of the
same range: the root offset before the table, the vtable before any slot, a field's value or
offset before it is read, and a vector or string before its elements.
-/

namespace ObDump

open Base FlatBuffers

/-- Slots are even, wrapped ones too. -/
theorem two_dvd_slotFor (id : Int) : 2 ∣ slotFor id := by
  unfold slotFor
  omega

private theorem inBounds_bind {α : Type} {x : Option α} {f : α → Except Exc Json}
    (hx : ∃ a, x = some a) (hf : ∀ a, f a ≠ .error .outOfBounds) :
    (inBounds x >>= f) ≠ .error .outOfBounds := by
  obtain ⟨a, rfl⟩ := hx
  exact hf a

section

variable {lib : Libraries} {t : Table} {slot : Nat} {name : Bytes} {out : Json}

private theorem decodeInline_inBounds {T : Scalar} {what : Bytes} {value : Nat → Json}
    (hv : lib.verifier.ChecksRanges) (hslot : ∃ off, fieldOffset t.buf t.pos slot = some off) :
    decodeInline lib t slot name out T what value ≠ .error .outOfBounds := by
  obtain ⟨off, hoff⟩ := hslot
  have hcheck : checkField t.buf t.pos slot = some (off != 0) := by rw [checkField, hoff]; rfl
  rw [decodeInline, hcheck, inBounds, ok_bind]
  split_ifs with habs hfield
  · exact fun h ↦ by cases h
  · exact fun h ↦ by cases h
  · have h0 : off ≠ 0 := by simpa using habs
    have hread := hv.field (by simpa using hfield) hoff h0
    apply inBounds_bind
    · rw [getField, hoff, Option.bind_eq_bind, Option.bind_some, if_pos (bne_iff_ne.mpr h0)]
      exact exists_readLE hread
    · exact fun bits h ↦ by cases h

private theorem decodePointer_inBounds {offset contents : Bytes} {verify : Nat → Bool}
    {value : Nat → Except Exc Json} (hv : lib.verifier.ChecksRanges)
    (hslot : ∃ off, fieldOffset t.buf t.pos slot = some off)
    (hvalue : ∀ pos, verify pos = true → value pos ≠ .error .outOfBounds) :
    decodePointer lib t slot name out offset contents verify value ≠ .error .outOfBounds := by
  obtain ⟨off, hoff⟩ := hslot
  have hcheck : checkField t.buf t.pos slot = some (off != 0) := by rw [checkField, hoff]; rfl
  rw [decodePointer, hcheck, inBounds, ok_bind]
  split_ifs with habs hoffset
  · exact fun h ↦ by cases h
  · exact fun h ↦ by cases h
  · have h0 : off ≠ 0 := by simpa using habs
    obtain ⟨o, ho⟩ := exists_readLE (hv.offset (by simpa using hoffset) hoff h0)
    have hptr : getPointer t.buf t.pos slot = some (some (t.pos + off + o)) := by
      rw [getPointer, hoff, Option.bind_eq_bind, Option.bind_some, if_pos (bne_iff_ne.mpr h0), ho]
      rfl
    rw [hptr, inBounds, ok_bind]
    split_ifs with hverify
    · exact fun h ↦ by cases h
    · intro h
      rcases bind_eq_error.mp h with herr | ⟨j, -, hj⟩
      · exact hvalue _ (by simpa using hverify) herr
      · cases hj

private theorem parseOrRaw_ne (s : Bytes) : parseOrRaw lib s ≠ .error .outOfBounds := by
  unfold parseOrRaw
  split <;> exact fun h ↦ by cases h

private theorem flexContents_ne (data : Bytes) :
    flexContents lib name data ≠ .error .outOfBounds := by
  unfold flexContents
  split <;> exact fun h ↦ by cases h

/-- Every decoder reads inside the record, once the vtable's slots can be looked up. -/
theorem Codec.decode_inBounds (c : Codec) (hv : lib.verifier.ChecksRanges)
    (hslot : ∃ off, fieldOffset t.buf t.pos slot = some off) :
    c.decode lib t slot name out ≠ .error .outOfBounds := by
  cases c with
  | bool | scalar => exact decodeInline_inBounds hv hslot
  | string =>
    apply decodePointer_inBounds hv hslot
    intro pos h
    exact inBounds_bind (exists_stringBytes (hv.string h)) fun s h ↦ by cases h
  | stringAsJson =>
    apply decodePointer_inBounds hv hslot
    intro pos h
    exact inBounds_bind (exists_stringBytes (hv.string h)) parseOrRaw_ne
  | boolVector | numericVector =>
    apply decodePointer_inBounds hv hslot
    intro pos h
    exact inBounds_bind (exists_vectorElems (hv.vector h)) fun elems h ↦ by cases h
  | blobString =>
    apply decodePointer_inBounds hv hslot
    intro pos h
    exact inBounds_bind (exists_stringBytes (hv.vector h)) fun data h ↦ by cases h
  | stringVector =>
    apply decodePointer_inBounds hv hslot
    intro pos h
    rw [Bool.and_eq_true] at h
    apply inBounds_bind
    · exact exists_vectorStrings (hv.vector h.1) fun n hn ↦ hv.vectorOfStrings h.2 hn
    · exact fun ss h ↦ by cases h
  | flex =>
    apply decodePointer_inBounds hv hslot
    intro pos h
    exact inBounds_bind (exists_stringBytes (hv.vector h)) flexContents_ne

end

/-- For every byte sequence and entity, decoding returns or raises without a read outside the
record. -/
theorem decodeObject_inBounds (lib : Libraries) (hv : lib.verifier.ChecksRanges) (data : Bytes)
    (entity : EntityDef) : decodeObject lib data entity ≠ .error .outOfBounds := by
  unfold decodeObject
  split_ifs with hroot
  · exact fun h ↦ by cases h
  · have hlen := hv.rootOffset (by simpa using hroot)
    obtain ⟨pos, hpos⟩ := exists_readLE (show 0 + 4 ≤ data.length by omega)
    rw [getRoot, hpos, inBounds, ok_bind]
    split_ifs with hstart
    · exact fun h ↦ by cases h
    · obtain ⟨vtable, vtsize, hback, hsize, heven, hin⟩ := hv.tableStart (by simpa using hstart)
      intro h
      obtain ⟨p, -, out, hp⟩ := exists_of_foldlM_eq_error h
      unfold decodeProperty at hp
      split at hp
      · cases hp
      · rw [decodeField_eq_codec] at hp
        cases hc : p.codec with
        | none =>
          rw [hc] at hp
          cases hp
        | some c =>
          rw [hc] at hp
          have hslot := exists_fieldOffset hback hsize heven hin (two_dvd_slotFor p.id)
          exact c.decode_inBounds hv hslot hp

/-- A record of the number 7 and a text of nine bytes, of which it has four. -/
private def cutRecord : Bytes :=
  [12, 0, 0, 0, 8, 0, 16, 0, 4, 0, 12, 0, 8, 0, 0, 0, 7, 0, 0, 0, 0, 0, 0, 0, 4, 0, 0, 0,
    9, 0, 0, 0, 97, 49, 0, 0]

/-- The number is read, and the text found to be cut. -/
theorem decodeObject_inBounds_sample :
    decodeObject .reference cutRecord
        ⟨1, lit "Note", [⟨1, lit "size", .long, false, 0⟩, ⟨2, lit "text", .string, false, 0⟩],
          []⟩ ≠ .error .outOfBounds :=
  decodeObject_inBounds .reference Verifier.reference_checksRanges _ _

end ObDump
