import ObDump.Base.Inserted
import ObDump.Decode.Settings

/-!
# Decoding with more properties

Library `Decode`. What a larger entity definition makes of the same record, as when a record
written under an older model is read with a newer one: each property's decoder reads its own
slot, sets its own name and fails on its own, so the other members stay as they were.
-/

namespace ObDump

open Base FlatBuffers

/-- The names of an entity's properties. -/
def EntityDef.names (e : EntityDef) : List Bytes := e.properties.map PropertyDef.name

/-- `b` is `a` with properties inserted anywhere that are all `added`. -/
structure EntityDef.Extends (b a : EntityDef) (added : PropertyDef → Prop) : Prop where
  name : b.name = a.name
  properties : Inserted added a.properties b.properties

/-- An object's members of the given names. -/
def Json.restrict (names : List Bytes) : Json → Json
  | .obj ms => .obj (ms.filter fun e ↦ decide (e.1 ∈ names))
  | j => j

/-- The property's slot lies beyond the record's vtable, or is zero in it. -/
def AbsentIn (data : Bytes) (p : PropertyDef) : Prop :=
  ∀ pos, getRoot data = some pos → fieldOffset data pos (slotFor p.id) = some 0

section

variable {lib : Libraries} {t : Table} {slot : Nat} {name : Bytes} {e : Exc}

/-! ### A decoder's error is its own -/

private theorem decodeInline_error {T : Scalar} {what : Bytes} {value : Nat → Json} {out : Json}
    (out' : Json) (h : decodeInline lib t slot name out T what value = .error e) :
    decodeInline lib t slot name out' T what value = .error e := by
  unfold decodeInline at h ⊢
  rw [bind_eq_error] at h ⊢
  apply h.imp_right
  rintro ⟨present, hp, hrest⟩
  refine ⟨present, hp, ?_⟩
  split_ifs at hrest ⊢
  · cases hrest
  · exact hrest
  · rw [bind_eq_error] at hrest ⊢
    apply hrest.imp_right
    rintro ⟨bits, -, hb⟩
    cases hb

private theorem decodePointer_error {offset contents : Bytes} {verify : Nat → Bool}
    {value : Nat → Except Exc Json} {out : Json} (out' : Json)
    (h : decodePointer lib t slot name out offset contents verify value = .error e) :
    decodePointer lib t slot name out' offset contents verify value = .error e := by
  unfold decodePointer at h ⊢
  rw [bind_eq_error] at h ⊢
  apply h.imp_right
  rintro ⟨present, hp, hrest⟩
  refine ⟨present, hp, ?_⟩
  split_ifs at hrest ⊢
  · cases hrest
  · exact hrest
  · rw [bind_eq_error] at hrest ⊢
    apply hrest.imp_right
    rintro ⟨ptr, hptr, hv⟩
    refine ⟨ptr, hptr, ?_⟩
    split_ifs at hv ⊢
    · exact hv
    · cases ptr with
      | none => cases hv
      | some pos =>
        simp only [bind_eq_error] at hv ⊢
        apply hv.imp_right
        rintro ⟨j, -, hj⟩
        cases hj

/-- What a decoder fails with does not depend on the object decoded so far. -/
theorem Codec.decode_error (c : Codec) {out : Json} (out' : Json)
    (h : c.decode lib t slot name out = .error e) : c.decode lib t slot name out' = .error e := by
  cases c with
  | bool | scalar => exact decodeInline_error out' h
  | string | stringAsJson | boolVector | numericVector | blobString | stringVector | flex =>
    exact decodePointer_error out' h

/-- What a turn of the loop fails with does not depend on the object decoded so far. -/
theorem decodeProperty_error {p : PropertyDef} {out : Json} (out' : Json)
    (h : decodeProperty lib t p out = .error e) : decodeProperty lib t p out' = .error e := by
  unfold decodeProperty at h ⊢
  split at h
  · cases h
  · next hid =>
    rw [if_neg hid, decodeField_eq_codec]
    rw [decodeField_eq_codec] at h
    cases hc : p.codec with
    | none =>
      rw [hc] at h
      cases h
    | some c =>
      rw [hc] at h
      exact c.decode_error out' h

/-- A turn of the loop at an absent property does nothing. -/
theorem decodeProperty_of_absent {p : PropertyDef}
    (h : fieldOffset t.buf t.pos (slotFor p.id) = some 0) (out : Json) :
    decodeProperty lib t p out = .ok out := by
  rw [decodeProperty_eq_ok]
  constructor
  · intro _ c _
    exact ⟨0, h, .inl rfl⟩
  · rw [setting, fieldJson_of_absent h]
    split_ifs <;> rfl

end

/-! ### The object under both definitions -/

section

variable {lib : Libraries} {data : Bytes} {a b : EntityDef}

private theorem filterMap_setting_filter (t : Table) (ps : List PropertyDef) (q : Bytes → Bool) :
    (ps.filter fun p ↦ q p.name).filterMap (setting lib t) =
      (ps.filterMap (setting lib t)).filter fun e ↦ q e.1 := by
  induction ps with
  | nil => rfl
  | cons p ps ih =>
    rw [List.filter_cons, List.filterMap_cons]
    cases hs : setting lib t p with
    | none =>
      split
      · rw [List.filterMap_cons, hs, ih]
      · exact ih
    | some e =>
      rw [List.filter_cons, setting_name hs]
      split
      · rw [List.filterMap_cons, hs, ih]
      · exact ih

private theorem EntityDef.Extends.filter_eq (h : b.Extends a fun q ↦ q.name ∉ a.names) :
    b.properties.filter (fun p ↦ decide (p.name ∈ a.names)) = a.properties := by
  apply h.properties.filter_eq
  · intro p hp
    exact decide_eq_true (List.mem_map_of_mem hp)
  · intro q hq
    exact decide_eq_false hq

private theorem decodeObject_restrict (h : b.Extends a fun q ↦ q.name ∉ a.names) {r : Json}
    (hb : decodeObject lib data b = .ok r) :
    decodeObject lib data a = .ok (r.restrict a.names) := by
  obtain ⟨hroot, pos, hpos, hstart, hok, rfl⟩ := decodeObject_eq_ok.mp hb
  apply decodeObject_eq_ok.mpr
  refine ⟨hroot, pos, hpos, hstart, fun p hp ↦ hok p (h.properties.subset hp), ?_⟩
  have hset := @filterMap_setting_filter lib ⟨data, pos⟩ b.properties fun k ↦
    decide (k ∈ a.names)
  rw [h.filter_eq] at hset
  rw [Json.object, Json.restrict, Members.filter_insertAll (fun k ↦ decide (k ∈ a.names)) _
    Members.ordered_nil, hset]
  rfl

private theorem exists_turn_of_error {s : Json} {e : Exc}
    (ha : decodeObject lib data a = .ok s) (hb : decodeObject lib data b = .error e) :
    ∃ pos, getRoot data = some pos ∧ ∃ q ∈ b.properties, ∃ out,
      decodeProperty lib ⟨data, pos⟩ q out = .error e := by
  obtain ⟨hroot, pos, hpos, hstart, -, -⟩ := decodeObject_eq_ok.mp ha
  refine ⟨pos, hpos, ?_⟩
  rw [decodeObject, hroot, hpos] at hb
  simp only [Bool.not_true, Bool.false_eq_true, if_false, inBounds, ok_bind, hstart] at hb
  exact exists_of_foldlM_eq_error hb

/-- For every record and all entity definitions `b` and `a`, where `b` adds properties of fresh
names to `a`: success under `b` is success under `a` with the object's members of `a`'s names;
a failure under `b` alone is what `b` cut down to one added property fails with; and under any
definition that `b` adds absent properties to, the outcome is the same. -/
theorem decodeObject_extends (lib : Libraries) (data : Bytes) {a b : EntityDef}
    (h : b.Extends a fun q ↦ q.name ∉ a.names) :
    (∀ r, decodeObject lib data b = .ok r →
      decodeObject lib data a = .ok (r.restrict a.names)) ∧
    (∀ s e, decodeObject lib data a = .ok s → decodeObject lib data b = .error e →
      ∃ q ∈ b.properties, q.name ∉ a.names ∧
        decodeObject lib data { b with properties := [q] } = .error e) ∧
    ∀ c, b.Extends c (AbsentIn data) → decodeObject lib data b = decodeObject lib data c := by
  refine ⟨fun r ↦ decodeObject_restrict h, ?_, ?_⟩
  · intro s e ha hb
    obtain ⟨pos, hpos, q, hq, out, hturn⟩ := exists_turn_of_error ha hb
    obtain ⟨hroot, pos', hpos', hstart, hok, -⟩ := decodeObject_eq_ok.mp ha
    rw [hpos] at hpos'
    cases hpos'
    refine ⟨q, hq, ?_, ?_⟩
    · intro hname
      have hqa : q ∈ a.properties := by
        rw [← h.filter_eq]
        exact List.mem_filter.mpr ⟨hq, decide_eq_true hname⟩
      rw [decodeProperty_eq_ok.mpr ⟨hok q hqa, rfl⟩] at hturn
      cases hturn
    · rw [decodeObject, hroot, hpos]
      simp only [Bool.not_true, Bool.false_eq_true, if_false, inBounds, ok_bind, hstart,
        List.foldlM_cons, decodeProperty_error _ hturn, error_bind]
  · intro c hc
    unfold decodeObject
    rw [hc.name]
    split_ifs
    · rfl
    · cases hpos : getRoot data with
      | none => rfl
      | some pos =>
        simp only [inBounds, ok_bind]
        split_ifs
        · rfl
        · exact hc.properties.foldlM_eq
            (fun s q hq ↦ decodeProperty_of_absent (t := ⟨data, pos⟩) (hq pos hpos) s) _

end

private def oldNote : EntityDef := ⟨1, lit "Note", [⟨1, lit "text", .string, false, 0⟩], []⟩

private def newNote : EntityDef :=
  ⟨1, lit "Note", [⟨2, lit "stamp", .long, false, 0⟩, ⟨1, lit "text", .string, false, 0⟩], []⟩

/-- A record of one text, written before its entity had a second property. -/
private def oldRecord : Bytes :=
  [12, 0, 0, 0, 6, 0, 8, 0, 4, 0, 0, 0, 8, 0, 0, 0, 4, 0, 0, 0, 2, 0, 0, 0, 72, 105, 0]

/-- The old record under both models. -/
theorem decodeObject_extends_sample :
    decodeObject .reference oldRecord newNote = .ok (.obj [(lit "text", .str (lit "Hi"))]) ∧
      decodeObject .reference oldRecord oldNote =
        .ok ((Json.obj [(lit "text", .str (lit "Hi"))]).restrict oldNote.names) := by
  have hnew : decodeObject .reference oldRecord newNote =
      .ok (.obj [(lit "text", .str (lit "Hi"))]) := rfl
  refine ⟨hnew, (decodeObject_extends .reference oldRecord ?_).1 _ hnew⟩
  exact ⟨rfl, .add _ (by decide) (.keep _ .nil)⟩

end ObDump
