import ObDump.Decode.Object

/-!
# What decoding a record sets

Library `Decode`. One spec for every decoder: it succeeds exactly when the field is absent,
or accepted and holding a value with a JSON form, and then sets that form under the
property's name. From it, a decoded record is the object of the settings its present
properties make, in the model's order.
-/

namespace ObDump

open Base FlatBuffers

section

variable {lib : Libraries} {t : Table} {slot : Nat} {name : Bytes} {out r : Json}

private theorem inline_spec {T : Scalar} {what : Bytes} {value : Nat → Json} {c : Codec}
    (hs : c.shape = .scalar T.size)
    (hj : ∀ bits, c.toJson lib name (.scalar T.size bits) = .ok (value bits)) :
    decodeInline lib t slot name out T what value = .ok r ↔
      ∃ off, fieldOffset t.buf t.pos slot = some off ∧
        (off = 0 ∧ r = out ∨ off ≠ 0 ∧ c.accepts lib.verifier t slot off = true ∧
          ∃ v j, readStored t.buf (t.pos + off) c.shape = some v ∧
            c.toJson lib name v = .ok j ∧ r = out.set name j) := by
  rw [decodeInline_eq_ok]
  refine exists_congr fun off ↦ and_congr_right fun _ ↦ or_congr_right (and_congr_right fun _ ↦ ?_)
  simp only [Codec.accepts, hs, readStored, Option.map_eq_some_iff]
  refine and_congr_right fun _ ↦ ?_
  constructor
  · rintro ⟨bits, hb, hr⟩
    exact ⟨_, _, ⟨bits, hb, rfl⟩, hj bits, hr⟩
  · rintro ⟨v, j, ⟨bits, hb, rfl⟩, hv, hr⟩
    rw [hj bits] at hv
    cases hv
    exact ⟨bits, hb, hr⟩

private theorem pointer_spec {offset contents : Bytes} {verify : Nat → Bool}
    {value : Nat → Except Exc Json} {c : Codec} (hs : ∀ size, c.shape ≠ .scalar size)
    (hv : c.contents lib.verifier t.buf = verify)
    (hj : ∀ field pos, follow t.buf field = some pos → ∀ j, value pos = .ok j ↔
      ∃ v, readStored t.buf field c.shape = some v ∧ c.toJson lib name v = .ok j) :
    decodePointer lib t slot name out offset contents verify value = .ok r ↔
      ∃ off, fieldOffset t.buf t.pos slot = some off ∧
        (off = 0 ∧ r = out ∨ off ≠ 0 ∧ c.accepts lib.verifier t slot off = true ∧
          ∃ v j, readStored t.buf (t.pos + off) c.shape = some v ∧
            c.toJson lib name v = .ok j ∧ r = out.set name j) := by
  rw [decodePointer_eq_ok]
  refine exists_congr fun off ↦ and_congr_right fun _ ↦ or_congr_right (and_congr_right fun _ ↦ ?_)
  rw [Codec.accepts_pointer hs, hv, Bool.and_eq_true, and_assoc]
  refine and_congr_right fun _ ↦ ?_
  cases hp : follow t.buf (t.pos + off) with
  | none => simp
  | some pos =>
    simp only [Option.some.injEq, exists_eq_left']
    refine and_congr_right fun _ ↦ ?_
    constructor
    · rintro ⟨j, hval, hr⟩
      obtain ⟨v, hread, htj⟩ := (hj _ pos hp j).mp hval
      exact ⟨v, j, hread, htj, hr⟩
    · rintro ⟨v, j, hread, htj, hr⟩
      exact ⟨j, (hj _ pos hp j).mpr ⟨v, hread, htj⟩, hr⟩

private theorem string_value {field pos : Nat} (hp : follow t.buf field = some pos) {c : Codec}
    (hs : c.shape = .string) {f : Bytes → Except Exc Json}
    (hf : ∀ s, c.toJson lib name (.string s) = f s) (j : Json) :
    (inBounds (stringBytes t.buf pos) >>= f) = .ok j ↔
      ∃ v, readStored t.buf field c.shape = some v ∧ c.toJson lib name v = .ok j := by
  simp only [bind_eq_ok, inBounds_eq_ok, hs, readStored, hp, Option.bind_eq_bind, Option.bind_some,
    Option.map_eq_some_iff, exists_exists_and_eq_and, hf]

private theorem elems_value {field pos size : Nat} (hp : follow t.buf field = some pos) {c : Codec}
    (hs : c.shape = .vector size) {f : List Nat → Except Exc Json}
    (hf : ∀ elems, c.toJson lib name (.vector size elems) = f elems) (j : Json) :
    (inBounds (vectorElems t.buf pos size) >>= f) = .ok j ↔
      ∃ v, readStored t.buf field c.shape = some v ∧ c.toJson lib name v = .ok j := by
  simp only [bind_eq_ok, inBounds_eq_ok, hs, readStored, hp, Option.bind_eq_bind, Option.bind_some,
    Option.map_eq_some_iff, exists_exists_and_eq_and, hf]

private theorem bytes_value {field pos : Nat} (hp : follow t.buf field = some pos) {c : Codec}
    (hs : c.shape = .vector 1) {f : Bytes → Except Exc Json}
    (hf : ∀ elems, c.toJson lib name (.vector 1 elems) = f (elems.map UInt8.ofNat)) (j : Json) :
    (inBounds (stringBytes t.buf pos) >>= f) = .ok j ↔
      ∃ v, readStored t.buf field c.shape = some v ∧ c.toJson lib name v = .ok j := by
  rw [stringBytes_eq_vectorElems]
  simp only [bind_eq_ok, inBounds_eq_ok, hs, readStored, hp, Option.bind_eq_bind, Option.bind_some,
    Option.map_eq_some_iff, exists_exists_and_eq_and, hf]

private theorem strings_value {field pos : Nat} (hp : follow t.buf field = some pos) {c : Codec}
    (hs : c.shape = .strings) {f : List Bytes → Except Exc Json}
    (hf : ∀ ss, c.toJson lib name (.strings ss) = f ss) (j : Json) :
    (inBounds (vectorStrings t.buf pos) >>= f) = .ok j ↔
      ∃ v, readStored t.buf field c.shape = some v ∧ c.toJson lib name v = .ok j := by
  simp only [bind_eq_ok, inBounds_eq_ok, hs, readStored, hp, Option.bind_eq_bind, Option.bind_some,
    Option.map_eq_some_iff, exists_exists_and_eq_and, hf]

/-- Every decoder: an absent field changes nothing, and a present one sets the JSON form of
the value stored in it, if every check accepts it and it has one. -/
theorem Codec.decode_eq_ok (c : Codec) :
    c.decode lib t slot name out = .ok r ↔
      ∃ off, fieldOffset t.buf t.pos slot = some off ∧
        (off = 0 ∧ r = out ∨ off ≠ 0 ∧ c.accepts lib.verifier t slot off = true ∧
          ∃ v j, readStored t.buf (t.pos + off) c.shape = some v ∧
            c.toJson lib name v = .ok j ∧ r = out.set name j) := by
  cases c with
  | bool => exact inline_spec rfl (fun _ ↦ rfl)
  | scalar T => exact inline_spec rfl (fun _ ↦ rfl)
  | string =>
    exact pointer_spec (by simp [shape]) rfl fun _ _ hp ↦ string_value hp rfl fun _ ↦ rfl
  | stringAsJson =>
    exact pointer_spec (by simp [shape]) rfl fun _ _ hp ↦ string_value hp rfl fun _ ↦ rfl
  | boolVector =>
    exact pointer_spec (by simp [shape]) rfl fun _ _ hp ↦ elems_value hp rfl fun _ ↦ rfl
  | numericVector T =>
    exact pointer_spec (by simp [shape]) rfl fun _ _ hp ↦ elems_value hp rfl fun _ ↦ rfl
  | blobString asUuid =>
    exact pointer_spec (by simp [shape]) rfl fun _ _ hp ↦ bytes_value hp rfl fun _ ↦ rfl
  | stringVector =>
    exact pointer_spec (by simp [shape]) rfl fun _ _ hp ↦ strings_value hp rfl fun _ ↦ rfl
  | flex =>
    exact pointer_spec (by simp [shape]) rfl fun _ _ hp ↦ bytes_value hp rfl fun _ ↦ rfl

end

/-! ### The object of a record -/

section

variable (lib : Libraries) (t : Table)

/-- The JSON form of the value a record stores for a property, if it stores one. -/
def fieldJson (p : PropertyDef) : Option Json := do
  let c ← p.codec
  let off ← fieldOffset t.buf t.pos (slotFor p.id)
  if off = 0 then none
  else do
    let v ← readStored t.buf (t.pos + off) c.shape
    (c.toJson lib p.name v).toOption

/-- The property's field is absent, or accepted and holding a value with a JSON form. -/
def FieldOk (p : PropertyDef) : Prop :=
  ∀ c, p.codec = some c → ∃ off, fieldOffset t.buf t.pos (slotFor p.id) = some off ∧
    (off = 0 ∨ off ≠ 0 ∧ c.accepts lib.verifier t (slotFor p.id) off = true ∧
      ∃ v j, readStored t.buf (t.pos + off) c.shape = some v ∧ c.toJson lib p.name v = .ok j)

/-- The member that a turn of the loop sets, if any. -/
def setting (p : PropertyDef) : Option (Bytes × Json) :=
  if p.name = lit "id" then none else (fieldJson lib t p).map (p.name, ·)

variable {lib t}

/-- A field that is absent has no JSON form. -/
theorem fieldJson_of_absent {p : PropertyDef}
    (h : fieldOffset t.buf t.pos (slotFor p.id) = some 0) : fieldJson lib t p = none := by
  unfold fieldJson
  cases p.codec <;> simp [h]

/-- A property of an unknown type has no JSON form. -/
theorem fieldJson_of_unknown {p : PropertyDef} (h : p.codec = none) :
    fieldJson lib t p = none := by
  simp [fieldJson, h]

/-- A present field has the JSON form of the value stored in it. -/
theorem fieldJson_of_present {p : PropertyDef} {c : Codec} {off : Nat} {v : Stored}
    (hc : p.codec = some c) (hoff : fieldOffset t.buf t.pos (slotFor p.id) = some off)
    (h0 : off ≠ 0) (hv : readStored t.buf (t.pos + off) c.shape = some v) :
    fieldJson lib t p = (c.toJson lib p.name v).toOption := by
  simp [fieldJson, hc, hoff, h0, hv]

/-- A property sets the member of its name. -/
theorem setting_name {p : PropertyDef} {e : Bytes × Json} (h : setting lib t p = some e) :
    e.1 = p.name := by
  unfold setting at h
  split at h
  · cases h
  · obtain ⟨j, -, rfl⟩ := Option.map_eq_some_iff.mp h
    rfl

/-- One turn of the loop makes the property's setting, if its field is in order. -/
theorem decodeProperty_eq_ok {p : PropertyDef} {out r : Json} :
    decodeProperty lib t p out = .ok r ↔ (p.name ≠ lit "id" → FieldOk lib t p) ∧
      r = match setting lib t p with
        | none => out
        | some e => out.set e.1 e.2 := by
  unfold decodeProperty setting
  by_cases hid : p.name = lit "id"
  · simp only [hid, if_true, ne_eq, not_true_eq_false, false_imp_iff, true_and, Except.ok.injEq]
    exact eq_comm
  rw [if_neg hid, if_neg hid, decodeField_eq_codec]
  cases hc : p.codec with
  | none =>
    simp only [fieldJson_of_unknown hc, FieldOk, hc, Option.map_none, reduceCtorEq, false_imp_iff,
      implies_true, true_and, Except.ok.injEq]
    exact eq_comm
  | some c =>
    simp only [Codec.decode_eq_ok, FieldOk, hc, Option.some.injEq, forall_eq', ne_eq, hid,
      not_false_eq_true, forall_const]
    constructor
    · rintro ⟨off, hoff, ⟨rfl, rfl⟩ | ⟨h0, ha, v, j, hv, hj, rfl⟩⟩
      · exact ⟨⟨0, hoff, .inl rfl⟩, by rw [fieldJson_of_absent hoff]; rfl⟩
      · refine ⟨⟨off, hoff, .inr ⟨h0, ha, v, j, hv, hj⟩⟩, ?_⟩
        rw [fieldJson_of_present hc hoff h0 hv, hj]
        rfl
    · rintro ⟨⟨off, hoff, rfl | ⟨h0, ha, v, j, hv, hj⟩⟩, rfl⟩
      · exact ⟨0, hoff, .inl ⟨rfl, by rw [fieldJson_of_absent hoff]; rfl⟩⟩
      · refine ⟨off, hoff, .inr ⟨h0, ha, v, j, hv, hj, ?_⟩⟩
        rw [fieldJson_of_present hc hoff h0 hv, hj]
        rfl

private theorem foldlM_eq_ok (ps : List PropertyDef) (ms : List (Bytes × Json)) (r : Json) :
    ps.foldlM (fun out p ↦ decodeProperty lib t p out) (.obj ms) = .ok r ↔
      (∀ p ∈ ps, p.name ≠ lit "id" → FieldOk lib t p) ∧
        r = .obj (Members.insertAll ms (ps.filterMap (setting lib t))) := by
  induction ps generalizing ms with
  | nil => simp [Members.insertAll, pure, Except.pure, eq_comm]
  | cons p ps ih =>
    rw [List.foldlM_cons, bind_eq_ok, List.forall_mem_cons, List.filterMap_cons]
    simp only [decodeProperty_eq_ok]
    cases setting lib t p with
    | none =>
      constructor
      · rintro ⟨_, ⟨hp, rfl⟩, h⟩
        exact ⟨⟨hp, ((ih ms).mp h).1⟩, ((ih ms).mp h).2⟩
      · rintro ⟨⟨hp, hps⟩, hr⟩
        exact ⟨_, ⟨hp, rfl⟩, (ih ms).mpr ⟨hps, hr⟩⟩
    | some e =>
      constructor
      · rintro ⟨_, ⟨hp, rfl⟩, h⟩
        exact ⟨⟨hp, ((ih _).mp h).1⟩, ((ih _).mp h).2⟩
      · rintro ⟨⟨hp, hps⟩, hr⟩
        exact ⟨_, ⟨hp, rfl⟩, (ih _).mpr ⟨hps, hr⟩⟩

/-- A record decodes exactly when its root table is accepted and every field is in order;
its object is that of the settings its properties make in turn. -/
theorem decodeObject_eq_ok {data : Bytes} {entity : EntityDef} {r : Json} :
    decodeObject lib data entity = .ok r ↔
      lib.verifier.rootOffset data = true ∧ ∃ pos, getRoot data = some pos ∧
        lib.verifier.tableStart data pos = true ∧
        (∀ p ∈ entity.properties, p.name ≠ lit "id" → FieldOk lib ⟨data, pos⟩ p) ∧
        r = Json.object (entity.properties.filterMap (setting lib ⟨data, pos⟩)) := by
  unfold decodeObject
  cases lib.verifier.rootOffset data with
  | false => simp [throw, throwThe, MonadExceptOf.throw]
  | true =>
    simp only [Bool.not_true, Bool.false_eq_true, if_false, bind_eq_ok, inBounds_eq_ok, true_and]
    refine exists_congr fun pos ↦ and_congr_right fun _ ↦ ?_
    cases lib.verifier.tableStart data pos with
    | false => simp [throw, throwThe, MonadExceptOf.throw]
    | true =>
      simp only [Bool.not_true, Bool.false_eq_true, if_false, true_and]
      exact foldlM_eq_ok entity.properties [] r

end

end ObDump
