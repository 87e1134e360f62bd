import ObDump.Dump.Exact
import ObDump.Fbs.Generate

/-!
# The schema listing

Library `Dump`. `schemaToJson` of `src/schema_json.cpp:10–54` with the names of
`src/schema.cpp:116–162`. A listing tells a model's entities, properties and relations apart as
far as a dump does: models listed alike are dumped alike.
-/

namespace ObDump

open Base

/-! ### The listing -/

/-- `toString`, `src/schema.cpp:116–144`. -/
def PropertyType.toString : PropertyType → Bytes
  | .bool => lit "Bool"
  | .byte => lit "Byte"
  | .short => lit "Short"
  | .char => lit "Char"
  | .int => lit "Int"
  | .long => lit "Long"
  | .float => lit "Float"
  | .double => lit "Double"
  | .string => lit "String"
  | .date => lit "Date"
  | .relation => lit "Relation"
  | .dateNano => lit "DateNano"
  | .flex => lit "Flex"
  | .boolVector => lit "BoolVector"
  | .byteVector => lit "ByteVector"
  | .shortVector => lit "ShortVector"
  | .charVector => lit "CharVector"
  | .intVector => lit "IntVector"
  | .longVector => lit "LongVector"
  | .floatVector => lit "FloatVector"
  | .doubleVector => lit "DoubleVector"
  | .stringVector => lit "StringVector"
  | .dateVector => lit "DateVector"
  | .dateNanoVector => lit "DateNanoVector"
  | .unknown => lit "Unknown"

/-- One entry of `properties`, `src/schema_json.cpp:17–29`: the flag and the external type are
set when there is something to say. -/
def propertyListing (prop : PropertyDef) : Json :=
  Json.object
    ([(lit "id", .int prop.id), (lit "name", .str prop.name),
      (lit "type", .str prop.type.toString), (lit "vtableSlot", .int (slotFor prop.id))] ++
      (if prop.isUnsigned then [(lit "unsigned", .bool true)] else []) ++
      (externalTypeName prop.externalType).toList.map fun ext ↦ (lit "externalType", .str ext))

/-- One entry of `relations`, `src/schema_json.cpp:33–37`. -/
def relationListing (rel : RelationDef) : Json :=
  Json.object
    [(lit "id", .int rel.id), (lit "name", .str rel.name),
      (lit "targetEntityId", .int rel.targetEntityId)]

/-- One entry of `entities`, `src/schema_json.cpp:40–49`. -/
def entityListing (entity : EntityDef) : Json :=
  Json.object
    ([(lit "entityId", .int entity.entityId), (lit "name", .str entity.name),
      (lit "properties", .arr (entity.properties.map propertyListing))] ++
      if entity.relations.isEmpty then []
      else [(lit "relations", .arr (entity.relations.map relationListing))])

/-- The value `schemaToJson` serialises. -/
def schemaListing (schema : Schema) : Json :=
  Json.object [(lit "entities", .arr (schema.all.map entityListing))]

/-- `schemaToJson`, `src/schema_json.cpp:10–54`. -/
def schemaToJson (lib : Libraries) (modelJson : Bytes) : Except Exc Bytes := do
  let schema ← Schema.parse lib.json modelJson
  lib.json.dumpText (some 2) (schemaListing schema)

/-! ### What a listing tells -/

/-- The properties differ at most in their external types, and then both have one without a
name. -/
structure PropertyDef.Alike (p q : PropertyDef) : Prop where
  id : p.id = q.id
  name : p.name = q.name
  type : p.type = q.type
  isUnsigned : p.isUnsigned = q.isUnsigned
  externalType : externalTypeName p.externalType = externalTypeName q.externalType

/-- The same entity, its properties in the same order. -/
structure EntityDef.Alike (e d : EntityDef) : Prop where
  entityId : e.entityId = d.entityId
  name : e.name = d.name
  properties : List.Forall₂ PropertyDef.Alike e.properties d.properties
  relations : e.relations = d.relations

/-- The type a name in the listing stands for. -/
def propertyTypeOf (name : Bytes) : PropertyType :=
  (([1, 2, 3, 4, 5, 6, 7, 8, 9, 10, 11, 12, 13, 22, 23, 24, 25, 26, 27, 28, 29, 30, 31, 32].map
    toPropertyType).find? fun t ↦ t.toString == name).getD .unknown

private theorem propertyTypeOf_toString (t : PropertyType) : propertyTypeOf t.toString = t := by
  cases t <;> rfl

private theorem get?_propertyListing (p : PropertyDef) :
    (propertyListing p).get? (lit "id") = some (.int p.id) ∧
      (propertyListing p).get? (lit "name") = some (.str p.name) ∧
      (propertyListing p).get? (lit "type") = some (.str p.type.toString) ∧
      (propertyListing p).get? (lit "unsigned") =
        (if p.isUnsigned then some (.bool true) else none) ∧
      (propertyListing p).get? (lit "externalType") =
        (externalTypeName p.externalType).map Json.str := by
  unfold propertyListing
  cases p.isUnsigned <;> cases externalTypeName p.externalType <;> exact ⟨rfl, rfl, rfl, rfl, rfl⟩

private theorem PropertyDef.alike_of_listing {p q : PropertyDef}
    (h : propertyListing p = propertyListing q) : p.Alike q := by
  obtain ⟨hpid, hpname, hptype, hpflag, hpext⟩ := get?_propertyListing p
  obtain ⟨hqid, hqname, hqtype, hqflag, hqext⟩ := get?_propertyListing q
  rw [h] at hpid hpname hptype hpflag hpext
  constructor
  · exact Json.int.inj (Option.some.inj (hpid.symm.trans hqid))
  · exact Json.str.inj (Option.some.inj (hpname.symm.trans hqname))
  · have htext := Json.str.inj (Option.some.inj (hptype.symm.trans hqtype))
    rw [← propertyTypeOf_toString p.type, htext, propertyTypeOf_toString]
  · have hflag := hpflag.symm.trans hqflag
    cases hp : p.isUnsigned <;> cases hq : q.isUnsigned <;> simp [hp, hq] at hflag <;> rfl
  · exact Option.map_injective (fun a b hab ↦ Json.str.inj hab) (hpext.symm.trans hqext)

private theorem relationListing_injective : Function.Injective relationListing := by
  intro r s h
  have hid : (relationListing r).get? (lit "id") = some (.int r.id) := rfl
  have hname : (relationListing r).get? (lit "name") = some (.str r.name) := rfl
  have htarget : (relationListing r).get? (lit "targetEntityId") =
      some (.int r.targetEntityId) := rfl
  rw [h] at hid hname htarget
  have hid' := Json.int.inj (Option.some.inj hid)
  have hname' := Json.str.inj (Option.some.inj hname)
  have htarget' := Json.int.inj (Option.some.inj htarget)
  cases r
  cases s
  cases hid'
  cases hname'
  cases htarget'
  rfl

private theorem forall₂_of_map_eq {α β : Type} {f : α → β} {l l' : List α}
    (h : l.map f = l'.map f) : List.Forall₂ (fun a b ↦ f a = f b) l l' := by
  have hf : List.Forall₂ (· = ·) (l.map f) (l'.map f) := by rw [h]; exact List.forall₂_refl _
  rwa [List.forall₂_map_left_iff, List.forall₂_map_right_iff] at hf

private theorem get?_entityListing (e : EntityDef) :
    (entityListing e).get? (lit "entityId") = some (.int e.entityId) ∧
      (entityListing e).get? (lit "name") = some (.str e.name) ∧
      (entityListing e).get? (lit "properties") =
        some (.arr (e.properties.map propertyListing)) ∧
      (entityListing e).get? (lit "relations") =
        (if e.relations.isEmpty then none
        else some (.arr (e.relations.map relationListing))) := by
  unfold entityListing
  cases e.relations.isEmpty <;> exact ⟨rfl, rfl, rfl, rfl⟩

private theorem EntityDef.alike_of_listing {e d : EntityDef}
    (h : entityListing e = entityListing d) : e.Alike d := by
  obtain ⟨heid, hename, heprops, herels⟩ := get?_entityListing e
  obtain ⟨hdid, hdname, hdprops, hdrels⟩ := get?_entityListing d
  rw [h] at heid hename heprops herels
  constructor
  · exact Json.int.inj (Option.some.inj (heid.symm.trans hdid))
  · exact Json.str.inj (Option.some.inj (hename.symm.trans hdname))
  · have hprops := Json.arr.inj (Option.some.inj (heprops.symm.trans hdprops))
    exact (forall₂_of_map_eq hprops).imp fun _ _ ↦ PropertyDef.alike_of_listing
  · have hrels := herels.symm.trans hdrels
    cases he : e.relations with
    | nil =>
      cases hd : d.relations with
      | nil => rfl
      | cons s ss => simp [he, hd] at hrels
    | cons r rs =>
      cases hd : d.relations with
      | nil => simp [he, hd] at hrels
      | cons s ss =>
        rw [he, hd] at hrels
        have hmap := Json.arr.inj (Option.some.inj hrels)
        exact List.map_injective_iff.mpr relationListing_injective hmap

/-- Schemas with the same listing declare the same entities. -/
theorem Schema.alike_of_listing {s t : Schema} (h : schemaListing s = schemaListing t) :
    List.Forall₂ EntityDef.Alike s.all t.all := by
  have hs : (schemaListing s).get? (lit "entities") = some (.arr (s.all.map entityListing)) := rfl
  rw [h] at hs
  have hmap := Json.arr.inj (Option.some.inj hs)
  exact (forall₂_of_map_eq hmap.symm).imp fun _ _ ↦ EntityDef.alike_of_listing

/-! ### Decoding alike -/

/-- The code that a name in the listing stands for. -/
def externalTypeOf (name : Bytes) : Int :=
  ([100, 102, 103, 107, 108, 109, 110, 111, 112, 116, 118].find? fun c ↦
    externalTypeName c == some name).getD 0

private theorem externalTypeOf_name {c : Int} {name : Bytes}
    (h : externalTypeName c = some name) : externalTypeOf name = c := by
  unfold externalTypeName at h
  split at h <;> cases h <;> rfl

private theorem PropertyDef.Alike.codec_eq {p q : PropertyDef} (h : p.Alike q) :
    p.codec = q.codec := by
  cases hp : externalTypeName p.externalType with
  | some name =>
    have hq : externalTypeName q.externalType = some name := h.externalType.symm.trans hp
    have hext : p.externalType = q.externalType :=
      (externalTypeOf_name hp).symm.trans (externalTypeOf_name hq)
    unfold codec integer
    rw [h.type, h.isUnsigned, hext]
  | none =>
    have hq : externalTypeName q.externalType = none := h.externalType.symm.trans hp
    have hne : ∀ {c d : Int} {name : Bytes}, externalTypeName c = none →
        externalTypeName d = some name → c ≠ d := by
      rintro c d name hc hd rfl
      rw [hc] at hd
      cases hd
    have hall : ∀ {c : Int}, externalTypeName c = none → c ≠ ExternalPropertyType.json ∧
        c ≠ ExternalPropertyType.javaScript ∧ c ≠ ExternalPropertyType.jsonToNative ∧
        c ≠ ExternalPropertyType.uuid ∧ c ≠ ExternalPropertyType.int128 ∧
        c ≠ ExternalPropertyType.decimal128 ∧ c ≠ ExternalPropertyType.bson := by
      intro c hc
      exact ⟨hne hc rfl, hne hc rfl, hne hc rfl, hne hc rfl, hne hc rfl, hne hc rfl, hne hc rfl⟩
    have hpc := hall hp
    have hqc := hall hq
    simp only [codec, integer, h.type, h.isUnsigned, hpc, hqc, or_self, if_false]

private theorem decodeProperty_alike (lib : Libraries) (t : Table) {p q : PropertyDef}
    (h : p.Alike q) (out : Json) : decodeProperty lib t p out = decodeProperty lib t q out := by
  rw [decodeProperty, decodeProperty, decodeField_eq_codec, decodeField_eq_codec, h.name,
    h.codec_eq, h.id]

private theorem foldlM_alike (lib : Libraries) (t : Table) {ps qs : List PropertyDef}
    (h : List.Forall₂ PropertyDef.Alike ps qs) (out : Json) :
    ps.foldlM (fun out p ↦ decodeProperty lib t p out) out =
      qs.foldlM (fun out p ↦ decodeProperty lib t p out) out := by
  induction h generalizing out with
  | nil => rfl
  | cons hpq _ ih =>
    rw [List.foldlM_cons, List.foldlM_cons, decodeProperty_alike lib t hpq]
    exact bind_congr ih

/-- Entities that are alike decode every record alike. -/
theorem decodeObject_alike (lib : Libraries) (data : Bytes) {e d : EntityDef} (h : e.Alike d) :
    decodeObject lib data e = decodeObject lib data d := by
  unfold decodeObject
  simp only [h.name, foldlM_alike lib _ h.properties]

private theorem mem_all {s : Schema} {e : EntityDef} : e ∈ s.all ↔ e ∈ s.entities :=
  List.mem_mergeSort

private theorem find_alike {s t : Schema} (h : List.Forall₂ EntityDef.Alike s.all t.all)
    (id : Int) : Option.Rel EntityDef.Alike (s.find id) (t.find id) := by
  have hsym : ∀ d ∈ t.entities, ∃ e, s.find d.entityId = some e ∧ e.Alike d := by
    intro d hd
    obtain ⟨e, he, hed⟩ := exists_of_forall₂ h (mem_all.mpr hd)
    refine ⟨e, ?_, hed⟩
    rw [← hed.entityId]
    exact Schema.find_of_mem (mem_all.mp he)
  have hfwd : ∀ e ∈ s.entities, ∃ d, t.find e.entityId = some d ∧ e.Alike d := by
    intro e he
    obtain ⟨d, hd, hed⟩ := exists_of_forall₂ h.flip (mem_all.mpr he)
    refine ⟨d, ?_, hed⟩
    rw [hed.entityId]
    exact Schema.find_of_mem (mem_all.mp hd)
  cases hs : s.find id with
  | some e =>
    obtain ⟨he, rfl⟩ := Schema.mem_of_find hs
    obtain ⟨d, hd, hed⟩ := hfwd e he
    rw [hd]
    exact .some hed
  | none =>
    cases ht : t.find id with
    | none => exact .none
    | some d =>
      obtain ⟨hd, rfl⟩ := Schema.mem_of_find ht
      obtain ⟨e, he, -⟩ := hsym d hd
      rw [hs] at he
      cases he

private theorem dumpToJsonRecord_alike (lib : Libraries) (reader : LmdbReader) {s t : Schema}
    (h : List.Forall₂ EntityDef.Alike s.all t.all) :
    dumpToJsonRecord lib s reader = dumpToJsonRecord lib t reader := by
  funext result rec
  have hfind := find_alike h rec.entityId
  rw [dumpToJsonRecord_eq, dumpToJsonRecord_eq]
  cases hs : s.find rec.entityId with
  | none =>
    cases ht : t.find rec.entityId with
    | none => rfl
    | some d =>
      rw [hs, ht] at hfind
      cases hfind
  | some e =>
    cases ht : t.find rec.entityId with
    | none =>
      rw [hs, ht] at hfind
      cases hfind
    | some d =>
      rw [hs, ht] at hfind
      cases hfind with
      | some hed =>
        simp only [recordObject, decodeObject_alike lib rec.data hed, hed.name, hed.relations]

/-! ### The listing's text -/

private theorem valid_externalTypeName {c : Int} {name : Bytes}
    (h : externalTypeName c = some name) : Utf8.valid name = true := by
  unfold externalTypeName at h
  split at h <;> cases h <;> rfl

private theorem encodable_propertyListing {p : PropertyDef} (h : Utf8.valid p.name = true) :
    (propertyListing p).encodable = true := by
  have htype : Utf8.valid p.type.toString = true := by
    cases p.type <;> rfl
  apply Json.encodable_object
  intro e he
  simp only [List.mem_append, List.mem_cons, List.not_mem_nil, or_false] at he
  rcases he with ((rfl | rfl | rfl | rfl) | he) | he
  · exact ⟨rfl, rfl⟩
  · exact ⟨rfl, h⟩
  · exact ⟨rfl, htype⟩
  · exact ⟨rfl, rfl⟩
  · split at he
    · rw [List.mem_singleton.mp he]
      exact ⟨rfl, rfl⟩
    · cases he
  · obtain ⟨ext, hext, rfl⟩ := List.mem_map.mp he
    exact ⟨rfl, valid_externalTypeName (Option.mem_toList.mp hext)⟩

private theorem encodable_relationListing {r : RelationDef} (h : Utf8.valid r.name = true) :
    (relationListing r).encodable = true := by
  apply Json.encodable_object
  intro e he
  simp only [List.mem_cons, List.not_mem_nil, or_false] at he
  rcases he with rfl | rfl | rfl
  · exact ⟨rfl, rfl⟩
  · exact ⟨rfl, h⟩
  · exact ⟨rfl, rfl⟩

private theorem encodable_entityListing {e : EntityDef} (h : e.NamesValid) :
    (entityListing e).encodable = true := by
  apply Json.encodable_object
  intro m hm
  simp only [List.mem_append, List.mem_cons, List.not_mem_nil, or_false] at hm
  rcases hm with (rfl | rfl | rfl) | hm
  · exact ⟨rfl, rfl⟩
  · exact ⟨rfl, h.name⟩
  · exact ⟨rfl, (Json.encodable_map _ _).mpr fun p hp ↦
      encodable_propertyListing (h.properties p hp)⟩
  · split at hm
    · cases hm
    · rw [List.mem_singleton.mp hm]
      exact ⟨rfl, (Json.encodable_map _ _).mpr fun r hr ↦
        encodable_relationListing (h.relations r hr)⟩

private theorem encodable_schemaListing {s : Schema} (h : ∀ e ∈ s.entities, e.NamesValid) :
    (schemaListing s).encodable = true := by
  apply Json.encodable_object
  intro m hm
  rw [List.mem_singleton.mp hm]
  exact ⟨rfl, (Json.encodable_map _ _).mpr fun e he ↦ encodable_entityListing (h e (mem_all.mp he))⟩

/-- An accepted model's listing has a text. -/
theorem schemaToJson_of_parse {lib : Libraries} (hnl : lib.json.Documented) {modelJson : Bytes}
    {s : Schema} (h : Schema.parse lib.json modelJson = .ok s) :
    ∃ text, schemaToJson lib modelJson = .ok text ∧
      lib.json.dump (some 2) (schemaListing s) = .ok text := by
  have henc := encodable_schemaListing (Schema.parse_namesValid hnl h)
  obtain ⟨text, htext⟩ := (hnl.dump_ok_iff (some 2) _).mpr henc
  refine ⟨text, ?_, htext⟩
  rw [schemaToJson, h, ok_bind]
  exact Nlohmann.dumpText_eq_ok.mpr htext

/-- For any two models that are accepted and listed alike, with a library that writes different
listings differently: both declare the same entities with the same properties in the same
order, and on every store the dump has the same outcome under both. -/
theorem listing_determines_dump (lib : Libraries) (hnl : lib.json.Documented)
    (hinj : lib.json.InjectiveOn fun v ↦ ∃ s, v = schemaListing s) {m₁ m₂ : Bytes}
    {s₁ s₂ : Schema} (h₁ : Schema.parse lib.json m₁ = .ok s₁)
    (h₂ : Schema.parse lib.json m₂ = .ok s₂) (h : schemaToJson lib m₁ = schemaToJson lib m₂) :
    List.Forall₂ EntityDef.Alike s₁.all s₂.all ∧
      ∀ sys mdbPath, dumpToJson lib sys mdbPath m₁ = dumpToJson lib sys mdbPath m₂ := by
  obtain ⟨t₁, htext₁, hdump₁⟩ := schemaToJson_of_parse hnl h₁
  obtain ⟨t₂, htext₂, hdump₂⟩ := schemaToJson_of_parse hnl h₂
  have ht : t₁ = t₂ := Except.ok.inj (htext₁.symm.trans (h.trans htext₂))
  rw [← ht] at hdump₂
  have hlisting := hinj _ _ ⟨s₁, rfl⟩ ⟨s₂, rfl⟩ (some 2) t₁ hdump₁ hdump₂
  have halike := Schema.alike_of_listing hlisting
  refine ⟨halike, fun sys mdbPath ↦ ?_⟩
  simp only [dumpToJson, h₁, h₂, ok_bind, dumpToJsonRecord_alike lib _ halike]

/-! ### Two texts of one model -/

private theorem inverseOn_map {α : Type} {nl : Nlohmann} (hnl : nl.Documented) {f : α → Json}
    (h : ∀ a, nl.InverseOn (· = f a)) (l : List α) : nl.InverseOn (· = .arr (l.map f)) := by
  apply hnl.inverse_array
  intro x hx
  obtain ⟨a, -, rfl⟩ := List.mem_map.mp hx
  exact h a _ rfl

private theorem inverseOn_propertyListing (p : PropertyDef) :
    Nlohmann.reference.InverseOn (· = propertyListing p) := by
  apply Nlohmann.reference_documented.inverse_settings
  apply Nlohmann.reference_inverseOn_leaf
  intro v hv
  obtain ⟨e, he, rfl⟩ := List.mem_map.mp hv
  simp only [List.mem_append, List.mem_cons, List.not_mem_nil, or_false] at he
  rcases he with ((rfl | rfl | rfl | rfl) | he) | he
  · exact .inr (.inl ⟨_, rfl⟩)
  · exact .inr (.inr ⟨_, rfl⟩)
  · exact .inr (.inr ⟨_, rfl⟩)
  · exact .inr (.inl ⟨_, rfl⟩)
  · split at he
    · rw [List.mem_singleton.mp he]
      exact .inl ⟨_, rfl⟩
    · cases he
  · obtain ⟨ext, -, rfl⟩ := List.mem_map.mp he
    exact .inr (.inr ⟨_, rfl⟩)

private theorem inverseOn_relationListing (r : RelationDef) :
    Nlohmann.reference.InverseOn (· = relationListing r) := by
  apply Nlohmann.reference_documented.inverse_settings
  apply Nlohmann.reference_inverseOn_leaf
  intro v hv
  obtain ⟨e, he, rfl⟩ := List.mem_map.mp hv
  simp only [List.mem_cons, List.not_mem_nil, or_false] at he
  rcases he with rfl | rfl | rfl
  · exact .inr (.inl ⟨_, rfl⟩)
  · exact .inr (.inr ⟨_, rfl⟩)
  · exact .inr (.inl ⟨_, rfl⟩)

private theorem inverseOn_entityListing (d : EntityDef) :
    Nlohmann.reference.InverseOn (· = entityListing d) := by
  have hnl := Nlohmann.reference_documented
  apply hnl.inverse_settings
  intro v hv
  obtain ⟨e, he, rfl⟩ := List.mem_map.mp hv
  simp only [List.mem_append, List.mem_cons, List.not_mem_nil, or_false] at he
  rcases he with (rfl | rfl | rfl) | he
  · exact Nlohmann.reference_inverseOn_leaf (S := (· = .int d.entityId))
      (fun w hw ↦ .inr (.inl ⟨_, hw⟩)) _ rfl
  · exact Nlohmann.reference_inverseOn_leaf (S := (· = .str d.name))
      (fun w hw ↦ .inr (.inr ⟨_, hw⟩)) _ rfl
  · exact inverseOn_map hnl inverseOn_propertyListing d.properties _ rfl
  · split at he
    · cases he
    · rw [List.mem_singleton.mp he]
      exact inverseOn_map hnl inverseOn_relationListing d.relations _ rfl

/-- The reference library writes different listings differently. -/
theorem reference_injectiveOn_listings :
    Nlohmann.reference.InjectiveOn fun v ↦ ∃ s, v = schemaListing s := by
  have hnl := Nlohmann.reference_documented
  have hschema : ∀ s, Nlohmann.reference.InverseOn (· = schemaListing s) := by
    intro s
    apply hnl.inverse_settings
    intro v hv
    obtain ⟨e, he, rfl⟩ := List.mem_map.mp hv
    rw [List.mem_singleton.mp he]
    exact inverseOn_map hnl inverseOn_entityListing s.all _ rfl
  apply Nlohmann.InverseOn.injectiveOn
  rintro v ⟨s, rfl⟩
  exact hschema s _ rfl

/-- The model of the notes with an external type that has no name. -/
private def unnamedModel : Bytes :=
  lit "\x7b\"entities\":[\x7b\"id\":\"1:5\",\"name\":\"Note\",\"properties\":[" ++
    lit "\x7b\"id\":\"1:6\",\"name\":\"text\",\"type\":9,\"externalType\":101\x7d]," ++
    lit "\"relations\":[\x7b\"id\":\"1:7\",\"name\":\"links\",\"targetId\":\"1:5\"\x7d]\x7d]\x7d"

private theorem unnamedModel_entities :
    (Schema.parse .reference unnamedModel).map Schema.entities =
      .ok [⟨1, lit "Note", [⟨1, lit "text", .string, false, 101⟩], [⟨1, lit "links", 1⟩]⟩] := by
  decide +kernel

/-- The notes under both models. -/
theorem listing_determines_dump_sample :
    dumpToJson .reference noteStore.system (lit "data.mdb") noteModel =
      dumpToJson .reference noteStore.system (lit "data.mdb") unnamedModel := by
  obtain ⟨s, hs, hse⟩ := Schema.parse_of_entities noteModel_entities
  obtain ⟨t, ht, hte⟩ := Schema.parse_of_entities unnamedModel_entities
  have hlisting : schemaListing s = schemaListing t := by
    rw [schemaListing, schemaListing, Schema.all, Schema.all, hse, hte, List.mergeSort_singleton,
      List.mergeSort_singleton]
    rfl
  have hjson : Libraries.reference.json = Nlohmann.reference := rfl
  refine (listing_determines_dump .reference Nlohmann.reference_documented
    reference_injectiveOn_listings hs ht ?_).2 noteStore.system (lit "data.mdb")
  rw [schemaToJson, schemaToJson, hjson, hs, ht, ok_bind, ok_bind, hlisting]

end ObDump
