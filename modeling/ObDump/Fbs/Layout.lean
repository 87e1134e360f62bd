import ObDump.Decode.Settings
import ObDump.Fbs.Generate
import ObDump.FlatBuffers.SchemaText
import ObDump.Json.Print

/-!
# The layout a generated schema declares

Library `Fbs`. A generated table as a list of field declarations, with the wire layout that
the FlatBuffers schema language gives each of them. The text is the rendering of these
tables, and every declared field is laid out as the decoder reads it.
-/

namespace ObDump

open Base FlatBuffers SchemaText

/-! ### Declarations -/

/-- A field declaration. -/
structure FbsField where
  name : Bytes
  vector : Bool
  base : Bytes
  deprecated : Bool
  comment : Bytes
  deriving DecidableEq, Repr

namespace FbsField

/-- The declaration's line. -/
def text (f : FbsField) : Bytes :=
  lit "  " ++ f.name ++ lit ":" ++ (if f.vector then lit "[" ++ f.base ++ lit "]" else f.base) ++
    (if f.deprecated then lit " (deprecated)" else []) ++ lit ";" ++ f.comment ++ lit "\n"

/-- The scalar type a keyword of the schema language names. -/
def scalar? (keyword : Bytes) : Option Scalar :=
  if keyword = lit "bool" then some .uint8
  else if keyword = lit "byte" then some .int8
  else if keyword = lit "ubyte" then some .uint8
  else if keyword = lit "short" then some .int16
  else if keyword = lit "ushort" then some .uint16
  else if keyword = lit "int" then some .int32
  else if keyword = lit "uint" then some .uint32
  else if keyword = lit "long" then some .int64
  else if keyword = lit "ulong" then some .uint64
  else if keyword = lit "float" then some .float
  else if keyword = lit "double" then some .double
  else none

/-- What the line declares. -/
def decl (f : FbsField) : FieldDecl := ⟨f.name, f.vector, f.base, f.deprecated⟩

end FbsField

/-- The layout of a declared field. -/
def FlatBuffers.SchemaText.FieldDecl.shape (f : FieldDecl) : Option Shape :=
  if f.base = lit "string" then some (if f.vector then .strings else .string)
  else (FbsField.scalar? f.base).map fun T ↦ if f.vector then .vector T.size else .scalar T.size

/-- The declaration of a property. -/
def PropertyDef.fbsField (p : PropertyDef) : FbsField where
  name := p.name
  vector := p.type = .flex || isVectorType p.type
  base := fbsTypeName p.type p.isUnsigned
  deprecated := p.type = .unknown
  comment :=
    if p.type = .flex then flexComment
    else if p.type = .unknown then lit "  // unrecognized PropertyType code, shape unknown"
    else
      match externalTypeName p.externalType with
      | some ext => lit "  // external type: " ++ ext
      | none => []

/-- The declaration that keeps a retired id's place. -/
def placeholder (id : Int) : FbsField where
  name := lit "_reserved_" ++ intText id
  vector := false
  base := lit "ubyte"
  deprecated := true
  comment := []

/-- The declarations of an entity's table, in order. -/
def fbsFields (entity : EntityDef) : List FbsField :=
  (idsUpTo (maxId entity)).map fun id ↦
    match Members.lookup (byId entity) id with
    | none => placeholder id
    | some p => p.fbsField

/-- The text of a table with the given declarations. -/
def tableText (name : Bytes) (fields : List FbsField) (comments : Bytes) : Bytes :=
  lit "table " ++ name ++ lit " \x7b\n" ++ fields.flatMap FbsField.text ++ comments ++
    lit "\x7d\n\n"

/-! ### The text renders the declarations -/

private theorem writeField_eq (p : PropertyDef) : writeField p = p.fbsField.text := by
  unfold writeField FbsField.text PropertyDef.fbsField
  by_cases hf : p.type = .flex
  · have ht : lit "[ubyte];" = lit "[" ++ lit "ubyte" ++ lit "]" ++ lit ";" := rfl
    simp only [hf, ht, fbsTypeName, if_true, reduceCtorEq, decide_true, decide_false, Bool.true_or,
      Bool.false_eq_true, if_false, List.append_assoc, List.nil_append]
  by_cases hu : p.type = .unknown
  · have ht : lit " (deprecated);  // unrecognized PropertyType code, shape unknown\n" =
        lit " (deprecated)" ++ lit ";" ++
          lit "  // unrecognized PropertyType code, shape unknown" ++ lit "\n" := rfl
    simp only [hu, ht, isVectorType, if_true, reduceCtorEq, decide_true, decide_false,
      Bool.or_self, Bool.false_eq_true, if_false, List.append_assoc]
  · cases externalTypeName p.externalType <;>
      simp only [hf, hu, if_false, decide_false, Bool.false_or, Bool.false_eq_true,
        List.append_assoc, List.nil_append]

private theorem writeReservedPlaceholder_eq (id : Int) :
    writeReservedPlaceholder id = (placeholder id).text := by
  have ht : lit "  _reserved_" = lit "  " ++ lit "_reserved_" := rfl
  have hu : lit ":ubyte (deprecated);\n" =
      lit ":" ++ lit "ubyte" ++ lit " (deprecated)" ++ lit ";" ++ lit "\n" := rfl
  simp only [writeReservedPlaceholder, FbsField.text, placeholder, ht, hu, if_true,
    Bool.false_eq_true, if_false, List.append_assoc, List.nil_append]

/-- The text of a table renders its declarations. -/
theorem writeTable_eq (schema : Schema) (entity : EntityDef) :
    writeTable schema entity = tableText entity.name (fbsFields entity)
      (entity.relations.flatMap (writeRelation schema)) := by
  have hids : (idsUpTo (maxId entity)).flatMap (writeId entity) =
      (fbsFields entity).flatMap FbsField.text := by
    rw [fbsFields, List.flatMap_map]
    congr 1
    funext id
    change (match Members.lookup (byId entity) id with
      | none => writeReservedPlaceholder id
      | some prop => writeField prop) = FbsField.text (match Members.lookup (byId entity) id with
      | none => placeholder id
      | some p => p.fbsField)
    cases Members.lookup (byId entity) id with
    | none => exact writeReservedPlaceholder_eq id
    | some p => exact writeField_eq p
  rw [writeTable, hids, tableText]

/-- The texts of all tables. -/
theorem writeTables_eq (schema : Schema) :
    schema.all.flatMap (writeTable schema) = schema.all.flatMap fun e ↦
      tableText e.name (fbsFields e) (e.relations.flatMap (writeRelation schema)) := by
  congr 1
  funext e
  exact writeTable_eq schema e

/-- A declared type is laid out as the property's decoder reads it, and where the decoder
outputs numbers it is the scalar type the decoder instantiates. -/
def LayoutAgrees (f : FieldDecl) (c : Codec) : Prop :=
  f.shape = some c.shape ∧
    ∀ T, c = .scalar T ∨ c = .numericVector T → FbsField.scalar? f.base = some T

private theorem layoutAgrees_fbsField {p : PropertyDef} {c : Codec} (h : p.codec = some c) :
    LayoutAgrees p.fbsField.decl c := by
  unfold LayoutAgrees FieldDecl.shape FbsField.decl PropertyDef.fbsField
  unfold PropertyDef.codec PropertyDef.integer at h
  cases ht : p.type <;> cases hu : p.isUnsigned <;>
    simp only [ht, hu, Bool.false_eq_true, if_false, if_true] at h ⊢ <;>
    (try split_ifs at h) <;> cases h <;>
    exact ⟨rfl, by rintro T (h | h) <;> cases h <;> rfl⟩

/-! ### The declarations of a table -/

section

variable {entity : EntityDef}

private theorem le_foldl_max (ps : List PropertyDef) (m : Int) :
    m ≤ ps.foldl (fun m prop ↦ if prop.id > m then prop.id else m) m ∧
      ∀ p ∈ ps, p.id ≤ ps.foldl (fun m prop ↦ if prop.id > m then prop.id else m) m := by
  induction ps generalizing m with
  | nil => simp
  | cons q ps ih =>
    obtain ⟨hle, hall⟩ := ih (if q.id > m then q.id else m)
    have hstep : m ≤ (if q.id > m then q.id else m) ∧ q.id ≤ (if q.id > m then q.id else m) := by
      split <;> omega
    rw [List.foldl_cons]
    refine ⟨hstep.1.trans hle, fun p hp ↦ ?_⟩
    rcases List.mem_cons.mp hp with rfl | hp
    · exact hstep.2.trans hle
    · exact hall p hp

private theorem foldl_max_mem (ps : List PropertyDef) (m : Int) :
    ps.foldl (fun m prop ↦ if prop.id > m then prop.id else m) m = m ∨
      ∃ p ∈ ps, p.id = ps.foldl (fun m prop ↦ if prop.id > m then prop.id else m) m := by
  induction ps generalizing m with
  | nil => exact .inl rfl
  | cons q ps ih =>
    rw [List.foldl_cons]
    rcases ih (if q.id > m then q.id else m) with h | ⟨p, hp, h⟩
    · rw [h]
      split
      · exact .inr ⟨q, List.mem_cons_self, rfl⟩
      · exact .inl rfl
    · exact .inr ⟨p, List.mem_cons_of_mem _ hp, h⟩

/-- The largest id is above every id, and one of them or 0. -/
theorem maxId_spec (entity : EntityDef) :
    (∀ p ∈ entity.properties, p.id ≤ maxId entity) ∧
      (maxId entity = 0 ∨ ∃ p ∈ entity.properties, p.id = maxId entity) :=
  ⟨(le_foldl_max _ 0).2, foldl_max_mem _ 0⟩

/-- The largest id is at least `0`. -/
theorem maxId_nonneg (entity : EntityDef) : 0 ≤ maxId entity := (le_foldl_max _ 0).1

/-- One field for each id up to the largest. -/
theorem length_fbsFields (entity : EntityDef) :
    (fbsFields entity).length = (maxId entity).toNat := by
  simp [fbsFields, idsUpTo]

/-- The field at the position of an id, counted from 1. -/
theorem getElem?_fbsFields {i : Nat} (hi : i < (maxId entity).toNat) :
    (fbsFields entity)[i]? = some (match Members.lookup (byId entity) ((i : Int) + 1) with
      | none => placeholder ((i : Int) + 1)
      | some p => p.fbsField) := by
  rw [fbsFields, idsUpTo, List.map_map, List.getElem?_map, List.getElem?_range hi]
  rfl

/-- With distinct ids, looking an id up finds its property. -/
theorem lookup_byId (hd : (entity.properties.map PropertyDef.id).Nodup)
    {p : PropertyDef} (hp : p ∈ entity.properties) :
    Members.lookup (byId entity) p.id = some p := by
  apply Members.lookup_insertAll_of_mem
  · rw [List.map_map]
    exact hd
  · exact List.mem_map.mpr ⟨p, hp, rfl⟩

/-- A property's declaration stands at the position of its id. -/
theorem getElem?_fbsFields_of_mem (hd : (entity.properties.map PropertyDef.id).Nodup)
    {p : PropertyDef} (hp : p ∈ entity.properties) (hpos : 1 ≤ p.id) :
    (fbsFields entity)[(p.id - 1).toNat]? = some p.fbsField := by
  have hmax := (maxId_spec entity).1 p hp
  have hi : (((p.id - 1).toNat : Int) + 1) = p.id := by omega
  rw [getElem?_fbsFields (by omega), hi, lookup_byId hd hp]

/-- A retired id has no property. -/
theorem lookup_byId_none {id : Int} (h : ∀ p ∈ entity.properties, p.id ≠ id) :
    Members.lookup (byId entity) id = none := by
  rw [byId, Members.lookup_insertAll_of_notMem]
  · rfl
  · rw [List.map_map, List.mem_map]
    rintro ⟨p, hp, hid⟩
    exact h p hp hid

end

/-- What a declared field says of a property. -/
structure FieldMatches (p : PropertyDef) (f : FieldDecl) : Prop where
  name : f.name = p.name
  /-- A field that is not deprecated is laid out as the decoder reads it. -/
  layout : f.deprecated = false → ∃ c, p.codec = some c ∧ LayoutAgrees f c
  /-- The decoder skips the property of a deprecated field. -/
  skipped : f.deprecated = true → ∀ lib t out, decodeProperty lib t p out = .ok out

/-- What the fields of a table say of an entity. -/
structure TableMatches (entity : EntityDef) (fields : List FieldDecl) : Prop where
  /-- The number of fields is the largest id, 0 without properties. -/
  length : (∀ p ∈ entity.properties, p.id ≤ fields.length) ∧
    (fields.length = 0 ∨ ∃ p ∈ entity.properties, p.id = fields.length)
  /-- A property's field stands at the position of its id. -/
  position : ∀ p ∈ entity.properties, ∃ f, fields[(p.id - 1).toNat]? = some f ∧ FieldMatches p f
  /-- The slot of that position is the one the decoder reads. -/
  slot : ∀ p ∈ entity.properties, fieldSlot (p.id - 1).toNat = slotFor p.id
  /-- The deprecated fields are the gaps and the properties of unknown type. -/
  deprecated : ∀ i (h : i < fields.length), fields[i].deprecated = true ↔
    (∀ p ∈ entity.properties, p.id ≠ (i : Int) + 1) ∨
      ∃ p ∈ entity.properties, p.id = (i : Int) + 1 ∧ p.type = .unknown

private theorem deprecated_fbsField {p : PropertyDef} :
    p.fbsField.decl.deprecated = true ↔ p.type = .unknown := decide_eq_true_iff

private theorem fieldMatches_fbsField (p : PropertyDef) : FieldMatches p p.fbsField.decl where
  name := rfl
  layout := by
    intro hdep
    have hu : p.type ≠ .unknown := by
      intro hu
      rw [deprecated_fbsField.mpr hu] at hdep
      cases hdep
    obtain ⟨c, hc⟩ := p.codec_isSome_iff.mpr hu
    exact ⟨c, hc, layoutAgrees_fbsField hc⟩
  skipped := by
    intro hdep lib t out
    unfold decodeProperty decodeField
    rw [deprecated_fbsField.mp hdep]
    simp

/-- The declarations of an entity with distinct ids in the documented range. -/
theorem tableMatches_fbsFields {entity : EntityDef}
    (hd : (entity.properties.map PropertyDef.id).Nodup)
    (hr : ∀ p ∈ entity.properties, 1 ≤ p.id ∧ p.id ≤ 32766) :
    TableMatches entity ((fbsFields entity).map FbsField.decl) where
  length := by
    obtain ⟨hle, hmem⟩ := maxId_spec entity
    rw [List.length_map, length_fbsFields]
    refine ⟨fun p hp ↦ (hle p hp).trans (Int.self_le_toNat _), ?_⟩
    rcases hmem with h0 | ⟨p, hp, hid⟩
    · exact .inl (by rw [h0]; rfl)
    · have h1 := (hr p hp).1
      exact .inr ⟨p, hp, by omega⟩
  position := by
    intro p hp
    refine ⟨p.fbsField.decl, ?_, fieldMatches_fbsField p⟩
    rw [List.getElem?_map, getElem?_fbsFields_of_mem hd hp (hr p hp).1]
    rfl
  slot := by
    intro p hp
    obtain ⟨h1, h2⟩ := hr p hp
    exact (slotFor_eq h1 h2).symm
  deprecated := by
    intro i hi
    rw [List.length_map] at hi
    rw [List.getElem_map]
    have hlt : i < (maxId entity).toNat := length_fbsFields entity ▸ hi
    have hget : (fbsFields entity)[i]? = _ := getElem?_fbsFields hlt
    rw [List.getElem?_eq_getElem hi, Option.some.injEq] at hget
    rw [hget]
    by_cases hex : ∃ p ∈ entity.properties, p.id = (i : Int) + 1
    · obtain ⟨p, hp, hid⟩ := hex
      rw [← hid, lookup_byId hd hp]
      constructor
      · intro hdep
        exact .inr ⟨p, hp, rfl, deprecated_fbsField.mp hdep⟩
      · rintro (hne | ⟨q, hq, hqid, hu⟩)
        · exact absurd rfl (hne p hp)
        · have hqp : q = p := List.inj_on_of_nodup_map hd hq hp hqid
          exact deprecated_fbsField.mpr (hqp ▸ hu)
    · have hnone : ∀ p ∈ entity.properties, p.id ≠ (i : Int) + 1 := fun p hp hid ↦ hex ⟨p, hp, hid⟩
      rw [lookup_byId_none hnone]
      exact iff_of_true rfl (.inl hnone)

/-- A model with a retired id. -/
def gapModel : Bytes :=
  lit "\x7b\"entities\":[\x7b\"id\":\"1:10\",\"name\":\"Note\",\"properties\":[" ++
    lit "\x7b\"id\":\"3:13\",\"name\":\"tags\",\"type\":30\x7d," ++
    lit "\x7b\"id\":\"1:11\",\"name\":\"id\",\"type\":6,\"flags\":1\x7d]\x7d]\x7d"

/-- The entity of the sample model. -/
theorem gapModel_entities :
    (Schema.parse .reference gapModel).map Schema.entities =
      .ok [⟨1, lit "Note", [⟨3, lit "tags", .stringVector, false, 0⟩,
        ⟨1, lit "id", .long, false, 0⟩], []⟩] := by
  decide +kernel

end ObDump
