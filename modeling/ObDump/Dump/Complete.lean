import ObDump.Dump.Exact

/-!
# What a record's object keeps

Library `Dump`. A record's object is built by settings in turn: the decoded properties, the
object id under `id`, the relations. From their order, which stored values it keeps.
-/

namespace ObDump

open Base FlatBuffers

/-! ### The settings of a record -/

/-- The members that the loop over the relations sets. -/
def relationSettings (reader : LmdbReader) (objectId : UInt32) (relations : List RelationDef) :
    Except Exc (List (Bytes × Json)) :=
  relations.mapM fun rel ↦ do
    let targets ← reader.toManyTargets rel.id objectId
    pure (rel.name, targetsJson targets)

section

variable {lib : Libraries} {reader : LmdbReader}

private theorem setRelations_eq_ok {objectId : UInt32} {relations : List RelationDef}
    {ms : List (Bytes × Json)} {r : Json} :
    setRelations reader objectId relations (.obj ms) = .ok r ↔
      ∃ es, relationSettings reader objectId relations = .ok es ∧
        r = .obj (Members.insertAll ms es) := by
  simp only [relationSettings, mapM_eq_ok]
  induction relations generalizing ms with
  | nil =>
    constructor
    · intro h
      cases h
      exact ⟨[], .nil, rfl⟩
    · rintro ⟨es, hes, rfl⟩
      cases hes
      rfl
  | cons rel relations ih =>
    rw [setRelations, List.foldlM_cons, bind_eq_ok]
    constructor
    · rintro ⟨obj, hobj, h⟩
      obtain ⟨targets, ht, hobj⟩ := bind_eq_ok.mp hobj
      cases hobj
      obtain ⟨es, hes, rfl⟩ := ih.mp h
      exact ⟨(rel.name, targetsJson targets) :: es,
        .cons (bind_eq_ok.mpr ⟨targets, ht, rfl⟩) hes, rfl⟩
    · rintro ⟨es, hes, rfl⟩
      cases hes with
      | @cons _ e _ es he hes =>
        obtain ⟨targets, ht, he⟩ := bind_eq_ok.mp he
        cases he
        exact ⟨_, bind_eq_ok.mpr ⟨targets, ht, rfl⟩, ih.mpr ⟨es, hes, rfl⟩⟩

/-- The relations are set under their names, in order. -/
theorem map_fst_relationSettings {objectId : UInt32} {relations : List RelationDef}
    {es : List (Bytes × Json)} (h : relationSettings reader objectId relations = .ok es) :
    es.map Prod.fst = relations.map RelationDef.name := by
  have hf := mapM_eq_ok.mp h
  clear h
  induction hf with
  | nil => rfl
  | cons he _ ih =>
    obtain ⟨targets, -, he⟩ := bind_eq_ok.mp he
    cases he
    rw [List.map_cons, List.map_cons, ih]

/-- A record has an object exactly when it decodes and its links can be read; the object is
that of its settings in turn. -/
theorem recordObject_eq_ok {entity : EntityDef} {rec : ObjectRecord} {obj : Json} :
    recordObject lib reader entity rec = .ok obj ↔
      lib.verifier.rootOffset rec.data = true ∧ ∃ pos, getRoot rec.data = some pos ∧
        lib.verifier.tableStart rec.data pos = true ∧
        (∀ p ∈ entity.properties, p.name ≠ lit "id" → FieldOk lib ⟨rec.data, pos⟩ p) ∧
        ∃ es, relationSettings reader rec.objectId entity.relations = .ok es ∧
          obj = Json.object (entity.properties.filterMap (setting lib ⟨rec.data, pos⟩) ++
            (lit "id", .int rec.objectId.toNat) :: es) := by
  rw [recordObject, bind_eq_ok]
  simp only [decodeObject_eq_ok]
  constructor
  · rintro ⟨_, ⟨hroot, pos, hpos, hstart, hok, rfl⟩, h⟩
    obtain ⟨es, hes, rfl⟩ := setRelations_eq_ok.mp h
    refine ⟨hroot, pos, hpos, hstart, hok, es, hes, ?_⟩
    rw [Json.object, Members.insertAll_append]
    rfl
  · rintro ⟨hroot, pos, hpos, hstart, hok, es, hes, rfl⟩
    refine ⟨_, ⟨hroot, pos, hpos, hstart, hok, rfl⟩, setRelations_eq_ok.mpr ⟨es, hes, ?_⟩⟩
    rw [Json.object, Members.insertAll_append]
    rfl

end

/-! ### The values a record stores -/

section

variable {lib : Libraries} {data : Bytes} {pos : Nat} {entity : EntityDef}

/-- The last setting of a name that no relation has is what the object keeps for it. -/
theorem get?_of_last {t : Table} {pre post : List PropertyDef} {p : PropertyDef} {j : Json}
    {objectId : UInt32} {es : List (Bytes × Json)} (hset : setting lib t p = some (p.name, j))
    (hpost : ∀ q ∈ post, q.name = p.name → setting lib t q = none)
    (hes : p.name ∉ es.map Prod.fst) :
    (Json.object ((pre ++ p :: post).filterMap (setting lib t) ++
      (lit "id", .int objectId.toNat) :: es)).get? p.name = some j := by
  have hid : p.name ≠ lit "id" := by
    intro h
    rw [setting, if_pos h] at hset
    cases hset
  rw [List.filterMap_append, List.filterMap_cons_some hset, List.append_assoc, List.cons_append]
  apply Members.lookup_insertAll_of_last
  intro hmem
  rw [List.map_append, List.map_cons, List.mem_append, List.mem_cons] at hmem
  rcases hmem with hmem | hmem | hmem
  · obtain ⟨e, he, hname⟩ := List.mem_map.mp hmem
    obtain ⟨q, hq, hqe⟩ := List.mem_filterMap.mp he
    rw [hpost q hq ((setting_name hqe).symm.trans hname)] at hqe
    cases hqe
  · exact hid hmem
  · exact hes hmem

end

/-! ### A text called `id` -/

end ObDump
