import ObDump.Dump.Exact
import ObDump.Fbs.Layout
import ObDump.Schema.Reordered

/-!
# Declaration order does not show

Library `Dump`. `generateFbs` and `dumpToJson` on two models that declare the same in another
order. What stands in an output is found by id or by name; only which of several corrupt fields is
reported depends on the order.
-/

namespace ObDump

open Base FlatBuffers

/-! ### The generated schema -/

/-- A listing of the entities: whatever order the map yields them in, sorted by id. -/
structure Schema.IsListing (schema : Schema) (l : List EntityDef) : Prop where
  perm : l.Perm schema.entities
  sorted : l.Pairwise fun a b ↦ a.entityId ≤ b.entityId

/-- The text generated along a listing. -/
def fbsText (schema : Schema) (l : List EntityDef) : Bytes :=
  fbsHeader ++ l.flatMap (writeTable schema)

private theorem generateFbs_of_isListing {nl : Nlohmann} {modelJson : Bytes} {schema : Schema}
    (h : Schema.parse nl modelJson = .ok schema) {l : List EntityDef} (hl : schema.IsListing l) :
    generateFbs nl modelJson = .ok (fbsText schema l) := by
  rw [schema.all_unique hl.perm hl.sorted, generateFbs, h]
  rfl

private theorem maxId_le_of_perm {e d : EntityDef} (h : e.properties.Perm d.properties) :
    maxId e ≤ maxId d := by
  rcases (maxId_spec e).2 with h0 | ⟨p, hp, hid⟩
  · rw [h0]
    apply maxId_nonneg
  · rw [← hid]
    apply (maxId_spec d).1 p
    exact h.mem_iff.mp hp

private theorem writeRelation_reordered {s t : Schema} (h : s.Reordered t) (rel : RelationDef) :
    writeRelation s rel = writeRelation t rel := by
  unfold writeRelation
  rcases h.find rel.targetEntityId with ⟨hs, ht⟩ | ⟨e, d, hs, ht, hed⟩
  · rw [hs, ht]
  · rw [hs, ht]
    simp only [hed.name]

private theorem writeTable_reordered {s t : Schema} (h : s.Reordered t) {e d : EntityDef}
    (hed : e.Reordered d) (hd : (e.properties.map PropertyDef.id).Nodup) :
    writeTable s e = writeTable t d := by
  have hmax : maxId e = maxId d :=
    le_antisymm (maxId_le_of_perm hed.properties) (maxId_le_of_perm hed.properties.symm)
  have hby : byId e = byId d := by
    apply Members.insertAll_perm (hed.properties.map _)
    rw [List.map_map]
    exact hd
  have hid : writeId e = writeId d := by
    funext id
    rw [writeId, writeId, hby]
  have hrel : writeRelation s = writeRelation t := by
    funext rel
    exact writeRelation_reordered h rel
  rw [writeTable, writeTable, hed.name, hmax, hid, hed.relations, hrel]

private theorem flatMap_writeTable {s t : Schema} (h : s.Reordered t) {l r : List EntityDef}
    (hlr : List.Forall₂ EntityDef.Reordered l r)
    (hd : ∀ e ∈ l, (e.properties.map PropertyDef.id).Nodup) :
    l.flatMap (writeTable s) = r.flatMap (writeTable t) := by
  induction hlr with
  | nil => rfl
  | cons hed _ ih =>
    obtain ⟨he, hl⟩ := List.forall_mem_cons.mp hd
    rw [List.flatMap_cons, List.flatMap_cons, writeTable_reordered h hed he, ih hl]

private theorem fbsText_reordered {s t : Schema} (h : s.Reordered t)
    (hd : ∀ e ∈ s.entities, (e.properties.map PropertyDef.id).Nodup) {l r : List EntityDef}
    (hl : s.IsListing l) (hr : t.IsListing r) : fbsText s l = fbsText t r := by
  rw [s.all_unique hl.perm hl.sorted, t.all_unique hr.perm hr.sorted, fbsText, fbsText,
    flatMap_writeTable h h fun e he ↦ hd e (Schema.mem_all_iff.mp he)]

/-! ### The dump -/

section

variable {lib : Libraries}

private theorem nodup_settings (t : Table) {ps : List PropertyDef}
    (hn : (ps.map PropertyDef.name).Nodup) :
    ((ps.filterMap (setting lib t)).map Prod.fst).Nodup := by
  apply List.pairwise_map.mpr
  apply List.pairwise_filterMap.mpr
  apply (List.pairwise_map.mp hn).imp
  intro p q hpq a ha b hb hab
  apply hpq
  rw [← setting_name ha, ← setting_name hb, hab]

private theorem decodeObject_reordered {e d : EntityDef} (h : e.properties.Perm d.properties)
    (hn : (e.properties.map PropertyDef.name).Nodup) (data : Bytes) (r : Json) :
    decodeObject lib data e = .ok r ↔ decodeObject lib data d = .ok r := by
  have hobject : ∀ t, Json.object (e.properties.filterMap (setting lib t)) =
      Json.object (d.properties.filterMap (setting lib t)) := by
    intro t
    rw [Json.object, Json.object, Members.insertAll_perm (h.filterMap _) (nodup_settings t hn)]
  have hfields : ∀ t, (∀ p ∈ e.properties, p.name ≠ lit "id" → FieldOk lib t p) ↔
      ∀ p ∈ d.properties, p.name ≠ lit "id" → FieldOk lib t p := by
    intro t
    constructor
    · intro hall p hp
      exact hall p (h.mem_iff.mpr hp)
    · intro hall p hp
      exact hall p (h.mem_iff.mp hp)
  simp only [decodeObject_eq_ok, hobject, hfields]

variable (lib) in
private theorem recordObject_reordered (reader : LmdbReader) {e d : EntityDef}
    (h : e.Reordered d) (hn : (e.properties.map PropertyDef.name).Nodup) (rec : ObjectRecord) :
    Agree (recordObject lib reader e rec) (recordObject lib reader d rec) := by
  unfold recordObject
  rw [h.relations]
  apply Agree.bind
  · apply agree_of_ok_iff
    exact decodeObject_reordered h.properties hn rec.data
  · intro obj
    apply Agree.refl

variable (lib) in
private theorem dumpToJsonRecord_reordered {s t : Schema} (h : s.Reordered t)
    (hn : ∀ e ∈ s.entities, (e.properties.map PropertyDef.name).Nodup) (reader : LmdbReader)
    (result : Json) (rec : ObjectRecord) :
    AgreeWith (dumpToJsonRecord lib s reader result rec)
      (dumpToJsonRecord lib t reader result rec) := by
  rw [dumpToJsonRecord_eq, dumpToJsonRecord_eq]
  rcases h.find rec.entityId with ⟨hs, ht⟩ | ⟨e, d, hs, ht, hed⟩
  · rw [hs, ht]
    exact .inl rfl
  · rw [hs, ht]
    simp only
    rcases recordObject_reordered lib reader hed (hn e (Schema.mem_of_find hs).1) rec with
      ⟨obj, hx, hy⟩ | ⟨⟨err, hx⟩, err', hy⟩
    · rw [hx, hy, hed.name]
      exact .inl rfl
    · rw [hx, hy]
      apply agreeWith_errors

private theorem dumpToJson_reordered {m m' : Bytes} {s t : Schema}
    (hm : Schema.parse lib.json m = .ok s) (hm' : Schema.parse lib.json m' = .ok t)
    (h : s.Reordered t) (hn : ∀ e ∈ s.entities, (e.properties.map PropertyDef.name).Nodup)
    (sys : System) (path : Bytes) :
    Agree (dumpToJson lib sys path m) (dumpToJson lib sys path m') := by
  simp only [dumpToJson, hm, hm', ok_bind]
  apply (Agree.refl (LmdbReader.ofPath sys path)).bind
  intro reader
  have hwalk := reader.forEachObject_agree (dumpToJsonRecord_reordered lib h hn reader) (.obj [])
  rcases hwalk.eq_or_errors with heq | ⟨j, err, j', err', hx, hy⟩
  · rw [heq]
    apply Agree.refl
  · rw [hx, hy]
    exact .inr ⟨⟨err, rfl⟩, err', rfl⟩

/-- Of a model with distinct entity ids, property ids and names, every reordering is accepted; the
same schema text is generated, whatever order the map of entities is walked in, and on every store
the dump has the same text or fails for both. -/
theorem outputs_reordered (lib : Libraries) (m m' : Bytes) (s : Schema)
    (entries entries' : List Json) (hparse : Schema.parse lib.json m = .ok s)
    (hentries : Schema.Entries lib.json m entries)
    (hentries' : Schema.Entries lib.json m' entries')
    (hre : EntriesReordered entries entries') (hids : (entries.map Json.leadingId?).Nodup)
    (hd : ∀ e ∈ s.entities, (e.properties.map PropertyDef.id).Nodup)
    (hn : ∀ e ∈ s.entities, (e.properties.map PropertyDef.name).Nodup) :
    ∃ t, Schema.parse lib.json m' = .ok t ∧
      (∀ l r, s.IsListing l → t.IsListing r → generateFbs lib.json m = .ok (fbsText s l) ∧
        generateFbs lib.json m' = .ok (fbsText t r) ∧ fbsText s l = fbsText t r) ∧
      generateFbs lib.json m = generateFbs lib.json m' ∧
      ∀ sys path, Agree (dumpToJson lib sys path m) (dumpToJson lib sys path m') := by
  obtain ⟨t, ht, hst⟩ := Schema.parse_reordered hparse hentries hentries' hre hids
  have hlisting : ∀ u : Schema, u.IsListing u.all := by
    intro u
    refine ⟨u.all_perm, u.all_sorted.imp ?_⟩
    intro a b hab
    omega
  have htexts : ∀ l r, s.IsListing l → t.IsListing r →
      generateFbs lib.json m = .ok (fbsText s l) ∧
        generateFbs lib.json m' = .ok (fbsText t r) ∧ fbsText s l = fbsText t r :=
    fun l r hl hr ↦ ⟨generateFbs_of_isListing hparse hl, generateFbs_of_isListing ht hr,
      fbsText_reordered hst hd hl hr⟩
  obtain ⟨hs, ht', heq⟩ := htexts s.all t.all (hlisting s) (hlisting t)
  refine ⟨t, ht, htexts, ?_, dumpToJson_reordered hparse ht hst hn⟩
  rw [hs, ht', heq]

end

/-! ### A model and its reordering -/

private def heightEntry : Json :=
  .obj [(lit "id", .str (lit "1:6")), (lit "name", .str (lit "height")), (lit "type", .int 5)]

private def labelEntry : Json :=
  .obj [(lit "id", .str (lit "3:7")), (lit "name", .str (lit "label")), (lit "type", .int 9)]

private def plantEntry (properties : List Json) : Json :=
  .obj [(lit "id", .str (lit "1:5")), (lit "name", .str (lit "Plant")),
    (lit "properties", .arr properties)]

private def potEntry : Json :=
  .obj [(lit "id", .str (lit "2:8")), (lit "name", .str (lit "Pot")), (lit "properties", .arr [])]

private def gardenModel : Bytes :=
  lit "\x7b\"entities\":[\x7b\"id\":\"1:5\",\"name\":\"Plant\",\"properties\":[" ++
    lit "\x7b\"id\":\"1:6\",\"name\":\"height\",\"type\":5\x7d," ++
    lit "\x7b\"id\":\"3:7\",\"name\":\"label\",\"type\":9\x7d]\x7d," ++
    lit "\x7b\"id\":\"2:8\",\"name\":\"Pot\",\"properties\":[]\x7d]\x7d"

/-- The entities and the properties of one of them the other way round. -/
private def turnedModel : Bytes :=
  lit "\x7b\"entities\":[\x7b\"id\":\"2:8\",\"name\":\"Pot\",\"properties\":[]\x7d," ++
    lit "\x7b\"id\":\"1:5\",\"name\":\"Plant\",\"properties\":[" ++
    lit "\x7b\"id\":\"3:7\",\"name\":\"label\",\"type\":9\x7d," ++
    lit "\x7b\"id\":\"1:6\",\"name\":\"height\",\"type\":5\x7d]\x7d]\x7d"

set_option maxRecDepth 4000 in
private theorem gardenModel_entries : Schema.Entries .reference gardenModel
    [plantEntry [heightEntry, labelEntry], potEntry] := ⟨_, rfl, rfl⟩

set_option maxRecDepth 4000 in
private theorem turnedModel_entries : Schema.Entries .reference turnedModel
    [potEntry, plantEntry [labelEntry, heightEntry]] := ⟨_, rfl, rfl⟩

private def plantEntity : EntityDef :=
  ⟨1, lit "Plant", [⟨1, lit "height", .int, false, 0⟩, ⟨3, lit "label", .string, false, 0⟩], []⟩

private theorem gardenModel_entities :
    (Schema.parse .reference gardenModel).map Schema.entities =
      .ok [plantEntity, ⟨2, lit "Pot", [], []⟩] := by
  decide +kernel

private theorem plantEntry_reordered :
    (plantEntry [heightEntry, labelEntry]).Reordered (plantEntry [labelEntry, heightEntry]) where
  others := by
    intro key hkey
    simp [plantEntry, Json.get?, Members.lookup, hkey]
  properties := .inr ⟨_, _, rfl, rfl, .swap _ _ _⟩

/-- The two models have one schema text, and on every store one dump or none. -/
theorem outputs_reordered_sample :
    generateFbs .reference gardenModel = generateFbs .reference turnedModel ∧
      ∀ sys path, Agree (dumpToJson .reference sys path gardenModel)
        (dumpToJson .reference sys path turnedModel) := by
  obtain ⟨s, hparse, hs⟩ := Schema.parse_of_entities gardenModel_entities
  have hpot : potEntry.Reordered potEntry := ⟨fun _ _ ↦ rfl, .inl rfl⟩
  have hre : EntriesReordered [plantEntry [heightEntry, labelEntry], potEntry]
      [potEntry, plantEntry [labelEntry, heightEntry]] :=
    ⟨_, .swap _ _ _, .cons hpot (.cons plantEntry_reordered .nil)⟩
  obtain ⟨t, -, -, hfbs, hdump⟩ := outputs_reordered .reference gardenModel turnedModel s _ _
    hparse gardenModel_entries turnedModel_entries hre (by decide +kernel) (by rw [hs]; decide)
    (by rw [hs]; decide)
  exact ⟨hfbs, hdump⟩

end ObDump
