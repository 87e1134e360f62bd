import ObDump.Dump.Complete

/-!
# Which strings a dump accepts

Library `Dump`. Decoding takes the bytes of a string as they are; a dump serialises them, and
the JSON library rejects ill-formed UTF-8. Only strings a record's object keeps count: a later
property or a relation of the same name replaces them.
-/

namespace ObDump

open Base FlatBuffers

/-! ### The strings of a record -/

/-- The value a record stores for a property, if it has an entry for it. -/
def storedValue (t : Table) (p : PropertyDef) : Option Stored := do
  let c ← p.codec
  let off ← fieldOffset t.buf t.pos (slotFor p.id)
  if off = 0 then none else readStored t.buf (t.pos + off) c.shape

/-- The strings in it. -/
def storedStrings (t : Table) (p : PropertyDef) : List Bytes :=
  match storedValue t p with
  | some (.string s) => [s]
  | some (.strings ss) => ss
  | _ => []

/-- The record's object keeps what is stored for the property: it is not called `id`, and
neither a later property that is stored nor a relation has its name. -/
def Kept (entity : EntityDef) (t : Table) (p : PropertyDef) : Prop :=
  p.name ≠ lit "id" ∧ p.name ∉ entity.relations.map RelationDef.name ∧
    ∃ pre post, entity.properties = pre ++ p :: post ∧
      ∀ q ∈ post, q.name = p.name → storedValue t q = none

/-- Every string the record's object keeps is well-formed UTF-8. -/
def StringsValid (entity : EntityDef) (data : Bytes) : Prop :=
  ∀ pos, getRoot data = some pos → ∀ p, Kept entity ⟨data, pos⟩ p →
    ∀ s ∈ storedStrings ⟨data, pos⟩ p, Utf8.valid s = true

/-- The property has no external type and is not Flex. -/
def PropertyDef.Plain (p : PropertyDef) : Prop :=
  p.externalType = ExternalPropertyType.unknown ∧ p.type ≠ .flex

section

variable {lib : Libraries} {t : Table} {p : PropertyDef}

private theorem fieldJson_eq (c : Codec) (hc : p.codec = some c) :
    fieldJson lib t p = (storedValue t p).bind fun v ↦ (c.toJson lib p.name v).toOption := by
  simp only [fieldJson, storedValue, hc, Option.bind_eq_bind, Option.bind_some]
  cases fieldOffset t.buf t.pos (slotFor p.id) with
  | none => rfl
  | some off =>
    simp only [Option.bind_some]
    split
    · rfl
    · rfl

private theorem readStored_shape {buf : Bytes} {field : Nat} {s : Shape} {v : Stored}
    (h : readStored buf field s = some v) : v.shape = s := by
  cases s with
  | scalar size =>
    obtain ⟨_, -, rfl⟩ := Option.map_eq_some_iff.mp h
    rfl
  | string | vector | strings =>
    obtain ⟨pos, -, h⟩ := Option.bind_eq_some_iff.mp h
    obtain ⟨_, -, rfl⟩ := Option.map_eq_some_iff.mp h
    rfl

private theorem codec_of_plain {c : Codec} (hp : p.Plain) (hc : p.codec = some c) :
    c ≠ .stringAsJson ∧ (∀ b, c ≠ .blobString b) ∧ c ≠ .flex := by
  obtain ⟨hx, hf⟩ := hp
  unfold PropertyDef.codec at hc
  rw [hx] at hc
  cases ht : p.type with
  | flex => exact absurd ht hf
  | string =>
    simp only [ht] at hc
    rw [if_neg (by decide)] at hc
    cases hc
    exact ⟨by simp, by simp, by simp⟩
  | byteVector =>
    simp only [ht] at hc
    rw [if_neg (by decide), if_neg (by decide)] at hc
    cases hc
    exact ⟨by simp, by simp, by simp⟩
  | unknown =>
    rw [ht] at hc
    cases hc
  | _ =>
    simp only [ht, Option.some.injEq] at hc
    subst hc
    exact ⟨by simp, by simp, by simp⟩

private theorem encodable_scalar (T : Scalar) (bits : Nat) : (T.toJson bits).encodable = true := by
  cases T <;> rfl

private theorem encodable_toJson {c : Codec} (hp : p.Plain) (hc : p.codec = some c) {v : Stored}
    (hv : v.shape = c.shape) {j : Json} (hj : c.toJson lib p.name v = .ok j) :
    j.encodable = true ↔ ∀ s ∈ (match some v with
      | some (.string s) => [s]
      | some (.strings ss) => ss
      | _ => []), Utf8.valid s = true := by
  obtain ⟨hjson, hblob, hflex⟩ := codec_of_plain hp hc
  cases c with
  | stringAsJson => exact absurd rfl hjson
  | blobString b => exact absurd rfl (hblob b)
  | flex => exact absurd rfl hflex
  | bool | scalar =>
    cases v with
    | scalar => cases hj; simp [Json.encodable, encodable_scalar]
    | _ => cases hv
  | string =>
    cases v with
    | string s => cases hj; simp [Json.encodable]
    | _ => cases hv
  | boolVector | numericVector =>
    cases v with
    | vector =>
      cases hj
      rw [Json.encodable_map]
      simp [Json.encodable, encodable_scalar]
    | _ => cases hv
  | stringVector =>
    cases v with
    | strings ss =>
      cases hj
      rw [Json.encodable_map]
      rfl
    | _ => cases hv

private theorem encodable_setting {k : Bytes} {j : Json} (hp : p.Plain)
    (h : setting lib t p = some (k, j)) :
    p.name = k ∧ (j.encodable = true ↔ ∀ s ∈ storedStrings t p, Utf8.valid s = true) := by
  have hname := setting_name h
  unfold setting at h
  split at h
  · cases h
  · obtain ⟨j', hj, he⟩ := Option.map_eq_some_iff.mp h
    cases he
    cases hc : p.codec with
    | none =>
      rw [fieldJson_of_unknown hc] at hj
      cases hj
    | some c =>
      rw [fieldJson_eq c hc] at hj
      obtain ⟨v, hv, hto⟩ := Option.bind_eq_some_iff.mp hj
      have hto' : c.toJson lib p.name v = .ok j := by
        cases ht : c.toJson lib p.name v with
        | error e => rw [ht] at hto; cases hto
        | ok i => rw [ht] at hto; cases hto; rfl
      have hshape : v.shape = c.shape := by
        simp only [storedValue, hc, Option.bind_eq_bind, Option.bind_some] at hv
        obtain ⟨off, -, hv⟩ := Option.bind_eq_some_iff.mp hv
        split at hv
        · cases hv
        · exact readStored_shape hv
      refine ⟨rfl, ?_⟩
      rw [encodable_toJson hp hc hshape hto', storedStrings, hv]

private theorem setting_eq_none_iff (hid : p.name ≠ lit "id") (hok : FieldOk lib t p) :
    setting lib t p = none ↔ storedValue t p = none := by
  rw [setting, if_neg hid, Option.map_eq_none_iff]
  cases hc : p.codec with
  | none => simp [fieldJson_of_unknown hc, storedValue, hc]
  | some c =>
    rw [fieldJson_eq c hc]
    obtain ⟨off, hoff, rfl | ⟨h0, -, v, j, hv, hj⟩⟩ := hok c hc
    · simp [storedValue, hc, hoff]
    · have hval : storedValue t p = some v := by simp [storedValue, hc, hoff, h0, hv]
      rw [hval, Option.bind_some, hj]
      simp [Except.toOption]

private theorem last_of_lookup {ps : List PropertyDef} {k : Bytes} {v : Json}
    (h : Members.lookup (Members.insertAll [] (ps.filterMap (setting lib t))) k = some v) :
    ∃ pre p post, ps = pre ++ p :: post ∧ setting lib t p = some (k, v) ∧
      ∀ q ∈ post, q.name = k → setting lib t q = none := by
  induction ps using List.reverseRecOn with
  | nil => cases h
  | append_singleton ps q ih =>
    rw [List.filterMap_append, Members.insertAll_append, List.filterMap_cons] at h
    cases hq : setting lib t q with
    | none =>
      rw [hq] at h
      obtain ⟨pre, p, post, rfl, hp, hpost⟩ := ih h
      refine ⟨pre, p, post ++ [q], by simp, hp, ?_⟩
      intro x hx hxk
      rcases List.mem_append.mp hx with hx | hx
      · exact hpost x hx hxk
      · rw [List.mem_singleton.mp hx]
        exact hq
    | some e =>
      rw [hq] at h
      have hl : Members.lookup (Members.insert (Members.insertAll []
        (ps.filterMap (setting lib t))) e.1 e.2) k = some v := h
      rw [Members.lookup_insert] at hl
      split at hl
      · next hk =>
        cases hl
        exact ⟨ps, q, [], rfl, by rw [hk]; exact hq, by simp⟩
      · next hk =>
        obtain ⟨pre, p, post, rfl, hp, hpost⟩ := ih hl
        refine ⟨pre, p, post ++ [q], by simp, hp, ?_⟩
        intro x hx hxk
        rcases List.mem_append.mp hx with hx | hx
        · exact hpost x hx hxk
        · rw [List.mem_singleton.mp hx, ← setting_name hq] at hxk
          exact absurd hxk.symm hk

end

/-! ### The records that have a text -/

section

variable {lib : Libraries} {reader : LmdbReader}

private theorem encodable_relation {objectId : UInt32} {relations : List RelationDef}
    {es : List (Bytes × Json)} (h : relationSettings reader objectId relations = .ok es)
    (hv : ∀ r ∈ relations, Utf8.valid r.name = true) :
    ∀ e ∈ es, Utf8.valid e.1 = true ∧ e.2.encodable = true := by
  intro e he
  obtain ⟨rel, hrel, h⟩ := mem_of_mapM_eq_ok h he
  obtain ⟨targets, -, h⟩ := bind_eq_ok.mp h
  cases h
  refine ⟨hv rel hrel, ?_⟩
  rw [targetsJson, Json.encodable_map]
  exact fun _ _ ↦ rfl

/-- A record's object has a text exactly when every string it keeps is valid. -/
theorem encodable_recordObject {entity : EntityDef} {rec : ObjectRecord} {obj : Json}
    (hn : entity.NamesValid) (hp : ∀ p ∈ entity.properties, p.Plain)
    (hok : recordObject lib reader entity rec = .ok obj) :
    obj.encodable = true ↔ StringsValid entity rec.data := by
  obtain ⟨-, pos, hpos, -, hfields, es, hes, rfl⟩ := recordObject_eq_ok.mp hok
  have hrel := map_fst_relationSettings hes
  rw [Json.object, Json.encodable_obj_iff_lookup (Members.ordered_insertAll _ Members.ordered_nil)]
  constructor
  · rintro h pos' hpos' p ⟨hid, hnr, pre, post, hsplit, hpost⟩ s hs
    have hpp : pos' = pos := Option.some.inj (hpos'.symm.trans hpos)
    subst hpp
    have hmem : p ∈ entity.properties := by simp [hsplit]
    cases hset : setting lib ⟨rec.data, pos'⟩ p with
    | none =>
      rw [setting_eq_none_iff hid (hfields p hmem hid)] at hset
      rw [storedStrings, hset] at hs
      cases hs
    | some e =>
      obtain ⟨k, j⟩ := e
      obtain ⟨rfl, henc⟩ := encodable_setting (hp p hmem) hset
      have hlast : ∀ q ∈ post, q.name = p.name → setting lib ⟨rec.data, pos'⟩ q = none := by
        intro q hq hqp
        have hqm : q ∈ entity.properties := by simp [hsplit, hq]
        exact (setting_eq_none_iff (hqp ▸ hid) (hfields q hqm (hqp ▸ hid))).mpr (hpost q hq hqp)
      have hget : (Json.object ((pre ++ p :: post).filterMap (setting lib ⟨rec.data, pos'⟩) ++
          (lit "id", .int rec.objectId.toNat) :: es)).get? p.name = some j :=
        get?_of_last hset hlast (hrel ▸ hnr)
      rw [← hsplit] at hget
      exact henc.mp (h _ _ hget).2 s hs
  · intro h k v hl
    rw [Members.insertAll_append] at hl
    rcases Members.mem_or_lookup_of_insertAll hl with hm | ⟨hk, hl⟩
    · rcases List.mem_cons.mp hm with he | hm
      · cases he
        exact ⟨by decide, rfl⟩
      · exact encodable_relation hes hn.relations _ hm
    · obtain ⟨pre, p, post, hsplit, hset, hpost⟩ := last_of_lookup hl
      have hmem : p ∈ entity.properties := by simp [hsplit]
      obtain ⟨rfl, henc⟩ := encodable_setting (hp p hmem) hset
      rw [List.map_cons, List.mem_cons, not_or, hrel] at hk
      refine ⟨hn.properties p hmem, henc.mpr (h pos hpos p ⟨hk.1, hk.2, pre, post, hsplit, ?_⟩)⟩
      intro q hq hqp
      have hqm : q ∈ entity.properties := by simp [hsplit, hq]
      exact (setting_eq_none_iff (hqp ▸ hk.1) (hfields q hqm (hqp ▸ hk.1))).mp (hpost q hq hqp)

/-- On a store whose calls succeed, a record that decodes has an object. -/
theorem exists_recordObject {store : Store} (hs : reader.txn.Serves store) {entity : EntityDef}
    {rec : ObjectRecord} (h : ∃ obj, decodeObject lib rec.data entity = .ok obj) :
    ∃ obj, recordObject lib reader entity rec = .ok obj := by
  obtain ⟨_, hobj⟩ := h
  obtain ⟨hroot, pos, hpos, hstart, hok, -⟩ := decodeObject_eq_ok.mp hobj
  obtain ⟨es, hes⟩ : ∃ es, relationSettings reader rec.objectId entity.relations = .ok es := by
    apply exists_mapM_eq_ok
    intro rel _
    obtain ⟨targets, ht⟩ := LmdbReader.toManyTargets_ok hs rel.id rec.objectId
    exact ⟨_, bind_eq_ok.mpr ⟨targets, ht, rfl⟩⟩
  exact ⟨_, recordObject_eq_ok.mpr ⟨hroot, pos, hpos, hstart, hok, es, hes, rfl⟩⟩

private theorem dumpStreaming_ok {sys : System} {mdbPath modelJson : Bytes} {schema : Schema}
    {store : Store} (hparse : Schema.parse lib.json modelJson = .ok schema)
    (hopen : LmdbReader.ofPath sys mdbPath = .ok reader) (hs : reader.txn.Serves store)
    (hcall : ∀ k ∈ schema.known store.records, ∃ c, callOf lib reader k = .ok c) {σ : Type}
    (callback : RecordCallback σ) (s : σ) :
    (dumpStreaming lib sys mdbPath modelJson callback s).2 = .ok () := by
  rw [dumpStreaming_eq hparse hopen hs]
  cases hr : (drive (callOf lib reader) callback.call (schema.known store.records) s).2 with
  | ok u => rfl
  | error err =>
    obtain ⟨calls, -, -, hlt, herr⟩ := drive_error_iff.mp hr
    obtain ⟨c, hc⟩ := hcall _ (List.getElem_mem hlt)
    rw [herr] at hc
    cases hc

end

private theorem encodable_named_iff {lib : Libraries} (hnl : lib.json.Documented)
    {modelJson : Bytes} {schema : Schema} (hparse : Schema.parse lib.json modelJson = .ok schema)
    {reader : LmdbReader} {recs : List ObjectRecord}
    (hobj : ∀ k ∈ schema.known recs, ∃ obj, recordObject lib reader k.1 k.2 = .ok obj ∧
      (obj.encodable = true ↔ StringsValid k.1 k.2.data))
    {named : List (Bytes × Json)}
    (hnamed : (schema.known recs).mapM (namedObject lib reader) = .ok named) :
    (grouped named).encodable = true ↔ ∀ k ∈ schema.known recs, StringsValid k.1 k.2.data := by
  rw [encodable_grouped]
  constructor
  · intro henc k hk
    obtain ⟨obj, h, hvalid⟩ := hobj k hk
    obtain ⟨e, he, hke⟩ := exists_of_forall₂ (mapM_eq_ok.mp hnamed).flip hk
    rw [(namedObject_eq_ok.mp hke).2] at h
    cases h
    exact hvalid.mp (henc e he).2
  · intro hvalid e he
    obtain ⟨k, hk, hke⟩ := mem_of_mapM_eq_ok hnamed he
    obtain ⟨hname, hrec⟩ := namedObject_eq_ok.mp hke
    obtain ⟨obj, h, hiff⟩ := hobj k hk
    rw [hrec] at h
    cases h
    refine ⟨?_, hiff.mpr (hvalid k hk)⟩
    rw [hname]
    exact (Schema.parse_namesValid hnl hparse k.1 (Schema.mem_of_known hk)).name

/-- Where every record of a known entity passes verification, both dumps complete, whatever
the callback, exactly when every string that the records' objects keep is valid. -/
theorem dumps_succeed_iff (lib : Libraries) (hnl : lib.json.Documented) (sys : System)
    (mdbPath modelJson : Bytes) (schema : Schema) (reader : LmdbReader) (store : Store)
    (hparse : Schema.parse lib.json modelJson = .ok schema)
    (hopen : LmdbReader.ofPath sys mdbPath = .ok reader) (hs : reader.txn.Serves store)
    (hplain : ∀ e ∈ schema.entities, ∀ p ∈ e.properties, p.Plain)
    (hdecode : ∀ k ∈ schema.known store.records,
      ∃ obj, decodeObject lib k.2.data k.1 = .ok obj) :
    ((∃ text, dumpToJson lib sys mdbPath modelJson = .ok text) ∧
      ∀ {σ : Type} (callback : RecordCallback σ) (s : σ),
        (dumpStreaming lib sys mdbPath modelJson callback s).2 = .ok ()) ↔
    ∀ k ∈ schema.known store.records, StringsValid k.1 k.2.data := by
  have hobj : ∀ k ∈ schema.known store.records,
      ∃ obj, recordObject lib reader k.1 k.2 = .ok obj ∧
        (obj.encodable = true ↔ StringsValid k.1 k.2.data) := by
    intro k hk
    obtain ⟨obj, hobj⟩ := exists_recordObject hs (hdecode k hk)
    exact ⟨obj, hobj, encodable_recordObject
      (Schema.parse_namesValid hnl hparse k.1 (Schema.mem_of_known hk))
      (hplain k.1 (Schema.mem_of_known hk)) hobj⟩
  obtain ⟨named, hnamed⟩ : ∃ named,
      (schema.known store.records).mapM (namedObject lib reader) = .ok named := by
    apply exists_mapM_eq_ok
    intro k hk
    obtain ⟨obj, h, -⟩ := hobj k hk
    exact ⟨(k.1.name, obj), namedObject_eq_ok.mpr ⟨rfl, h⟩⟩
  have henc := encodable_named_iff hnl hparse hobj hnamed
  rw [dumpToJson_eq hparse hopen hs hnamed]
  constructor
  · rintro ⟨⟨text, htext⟩, -⟩
    apply henc.mp
    exact (hnl.dump_ok_iff (some 2) _).mp ⟨text, Nlohmann.dumpText_eq_ok.mp htext⟩
  · intro hvalid
    constructor
    · obtain ⟨text, htext⟩ := (hnl.dump_ok_iff (some 2) _).mpr (henc.mpr hvalid)
      exact ⟨text, Nlohmann.dumpText_eq_ok.mpr htext⟩
    · intro σ callback s
      apply dumpStreaming_ok hparse hopen hs
      intro k hk
      obtain ⟨obj, h, hiff⟩ := hobj k hk
      obtain ⟨text, htext⟩ := (hnl.dump_ok_iff none obj).mpr (hiff.mpr (hvalid k hk))
      exact ⟨⟨_, _, text⟩, callOf_eq_ok.mpr ⟨obj, h, htext, rfl, rfl⟩⟩

private theorem noteEntity_plain : ∀ e ∈ [noteEntity], ∀ p ∈ e.properties, p.Plain := by
  intro e he p hp
  rw [List.mem_singleton.mp he] at hp
  rw [List.mem_singleton.mp hp]
  exact ⟨rfl, by decide⟩

/-- The dumps of the notes. -/
theorem dumps_succeed_iff_sample : ∃ schema, Schema.parse .reference noteModel = .ok schema ∧
    (((∃ text, dumpToJson .reference noteStore.system (lit "data.mdb") noteModel = .ok text) ∧
      ∀ {σ : Type} (callback : RecordCallback σ) (s : σ),
        (dumpStreaming .reference noteStore.system (lit "data.mdb") noteModel callback s).2 =
          .ok ()) ↔
    ∀ k ∈ schema.known noteStore.records, StringsValid k.1 k.2.data) := by
  obtain ⟨⟨_, hd⟩, hparse, rfl⟩ := Schema.parse_of_entities noteModel_entities
  refine ⟨_, hparse, dumps_succeed_iff .reference Nlohmann.reference_documented
    noteStore.system (lit "data.mdb") noteModel _ noteStore.reader noteStore hparse rfl
    noteStore.txn_serves noteEntity_plain ?_⟩
  have hknown : Schema.known ⟨[noteEntity], hd⟩ noteStore.records =
      [(noteEntity, ⟨1, 7, noteRecord (lit "Hi")⟩), (noteEntity, ⟨1, 9, noteRecord (lit "Bye")⟩)] :=
    rfl
  rw [hknown]
  intro k hk
  rcases List.mem_cons.mp hk with rfl | hk
  · exact ⟨_, rfl⟩
  · rw [List.mem_singleton.mp hk]
    exact ⟨_, rfl⟩

/-- A note whose text is no UTF-8. -/
private def badStore : Store := ⟨[(dataKey 1 7, noteRecord [0xFF])], by decide⟩

/-- Its record passes verification, and neither dump completes. -/
theorem dumps_reject_string : ∃ schema, Schema.parse .reference noteModel = .ok schema ∧
    (∀ e ∈ schema.entities, ∀ p ∈ e.properties, p.Plain) ∧
    (∀ k ∈ schema.known badStore.records, ∃ obj, decodeObject .reference k.2.data k.1 = .ok obj) ∧
    dumpToJson .reference badStore.system (lit "data.mdb") noteModel =
      .error (.json .typeError) ∧
    (dumpStreaming .reference badStore.system (lit "data.mdb") noteModel
      (fun s _ _ _ ↦ (s, true)) ()).2 = .error (.json .typeError) := by
  obtain ⟨⟨_, hd⟩, hparse, rfl⟩ := Schema.parse_of_entities noteModel_entities
  refine ⟨_, hparse, noteEntity_plain, ?_, by decide +kernel, by decide +kernel⟩
  have hknown : Schema.known ⟨[noteEntity], hd⟩ badStore.records =
      [(noteEntity, ⟨1, 7, noteRecord [0xFF]⟩)] := rfl
  rw [hknown]
  intro k hk
  rw [List.mem_singleton.mp hk]
  exact ⟨_, rfl⟩

end ObDump
