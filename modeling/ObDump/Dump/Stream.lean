import ObDump.Base.Drive
import ObDump.Dump.Dumper
import ObDump.Reader.Records

/-!
# Streaming is prefix-exact

Library `Dump`. On a store whose calls succeed, `dumpStreaming` is the run of one producer,
the call a known record makes, into one consumer, the callback.
-/

namespace ObDump

open Base

/-! ### The records of known entities -/

/-- The records of entities the model knows, each with its entity. -/
def Schema.known (schema : Schema) (recs : List ObjectRecord) : List (EntityDef × ObjectRecord) :=
  recs.filterMap fun rec ↦ (schema.find rec.entityId).map (·, rec)

/-- A record of an unknown entity is skipped. -/
theorem Schema.known_cons_of_none {schema : Schema} {rec : ObjectRecord}
    (h : schema.find rec.entityId = none) (recs : List ObjectRecord) :
    schema.known (rec :: recs) = schema.known recs := by
  simp [known, h]

/-- A record of a known entity is kept. -/
theorem Schema.known_cons_of_some {schema : Schema} {rec : ObjectRecord} {entity : EntityDef}
    (h : schema.find rec.entityId = some entity) (recs : List ObjectRecord) :
    schema.known (rec :: recs) = (entity, rec) :: schema.known recs := by
  simp [known, h]

/-- A known record is one of the records, and its entity the one declared under its id. -/
theorem Schema.mem_known_iff {schema : Schema} {recs : List ObjectRecord}
    {k : EntityDef × ObjectRecord} :
    k ∈ schema.known recs ↔ k.2 ∈ recs ∧ schema.find k.2.entityId = some k.1 := by
  rw [known, List.mem_filterMap]
  constructor
  · rintro ⟨rec, hrec, hk⟩
    obtain ⟨entity, hf, rfl⟩ := Option.map_eq_some_iff.mp hk
    exact ⟨hrec, hf⟩
  · rintro ⟨hrec, hf⟩
    exact ⟨k.2, hrec, by rw [hf]; rfl⟩

/-- A known record's entity is declared. -/
theorem Schema.mem_of_known {schema : Schema} {recs : List ObjectRecord}
    {k : EntityDef × ObjectRecord} (h : k ∈ schema.known recs) : k.1 ∈ schema.entities :=
  (Schema.mem_of_find (Schema.mem_known_iff.mp h).2).1

/-! ### The calls -/

/-- The arguments of one call of the record callback. -/
structure Call where
  entityName : Bytes
  objectId : UInt32
  fieldsJson : Bytes
  deriving DecidableEq, Repr

/-- One call of a callback. -/
def RecordCallback.call {σ : Type} (callback : RecordCallback σ) (s : σ) (c : Call) : σ × Bool :=
  callback s c.entityName c.objectId c.fieldsJson

/-- The call for a record: the text of its object, under its entity's name and its id. -/
def callOf (lib : Libraries) (reader : LmdbReader) (k : EntityDef × ObjectRecord) :
    Except Exc Call := do
  let obj ← recordObject lib reader k.1 k.2
  let fieldsJson ← lib.json.dumpText none obj
  pure ⟨k.1.name, k.2.objectId, fieldsJson⟩

section

variable {σ : Type} {lib : Libraries} {schema : Schema} {reader : LmdbReader}

private theorem dumpStreamingRecord_of_some {rec : ObjectRecord} {entity : EntityDef}
    (h : schema.find rec.entityId = some entity) (callback : RecordCallback σ) (s : σ) :
    dumpStreamingRecord lib schema reader callback s rec =
      match callOf lib reader (entity, rec) with
      | .error err => (s, .error err)
      | .ok c => ((callback.call s c).1, .ok (callback.call s c).2) := by
  rw [dumpStreamingRecord_eq, h]
  simp only [callOf]
  cases recordObject lib reader entity rec with
  | error err => rfl
  | ok obj =>
    simp only [ok_bind]
    cases lib.json.dumpText none obj with
    | error err => rfl
    | ok text => rfl

/-- Delivering records to the streaming callback drives the calls of the known ones into it. -/
theorem deliver_streaming (callback : RecordCallback σ) (recs : List ObjectRecord) (s : σ) :
    deliver (dumpStreamingRecord lib schema reader callback) recs s =
      drive (callOf lib reader) callback.call (schema.known recs) s := by
  induction recs generalizing s with
  | nil => rfl
  | cons rec recs ih =>
    cases hf : schema.find rec.entityId with
    | none =>
      rw [Schema.known_cons_of_none hf, ← ih, deliver, dumpStreamingRecord, hf]
    | some entity =>
      rw [Schema.known_cons_of_some hf, deliver, drive, dumpStreamingRecord_of_some hf]
      cases callOf lib reader (entity, rec) with
      | error err => rfl
      | ok c =>
        simp only
        cases (callback.call s c).2 with
        | false => rfl
        | true => exact ih (callback.call s c).1

/-- A streaming dump whose model and store open drives the calls of the known records. -/
theorem dumpStreaming_eq {sys : System} {mdbPath modelJson : Bytes} {store : Store}
    (hparse : Schema.parse lib.json modelJson = .ok schema)
    (hopen : LmdbReader.ofPath sys mdbPath = .ok reader) (hs : reader.txn.Serves store)
    (callback : RecordCallback σ) (s : σ) :
    dumpStreaming lib sys mdbPath modelJson callback s =
      drive (callOf lib reader) callback.call (schema.known store.records) s := by
  simp only [dumpStreaming, hparse, hopen]
  rw [LmdbReader.forEachObject_eq hs, deliver_streaming]

/-- What every call preserves, a streaming dump preserves, on any store and wherever it fails. -/
theorem dumpStreaming_preserves {P : σ → Prop} {sys : System} {mdbPath modelJson : Bytes}
    {callback : RecordCallback σ}
    (hcb : ∀ schema, Schema.parse lib.json modelJson = .ok schema → ∀ reader s k c,
      k.1 ∈ schema.entities → callOf lib reader k = .ok c → P s → P (callback.call s c).1)
    {s : σ} (hs : P s) : P (dumpStreaming lib sys mdbPath modelJson callback s).1 := by
  unfold dumpStreaming
  split
  · exact hs
  · next schema hschema =>
    split
    · exact hs
    · next reader _ =>
      apply LmdbReader.forEachObject_preserves reader _ hs
      intro s rec hP
      cases hf : schema.find rec.entityId with
      | none =>
        rw [dumpStreamingRecord, hf]
        exact hP
      | some entity =>
        rw [dumpStreamingRecord_of_some hf]
        cases hc : callOf lib reader (entity, rec) with
        | error err => exact hP
        | ok c => exact hcb schema hschema reader s _ c (Schema.mem_of_find hf).1 hc hP

end

/-! ### Callbacks in step -/

section

variable {σ τ : Type} (f : σ → τ)

/-- A streaming dump under a map of the callback's states. -/
theorem dumpStreaming_hom (lib : Libraries) (sys : System) (cb : RecordCallback σ)
    (cb' : RecordCallback τ)
    (h : ∀ s name id fields, cb' (f s) name id fields =
      (f (cb s name id fields).1, (cb s name id fields).2)) (path model : Bytes) (s : σ) :
    dumpStreaming lib sys path model cb' (f s) =
      (f (dumpStreaming lib sys path model cb s).1, (dumpStreaming lib sys path model cb s).2) := by
  unfold dumpStreaming
  cases Schema.parse lib.json model with
  | error err => rfl
  | ok schema =>
    cases LmdbReader.ofPath sys path with
    | error err => rfl
    | ok reader =>
      apply LmdbReader.forEachObject_hom f reader
      intro s rec
      rw [dumpStreamingRecord_eq, dumpStreamingRecord_eq]
      cases schema.find rec.entityId with
      | none => rfl
      | some entity =>
        simp only
        cases recordObject lib reader entity rec >>= lib.json.dumpText none with
        | error err => rfl
        | ok text => simp only [h]

/-- The entry point under a map of the callback's states: the same error and the same code. -/
theorem ob_dump_stream_hom (lib : Libraries) (sys : System)
    {cb : ObDumpRecordCallback σ} {cb' : ObDumpRecordCallback τ}
    (h : ∀ s name id fields, cb' (f s) name id fields =
      (f (cb s name id fields).1, (cb s name id fields).2))
    (path model : Bytes) (s : σ) :
    ob_dump_stream lib sys (some ⟨.path, some path⟩) (some model) (some cb') (f s) =
      (f (ob_dump_stream lib sys (some ⟨.path, some path⟩) (some model) (some cb) s).1,
        (ob_dump_stream lib sys (some ⟨.path, some path⟩) (some model) (some cb) s).2) := by
  have hstream := dumpStreaming_hom f lib sys (recordCallback cb) (recordCallback cb') (by
    intro s name id fields
    simp only [recordCallback, h]) (cstr path) (cstr model) s
  unfold ob_dump_stream
  simp only [hstream]
  cases dumpStreaming lib sys (cstr path) (cstr model) (recordCallback cb) s with
  | mk s' r => cases r <;> rfl

end

end ObDump
