import ObDump.Dump.Grouped
import ObDump.Reader.Relations

/-!
# The dumps are one computation

Library `Dump`. Both dumps are determined by the sequence of known records: streaming makes
the calls of a prefix of it, and the in-memory dump groups all of it.
-/

namespace ObDump

open Base

/-- What the dumps make of the known records `R` of a store. -/
structure DumpsExact (lib : Libraries) (sys : System) (mdbPath modelJson : Bytes)
    (reader : LmdbReader) (R : List (EntityDef × ObjectRecord)) : Prop where
  /-- Streaming makes the calls of the first records, each once and in order: up to the one
  that asks to stop, or to the record before the first that fails. -/
  streaming : ∀ {σ : Type} (callback : RecordCallback σ) (s : σ) (r : σ × Except Exc Unit),
    dumpStreaming lib sys mdbPath modelJson callback s = r ↔
      RunsTo (callOf lib reader) callback.call R s r
  /-- It raises an error exactly when a failing record is reached before a stop. -/
  raises : ∀ {σ : Type} (callback : RecordCallback σ) (s : σ) (err : Exc),
    (dumpStreaming lib sys mdbPath modelJson callback s).2 = .error err ↔
      ∃ calls, (R.take calls.length).mapM (callOf lib reader) = .ok calls ∧
        KeepsGoing callback.call s calls ∧
        ∃ h : calls.length < R.length, callOf lib reader R[calls.length] = .error err
  /-- The C entry point returns 0 on every run that does not end at a failing record. -/
  entryPoint : ∀ {σ : Type} (callback : ObDumpRecordCallback σ) (s : σ) (path model : Bytes),
    cstr path = mdbPath → cstr model = modelJson →
      ∃ s' lastError rc,
        ob_dump_stream lib sys (some ⟨.path, some path⟩) (some model) (some callback) s =
          (s', lastError, rc) ∧
        (rc = 0 ∧ RunsTo (callOf lib reader) (recordCallback callback).call R s (s', .ok ()) ∨
          ∃ err, rc = -1 ∧ lastError = some (.what err) ∧
            RunsTo (callOf lib reader) (recordCallback callback).call R s (s', .error err))
  /-- When every record decodes and serialises, the in-memory dump is the text of their
  objects, the ones streaming passes on, grouped by name in order. -/
  inMemory : ∀ {calls : List Call}, R.mapM (callOf lib reader) = .ok calls →
    ∃ named text, R.mapM (namedObject lib reader) = .ok named ∧
      List.Forall₂ (fun c e ↦ c.entityName = e.1 ∧ lib.json.dump none e.2 = .ok c.fieldsJson)
        calls named ∧
      lib.json.dump (some 2) (grouped named) = .ok text ∧
      dumpToJson lib sys mdbPath modelJson = .ok text

section

variable {lib : Libraries}

/-- The text is the library's. -/
theorem Nlohmann.dumpText_eq_ok {nl : Nlohmann} {indent : Option Nat} {v : Json} {t : Bytes} :
    nl.dumpText indent v = .ok t ↔ nl.dump indent v = .ok t := by
  unfold dumpText
  cases nl.dump indent v <;> simp [Except.mapError]

/-- A call is made for a record exactly when it has an object and the object a text. -/
theorem callOf_eq_ok {reader : LmdbReader} {k : EntityDef × ObjectRecord} {c : Call} :
    callOf lib reader k = .ok c ↔ ∃ obj, recordObject lib reader k.1 k.2 = .ok obj ∧
      lib.json.dump none obj = .ok c.fieldsJson ∧ c.entityName = k.1.name ∧
        c.objectId = k.2.objectId := by
  simp only [callOf, bind_eq_ok, Nlohmann.dumpText_eq_ok]
  refine exists_congr fun obj ↦ and_congr_right fun _ ↦ ?_
  constructor
  · rintro ⟨text, htext, hc⟩
    cases hc
    exact ⟨htext, rfl, rfl⟩
  · rintro ⟨htext, hn, hid⟩
    refine ⟨_, htext, ?_⟩
    rw [← hn, ← hid]
    rfl

/-- A named object is the record's, under its entity's name. -/
theorem namedObject_eq_ok {reader : LmdbReader} {k : EntityDef × ObjectRecord}
    {e : Bytes × Json} :
    namedObject lib reader k = .ok e ↔
      e.1 = k.1.name ∧ recordObject lib reader k.1 k.2 = .ok e.2 := by
  rw [namedObject, bind_eq_ok]
  constructor
  · rintro ⟨obj, hobj, he⟩
    cases he
    exact ⟨rfl, hobj⟩
  · rintro ⟨hn, hobj⟩
    exact ⟨_, hobj, by rw [← hn]; rfl⟩

private theorem named_of_calls {reader : LmdbReader} {R : List (EntityDef × ObjectRecord)}
    {calls : List Call}
    (h : List.Forall₂ (fun k c ↦ callOf lib reader k = .ok c) R calls) :
    ∃ named, List.Forall₂ (fun k e ↦ namedObject lib reader k = .ok e) R named ∧
      List.Forall₂ (fun c e ↦ c.entityName = e.1 ∧ lib.json.dump none e.2 = .ok c.fieldsJson)
        calls named := by
  induction h with
  | nil => exact ⟨[], .nil, .nil⟩
  | @cons k c _ _ hc _ ih =>
    obtain ⟨named, hn, ht⟩ := ih
    obtain ⟨obj, hobj, htext, hname, -⟩ := callOf_eq_ok.mp hc
    exact ⟨(k.1.name, obj) :: named, .cons (namedObject_eq_ok.mpr ⟨rfl, hobj⟩) hn,
      .cons ⟨hname, htext⟩ ht⟩

/-- When every known record has a call, the in-memory dump is the text of their objects,
grouped. -/
theorem dumpToJson_of_calls (hnl : lib.json.Documented) {sys : System}
    {mdbPath modelJson : Bytes} {schema : Schema} {reader : LmdbReader} {store : Store}
    (hparse : Schema.parse lib.json modelJson = .ok schema)
    (hopen : LmdbReader.ofPath sys mdbPath = .ok reader) (hs : reader.txn.Serves store)
    {calls : List Call}
    (hcalls : (schema.known store.records).mapM (callOf lib reader) = .ok calls) :
    ∃ named text, (schema.known store.records).mapM (namedObject lib reader) = .ok named ∧
      List.Forall₂ (fun c e ↦ c.entityName = e.1 ∧ lib.json.dump none e.2 = .ok c.fieldsJson)
        calls named ∧
      lib.json.dump (some 2) (grouped named) = .ok text ∧
      dumpToJson lib sys mdbPath modelJson = .ok text := by
  obtain ⟨named, hnamed, htexts⟩ := named_of_calls (mapM_eq_ok.mp hcalls)
  have henc : (grouped named).encodable = true := by
    rw [encodable_grouped]
    intro e he
    obtain ⟨k, hk, hke⟩ := mem_of_mapM_eq_ok (mapM_eq_ok.mpr hnamed) he
    constructor
    · rw [(namedObject_eq_ok.mp hke).1]
      exact (Schema.parse_namesValid hnl hparse k.1 (Schema.mem_of_known hk)).name
    · obtain ⟨c, -, -, htext⟩ := exists_of_forall₂ htexts he
      exact (hnl.dump_ok_iff none e.2).mp ⟨_, htext⟩
  obtain ⟨text, htext⟩ := (hnl.dump_ok_iff (some 2) _).mpr henc
  refine ⟨named, text, mapM_eq_ok.mpr hnamed, htexts, htext, ?_⟩
  rw [dumpToJson_eq hparse hopen hs (mapM_eq_ok.mpr hnamed)]
  exact Nlohmann.dumpText_eq_ok.mpr htext

/-- On every store that opens and whose calls succeed, and every accepted model, the dumps
are exactly what the known records determine. -/
theorem dumps_exact (lib : Libraries) (hnl : lib.json.Documented) (sys : System)
    (mdbPath modelJson : Bytes) (schema : Schema) (reader : LmdbReader) (store : Store)
    (hparse : Schema.parse lib.json modelJson = .ok schema)
    (hopen : LmdbReader.ofPath sys mdbPath = .ok reader) (hs : reader.txn.Serves store) :
    DumpsExact lib sys mdbPath modelJson reader (schema.known store.records) where
  streaming callback s r := by
    rw [dumpStreaming_eq hparse hopen hs]
    exact drive_eq_iff
  raises callback s err := by
    rw [dumpStreaming_eq hparse hopen hs]
    exact drive_error_iff
  entryPoint callback s path model hpath hmodel := by
    have hrun := drive_eq_iff.mp
      (dumpStreaming_eq hparse hopen hs (recordCallback callback) s).symm
    subst hpath hmodel
    unfold ob_dump_stream
    cases hr : dumpStreaming lib sys (cstr path) (cstr model) (recordCallback callback) s with
    | mk s' out =>
      rw [hr] at hrun
      cases out with
      | ok u => exact ⟨s', none, 0, by simp [hr], .inl ⟨rfl, hrun⟩⟩
      | error err => exact ⟨s', some (.what err), -1, by simp [hr], .inr ⟨err, rfl, rfl, hrun⟩⟩
  inMemory hcalls := dumpToJson_of_calls hnl hparse hopen hs hcalls

end

/-! ### A store of notes -/

/-- A model of one entity with a text and a relation to itself. -/
def noteModel : Bytes :=
  lit "\x7b\"entities\":[\x7b\"id\":\"1:5\",\"name\":\"Note\",\"properties\":[" ++
    lit "\x7b\"id\":\"1:6\",\"name\":\"text\",\"type\":9\x7d]," ++
    lit "\"relations\":[\x7b\"id\":\"1:7\",\"name\":\"links\",\"targetId\":\"1:5\"\x7d]\x7d]\x7d"

/-- Its entity. -/
def noteEntity : EntityDef :=
  ⟨1, lit "Note", [⟨1, lit "text", .string, false, 0⟩], [⟨1, lit "links", 1⟩]⟩

/-- A note as a FlatBuffers table. -/
def noteRecord (text : Bytes) : Bytes :=
  [12, 0, 0, 0, 6, 0, 8, 0, 4, 0, 0, 0, 8, 0, 0, 0, 4, 0, 0, 0] ++ toLE 4 text.length ++ text ++ [0]

/-- Two notes, one linked to the other, and a record of an entity the model lacks. -/
def noteStore : Store where
  entries :=
    [(linkKey 1 0 7 9, []), (dataKey 1 7, noteRecord (lit "Hi")),
      (dataKey 1 9, noteRecord (lit "Bye")), (dataKey 2 1, [])]
  sorted := by decide

/-- The entity of the sample model. -/
theorem noteModel_entities :
    (Schema.parse .reference noteModel).map Schema.entities = .ok [noteEntity] := by
  decide +kernel

/-- The dumps of the notes. -/
theorem dumps_exact_sample : ∃ schema, Schema.parse .reference noteModel = .ok schema ∧
    DumpsExact .reference noteStore.system (lit "data.mdb") noteModel noteStore.reader
      (schema.known noteStore.records) := by
  obtain ⟨schema, hparse, -⟩ := Schema.parse_of_entities noteModel_entities
  exact ⟨schema, hparse, dumps_exact .reference Nlohmann.reference_documented noteStore.system
    (lit "data.mdb") noteModel schema noteStore.reader noteStore hparse rfl noteStore.txn_serves⟩

end ObDump
