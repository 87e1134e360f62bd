import ObDump.Decode.Settings
import ObDump.Reader.Walks
import ObDump.Schema.Parse

/-!
# The two dumps

Library `Dump`. `src/dumper.cpp:11–60` and the entry point `ob_dump_stream` of
`src/ob_dump.cpp:73–104`. Each dump assembles a record's object in a callback of its own; the
object both build is `recordObject`.
-/

namespace ObDump

open Base

/-- `push_back` on an array. -/
def Json.push : Json → Json → Json
  | .arr xs, v => .arr (xs ++ [v])
  | j, _ => j

/-- `dump`, with the exception it throws. -/
def Nlohmann.dumpText (nl : Nlohmann) (indent : Option Nat) (v : Json) : Except Exc Bytes :=
  (nl.dump indent v).mapError Exc.json

/-- The JSON array of a list of object ids. -/
def targetsJson (targets : List UInt32) : Json :=
  .arr (targets.map fun t : UInt32 ↦ .int t.toNat)

/-- The loop over the relations; `src/dumper.cpp:27–29` and `:53–55`. -/
def setRelations (reader : LmdbReader) (objectId : UInt32) (relations : List RelationDef)
    (obj : Json) : Except Exc Json :=
  relations.foldlM (fun obj rel ↦ do
    let targets ← reader.toManyTargets rel.id objectId
    pure (obj.set rel.name (targetsJson targets))) obj

/-! ### In memory -/

/-- `result[name]` made an array if it is none, with `obj` pushed; `src/dumper.cpp:31–33`. -/
def appendTo (result : Json) (name : Bytes) (obj : Json) : Json :=
  let arr := (result.get? name).getD .null
  let arr := if !arr.isArray then .arr [] else arr
  result.set name (arr.push obj)

/-- The callback of `src/dumper.cpp:17–35`. -/
def dumpToJsonRecord (lib : Libraries) (schema : Schema) (reader : LmdbReader) (result : Json)
    (rec : ObjectRecord) : Json × Except Exc Bool :=
  match schema.find rec.entityId with
  | none => (result, .ok true)
  | some entity =>
    let obj := do
      let obj ← decodeObject lib rec.data entity
      setRelations reader rec.objectId entity.relations
        (obj.set (lit "id") (.int rec.objectId.toNat))
    match obj with
    | .error err => (result, .error err)
    | .ok obj => (appendTo result entity.name obj, .ok true)

/-- `dumpToJson`, `src/dumper.cpp:11–38`. -/
def dumpToJson (lib : Libraries) (sys : System) (mdbPath modelJson : Bytes) :
    Except Exc Bytes := do
  let schema ← Schema.parse lib.json modelJson
  let reader ← LmdbReader.ofPath sys mdbPath
  match reader.forEachObject (dumpToJsonRecord lib schema reader) (.obj []) with
  | (_, .error err) => throw err
  | (result, .ok ()) => lib.json.dumpText (some 2) result

/-! ### Streaming -/

section

variable {σ : Type}

/-- `RecordCallback` with the state it works on; true asks to keep going. -/
abbrev RecordCallback (σ : Type) := σ → Bytes → UInt32 → Bytes → σ × Bool

/-- The callback of `src/dumper.cpp:45–58`. -/
def dumpStreamingRecord (lib : Libraries) (schema : Schema) (reader : LmdbReader)
    (callback : RecordCallback σ) (s : σ) (rec : ObjectRecord) : σ × Except Exc Bool :=
  match schema.find rec.entityId with
  | none => (s, .ok true)
  | some entity =>
    let fieldsJson := do
      let obj ← decodeObject lib rec.data entity
      let obj ← setRelations reader rec.objectId entity.relations
        (obj.set (lit "id") (.int rec.objectId.toNat))
      lib.json.dumpText none obj
    match fieldsJson with
    | .error err => (s, .error err)
    | .ok fieldsJson =>
      let (s', more) := callback s entity.name rec.objectId fieldsJson
      (s', .ok more)

/-- `dumpStreaming`, `src/dumper.cpp:40–60`. -/
def dumpStreaming (lib : Libraries) (sys : System) (mdbPath modelJson : Bytes)
    (callback : RecordCallback σ) (s : σ) : σ × Except Exc Unit :=
  match Schema.parse lib.json modelJson with
  | .error err => (s, .error err)
  | .ok schema =>
    match LmdbReader.ofPath sys mdbPath with
    | .error err => (s, .error err)
    | .ok reader => reader.forEachObject (dumpStreamingRecord lib schema reader callback) s

/-! ### The C entry point -/

/-- `ObDumpSourceKind`, `include/ob_dump.h:21–27`. -/
inductive ObDumpSourceKind where
  | path
  | buffer
  deriving DecidableEq, Repr

/-- `ObDumpSource`, `include/ob_dump.h:34–40`; a null pointer is `none`. -/
structure ObDumpSource where
  kind : ObDumpSourceKind
  path : Option Bytes

/-- What `g_lastError` is set to: a text, or the `what()` of a caught exception. -/
inductive LastError where
  | text (message : Bytes)
  | what (err : Exc)
  deriving DecidableEq, Repr

/-- `ObDumpRecordCallback` with the state behind `user_data`; 0 asks to keep going. -/
abbrev ObDumpRecordCallback (σ : Type) := σ → Bytes → Int → Bytes → σ × Int

/-- The adaptor of `src/ob_dump.cpp:93–96`: the C callback sees C strings. -/
def recordCallback (callback : ObDumpRecordCallback σ) : RecordCallback σ :=
  fun s entityName objectId fieldsJson ↦
    let (s', rc) := callback s (cstr entityName) objectId.toNat (cstr fieldsJson)
    (s', decide (rc = 0))

/-- `ob_dump_stream`, `src/ob_dump.cpp:73–104`: the state the callback leaves, the error set
and the code returned. -/
def ob_dump_stream (lib : Libraries) (sys : System) (source : Option ObDumpSource)
    (model_json : Option Bytes) (callback : Option (ObDumpRecordCallback σ)) (s : σ) :
    σ × Option LastError × Int :=
  match source, model_json, callback with
  | some source, some model_json, some callback =>
    if source.kind ≠ .path then
      (s, some (.text (lit
        "ob_dump_stream: OB_DUMP_SOURCE_BUFFER is not implemented yet (see docs/BACKLOG.md)")), -1)
    else
      match source.path with
      | none => (s, some (.text (lit "ob_dump_stream: source path must not be null")), -1)
      | some path =>
        match dumpStreaming lib sys (cstr path) (cstr model_json) (recordCallback callback) s with
        | (s', .ok ()) => (s', none, 0)
        | (s', .error err) => (s', some (.what err), -1)
  | _, _, _ =>
    (s, some (.text (lit "ob_dump_stream: source, model_json, and callback must not be null")), -1)

end

/-! ### The object of a record -/

section

variable (lib : Libraries) (reader : LmdbReader)

/-- The object of a record: its decoded fields, then the object id, then the relations. -/
def recordObject (entity : EntityDef) (rec : ObjectRecord) : Except Exc Json := do
  let obj ← decodeObject lib rec.data entity
  setRelations reader rec.objectId entity.relations
    (obj.set (lit "id") (.int rec.objectId.toNat))

/-- The callback of the in-memory dump appends the record's object to its entity's array. -/
theorem dumpToJsonRecord_eq (schema : Schema) (result : Json) (rec : ObjectRecord) :
    dumpToJsonRecord lib schema reader result rec =
      match schema.find rec.entityId with
      | none => (result, .ok true)
      | some entity =>
        match recordObject lib reader entity rec with
        | .error err => (result, .error err)
        | .ok obj => (appendTo result entity.name obj, .ok true) := rfl

/-- The callback of the streaming dump passes on the text of the record's object. -/
theorem dumpStreamingRecord_eq {σ : Type} (schema : Schema) (callback : RecordCallback σ) (s : σ)
    (rec : ObjectRecord) :
    dumpStreamingRecord lib schema reader callback s rec =
      match schema.find rec.entityId with
      | none => (s, .ok true)
      | some entity =>
        match recordObject lib reader entity rec >>= lib.json.dumpText none with
        | .error err => (s, .error err)
        | .ok text =>
          ((callback s entity.name rec.objectId text).1,
            .ok (callback s entity.name rec.objectId text).2) := by
  unfold dumpStreamingRecord recordObject
  cases schema.find rec.entityId with
  | none => rfl
  | some entity => simp only [bind_assoc]

end

end ObDump
