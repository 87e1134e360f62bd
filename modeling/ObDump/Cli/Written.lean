import ObDump.Base.Groups
import ObDump.Cli.Main
import ObDump.Dump.Stream

/-!
# The text the command writes

Library `Cli`. The three variables of `JsonStreamCtx` only remember whether a record came
before, and its entity's name cut to the buffer. So the text written is a function of the
sequence of calls, one piece a record.
-/

namespace ObDump

open Base

/-- A record is written to the group that is open: its entity's name is not empty, and is
what the buffer kept of the name before. -/
def continues (prev name : Bytes) : Bool := decide (name ≠ [] ∧ prev.take 255 = name)

/-- What is written before a record's text: nothing was open, the group goes on, or it is
closed and the next one opened. -/
def lead (prev : Option Bytes) (name : Bytes) : Bytes :=
  match prev with
  | none => lit "\x7b\n  \"" ++ name ++ lit "\": [\n    "
  | some a =>
    if continues a name then lit ",\n    "
    else lit "\n  ],\n  \"" ++ name ++ lit "\": [\n    "

/-- What is written for records one after the other, given by names and texts. -/
def written (prev : Option Bytes) : List (Bytes × Bytes) → Bytes
  | [] => []
  | (name, fields) :: rest => lead prev name ++ fields ++ written (some name) rest

/-- The whole text. -/
def document (l : List (Bytes × Bytes)) : Bytes :=
  if l = [] then lit "\x7b\x7d\n" else written none l ++ lit "\n  ]\n\x7d\n"

/-! ### The text in pieces -/

/-- The pieces of what is written before a record's text. -/
def leadTexts (prev : Option Bytes) (name : Bytes) : List Bytes :=
  match prev with
  | none => [lit "\x7b\n", lit "  \"" ++ name ++ lit "\": [\n"]
  | some a =>
    if continues a name then [lit ",\n"] else [lit "\n  ],\n", lit "  \"" ++ name ++ lit "\": [\n"]

/-- The pieces of what is written for records. -/
def writtenTexts (prev : Option Bytes) : List (Bytes × Bytes) → List Bytes
  | [] => []
  | (name, fields) :: rest =>
    leadTexts prev name ++ (lit "    " ++ fields) :: writtenTexts (some name) rest

/-- The whole text in pieces: one for each bracket line, comma and record. -/
def documentTexts (l : List (Bytes × Bytes)) : List Bytes :=
  if l = [] then [lit "\x7b\x7d\n"] else writtenTexts none l ++ [lit "\n  ]\n\x7d\n"]

private theorem flatten_leadTexts (prev : Option Bytes) (name : Bytes) :
    (leadTexts prev name).flatten ++ lit "    " = lead prev name := by
  have hfirst : lit "\x7b\n  \"" = lit "\x7b\n" ++ lit "  \"" := rfl
  have hnext : lit "\n  ],\n  \"" = lit "\n  ],\n" ++ lit "  \"" := rfl
  have hname : lit "\": [\n    " = lit "\": [\n" ++ lit "    " := rfl
  have hcomma : lit ",\n    " = lit ",\n" ++ lit "    " := rfl
  cases prev with
  | none =>
    rw [lead, hfirst, hname]
    simp [leadTexts]
  | some a =>
    rw [lead, leadTexts]
    split
    · rw [hcomma]
      simp
    · rw [hnext, hname]
      simp

private theorem flatten_writtenTexts (prev : Option Bytes) (l : List (Bytes × Bytes)) :
    (writtenTexts prev l).flatten = written prev l := by
  induction l generalizing prev with
  | nil => rfl
  | cons e l ih =>
    obtain ⟨name, fields⟩ := e
    rw [writtenTexts, written, ← flatten_leadTexts, List.flatten_append, List.flatten_cons, ih]
    simp only [List.append_assoc]

/-- The pieces make up the text. -/
theorem flatten_documentTexts (l : List (Bytes × Bytes)) :
    (documentTexts l).flatten = document l := by
  unfold documentTexts document
  split
  · rfl
  · rw [List.flatten_append, flatten_writtenTexts]
    rfl

private theorem zero_notMem_lead {prev : Option Bytes} {name : Bytes} (h : 0 ∉ lead prev name)
    (hprev : ∀ a, prev = some a → 0 ∉ a) : 0 ∉ name := by
  unfold lead at h
  cases prev with
  | none =>
    intro h0
    exact h (by simp [h0])
  | some a =>
    simp only at h
    split at h
    · next hc =>
      rw [← (of_decide_eq_true hc).2]
      intro h0
      exact hprev a rfl (List.mem_of_mem_take h0)
    · intro h0
      exact h (by simp [h0])

private theorem zero_notMem_of_written {prev : Option Bytes} {l : List (Bytes × Bytes)}
    (h : 0 ∉ written prev l) (hprev : ∀ a, prev = some a → 0 ∉ a) :
    ∀ e ∈ l, 0 ∉ e.1 ∧ 0 ∉ e.2 := by
  induction l generalizing prev with
  | nil => exact fun _ he ↦ nomatch he
  | cons e l ih =>
    obtain ⟨name, fields⟩ := e
    simp only [written, List.mem_append, not_or] at h
    obtain ⟨⟨hlead, hfields⟩, hrest⟩ := h
    have hname := zero_notMem_lead hlead hprev
    refine List.forall_mem_cons.mpr ⟨⟨hname, hfields⟩, ih hrest ?_⟩
    intro a ha
    cases ha
    exact hname

private theorem zero_notMem_written {prev : Option Bytes} {l : List (Bytes × Bytes)}
    (h : ∀ e ∈ l, 0 ∉ e.1 ∧ 0 ∉ e.2) : 0 ∉ written prev l := by
  induction l generalizing prev with
  | nil => exact List.not_mem_nil
  | cons e l ih =>
    obtain ⟨⟨hname, hfields⟩, hl⟩ := List.forall_mem_cons.mp h
    have hlead : 0 ∉ lead prev e.1 := by
      have hfirst : (0 : UInt8) ∉ lit "\x7b\n  \"" := by decide
      have hnext : (0 : UInt8) ∉ lit "\n  ],\n  \"" := by decide
      have hopen : (0 : UInt8) ∉ lit "\": [\n    " := by decide
      have hcomma : (0 : UInt8) ∉ lit ",\n    " := by decide
      unfold lead
      cases prev with
      | none => simp [hfirst, hname, hopen]
      | some a =>
        simp only
        split
        · exact hcomma
        · simp [hnext, hname, hopen]
    simp only [written, List.mem_append, not_or]
    exact ⟨⟨hlead, hfields⟩, ih hl⟩

/-- The text has a NUL exactly when a name or a record's text has one. -/
theorem zero_notMem_document_iff (l : List (Bytes × Bytes)) :
    0 ∉ document l ↔ ∀ e ∈ l, 0 ∉ e.1 ∧ 0 ∉ e.2 := by
  have hempty : (0 : UInt8) ∉ lit "\x7b\x7d\n" := by decide
  have hend : (0 : UInt8) ∉ lit "\n  ]\n\x7d\n" := by decide
  unfold document
  split
  · next hnil =>
    rw [hnil]
    exact iff_of_true hempty fun _ he ↦ nomatch he
  · rw [List.mem_append, not_or, and_iff_left hend]
    constructor
    · intro h
      exact zero_notMem_of_written h nofun
    · exact zero_notMem_written

/-! ### The callback's text -/

/-- The C strings of a call. -/
def Call.strings (c : Call) : Bytes × Bytes := (cstr c.entityName, cstr c.fieldsJson)

namespace JsonStreamCtx

/-- The context after a record of the given name, or before any. -/
def After (ctx : JsonStreamCtx) : Option Bytes → Prop
  | none => ctx.lastEntity = [] ∧ ctx.wroteAnyEntity = false ∧ ctx.wroteAnyInCurrentEntity = false
  | some name => ctx.lastEntity = name.take 255 ∧ ctx.wroteAnyEntity = true ∧
      ctx.wroteAnyInCurrentEntity = true

/-- The test of the callback, `cli/main.c:103`, on what the buffer kept of a name. -/
theorem isNewEntity_eq (a name : Bytes) :
    decide (a.take 255 = [] ∨ a.take 255 ≠ name) = !continues a name := by
  rw [continues, ← decide_not, decide_eq_decide]
  constructor
  · rintro (h | h) ⟨hne, he⟩
    · exact hne (he.symm.trans h)
    · exact h he
  · intro h
    by_cases he : a.take 255 = name
    · exact .inl (he.trans (not_not.mp fun hne ↦ h ⟨hne, he⟩))
    · exact .inr he

private theorem lastEntity_of_continues {a name : Bytes} (h : continues a name = true) :
    name.take 255 = a.take 255 := by
  have he := (of_decide_eq_true h).2
  rw [← he, List.take_take, Nat.min_self]

/-- One record: what it writes, and what the context remembers of it. -/
theorem json_stream_cb_spec {ctx : JsonStreamCtx} {prev : Option Bytes} (h : ctx.After prev)
    (name : Bytes) (objectId : Int) (fields : Bytes) :
    (json_stream_cb ctx name objectId fields).1.out = ctx.out ++ (lead prev name ++ fields) ∧
      (json_stream_cb ctx name objectId fields).1.After (some name) ∧
      (json_stream_cb ctx name objectId fields).2 = 0 := by
  have hfirst : lit "\x7b\n  \"" = lit "\x7b\n" ++ lit "  \"" := rfl
  have hnext : lit "\n  ],\n  \"" = lit "\n  ],\n" ++ lit "  \"" := rfl
  have hname : lit "\": [\n    " = lit "\": [\n" ++ lit "    " := rfl
  have hcomma : lit ",\n    " = lit ",\n" ++ lit "    " := rfl
  obtain ⟨out, last, any, inCurrent⟩ := ctx
  cases prev with
  | none =>
    obtain ⟨rfl, rfl, rfl⟩ := h
    refine ⟨?_, ⟨rfl, rfl, rfl⟩, rfl⟩
    rw [lead, hfirst, hname]
    simp [json_stream_cb, puts, setLastEntity]
  | some a =>
    obtain ⟨rfl, rfl, rfl⟩ := h
    rw [lead, json_stream_cb, isNewEntity_eq]
    cases hc : continues a name with
    | true =>
      refine ⟨?_, ⟨?_, rfl, rfl⟩, rfl⟩
      · rw [if_pos rfl, hcomma]
        simp [puts]
      · exact (lastEntity_of_continues hc).symm
    | false =>
      refine ⟨?_, ⟨rfl, rfl, rfl⟩, rfl⟩
      rw [if_neg Bool.false_ne_true, hnext, hname]
      simp [puts, setLastEntity]

private theorem feed_spec {ctx : JsonStreamCtx} {prev : Option Bytes} (h : ctx.After prev)
    (calls : List Call) :
    (feed (recordCallback json_stream_cb).call ctx calls).out =
        ctx.out ++ written prev (calls.map Call.strings) ∧
      ∃ last, (feed (recordCallback json_stream_cb).call ctx calls).After last ∧
        (last = none ↔ prev = none ∧ calls = []) := by
  induction calls generalizing ctx prev with
  | nil => exact ⟨(List.append_nil _).symm, prev, h, by simp⟩
  | cons c calls ih =>
    obtain ⟨hout, hafter, -⟩ :=
      json_stream_cb_spec h (cstr c.entityName) c.objectId.toNat (cstr c.fieldsJson)
    obtain ⟨hrest, last, hlast, hnone⟩ := ih hafter
    refine ⟨?_, last, hlast, by simpa using hnone⟩
    have hw : written prev ((c :: calls).map Call.strings) =
        lead prev (cstr c.entityName) ++ cstr c.fieldsJson ++
          written (some (cstr c.entityName)) (calls.map Call.strings) := rfl
    rw [hw, ← List.append_assoc, ← hout]
    exact hrest

/-- The text of a run: the pieces of its calls, and the closing brackets if there were any. -/
theorem text_of_feed (calls : List Call) :
    (feed (recordCallback json_stream_cb).call .zero calls).out ++
        (if (feed (recordCallback json_stream_cb).call .zero calls).wroteAnyEntity then
          lit "\n  ]\n\x7d\n" else lit "\x7b\x7d\n") =
      document (calls.map Call.strings) := by
  have hzero : JsonStreamCtx.After .zero none := ⟨rfl, rfl, rfl⟩
  obtain ⟨hout, last, hlast, hnone⟩ := feed_spec hzero calls
  rw [hout, document]
  cases last with
  | none =>
    obtain rfl := (hnone.mp rfl).2
    rw [hlast.2.1]
    rfl
  | some name =>
    have hne : calls.map Call.strings ≠ [] := by
      intro he
      have hc := hnone.mpr ⟨rfl, List.map_eq_nil_iff.mp he⟩
      cases hc
    rw [hlast.2.1, if_pos rfl, if_neg hne]
    rfl

end JsonStreamCtx

/-! ### A run of the command -/

/-- A run whose arguments, files, model and store are in order. -/
structure JsonRun (lib : Libraries) (sys : System) (files : Files) (argv : List Bytes)
    (model : Bytes) (schema : Schema) (reader : LmdbReader) (store : Store) : Prop where
  args : 4 ≤ argv.length
  reads : files.read (argv.getD 3 []) = some model
  writable : ∀ path, outPath argv = some path → files.writable path = true
  parses : Schema.parse lib.json (cstr model) = .ok schema
  opens : LmdbReader.ofPath sys (cstr (argv.getD 2 [])) = .ok reader
  serves : reader.txn.Serves store

section

variable {lib : Libraries} {sys : System} {files : Files} {argv : List Bytes} {model : Bytes}
  {schema : Schema} {reader : LmdbReader} {store : Store}

private theorem ob_dump_stream_eq {path : Bytes}
    (hparse : Schema.parse lib.json (cstr model) = .ok schema)
    (hopen : LmdbReader.ofPath sys (cstr path) = .ok reader) (hs : reader.txn.Serves store)
    {σ : Type} (callback : ObDumpRecordCallback σ) (s : σ) :
    ob_dump_stream lib sys (some ⟨.path, some path⟩) (some model) (some callback) s =
      match drive (callOf lib reader) (recordCallback callback).call
        (schema.known store.records) s with
      | (s', .ok ()) => (s', none, 0)
      | (s', .error err) => (s', some (.what err), -1) := by
  rw [← dumpStreaming_eq hparse hopen hs]
  rfl

private theorem run_json_eq (h : JsonRun lib sys files argv model schema reader store) :
    run_json lib sys files argv =
      match drive (callOf lib reader) (recordCallback json_stream_cb).call
        (schema.known store.records) .zero with
      | (ctx, .ok ()) =>
        ⟨0, outPath argv,
          ctx.out ++ if ctx.wroteAnyEntity then lit "\n  ]\n\x7d\n" else lit "\x7b\x7d\n", []⟩
      | (ctx, .error err) =>
        ⟨1, outPath argv, ctx.out, .lastError (some (.what err)) ::
          if ctx.wroteAnyEntity then
            [.text (lit "note: partial output may already have been written\n")]
          else []⟩ := by
  have hargs : ¬ argv.length < 4 := Nat.not_lt.mpr h.args
  have hout : (outPath argv).filter (fun path ↦ !files.writable path) = none := by
    rw [Option.filter_eq_none_iff]
    intro path hpath
    simp [h.writable path hpath]
  simp only [run_json, hargs, h.reads, hout, if_false,
    ob_dump_stream_eq h.parses h.opens h.serves]
  cases drive (callOf lib reader) (recordCallback json_stream_cb).call
      (schema.known store.records) .zero with
  | mk ctx out => cases out <;> rfl

private theorem json_stream_cb_goes (ctx : JsonStreamCtx) (c : Call) :
    ((recordCallback json_stream_cb).call ctx c).2 = true := rfl

/-- When every known record decodes and serialises, the command writes the pieces of all of
them and succeeds. -/
theorem run_json_of_calls (h : JsonRun lib sys files argv model schema reader store)
    {calls : List Call}
    (hcalls : (schema.known store.records).mapM (callOf lib reader) = .ok calls) :
    run_json lib sys files argv =
      ⟨0, outPath argv, document (calls.map Call.strings), []⟩ := by
  rw [run_json_eq h, (drive_eq_ok_iff json_stream_cb_goes).mpr ⟨calls, hcalls, rfl⟩,
    ← JsonStreamCtx.text_of_feed]

/-- The command succeeds only then. -/
theorem calls_of_status (h : JsonRun lib sys files argv model schema reader store)
    (hstatus : (run_json lib sys files argv).status = 0) :
    ∃ calls, (schema.known store.records).mapM (callOf lib reader) = .ok calls := by
  rw [run_json_eq h] at hstatus
  cases hr : drive (callOf lib reader) (recordCallback json_stream_cb).call
      (schema.known store.records) .zero with
  | mk ctx out =>
    cases out with
    | ok u =>
      obtain ⟨calls, hcalls, -⟩ := (drive_eq_ok_iff json_stream_cb_goes).mp hr
      exact ⟨calls, hcalls⟩
    | error err =>
      rw [hr] at hstatus
      exact absurd hstatus (by simp)

end

end ObDump
