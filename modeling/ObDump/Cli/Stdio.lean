import ObDump.Base.Device
import ObDump.Cli.Agree
import ObDump.Dump.Listing
import ObDump.Fbs.Generate

/-!
# The command line on a device

Library `Cli`. `cli/main.c:34–201` on an output stream that may cut any write and any flush.
The results of `fputs`, `fprintf`, `fwrite`, `fputc` and `fclose` are not looked at, and texts are
handed over as C strings, which end at a NUL. What should be delivered is said without the
command: the dumped records as one document, or the text a generator makes of the model.
-/

namespace ObDump.Stdio

open Base

/-! ### Streams -/

/-- An output stream on a device: the texts handed to it and the bytes it took of them. -/
@[ext] structure FILE (dev : Device) where
  writes : List Bytes
  accepted : Bytes
  accepted_eq : accepted = dev.taken [] writes

variable {dev : Device}

namespace FILE

/-- A stream that was just opened. -/
def fresh : FILE dev := ⟨[], [], rfl⟩

/-- A text is handed to the stream. -/
def put (f : FILE dev) (text : Bytes) : FILE dev where
  writes := f.writes ++ [text]
  accepted := f.accepted ++ text.take (dev.takes f.writes text)
  accepted_eq := by rw [Device.taken_append, List.nil_append, f.accepted_eq]

/-- How many bytes of the text the stream takes. -/
def room (f : FILE dev) (text : Bytes) : Nat := min (dev.takes f.writes text) text.length

/-- What is delivered when the stream is closed. -/
def text (f : FILE dev) : Bytes := dev.delivered f.accepted

end FILE

/-- `EOF`. -/
def EOF : Int := -1

/-- `fwrite` of single bytes: how many were taken. -/
def fwrite (text : Bytes) (f : FILE dev) : FILE dev × Nat := (f.put text, f.room text)

/-- `fputs`: no negative number when all bytes were taken. -/
def fputs (text : Bytes) (f : FILE dev) : FILE dev × Int :=
  (f.put text, if f.room text = text.length then 0 else EOF)

/-- `fprintf`: the length of the text when all bytes were taken. -/
def fprintf (f : FILE dev) (text : Bytes) : FILE dev × Int :=
  (f.put text, if f.room text = text.length then text.length else EOF)

/-- `fputc`: the byte when it was taken. -/
def fputc (c : UInt8) (f : FILE dev) : FILE dev × Int :=
  (f.put [c], if f.room [c] = 1 then c.toNat else EOF)

/-- `fclose`, and the flush of `stdout` at exit: what is delivered, and 0 when it is everything. -/
def fclose (f : FILE dev) : Bytes × Int :=
  (f.text, if f.text = f.writes.flatten then 0 else EOF)

/-! ### The streaming callback -/

/-- `JsonStreamCtx`, `cli/main.c:91–96`. -/
structure JsonStreamCtx (dev : Device) where
  out : FILE dev
  lastEntity : Bytes
  wroteAnyEntity : Bool
  wroteAnyInCurrentEntity : Bool

/-- The context after `memset`, with its stream. -/
def JsonStreamCtx.zero : JsonStreamCtx dev := ⟨.fresh, [], false, false⟩

/-- `json_stream_cb`, `cli/main.c:98–122`. -/
def json_stream_cb (ctx : JsonStreamCtx dev) (entity_name : Bytes) (_object_id : Int)
    (fields_json : Bytes) : JsonStreamCtx dev × Int :=
  let isNewEntity := decide (ctx.lastEntity = [] ∨ ctx.lastEntity ≠ entity_name)
  let ctx :=
    if isNewEntity then
      let out := (fputs (if ctx.wroteAnyEntity then lit "\n  ],\n" else lit "\x7b\n") ctx.out).1
      let out := (fprintf out (lit "  \"" ++ entity_name ++ lit "\": [\n")).1
      { out, lastEntity := entity_name.take 255, wroteAnyEntity := true,
        wroteAnyInCurrentEntity := false }
    else ctx
  let out := if ctx.wroteAnyInCurrentEntity then (fputs (lit ",\n") ctx.out).1 else ctx.out
  let out := (fprintf out (lit "    " ++ fields_json)).1
  ({ ctx with out, wroteAnyInCurrentEntity := true }, 0)

/-! ### The commands -/

/-- What a command leaves: its exit code, where its output goes (`none` is `stdout`), the stream
as it is closed and the diagnostics. -/
structure Exit (dev : Device) where
  status : Int
  dest : Option Bytes
  out : FILE dev
  diagnostics : List Diagnostic

/-- What the command delivers. -/
def Exit.text (e : Exit dev) : Bytes := (fclose e.out).1

section

variable (lib : Libraries) (sys : System) (files : Files) (dev : Device)

/-- `run_json`, `cli/main.c:130–186`. -/
def run_json (argv : List Bytes) : Exit dev :=
  if argv.length < 4 then ⟨2, none, .fresh, [usage (argv.getD 0 [])]⟩
  else
    let mdb_path := argv.getD 2 []
    let model_path := argv.getD 3 []
    let out_path := outPath argv
    match files.read model_path with
    | none =>
      ⟨1, none, .fresh,
        [.text (lit "error: cannot read model json file: " ++ model_path ++ lit "\n")]⟩
    | some model_json =>
      match out_path.filter fun path ↦ !files.writable path with
      | some path =>
        ⟨1, none, .fresh, [.text (lit "error: cannot open output file: " ++ path ++ lit "\n")]⟩
      | none =>
        let (ctx, err, rc) := ob_dump_stream lib sys (some ⟨.path, some mdb_path⟩)
          (some model_json) (some json_stream_cb) (.zero : JsonStreamCtx dev)
        if rc ≠ 0 then
          ⟨1, out_path, ctx.out, .lastError err ::
            if ctx.wroteAnyEntity then
              [.text (lit "note: partial output may already have been written\n")]
            else []⟩
        else
          ⟨0, out_path,
            (fputs (if ctx.wroteAnyEntity then lit "\n  ]\n\x7d\n" else lit "\x7b\x7d\n")
              ctx.out).1, []⟩

/-- `runCatchingErrors`, `src/ob_dump.cpp:29–47`: the C string returned and the error set. -/
def runCatchingErrors (body : Except Exc Bytes) : Option Bytes × Option LastError :=
  match body with
  | .ok result => (some (cstr result), none)
  | .error e => (none, some (.what e))

/-- `ob_dump_schema`, `src/ob_dump.cpp:106–112`. -/
def ob_dump_schema (model_json : Option Bytes) : Option Bytes × Option LastError :=
  match model_json with
  | none => (none, some (.text (lit "ob_dump_schema: model_json must not be null")))
  | some model_json => runCatchingErrors (schemaToJson lib (cstr model_json))

/-- `ob_dump_fbs`, `src/ob_dump.cpp:114–120`. -/
def ob_dump_fbs (model_json : Option Bytes) : Option Bytes × Option LastError :=
  match model_json with
  | none => (none, some (.text (lit "ob_dump_fbs: model_json must not be null")))
  | some model_json => runCatchingErrors (generateFbs lib.json (cstr model_json))

/-- `write_result_and_free`, `cli/main.c:36–53`. -/
def write_result_and_free (result : Bytes) (out_path : Option Bytes) : Exit dev :=
  match out_path.filter fun path ↦ !files.writable path with
  | some path =>
    ⟨1, none, .fresh, [.text (lit "error: cannot open output file: " ++ path ++ lit "\n")]⟩
  | none =>
    let out := (fwrite result .fresh).1
    ⟨0, out_path, if out_path = none then (fputc 0x0a out).1 else out, []⟩

/-- `run_schema_or_fbs`, `cli/main.c:56–81`. -/
def run_schema_or_fbs (argv : List Bytes) (is_schema : Bool) : Exit dev :=
  if argv.length < 3 then ⟨2, none, .fresh, [usage (argv.getD 0 [])]⟩
  else
    let model_path := argv.getD 2 []
    let out_path :=
      if 5 ≤ argv.length ∧ argv.getD 3 [] = lit "-o" then some (argv.getD 4 []) else none
    match files.read model_path with
    | none =>
      ⟨1, none, .fresh,
        [.text (lit "error: cannot read model json file: " ++ model_path ++ lit "\n")]⟩
    | some model_json =>
      match if is_schema then ob_dump_schema lib (some model_json)
        else ob_dump_fbs lib (some model_json) with
      | (none, err) => ⟨1, none, .fresh, [.lastError err]⟩
      | (some result, _) => write_result_and_free files dev result out_path

/-- `main`, `cli/main.c:188–201`. -/
def main (argv : List Bytes) : Exit dev :=
  if argv.length < 2 then ⟨2, none, .fresh, [usage (argv.getD 0 [])]⟩
  else if argv.getD 1 [] = lit "--json" then run_json lib sys files dev argv
  else if argv.getD 1 [] = lit "--schema" then run_schema_or_fbs lib files dev argv true
  else if argv.getD 1 [] = lit "--fbs" then run_schema_or_fbs lib files dev argv false
  else
    ⟨2, none, .fresh, [.text (lit "error: unknown mode \x27" ++ argv.getD 1 [] ++ lit "\x27\n"),
      usage (argv.getD 0 [])]⟩

end

/-! ### The command of a stream that takes every byte -/

/-- The context of the text written so far. -/
def JsonStreamCtx.toText (ctx : JsonStreamCtx dev) : ObDump.JsonStreamCtx :=
  ⟨ctx.out.writes.flatten, ctx.lastEntity, ctx.wroteAnyEntity, ctx.wroteAnyInCurrentEntity⟩

/-- What a command leaves on a stream that takes every byte. -/
def Exit.outcome (e : Exit .perfect) : Outcome := ⟨e.status, e.dest, e.text, e.diagnostics⟩

private theorem Exit.text_eq (e : Exit dev) :
    e.text = dev.delivered (dev.taken [] e.out.writes) := by
  rw [← e.out.accepted_eq]
  rfl

private theorem Exit.text_perfect (e : Exit .perfect) : e.text = e.out.writes.flatten := by
  rw [Exit.text_eq, (Device.delivered_taken_iff _).mpr (Device.perfect_takesAll _)]

@[simp] private theorem flatten_put (f : FILE dev) (text : Bytes) :
    (f.put text).writes.flatten = f.writes.flatten ++ text := by
  simp [FILE.put]

private theorem json_stream_cb_toText (ctx : JsonStreamCtx dev) (name : Bytes) (id : Int)
    (fields : Bytes) :
    ObDump.json_stream_cb ctx.toText name id fields =
      ((json_stream_cb ctx name id fields).1.toText, (json_stream_cb ctx name id fields).2) := by
  have hzero : (json_stream_cb ctx name id fields).2 = 0 := rfl
  rw [hzero]
  unfold ObDump.json_stream_cb json_stream_cb JsonStreamCtx.toText
  by_cases hnew : ctx.lastEntity = [] ∨ ctx.lastEntity ≠ name
  · simp [hnew, ObDump.JsonStreamCtx.puts, ObDump.JsonStreamCtx.setLastEntity, fputs, fprintf]
  · cases hany : ctx.wroteAnyInCurrentEntity with
    | true => simp [hnew, hany, ObDump.JsonStreamCtx.puts, fputs, fprintf]
    | false => simp [hnew, hany, ObDump.JsonStreamCtx.puts, fprintf]

section

variable {lib : Libraries} {sys : System} {files : Files}

/-- On a stream that takes every byte the command is the one whose writes all succeed. -/
theorem run_json_outcome (argv : List Bytes) :
    (run_json lib sys files .perfect argv).outcome = ObDump.run_json lib sys files argv := by
  rw [Exit.outcome, Exit.text_perfect]
  unfold run_json ObDump.run_json
  by_cases hargs : argv.length < 4
  · rw [if_pos hargs, if_pos hargs]
    rfl
  · rw [if_neg hargs, if_neg hargs]
    simp only
    cases files.read (argv.getD 3 []) with
    | none => rfl
    | some model =>
      simp only
      cases (outPath argv).filter fun path ↦ !files.writable path with
      | some path => rfl
      | none =>
        have hstream := ob_dump_stream_hom (fun ctx : JsonStreamCtx .perfect ↦ ctx.toText) lib sys
          json_stream_cb_toText (argv.getD 2 []) model .zero
        have hzero : (.zero : JsonStreamCtx .perfect).toText = .zero := rfl
        rw [hzero] at hstream
        simp only [hstream]
        generalize ob_dump_stream lib sys (some ⟨.path, some (argv.getD 2 [])⟩) (some model)
          (some json_stream_cb) (.zero : JsonStreamCtx .perfect) = run
        by_cases hrc : run.2.2 = 0
        · cases hany : run.1.wroteAnyEntity <;>
            simp [hrc, hany, fputs, JsonStreamCtx.toText]
        · cases hany : run.1.wroteAnyEntity <;>
            simp [hrc, hany, JsonStreamCtx.toText]

end

/-! ### What should be delivered -/

/-- The callback that keeps every record: its entity's name and its text. -/
def collect : RecordCallback (List (Bytes × Bytes)) :=
  fun records name _ fields ↦ (records ++ [(name, fields)], true)

section

variable (lib : Libraries) (sys : System) (files : Files) (argv : List Bytes)

/-- The records the streaming dump passes on, if it succeeds. -/
def dumped (mdbPath modelJson : Bytes) : Option (List (Bytes × Bytes)) :=
  match dumpStreaming lib sys mdbPath modelJson collect [] with
  | (records, .ok ()) => some records
  | (_, .error _) => none

/-- The document of `--json`, in pieces: that of all records. -/
def jsonTexts : Option (List Bytes) :=
  if argv.length < 4 then none
  else
    match files.read (argv.getD 3 []) with
    | none => none
    | some model =>
      if (outPath argv).all files.writable then
        (dumped lib sys (cstr (argv.getD 2 [])) (cstr model)).map documentTexts
      else none

/-- The operand of `-o` after a model, if it is given; `cli/main.c:62–65`. -/
def modelOutPath : Option Bytes :=
  if 5 ≤ argv.length ∧ argv.getD 3 [] = lit "-o" then some (argv.getD 4 []) else none

/-- The document of `--schema` and `--fbs`: what the generator makes of the model, and a newline
on `stdout`. -/
def modelTexts (generate : Bytes → Except Exc Bytes) : Option (List Bytes) :=
  if argv.length < 3 then none
  else
    match files.read (argv.getD 2 []) with
    | none => none
    | some model =>
      if (modelOutPath argv).all files.writable then
        (generate (cstr model)).toOption.map fun text ↦
          text :: if modelOutPath argv = none then [lit "\n"] else []
      else none

/-- The complete document, where the arguments, the files, the model and the store are in
order. -/
def completeTexts : Option (List Bytes) :=
  if argv.length < 2 then none
  else if argv.getD 1 [] = lit "--json" then jsonTexts lib sys files argv
  else if argv.getD 1 [] = lit "--schema" then modelTexts files argv (schemaToJson lib)
  else if argv.getD 1 [] = lit "--fbs" then modelTexts files argv (generateFbs lib.json)
  else none

end

/-- The command fails without a document. With one it succeeds and writes no NUL, and it writes
the document if that has none. -/
private def Exit.Attempts (e : Exit dev) : Option (List Bytes) → Prop
  | none => e.status ≠ 0
  | some texts => e.status = 0 ∧ 0 ∉ e.out.writes.flatten ∧
      (0 ∉ texts.flatten → e.out.writes = texts)

/-! ### The streamed records -/

/-- The C strings of a record. -/
private def cut (e : Bytes × Bytes) : Bytes × Bytes := (cstr e.1, cstr e.2)

/-- The context after records. -/
private def after (dev : Device) (l : List (Bytes × Bytes)) : JsonStreamCtx dev :=
  (l.map cut).foldl (fun ctx e ↦ (json_stream_cb ctx e.1 0 e.2).1) .zero

private theorem json_stream_cb_writes {ctx : JsonStreamCtx dev} {prev : Option Bytes}
    (h : ctx.toText.After prev) (name : Bytes) (id : Int) (fields : Bytes) :
    (json_stream_cb ctx name id fields).1.out.writes =
        ctx.out.writes ++ (leadTexts prev name ++ [lit "    " ++ fields]) ∧
      (json_stream_cb ctx name id fields).1.toText.After (some name) := by
  constructor
  · obtain ⟨out, last, any, inCurrent⟩ := ctx
    cases prev with
    | none =>
      obtain ⟨hlast, hany, hcurrent⟩ := h
      simp only [JsonStreamCtx.toText] at hlast hany hcurrent
      subst hlast hany hcurrent
      simp [json_stream_cb, leadTexts, fputs, fprintf, FILE.put]
    | some a =>
      obtain ⟨hlast, hany, hcurrent⟩ := h
      simp only [JsonStreamCtx.toText] at hlast hany hcurrent
      subst hlast hany hcurrent
      simp only [json_stream_cb, JsonStreamCtx.isNewEntity_eq, leadTexts]
      cases continues a name with
      | true => simp [fputs, fprintf, FILE.put]
      | false => simp [fputs, fprintf, FILE.put]
  · have htext := json_stream_cb_toText ctx name id fields
    have hspec := (ObDump.JsonStreamCtx.json_stream_cb_spec h name id fields).2.1
    rw [htext] at hspec
    exact hspec

private theorem foldl_writes {ctx : JsonStreamCtx dev} {prev : Option Bytes}
    (h : ctx.toText.After prev) (l : List (Bytes × Bytes)) :
    (l.foldl (fun ctx e ↦ (json_stream_cb ctx e.1 0 e.2).1) ctx).out.writes =
        ctx.out.writes ++ writtenTexts prev l ∧
      (l.foldl (fun ctx e ↦ (json_stream_cb ctx e.1 0 e.2).1) ctx).wroteAnyEntity =
        (ctx.wroteAnyEntity || !l.isEmpty) := by
  induction l generalizing ctx prev with
  | nil => simp [writtenTexts]
  | cons e l ih =>
    obtain ⟨hwrites, hafter⟩ := json_stream_cb_writes h e.1 0 e.2
    obtain ⟨hrest, hany⟩ := ih hafter
    have htrue : (json_stream_cb ctx e.1 0 e.2).1.wroteAnyEntity = true := hafter.2.1
    rw [List.foldl_cons, hrest, hwrites, hany, htrue]
    simp [writtenTexts]

private theorem after_writes (dev : Device) (l : List (Bytes × Bytes)) :
    (fputs (if (after dev l).wroteAnyEntity then lit "\n  ]\n\x7d\n" else lit "\x7b\x7d\n")
      (after dev l).out).1.writes = documentTexts (l.map cut) := by
  have hzero : (JsonStreamCtx.zero : JsonStreamCtx dev).toText.After none := ⟨rfl, rfl, rfl⟩
  obtain ⟨hwrites, hany⟩ := foldl_writes hzero (l.map cut)
  have hput : ∀ text,
      (fputs text (after dev l).out).1.writes = (after dev l).out.writes ++ [text] :=
    fun _ ↦ rfl
  rw [hput, after, hwrites, hany]
  cases l with
  | nil => rfl
  | cons e l => rfl

private theorem ob_dump_stream_after (dev : Device) (lib : Libraries) (sys : System)
    (path model : Bytes) :
    ∃ (l : List (Bytes × Bytes)) (err : Option LastError),
      (dumped lib sys (cstr path) (cstr model) = some l ∧
        ob_dump_stream lib sys (some ⟨.path, some path⟩) (some model) (some json_stream_cb)
          (.zero : JsonStreamCtx dev) = (after dev l, err, 0)) ∨
      (dumped lib sys (cstr path) (cstr model) = none ∧
        ob_dump_stream lib sys (some ⟨.path, some path⟩) (some model) (some json_stream_cb)
          (.zero : JsonStreamCtx dev) = (after dev l, err, -1)) := by
  have hrun := dumpStreaming_hom (after dev) lib sys collect (recordCallback json_stream_cb) (by
    intro l name id fields
    simp only [collect, after, List.map_append, List.foldl_append]
    rfl) (cstr path) (cstr model) []
  have hzero : after dev [] = .zero := rfl
  rw [hzero] at hrun
  unfold dumped ob_dump_stream
  simp only [hrun]
  cases dumpStreaming lib sys (cstr path) (cstr model) collect [] with
  | mk l r =>
    cases r with
    | ok u => exact ⟨l, none, .inl ⟨rfl, rfl⟩⟩
    | error err => exact ⟨l, some (.what err), .inr ⟨rfl, rfl⟩⟩

section

variable {lib : Libraries} {sys : System} {files : Files}

private theorem zero_notMem_cstr (s : Bytes) : 0 ∉ cstr s := by
  intro h
  have hb := List.mem_takeWhile_imp h
  exact absurd hb (by decide)

private theorem filter_eq_none {path : Option Bytes} (h : path.all files.writable = true) :
    (path.filter fun path ↦ !files.writable path) = none := by
  cases path with
  | none => rfl
  | some path => simpa [Option.filter] using h

private theorem filter_eq_some {path : Option Bytes} (h : ¬ path.all files.writable = true) :
    ∃ p, (path.filter fun path ↦ !files.writable path) = some p := by
  cases path with
  | none => exact absurd rfl h
  | some path => exact ⟨path, by simpa [Option.filter] using h⟩

private theorem documentTexts_attempt (l : List (Bytes × Bytes)) :
    0 ∉ (documentTexts (l.map cut)).flatten ∧
      (0 ∉ (documentTexts l).flatten → documentTexts (l.map cut) = documentTexts l) := by
  simp only [flatten_documentTexts, zero_notMem_document_iff]
  constructor
  · intro e he
    obtain ⟨e, -, rfl⟩ := List.mem_map.mp he
    exact ⟨zero_notMem_cstr _, zero_notMem_cstr _⟩
  · intro h
    have hcut : l.map cut = l := by
      refine List.map_congr_left (g := id) ?_ |>.trans (List.map_id l)
      intro e he
      exact Prod.ext (cstr_eq_self (h e he).1) (cstr_eq_self (h e he).2)
    rw [hcut]

private theorem run_json_attempts (argv : List Bytes) :
    (run_json lib sys files dev argv).Attempts (jsonTexts lib sys files argv) := by
  unfold run_json jsonTexts
  by_cases hargs : argv.length < 4
  · rw [if_pos hargs, if_pos hargs]
    exact (by decide : (2 : Int) ≠ 0)
  rw [if_neg hargs, if_neg hargs]
  dsimp only
  cases files.read (argv.getD 3 []) with
  | none => exact one_ne_zero
  | some model =>
    dsimp only
    by_cases hopen : (outPath argv).all files.writable = true
    · rw [if_pos hopen, filter_eq_none hopen]
      obtain ⟨l, err, ⟨hdumped, hrun⟩ | ⟨hdumped, hrun⟩⟩ :=
        ob_dump_stream_after dev lib sys (argv.getD 2 []) model
      · rw [hdumped, hrun, Option.map_some]
        obtain ⟨hnul, heq⟩ := documentTexts_attempt l
        rw [← after_writes dev] at hnul heq
        exact ⟨rfl, hnul, heq⟩
      · rw [hdumped, hrun, Option.map_none]
        exact one_ne_zero
    · obtain ⟨path, hpath⟩ := filter_eq_some hopen
      rw [if_neg hopen, hpath]
      exact one_ne_zero

private theorem write_result_attempts (text : Bytes) (path : Option Bytes) :
    (write_result_and_free files dev (cstr text) path).Attempts
      (if path.all files.writable then
        some (text :: if path = none then [lit "\n"] else []) else none) := by
  have hnul := zero_notMem_cstr text
  have hnewline : (0 : UInt8) ∉ lit "\n" := by decide
  unfold write_result_and_free
  by_cases hopen : path.all files.writable = true
  · rw [if_pos hopen, filter_eq_none hopen]
    cases path with
    | none =>
      refine ⟨rfl, ?_, ?_⟩
      · simpa [fwrite, fputc, FILE.put, FILE.fresh] using hnul
      · intro h0
        have htext : cstr text = text := cstr_eq_self fun h ↦ h0 (by simp [h])
        rw [htext]
        rfl
    | some path =>
      refine ⟨rfl, ?_, ?_⟩
      · simpa [fwrite, FILE.put, FILE.fresh] using hnul
      · intro h0
        have htext : cstr text = text := cstr_eq_self fun h ↦ h0 (by simp [h])
        rw [htext]
        rfl
  · obtain ⟨p, hp⟩ := filter_eq_some hopen
    rw [if_neg hopen, hp]
    exact one_ne_zero

private theorem run_schema_or_fbs_attempts (argv : List Bytes) (is_schema : Bool) :
    (run_schema_or_fbs lib files dev argv is_schema).Attempts
      (modelTexts files argv (if is_schema then schemaToJson lib else generateFbs lib.json)) := by
  unfold run_schema_or_fbs modelTexts
  by_cases hargs : argv.length < 3
  · rw [if_pos hargs, if_pos hargs]
    exact (by decide : (2 : Int) ≠ 0)
  rw [if_neg hargs, if_neg hargs]
  dsimp only
  cases files.read (argv.getD 2 []) with
  | none => exact one_ne_zero
  | some model =>
    have hcall : (if is_schema then ob_dump_schema lib (some model)
        else ob_dump_fbs lib (some model)) =
          runCatchingErrors ((if is_schema then schemaToJson lib else generateFbs lib.json)
            (cstr model)) := by
      cases is_schema <;> rfl
    dsimp only
    rw [hcall]
    cases (if is_schema then schemaToJson lib else generateFbs lib.json) (cstr model) with
    | error err =>
      have hnone : (if (modelOutPath argv).all files.writable then
          (Except.error err : Except Exc Bytes).toOption.map fun text ↦
            text :: if modelOutPath argv = none then [lit "\n"] else [] else none) = none :=
        ite_self none
      rw [hnone]
      exact one_ne_zero
    | ok text => exact write_result_attempts text (modelOutPath argv)

private theorem main_attempts {argv : List Bytes} {texts : Option (List Bytes)}
    (h : completeTexts lib sys files argv = texts) :
    (main lib sys files dev argv).Attempts texts := by
  rw [← h]
  unfold main completeTexts
  split_ifs
  · exact (by decide : (2 : Int) ≠ 0)
  · exact run_json_attempts argv
  · exact run_schema_or_fbs_attempts argv true
  · exact run_schema_or_fbs_attempts argv false
  · exact (by decide : (2 : Int) ≠ 0)

private theorem mem_writes_of_mem_text {e : Exit dev} {b : UInt8} (h : b ∈ e.text) :
    b ∈ e.out.writes.flatten := by
  rw [Exit.text_eq] at h
  exact Device.mem_of_mem_taken [] _ (List.mem_of_mem_take h)

/-- A command that exits with 0 has delivered the complete document exactly when, where there is
one, the document has no NUL, the device takes each of its pieces whole and the last flush
delivers all of it. -/
theorem main_complete_iff (lib : Libraries) (sys : System) (files : Files) (dev : Device)
    (argv : List Bytes) :
    ((main lib sys files dev argv).status = 0 →
      ∃ texts, completeTexts lib sys files argv = some texts ∧
        (main lib sys files dev argv).text = texts.flatten) ↔
    ∀ texts, completeTexts lib sys files argv = some texts →
      0 ∉ texts.flatten ∧ dev.TakesAll texts := by
  cases hc : completeTexts lib sys files argv with
  | none =>
    have hfails : (main lib sys files dev argv).Attempts none := main_attempts hc
    constructor
    · intro _ texts h
      cases h
    · intro _ hstatus
      exact absurd hstatus hfails
  | some texts =>
    have hattempt : (main lib sys files dev argv).Attempts (some texts) := main_attempts hc
    obtain ⟨hstatus, hnul, hwrites⟩ := hattempt
    have hdelivered : 0 ∉ texts.flatten →
        ((main lib sys files dev argv).text = texts.flatten ↔ dev.TakesAll texts) := by
      intro h0
      rw [Exit.text_eq, hwrites h0]
      exact Device.delivered_taken_iff texts
    constructor
    · rintro h _ ⟨⟩
      obtain ⟨_, ⟨⟩, htext⟩ := h hstatus
      have h0 : 0 ∉ texts.flatten := by
        rw [← htext]
        exact fun h ↦ hnul (mem_writes_of_mem_text h)
      exact ⟨h0, (hdelivered h0).mp htext⟩
    · intro h _
      obtain ⟨h0, htakes⟩ := h texts rfl
      exact ⟨texts, rfl, (hdelivered h0).mpr htakes⟩

end

/-! ### A full device -/

/-- A device that takes no byte. -/
private def fullDevice : Device := ⟨fun _ _ ↦ 0, fun _ ↦ 0⟩

private theorem document_ne_nil (l : List (Bytes × Bytes)) : document l ≠ [] := by
  have hempty : lit "\x7b\x7d\n" ≠ [] := by decide
  have hclose : lit "\n  ]\n\x7d\n" ≠ [] := by decide
  unfold document
  split_ifs
  · exact hempty
  · exact List.append_ne_nil_of_right_ne_nil _ hclose

/-- The dump of the notes to a full device exits with 0, and nothing of the document is
delivered. -/
theorem main_loses_output : ∃ texts,
    completeTexts .reference noteStore.system noteFiles noteArgs = some texts ∧
      texts.flatten ≠ [] ∧
      (main .reference noteStore.system noteFiles fullDevice noteArgs).status = 0 ∧
      (main .reference noteStore.system noteFiles fullDevice noteArgs).text = [] := by
  obtain ⟨hd, hrun⟩ := note_run
  have hcalls : ∃ calls, (Schema.known ⟨[noteEntity], hd⟩ noteStore.records).mapM
      (callOf .reference noteStore.reader) = .ok calls := ⟨_, rfl⟩
  obtain ⟨calls, hcalls⟩ := hcalls
  have hdump : dumpStreaming .reference noteStore.system (cstr (noteArgs.getD 2 []))
      (cstr noteModel) collect [] = (feed collect.call [] calls, .ok ()) := by
    rw [dumpStreaming_eq hrun.parses hrun.opens hrun.serves]
    exact (drive_eq_ok_iff fun _ _ ↦ rfl).mpr ⟨calls, hcalls, rfl⟩
  have hdumped : dumped .reference noteStore.system (cstr (noteArgs.getD 2 [])) (cstr noteModel) =
      some (feed collect.call [] calls) := by
    rw [dumped, hdump]
  have htexts : completeTexts .reference noteStore.system noteFiles noteArgs =
      some (documentTexts (feed collect.call [] calls)) := by
    rw [completeTexts, if_neg (by decide), if_pos (by decide), jsonTexts, if_neg (by decide),
      hrun.reads]
    dsimp only
    have hopen : (outPath noteArgs).all noteFiles.writable = true := rfl
    rw [if_pos hopen]
    exact congrArg (Option.map documentTexts) hdumped
  refine ⟨_, htexts, ?_, (main_attempts htexts).1, ?_⟩
  · rw [flatten_documentTexts]
    exact document_ne_nil _
  · rw [Exit.text_eq]
    exact List.take_zero

end ObDump.Stdio
