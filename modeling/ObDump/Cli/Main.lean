import ObDump.Dump.Dumper

/-!
# The command line

Library `Cli`. `cli/main.c:26–186`: the `--json` command and the callback that writes the
grouped text while records stream in. Output is modelled as the text written so far, so every
write succeeds.
-/

namespace ObDump

open Base

/-- `JsonStreamCtx`, `cli/main.c:91–96`. `lastEntity` is the C string in its buffer. -/
structure JsonStreamCtx where
  out : Bytes
  lastEntity : Bytes
  wroteAnyEntity : Bool
  wroteAnyInCurrentEntity : Bool
  deriving DecidableEq, Repr

namespace JsonStreamCtx

/-- The context after `memset`. -/
def zero : JsonStreamCtx := ⟨[], [], false, false⟩

/-- `fputs` and `fprintf` to `out`. -/
def puts (ctx : JsonStreamCtx) (text : Bytes) : JsonStreamCtx := { ctx with out := ctx.out ++ text }

/-- `strncpy` into the 256-byte buffer, with its last byte set to NUL. -/
def setLastEntity (ctx : JsonStreamCtx) (name : Bytes) : JsonStreamCtx :=
  { ctx with lastEntity := name.take 255 }

end JsonStreamCtx

/-- `json_stream_cb`, `cli/main.c:98–122`. -/
def json_stream_cb (ctx : JsonStreamCtx) (entity_name : Bytes) (_object_id : Int)
    (fields_json : Bytes) : JsonStreamCtx × Int :=
  let isNewEntity := decide (ctx.lastEntity = [] ∨ ctx.lastEntity ≠ entity_name)
  let ctx :=
    if isNewEntity then
      let ctx := ctx.puts (if ctx.wroteAnyEntity then lit "\n  ],\n" else lit "\x7b\n")
      let ctx := ctx.puts (lit "  \"" ++ entity_name ++ lit "\": [\n")
      { ctx.setLastEntity entity_name with
        wroteAnyEntity := true
        wroteAnyInCurrentEntity := false }
    else ctx
  let ctx := if ctx.wroteAnyInCurrentEntity then ctx.puts (lit ",\n") else ctx
  let ctx := ctx.puts (lit "    " ++ fields_json)
  ({ ctx with wroteAnyInCurrentEntity := true }, 0)

/-! ### The command -/

/-- The files the command opens: the contents `read_file` returns (`cli/main.c:7–24`), and
whether a path opens for writing. -/
structure Files where
  read : Bytes → Option Bytes
  writable : Bytes → Bool

/-- What is printed to `stderr`: a text, or the message of the last error. -/
inductive Diagnostic where
  | text (message : Bytes)
  | lastError (err : Option LastError)
  deriving DecidableEq, Repr

/-- What a command leaves: its exit code, where its output goes (`none` is `stdout`), the
text written there and the diagnostics. -/
structure Outcome where
  status : Int
  dest : Option Bytes
  text : Bytes
  diagnostics : List Diagnostic
  deriving DecidableEq, Repr

/-- `print_usage`, `cli/main.c:26–32`. -/
def usage (argv0 : Bytes) : Diagnostic :=
  .text (lit "usage: " ++ argv0 ++
    lit " --json   <base>.mdb <objectbox-model.json> [-o <out.json>]\n" ++
    lit "       " ++ argv0 ++ lit " --schema <objectbox-model.json> [-o <out.json>]\n" ++
    lit "       " ++ argv0 ++ lit " --fbs    <objectbox-model.json> [-o <out.fbs>]\n")

/-- The operand of `-o`, if it is given; `cli/main.c:137–140`. -/
def outPath (argv : List Bytes) : Option Bytes :=
  if 6 ≤ argv.length ∧ argv.getD 4 [] = lit "-o" then some (argv.getD 5 []) else none

/-- `run_json`, `cli/main.c:130–186`. -/
def run_json (lib : Libraries) (sys : System) (files : Files) (argv : List Bytes) : Outcome :=
  if argv.length < 4 then ⟨2, none, [], [usage (argv.getD 0 [])]⟩
  else
    let mdb_path := argv.getD 2 []
    let model_path := argv.getD 3 []
    let out_path := outPath argv
    match files.read model_path with
    | none =>
      ⟨1, none, [], [.text (lit "error: cannot read model json file: " ++ model_path ++ lit "\n")]⟩
    | some model_json =>
      match out_path.filter fun path ↦ !files.writable path with
      | some path =>
        ⟨1, none, [], [.text (lit "error: cannot open output file: " ++ path ++ lit "\n")]⟩
      | none =>
        let (ctx, err, rc) := ob_dump_stream lib sys (some ⟨.path, some mdb_path⟩)
          (some model_json) (some json_stream_cb) .zero
        if rc ≠ 0 then
          ⟨1, out_path, ctx.out, .lastError err ::
            if ctx.wroteAnyEntity then
              [.text (lit "note: partial output may already have been written\n")]
            else []⟩
        else
          ⟨0, out_path,
            ctx.out ++ if ctx.wroteAnyEntity then lit "\n  ]\n\x7d\n" else lit "\x7b\x7d\n", []⟩

end ObDump
