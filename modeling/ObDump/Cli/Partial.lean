import ObDump.Cli.Agree

/-!
# A failed run's text is no document

Library `Cli`. Between two records the text written so far has one object and in it one array
open, outside any string; before the first record it is empty. No call of the store or of the
decoder enters into this, so it holds wherever a run fails.
-/

namespace ObDump

open Base JsonText

namespace JsonStreamCtx

/-- Between two records: nothing written, or one object and one array open, after a value. -/
def Between (ctx : JsonStreamCtx) : Prop :=
  (ctx.After none ∧ ctx.out = []) ∨
    ∃ name elems ms k, ctx.After (some name) ∧
      run start ctx.out = some ⟨.after, [.arr elems, .obj ms (some k)]⟩

private theorem between_zero : Between .zero := .inl ⟨⟨rfl, rfl, rfl⟩, rfl⟩

/-- One record with a plain name and a well-formed text. -/
theorem Between.json_stream_cb {ctx : JsonStreamCtx} (h : ctx.Between) {name : Bytes}
    (hname : plainString name = true) (objectId : Int) {fields : Bytes} {v : Tree}
    (hfields : run start fields = some ⟨.done v, []⟩) :
    (json_stream_cb ctx name objectId fields).1.Between := by
  rcases h with ⟨hafter, hempty⟩ | ⟨a, elems, ms, k, hafter, hrun⟩
  · obtain ⟨hout, hnext, -⟩ := json_stream_cb_spec hafter name objectId fields
    refine .inr ⟨name, [v], [], name, hnext, ?_⟩
    rw [hout, hempty, List.nil_append, run_append, run_first hname, Option.bind_some]
    apply run_item (.inr rfl) hfields
  · obtain ⟨hout, hnext, -⟩ := json_stream_cb_spec hafter name objectId fields
    by_cases hc : continues a name = true
    · refine .inr ⟨name, v :: elems, ms, k, hnext, ?_⟩
      rw [hout, run_append, hrun, Option.bind_some, run_append, run_comma hc, Option.bind_some]
      apply run_item (.inl rfl) hfields
    · have hnew : continues a name = false := by simpa using hc
      refine .inr ⟨name, [v], (k, .arr elems.reverse) :: ms, name, hnext, ?_⟩
      rw [hout, run_append, hrun, Option.bind_some, run_append, run_next hnew hname,
        Option.bind_some]
      apply run_item (.inr rfl) hfields

/-- What stands between two records begins no document that is complete. -/
theorem Between.parse_eq_none {ctx : JsonStreamCtx} (h : ctx.Between) {s : Bytes}
    (hs : s <+: ctx.out) : parse s = none := by
  rcases h with ⟨-, hempty⟩ | ⟨name, elems, ms, k, -, hrun⟩
  · rw [hempty, List.prefix_nil] at hs
    rw [hs]
    rfl
  · apply parse_eq_none_of_isPrefix hrun _ hs
    simp

end JsonStreamCtx

/-- The texts the callback is handed are objects. -/
def Nlohmann.DumpsObjects (nl : Nlohmann) : Prop :=
  ∀ ms text, nl.dumpText none (.obj ms) = .ok text →
    ∃ trees, JsonText.parse text = some (.obj trees)

private theorem between_dumpStreaming {lib : Libraries} (hjson : lib.json.DumpsObjects)
    {sys : System} {mdbPath modelJson : Bytes}
    (hnames : ∀ schema, Schema.parse lib.json modelJson = .ok schema →
      ∀ entity ∈ schema.entities, plainString entity.name = true) :
    (dumpStreaming lib sys mdbPath modelJson (recordCallback json_stream_cb)
      .zero).1.Between := by
  apply dumpStreaming_preserves _ JsonStreamCtx.between_zero
  intro schema hschema reader ctx k c hk hc hctx
  have hplain := hnames schema hschema k.1 hk
  unfold callOf at hc
  obtain ⟨obj, hobj, hc⟩ := bind_eq_ok.mp hc
  obtain ⟨text, htext, hc⟩ := bind_eq_ok.mp hc
  cases hc
  obtain ⟨ms, rfl⟩ := recordObject_isObj hobj
  obtain ⟨trees, htrees⟩ := hjson ms text htext
  have hrun := run_of_parse_obj htrees
  have htext : cstr text = text := cstr_eq_self (zero_notMem_of_run spells_start hrun)
  have hcall : (RecordCallback.call (recordCallback json_stream_cb) ctx
      ⟨k.1.name, k.2.objectId, text⟩).1 =
        (json_stream_cb ctx k.1.name k.2.objectId.toNat text).1 := by
    rw [RecordCallback.call, recordCallback, htext, cstr_eq_self_of_plain hplain]
  rw [hcall]
  exact hctx.json_stream_cb hplain _ hrun

private theorem ob_dump_stream_state {σ : Type} (lib : Libraries) (sys : System)
    (path model : Bytes) (callback : ObDumpRecordCallback σ) (s : σ) :
    (ob_dump_stream lib sys (some ⟨.path, some path⟩) (some model) (some callback) s).1 =
      (dumpStreaming lib sys (cstr path) (cstr model) (recordCallback callback) s).1 := by
  simp only [ob_dump_stream]
  rw [if_neg (by simp)]
  cases dumpStreaming lib sys (cstr path) (cstr model) (recordCallback callback) s with
  | mk s' out =>
    cases out with
    | ok u => rfl
    | error err => rfl

private theorem text_of_failed {lib : Libraries} {sys : System} {files : Files}
    {argv : List Bytes} (hstatus : (run_json lib sys files argv).status ≠ 0) :
    (run_json lib sys files argv).text = [] ∨
      ∃ model, files.read (argv.getD 3 []) = some model ∧
        (run_json lib sys files argv).text =
          (dumpStreaming lib sys (cstr (argv.getD 2 [])) (cstr model)
            (recordCallback json_stream_cb) .zero).1.out := by
  by_cases hargs : argv.length < 4
  · rw [run_json, if_pos hargs]
    exact .inl rfl
  · rw [run_json, if_neg hargs] at hstatus ⊢
    cases hread : files.read (argv.getD 3 []) with
    | none =>
      simp only [hread]
      exact .inl trivial
    | some model =>
      cases hout : (outPath argv).filter fun path ↦ !files.writable path with
      | some path =>
        simp only [hread, hout]
        exact .inl trivial
      | none =>
        simp only [hread, hout] at hstatus ⊢
        refine .inr ⟨model, rfl, ?_⟩
        rw [← ob_dump_stream_state lib sys (argv.getD 2 []) model json_stream_cb .zero]
        by_cases hrc : (ob_dump_stream lib sys (some ⟨.path, some (argv.getD 2 [])⟩) (some model)
            (some json_stream_cb) .zero).2.2 = 0
        · rw [if_neg (not_not.mpr hrc)] at hstatus
          exact absurd rfl hstatus
        · rw [if_pos hrc]

/-- A run of the command that fails leaves a text of which no part from the beginning on is a
JSON document, the whole of it included. -/
theorem run_json_failed_incomplete (lib : Libraries) (hjson : lib.json.DumpsObjects)
    (sys : System) (files : Files) (argv : List Bytes)
    (hnames : ∀ model schema, files.read (argv.getD 3 []) = some model →
      Schema.parse lib.json (cstr model) = .ok schema →
      ∀ entity ∈ schema.entities, plainString entity.name = true)
    (hstatus : (run_json lib sys files argv).status ≠ 0) :
    ∀ s, s <+: (run_json lib sys files argv).text → parse s = none := by
  intro s hs
  rcases text_of_failed hstatus with hempty | ⟨model, hread, htext⟩
  · rw [hempty, List.prefix_nil] at hs
    rw [hs]
    rfl
  · rw [htext] at hs
    apply JsonStreamCtx.Between.parse_eq_none _ hs
    apply between_dumpStreaming hjson
    intro schema
    exact hnames model schema hread

/-! ### The notes with a store that breaks off -/

/-- A walk over the notes that ends with `MDB_CORRUPTED` after the first. -/
private def brokenSystem : System :=
  { noteStore.system with
    txn := fun _ ↦ { noteStore.txn with fromFirst := ⟨noteStore.entries.take 2, -30796, by decide⟩ }
    strerror := fun _ ↦ lit "MDB_CORRUPTED: Located page was wrong type" }

/-- A run that wrote a record and failed. -/
theorem run_json_failed_incomplete_sample :
    (run_json .reference brokenSystem noteFiles noteArgs).text =
        lit "\x7b\n  \"Note\": [\n    \x7b\"id\":7,\"links\":[9],\"text\":\"Hi\"\x7d" ∧
      ∀ s, s <+: (run_json .reference brokenSystem noteFiles noteArgs).text → parse s = none := by
  obtain ⟨hd, hrun⟩ := note_run
  constructor
  · decide +kernel
  · apply run_json_failed_incomplete .reference _ brokenSystem noteFiles noteArgs _
      (by decide +kernel)
    · intro ms text htext
      exact Nlohmann.reference_documented.dump_object (Nlohmann.dumpText_eq_ok.mp htext)
    · rintro model schema hread hparse
      cases hread
      rw [hrun.parses] at hparse
      cases hparse
      exact List.forall_mem_singleton.mpr (by decide)

end ObDump
