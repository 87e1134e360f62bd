import ObDump.Cli.Agree

/-!
# Which names the command can write

Library `Cli`. `cli/main.c:91–122` prints an entity's name as it is and keeps 255 bytes of it
to see where the next group begins. So the text is an object of the promised form only for
names that need no escaping, each of which begins one group. A name that does need escaping
never comes out: what the reader collects instead is shorter.
-/

namespace ObDump

open Base JsonText

/-- What is promised of the text of a run: one object, no member twice, its members called
what the entities that have records are. -/
def GroupedText (text : Bytes) (names : List Bytes) : Prop :=
  ∃ trees, parse text = some (.obj trees) ∧ (trees.map Prod.fst).Nodup ∧
    ∀ name, name ∈ trees.map Prod.fst ↔ name ∈ names

/-! ### Names that need escaping -/

/-- Plain, or shorter than the longest name that is not. -/
private def Within (bound : Nat) (name : Bytes) : Prop :=
  plainString name = true ∨ name.length < bound

/-- A piece as written: the name is plain or within the bound, the text one value. -/
private structure Piece (bound : Nat) (e : Bytes × Bytes) : Prop where
  name : plainString e.1 = true ∨ e.1.length ≤ bound
  text : ∃ v, run start e.2 = some ⟨.done v, []⟩

section

variable {bound : Nat} {ms : List (Bytes × Tree)} {S : List Frame}

private theorem run_groupName {name : Bytes} {s' : State}
    (hname : plainString name = true ∨ name.length ≤ bound)
    (hS : ∀ n ∈ names (.obj ms none :: S), Within bound n)
    (h : run ⟨.string true .plain [], .obj ms none :: S⟩ (name ++ lit "\": [\n    ") = some s') :
    ∃ ms' k S', s' = ⟨.firstValue, .arr [] :: .obj ms' (some k) :: S'⟩ ∧
      ∀ n ∈ names (.obj ms' (some k) :: S'), Within bound n := by
  obtain ⟨m, hm, hend⟩ := run_append_some h
  have hspells : Spells ⟨.string true .plain [], .obj ms none :: S⟩ := by
    intro _ _ hl
    cases hl
  obtain ⟨acc, ms', S', rfl, rfl⟩ := run_nameEnd (run_spells hm hspells) hend
  refine ⟨ms', acc.reverse, S', rfl, ?_⟩
  have hnames : ∀ n ∈ names (.obj ms' (some acc.reverse) :: S'),
      n = acc.reverse ∨ n ∈ names (.obj ms' none :: S') := by
    intro n hn
    simpa using hn
  by_cases hp : plainString name = true
  · rw [run_plain true [] _ hp] at hm
    cases hm
    intro n hn
    rcases hnames n hn with rfl | hn
    · apply Or.inl
      simpa using hp
    · exact hS n hn
  · have hle := hname.resolve_left hp
    rcases run_name hm with ⟨hplain, -⟩ | ⟨hshort, hold⟩
    · exact absurd hplain hp
    · rw [List.length_nil, Nat.zero_add] at hshort hold
      intro n hn
      rcases hnames n hn with rfl | hn
      · have hacc := hshort true .plain acc rfl
        rw [StrPart.weight] at hacc
        apply Or.inr
        rw [List.length_reverse]
        omega
      · rcases hold n hn with hn | hlt
        · exact hS n hn
        · exact .inr (Nat.lt_of_lt_of_le hlt hle)

/-- What is open between two records: an array in an object, all names within the bound. -/
private def Between (bound : Nat) (s : State) : Prop :=
  ∃ es ms k S, s = ⟨.after, .arr es :: .obj ms (some k) :: S⟩ ∧
    ∀ n ∈ names (.obj ms (some k) :: S), Within bound n

private theorem between_of_group {e : Bytes × Bytes} {s' : State} (he : Piece bound e)
    (hS : ∀ n ∈ names (.obj ms none :: S), Within bound n)
    (h : run ⟨.string true .plain [], .obj ms none :: S⟩ (e.1 ++ lit "\": [\n    " ++ e.2) =
      some s') : Between bound s' := by
  obtain ⟨m, hm, htext⟩ := run_append_some h
  obtain ⟨ms', k, S', rfl, hS'⟩ := run_groupName he.name hS hm
  obtain ⟨v, hv⟩ := he.text
  rw [run_item (.inr rfl) hv] at htext
  cases htext
  exact ⟨[v], ms', k, S', rfl, hS'⟩

private theorem between_of_record {e : Bytes × Bytes} {prev : Bytes} {s s' : State}
    (he : Piece bound e) (hs : Between bound s)
    (h : run s (lead (some prev) e.1 ++ e.2) = some s') : Between bound s' := by
  obtain ⟨es, ms, k, S, rfl, hS⟩ := hs
  cases hc : continues prev e.1 with
  | true =>
    obtain ⟨v, hv⟩ := he.text
    rw [run_append, run_comma hc, Option.bind_some, run_item (.inl rfl) hv] at h
    cases h
    exact ⟨v :: es, ms, k, S, rfl, hS⟩
  | false =>
    rw [lead, hc, if_neg Bool.false_ne_true, List.append_assoc, List.append_assoc, run_append] at h
    obtain ⟨m, hm, h⟩ := Option.bind_eq_some_iff.mp h
    cases hm
    rw [← List.append_assoc] at h
    exact between_of_group he (by simpa using hS) h

private theorem between_of_written {l : List (Bytes × Bytes)} {prev : Bytes} {s s' : State}
    (hl : ∀ e ∈ l, Piece bound e) (hs : Between bound s)
    (h : run s (written (some prev) l) = some s') : Between bound s' := by
  induction l generalizing prev s with
  | nil =>
    cases h
    exact hs
  | cons e l ih =>
    obtain ⟨he, hrest⟩ := List.forall_mem_cons.mp hl
    obtain ⟨m, hm, h⟩ := run_append_some h
    exact ih hrest (between_of_record he hs hm) h

private theorem names_of_closing {s : State} {trees : List (Bytes × Tree)} (hs : Between bound s)
    (h : run s (lit "\n  ]\n\x7d\n") = some ⟨.done (.obj trees), []⟩) :
    ∀ n ∈ trees.map Prod.fst, Within bound n := by
  -- The object is complete only where nothing else is open.
  obtain ⟨es, ms, k, S, rfl, hS⟩ := hs
  rcases S with _ | ⟨es' | ⟨ms', _ | k'⟩, S⟩
  · cases h
    simpa [or_comm] using hS
  · cases h
  · cases h
  · cases h

private theorem names_of_document {l : List (Bytes × Bytes)} {trees : List (Bytes × Tree)}
    (hl : ∀ e ∈ l, Piece bound e) (h : parse (document l) = some (.obj trees)) :
    ∀ n ∈ trees.map Prod.fst, Within bound n := by
  have hrun := run_of_parse_obj h
  cases l with
  | nil =>
    cases hrun
    simp
  | cons e l =>
    obtain ⟨he, hrest⟩ := List.forall_mem_cons.mp hl
    obtain ⟨m, hm, hclose⟩ := run_append_some hrun
    obtain ⟨m', hm', hwritten⟩ := run_append_some hm
    have hlead : lead none e.1 ++ e.2 =
        lit "\x7b\n  \"" ++ (e.1 ++ lit "\": [\n    " ++ e.2) := by
      simp only [lead, List.append_assoc]
    rw [hlead, run_append] at hm'
    obtain ⟨m'', hopen, hfirst⟩ := Option.bind_eq_some_iff.mp hm'
    cases hopen
    have hnone : ∀ n ∈ names [.obj [] none], Within bound n := by simp
    exact names_of_closing (between_of_written hrest (between_of_group he hnone hfirst) hwritten)
      hclose

end

/-! ### The names that are written as promised -/

section

variable {lib : Libraries} {reader : LmdbReader}

private theorem plain_of_groupedText (hnl : lib.json.Documented)
    {R : List (EntityDef × ObjectRecord)} {calls : List Call}
    (hcalls : R.mapM (callOf lib reader) = .ok calls)
    (h : GroupedText (document (calls.map Call.strings)) (R.map fun k ↦ k.1.name)) :
    ∀ k ∈ R, plainString k.1.name = true := by
  -- The longest name that needs escaping would be missing from the object.
  by_contra hdirty
  obtain ⟨k, hk, hkp⟩ : ∃ k ∈ R, ¬ plainString k.1.name = true := by
    simpa using hdirty
  have hescaped : ∀ k ∈ R, ¬ plainString k.1.name = true →
      k.1.name ∈ ((R.map fun k ↦ k.1.name).filter (!plainString ·)).toFinset := by
    intro k hk hp
    rw [List.mem_toFinset, List.mem_filter]
    exact ⟨List.mem_map_of_mem hk, by simp [hp]⟩
  obtain ⟨longest, hmem, hmax⟩ :=
    Finset.exists_max_image _ List.length ⟨k.1.name, hescaped k hk hkp⟩
  have hpieces : ∀ e ∈ calls.map Call.strings, Piece longest.length e := by
    intro e he
    obtain ⟨c, hc, rfl⟩ := List.mem_map.mp he
    obtain ⟨k, hk, hcall⟩ := mem_of_mapM_eq_ok hcalls hc
    obtain ⟨trees, htrees, hstrings⟩ := text_of_call hnl hcall
    rw [hstrings]
    refine ⟨?_, _, run_of_parse_obj htrees⟩
    by_cases hp : plainString k.1.name = true
    · rw [cstr_eq_self_of_plain hp]
      exact .inl hp
    · have hle := hmax k.1.name (hescaped k hk hp)
      have hcut := cstr_prefix k.1.name
      exact .inr (Nat.le_trans hcut.length_le hle)
  obtain ⟨trees, hparse, -, hnames⟩ := h
  simp only [List.mem_toFinset, List.mem_filter, Bool.not_eq_true'] at hmem
  obtain ⟨hlongest, hnot⟩ := hmem
  rcases names_of_document hpieces hparse longest ((hnames longest).mpr hlongest) with hp | hlt
  · rw [hnot] at hp
    cases hp
  · exact Nat.lt_irrefl _ hlt

end

/-- A run that succeeds writes what is promised exactly when every name of an entity that has
records needs no escaping and exactly one record of that name begins a group: the first
record of all, or one that does not continue the record before it. -/
theorem run_json_grouped_iff (lib : Libraries) (hnl : lib.json.Documented) (sys : System)
    (files : Files) (argv : List Bytes) (model : Bytes) (schema : Schema) (reader : LmdbReader)
    (store : Store) (hrun : JsonRun lib sys files argv model schema reader store)
    (hstatus : (run_json lib sys files argv).status = 0) :
    GroupedText (run_json lib sys files argv).text
        ((schema.known store.records).map fun k ↦ k.1.name) ↔
      (∀ k ∈ schema.known store.records, plainString k.1.name = true) ∧
        ∀ name ∈ (schema.known store.records).map fun k ↦ k.1.name,
          ∃! i, BeginsAt continues ((schema.known store.records).map fun k ↦ k.1.name) i name := by
  obtain ⟨calls, hcalls⟩ := calls_of_status hrun hstatus
  rw [run_json_of_calls hrun hcalls, existsUnique_beginsAt_iff]
  -- Plain names give the members of the text, in either direction.
  have hmembers : (∀ k ∈ schema.known store.records, plainString k.1.name = true) →
      ∃ trees, parse (document (calls.map Call.strings)) = some (.obj trees) ∧
        trees.map Prod.fst =
          begins continues ((schema.known store.records).map fun k ↦ k.1.name) := by
    intro hplain
    obtain ⟨items, htexts, hgood, hof⟩ := exists_items hnl (mapM_eq_ok.mp hcalls) fun k hk ↦
      ⟨hplain k hk, (Schema.parse_namesValid hnl hrun.parses k.1 (Schema.mem_of_known hk)).name⟩
    refine ⟨_, htexts ▸ parse_document hgood, ?_⟩
    rw [map_fst_groupTrees, names_of_items hof]
  constructor
  · intro h
    have hplain := plain_of_groupedText hnl hcalls h
    obtain ⟨trees, hparse, hnodup, hnames⟩ := h
    obtain ⟨trees', hparse', hbegins⟩ := hmembers hplain
    rw [hparse] at hparse'
    cases hparse'
    rw [hbegins] at hnodup hnames
    exact ⟨hplain, hnodup, hnames⟩
  · rintro ⟨hplain, hnodup, hnames⟩
    obtain ⟨trees, hparse, hbegins⟩ := hmembers hplain
    refine ⟨trees, hparse, ?_, ?_⟩
    · rwa [hbegins]
    · rwa [hbegins]

/-- The run on the notes. -/
theorem run_json_grouped_iff_sample :
    ∃ schema, Schema.parse .reference (cstr noteModel) = .ok schema ∧
      (GroupedText (run_json .reference noteStore.system noteFiles noteArgs).text
          ((schema.known noteStore.records).map fun k ↦ k.1.name) ↔
        (∀ k ∈ schema.known noteStore.records, plainString k.1.name = true) ∧
          ∀ name ∈ (schema.known noteStore.records).map fun k ↦ k.1.name,
            ∃! i, BeginsAt continues
              ((schema.known noteStore.records).map fun k ↦ k.1.name) i name) := by
  obtain ⟨hd, hrun⟩ := note_run
  exact ⟨_, hrun.parses, run_json_grouped_iff .reference Nlohmann.reference_documented
    noteStore.system noteFiles noteArgs noteModel _ noteStore.reader noteStore hrun
    (by decide +kernel)⟩

/-! ### A name that does need it -/

/-- A model whose one entity has a quote in its name. -/
private def quotedModel : Bytes :=
  lit "\x7b\"entities\":[\x7b\"id\":\"1:5\",\"name\":\"a\\\"b\"," ++
    lit "\"properties\":[\x7b\"id\":\"1:6\",\"name\":\"text\",\"type\":9\x7d]\x7d]\x7d"

private def quotedEntity : EntityDef :=
  ⟨1, lit "a\"b", [⟨1, lit "text", .string, false, 0⟩], []⟩

private def quotedFiles : Files := ⟨fun _ ↦ some quotedModel, fun _ ↦ true⟩

private theorem quotedModel_entities :
    (Schema.parse .reference (cstr quotedModel)).map Schema.entities = .ok [quotedEntity] := by
  decide +kernel

/-- The model is accepted, the store is of the documented form and the command succeeds, but
what it writes is no JSON. -/
theorem run_json_breaks_name : ∃ schema,
    JsonRun .reference noteStore.system quotedFiles noteArgs quotedModel schema
        noteStore.reader noteStore ∧
      noteStore.Documented ∧
      (run_json .reference noteStore.system quotedFiles noteArgs).status = 0 ∧
      ¬ GroupedText (run_json .reference noteStore.system quotedFiles noteArgs).text
        ((schema.known noteStore.records).map fun k ↦ k.1.name) := by
  obtain ⟨⟨_, hd⟩, hparse, rfl⟩ := Schema.parse_of_entities quotedModel_entities
  refine ⟨_, ⟨by decide, rfl, fun _ _ ↦ rfl, hparse, rfl, noteStore.txn_serves⟩,
    note_documented, by decide +kernel, ?_⟩
  rintro ⟨trees, htrees, -⟩
  have hnone : (parse (run_json .reference noteStore.system quotedFiles noteArgs).text).isNone =
      true := by
    decide +kernel
  rw [htrees] at hnone
  cases hnone

end ObDump
