import ObDump.Cli.Written
import ObDump.Dump.Complete
import ObDump.Json.TextNames

/-!
# What the written text says

Library `Cli`. The text is followed piece by piece with the text reader. Where every name is
plain and every record's text is an object, it is one JSON object whose members are the
groups of consecutive records.
-/

namespace ObDump

open Base JsonText

/-- A record as written: its entity's name, its text and the tree of the text. -/
structure Item where
  name : Bytes
  text : Bytes
  tree : Tree

namespace Item

/-- Plain name, and a text that is one value in well-formed UTF-8. -/
structure Good (i : Item) : Prop where
  plain : plainString i.name = true
  nameValid : Utf8.valid i.name = true
  run : JsonText.run start i.text = some ⟨.done i.tree, []⟩
  textValid : Utf8.valid i.text = true

/-- What is written. -/
def texts (items : List Item) : List (Bytes × Bytes) := items.map fun i ↦ (i.name, i.text)

/-- What it says. -/
def trees (items : List Item) : List (Bytes × Tree) := items.map fun i ↦ (i.name, i.tree)

end Item

/-- The members of the top-level object. -/
def groupTrees (gs : List (Bytes × List Tree)) : List (Bytes × Tree) :=
  gs.map fun g ↦ (g.1, .arr g.2)

/-- Its members are called what begins a group. -/
theorem map_fst_groupTrees (items : List Item) :
    (groupTrees (groups continues (Item.trees items))).map Prod.fst =
      begins continues (items.map Item.name) := by
  have hn : (Item.trees items).map Prod.fst = items.map Item.name := by
    rw [Item.trees, List.map_map]
    rfl
  rw [groupTrees, List.map_map, ← hn, ← map_fst_groups]
  rfl

/-! ### Pieces of the text -/

private theorem run_header {m : State} {ms : List (Bytes × Tree)} {S : List Frame} {name : Bytes}
    {start : Bytes} (hm : run m start = some ⟨.string true .plain [], .obj ms none :: S⟩)
    (hp : plainString name = true) :
    run m (start ++ name ++ lit "\": [\n    ") =
      some ⟨.firstValue, .arr [] :: .obj ms (some name) :: S⟩ := by
  rw [run_append, run_append, hm, Option.bind_some, run_plain true [] _ hp, Option.bind_some]
  have hn : (name.reverse ++ []).reverse = name := by simp
  change (some ⟨.firstValue, .arr [] :: .obj ms (some (name.reverse ++ []).reverse) :: S⟩ :
    Option State) = _
  rw [hn]

/-- The first record opens the document and its group. -/
theorem run_first {name : Bytes} (hp : plainString name = true) :
    run start (lead none name) = some ⟨.firstValue, [.arr [], .obj [] (some name)]⟩ :=
  run_header rfl hp

/-- A record of another entity closes the group and opens the next. -/
theorem run_next {elems : List Tree} {ms : List (Bytes × Tree)} {k a name : Bytes}
    {S : List Frame} (hc : continues a name = false) (hp : plainString name = true) :
    run ⟨.after, .arr elems :: .obj ms (some k) :: S⟩ (lead (some a) name) =
      some ⟨.firstValue, .arr [] :: .obj ((k, .arr elems.reverse) :: ms) (some name) :: S⟩ := by
  rw [lead, hc, if_neg Bool.false_ne_true]
  exact run_header rfl hp

/-- A record of the same entity goes on with the group. -/
theorem run_comma {elems : List Tree} {a name : Bytes} {S : List Frame}
    (hc : continues a name = true) :
    run ⟨.after, .arr elems :: S⟩ (lead (some a) name) = some ⟨.value, .arr elems :: S⟩ := by
  rw [lead, hc, if_pos rfl]
  rfl

/-- A value in an array, after `[` or after a comma. -/
theorem run_item {elems : List Tree} {S : List Frame} {t : Bytes} {v : Tree} {m : Mode}
    (hm : m = .value ∨ m = .firstValue) (h : run start t = some ⟨.done v, []⟩) :
    run ⟨m, .arr elems :: S⟩ t = some ⟨.after, .arr (v :: elems) :: S⟩ := by
  have hv : run ⟨.value, .arr elems :: S⟩ t = some ⟨.after, .arr (v :: elems) :: S⟩ :=
    run_value (S := .arr elems :: S) trivial h
  rcases hm with rfl | rfl
  · exact hv
  · exact run_firstValue hv (by simp)

private theorem run_closing {elems : List Tree} {ms : List (Bytes × Tree)} {k : Bytes} :
    run ⟨.after, [.arr elems, .obj ms (some k)]⟩ (lit "\n  ]\n\x7d\n") =
      some ⟨.done (.obj ((k, .arr elems.reverse) :: ms).reverse), []⟩ := rfl

/-! ### The whole text -/

private theorem run_written {items : List Item} (h : ∀ i ∈ items, i.Good) (k : Bytes)
    (elems : List Tree) (ms : List (Bytes × Tree)) (prev : Bytes) :
    run ⟨.after, [.arr elems.reverse, .obj ms (some k)]⟩
        (written (some prev) (Item.texts items) ++ lit "\n  ]\n\x7d\n") =
      some ⟨.done (.obj (ms.reverse ++
        groupTrees (groupsFrom continues k elems prev (Item.trees items)))), []⟩ := by
  induction items generalizing k elems ms prev with
  | nil =>
    rw [Item.texts, Item.trees, List.map_nil, List.map_nil, written, List.nil_append, run_closing,
      List.reverse_reverse, List.reverse_cons]
    rfl
  | cons i items ih =>
    obtain ⟨hi, hitems⟩ := List.forall_mem_cons.mp h
    have hw : written (some prev) (Item.texts (i :: items)) =
        lead (some prev) i.name ++ i.text ++ written (some i.name) (Item.texts items) := rfl
    have hg : groupsFrom continues k elems prev (Item.trees (i :: items)) =
        if continues prev i.name then
          groupsFrom continues k (elems ++ [i.tree]) i.name (Item.trees items)
        else (k, elems) :: groupsFrom continues i.name [i.tree] i.name (Item.trees items) := rfl
    rw [hw, hg, List.append_assoc, List.append_assoc, run_append]
    cases hc : continues prev i.name with
    | true =>
      have hs := ih hitems k (elems ++ [i.tree]) ms i.name
      rw [List.reverse_append] at hs
      rw [run_comma hc, Option.bind_some, run_append, run_item (.inl rfl) hi.run, Option.bind_some,
        if_pos rfl]
      exact hs
    | false =>
      rw [run_next hc hi.plain, Option.bind_some, run_append, run_item (.inr rfl) hi.run,
        Option.bind_some, if_neg Bool.false_ne_true, List.reverse_reverse]
      have hs := ih hitems i.name [i.tree] ((k, .arr elems) :: ms) i.name
      rw [List.reverse_singleton, List.reverse_cons, List.append_assoc] at hs
      exact hs

private theorem valid_written {items : List Item} (h : ∀ i ∈ items, i.Good) (prev : Option Bytes) :
    Utf8.valid (written prev (Item.texts items)) = true := by
  induction items generalizing prev with
  | nil => rfl
  | cons i items ih =>
    obtain ⟨hi, hitems⟩ := List.forall_mem_cons.mp h
    have hlead : Utf8.valid (lead prev i.name) = true := by
      unfold lead
      split
      · exact Utf8.valid_append (Utf8.valid_append rfl hi.nameValid) rfl
      · split
        · rfl
        · exact Utf8.valid_append (Utf8.valid_append rfl hi.nameValid) rfl
    exact Utf8.valid_append (Utf8.valid_append hlead hi.textValid) (ih hitems (some i.name))

/-- With plain names the text is one object, its members the groups of the records. -/
theorem parse_document {items : List Item} (h : ∀ i ∈ items, i.Good) :
    parse (document (Item.texts items)) =
      some (.obj (groupTrees (groups continues (Item.trees items)))) := by
  cases items with
  | nil => rfl
  | cons i items =>
    obtain ⟨hi, hitems⟩ := List.forall_mem_cons.mp h
    have hd : document (Item.texts (i :: items)) =
        lead none i.name ++ i.text ++ written (some i.name) (Item.texts items) ++
          lit "\n  ]\n\x7d\n" := rfl
    have hvalid : Utf8.valid (document (Item.texts (i :: items))) = true :=
      Utf8.valid_append (valid_written h none) rfl
    refine parse_of_run hvalid ?_
    rw [hd, List.append_assoc, List.append_assoc, run_append, run_first hi.plain, Option.bind_some,
      run_append, run_item (.inr rfl) hi.run, Option.bind_some]
    exact run_written hitems i.name [i.tree] [] i.name

/-! ### The texts of records -/

section

variable {lib : Libraries} {reader : LmdbReader}

/-- A record's object is an object. -/
theorem recordObject_isObj {entity : EntityDef} {rec : ObjectRecord} {obj : Json}
    (h : recordObject lib reader entity rec = .ok obj) : ∃ ms, obj = .obj ms := by
  obtain ⟨-, _, -, -, -, _, -, rfl⟩ := recordObject_eq_ok.mp h
  exact ⟨_, rfl⟩

/-- The text of a call is one object and a C string. -/
theorem text_of_call (hnl : lib.json.Documented) {k : EntityDef × ObjectRecord} {c : Call}
    (h : callOf lib reader k = .ok c) :
    ∃ trees, parse c.fieldsJson = some (.obj trees) ∧
      c.strings = (cstr k.1.name, c.fieldsJson) := by
  obtain ⟨obj, hobj, htext, hname, -⟩ := callOf_eq_ok.mp h
  obtain ⟨ms, rfl⟩ := recordObject_isObj hobj
  obtain ⟨trees, htrees⟩ := hnl.dump_object htext
  refine ⟨trees, htrees, ?_⟩
  rw [Call.strings, hname, cstr_eq_self (zero_notMem_of_run spells_start (run_of_parse_obj htrees))]

/-- A plain string is not cut. -/
theorem cstr_eq_self_of_plain {s : Bytes} (h : plainString s = true) : cstr s = s := by
  apply cstr_eq_self
  intro h0
  exact absurd (plainString_iff.mp h 0 h0).1 (by decide)

/-- The item of a known record. -/
structure Item.Of (lib : Libraries) (reader : LmdbReader) (k : EntityDef × ObjectRecord)
    (i : Item) : Prop where
  name : i.name = k.1.name
  parse : JsonText.parse i.text = some i.tree
  object : ∃ obj, recordObject lib reader k.1 k.2 = .ok obj ∧ lib.json.dump none obj = .ok i.text

/-- The names of the items are those of the records' entities. -/
theorem names_of_items {R : List (EntityDef × ObjectRecord)} {items : List Item}
    (h : List.Forall₂ (Item.Of lib reader) R items) :
    items.map Item.name = R.map fun k ↦ k.1.name := by
  induction h with
  | nil => rfl
  | cons hi _ ih => rw [List.map_cons, List.map_cons, hi.name, ih]

/-- Records with plain names are written as good items. -/
theorem exists_items (hnl : lib.json.Documented) {R : List (EntityDef × ObjectRecord)}
    {calls : List Call} (h : List.Forall₂ (fun k c ↦ callOf lib reader k = .ok c) R calls)
    (hR : ∀ k ∈ R, plainString k.1.name = true ∧ Utf8.valid k.1.name = true) :
    ∃ items, Item.texts items = calls.map Call.strings ∧ (∀ i ∈ items, i.Good) ∧
      List.Forall₂ (Item.Of lib reader) R items := by
  induction h with
  | nil => exact ⟨[], rfl, by simp, .nil⟩
  | @cons k c _ _ hc _ ih =>
    obtain ⟨⟨hplain, hvalid⟩, hrest⟩ := List.forall_mem_cons.mp hR
    obtain ⟨items, htexts, hgood, hof⟩ := ih hrest
    obtain ⟨trees, htrees, hstrings⟩ := text_of_call hnl hc
    obtain ⟨obj, hobj, htext, -, -⟩ := callOf_eq_ok.mp hc
    refine ⟨⟨k.1.name, c.fieldsJson, .obj trees⟩ :: items, ?_, ?_,
      .cons ⟨rfl, htrees, obj, hobj, htext⟩ hof⟩
    · rw [List.map_cons, hstrings, cstr_eq_self_of_plain hplain, ← htexts]
      rfl
    · intro i hi
      rcases List.mem_cons.mp hi with rfl | hi
      · exact ⟨hplain, hvalid, run_of_parse_obj htrees, valid_of_parse htrees⟩
      · exact hgood i hi

end

end ObDump
