import ObDump.Cli.Document

/-!
# The command agrees with the in-memory dump

Library `Cli`. Keys of the documented form put the records of one entity next to each other,
so grouping consecutive records is grouping by name: the text the command streams and the
text `dumpToJson` builds in memory have one JSON value.
-/

namespace ObDump

open Base JsonText

/-! ### Consecutive groups -/

/-- Groups as members. -/
def groupMembers (gs : List (Bytes × List Json)) : List (Bytes × Json) :=
  gs.map fun g ↦ (g.1, .arr g.2)

private theorem appendTo_new {es : List (Bytes × Json)} {name : Bytes} (obj : Json)
    (h : name ∉ es.map Prod.fst) :
    appendTo (Json.object es) name obj = Json.object (es ++ [(name, .arr [obj])]) := by
  have hget : (Json.object es).get? name = none := by
    rw [Json.object, Json.get?, Members.lookup_insertAll_of_notMem _ _ h, Members.lookup_nil]
  rw [appendTo, hget, Json.object, Json.object, Members.insertAll_append]
  rfl

private theorem appendTo_last (es : List (Bytes × Json)) (name : Bytes) (xs : List Json)
    (obj : Json) : appendTo (Json.object (es ++ [(name, .arr xs)])) name obj =
      Json.object (es ++ [(name, .arr (xs ++ [obj]))]) := by
  have hget : (Json.object (es ++ [(name, .arr xs)])).get? name = some (.arr xs) :=
    Members.lookup_insertAll_of_last [] es [] name _ (by simp)
  rw [appendTo, hget]
  simp only [Json.object, Members.insertAll_append]
  exact congrArg Json.obj
    (Members.insert_insert name _ _ (Members.ordered_insertAll es Members.ordered_nil))

private theorem foldl_appendTo_groups {seen : List Bytes} {prev : Bytes} (xs : List Json)
    {rest : List (Bytes × Json)} {ms : List (Bytes × Json)}
    (h : ContiguousFrom continues seen prev (rest.map Prod.fst))
    (hms : ∀ name ∈ ms.map Prod.fst, name ∈ seen) :
    rest.foldl (fun result e ↦ appendTo result e.1 e.2)
        (Json.object (ms ++ [(prev, .arr xs)])) =
      Json.object (ms ++ groupMembers (groupsFrom continues prev xs prev rest)) := by
  -- A name that comes again comes next, so its object goes to the last group.
  induction rest generalizing seen prev xs ms with
  | nil => rfl
  | cons e rest ih =>
    obtain ⟨hk, hrest⟩ := h
    rw [List.foldl_cons, groupsFrom]
    rcases hk with ⟨hj, he⟩ | ⟨hj, hnew⟩
    · rw [if_pos hj, he, appendTo_last]
      rw [he] at hrest
      exact ih (xs ++ [e.2]) hrest fun name hn ↦ List.mem_cons_of_mem _ (hms name hn)
    · have hne : e.1 ∉ (ms ++ [(prev, Json.arr xs)]).map Prod.fst := by
        rw [List.map_append, List.mem_append]
        rintro (hm | hm)
        · exact hnew (List.mem_cons_of_mem _ (hms e.1 hm))
        · exact hnew (List.mem_cons.mpr (.inl (List.mem_singleton.mp hm)))
      rw [if_neg (by simp [hj]), appendTo_new e.2 hne]
      have hseen : ∀ name ∈ (ms ++ [(prev, Json.arr xs)]).map Prod.fst, name ∈ prev :: seen := by
        intro name hn
        rw [List.map_append, List.mem_append] at hn
        rcases hn with hn | hn
        · exact List.mem_cons_of_mem _ (hms name hn)
        · exact List.mem_cons.mpr (.inl (List.mem_singleton.mp hn))
      rw [ih [e.2] hrest hseen, List.append_assoc]
      rfl

/-- Contiguous names: grouping consecutive objects is grouping by name. -/
theorem object_groups {named : List (Bytes × Json)}
    (h : ∀ k ks, named.map Prod.fst = k :: ks → ContiguousFrom continues [] k ks) :
    Json.object (groupMembers (groups continues named)) = grouped named := by
  rw [grouped_eq_foldl]
  cases named with
  | nil => rfl
  | cons e rest =>
    have hnil : e.1 ∉ ([] : List (Bytes × Json)).map Prod.fst := List.not_mem_nil
    have hfirst : appendTo (.obj []) e.1 e.2 = Json.object ([] ++ [(e.1, .arr [e.2])]) :=
      appendTo_new e.2 hnil
    rw [List.foldl_cons, hfirst, foldl_appendTo_groups [e.2] (h e.1 _ rfl) (by simp)]
    rfl

/-! ### Records of one entity are contiguous -/

/-- Names that the command's buffer and its text keep as they are, one for each entity. -/
structure Schema.PlainNames (schema : Schema) : Prop where
  distinct : (schema.entities.map EntityDef.name).Nodup
  length : ∀ e ∈ schema.entities, 1 ≤ e.name.length ∧ e.name.length ≤ 255
  plain : ∀ e ∈ schema.entities, plainString e.name = true

section

variable {schema : Schema}

private theorem continues_iff (hn : schema.PlainNames) {d e : EntityDef}
    (hd : d ∈ schema.entities) (he : e ∈ schema.entities) :
    continues d.name e.name = true ↔ d.name = e.name := by
  have hne : e.name ≠ [] := by
    intro h
    have hl := (hn.length e he).1
    rw [h] at hl
    exact absurd hl (by simp)
  rw [continues, decide_eq_true_iff, List.take_of_length_le (hn.length d hd).2]
  exact ⟨And.right, fun h ↦ ⟨hne, h⟩⟩

private theorem name_ne (hn : schema.PlainNames) {a b : EntityDef × ObjectRecord}
    (ha : schema.find a.2.entityId = some a.1) (hb : schema.find b.2.entityId = some b.1)
    (hid : a.2.entityId ≠ b.2.entityId) : a.1.name ≠ b.1.name := by
  intro hname
  have hae := Schema.mem_of_find ha
  have hbe := Schema.mem_of_find hb
  have he : a.1 = b.1 := List.inj_on_of_nodup_map hn.distinct hae.1 hbe.1 hname
  exact hid (by rw [← hae.2, he, hbe.2])

private theorem contiguous_known (hn : schema.PlainNames)
    {before rest : List (EntityDef × ObjectRecord)} {p : EntityDef × ObjectRecord}
    (hfind : ∀ k ∈ before ++ p :: rest, schema.find k.2.entityId = some k.1)
    (hle : ∀ b ∈ before, b.2.entityId ≤ p.2.entityId)
    (hsorted : (p :: rest).Pairwise fun a b ↦ a.2.entityId ≤ b.2.entityId) :
    ContiguousFrom continues (before.map fun k ↦ k.1.name) p.1.name
      (rest.map fun k ↦ k.1.name) := by
  induction rest generalizing before p with
  | nil => trivial
  | cons q rest ih =>
    obtain ⟨hp, htail⟩ := List.pairwise_cons.mp hsorted
    have hpq := hp q List.mem_cons_self
    have hq := hfind q (by simp)
    have hqe := Schema.mem_of_find hq
    have hpe := Schema.mem_of_find (hfind p (by simp))
    have hfind' : ∀ k ∈ (p :: before) ++ q :: rest, schema.find k.2.entityId = some k.1 := by
      intro k hk
      apply hfind
      simp only [List.mem_append, List.mem_cons] at hk ⊢
      tauto
    have hle' : ∀ b ∈ p :: before, b.2.entityId ≤ q.2.entityId := by
      intro b hb
      rcases List.mem_cons.mp hb with rfl | hb
      · exact hpq
      · exact le_trans (hle b hb) hpq
    refine ⟨?_, ih hfind' hle' htail⟩
    by_cases hid : p.2.entityId = q.2.entityId
    · have he : p.1 = q.1 := by
        have hfp := hfind p (by simp)
        rw [hid, hq] at hfp
        exact (Option.some.inj hfp).symm
      exact .inl ⟨(continues_iff hn hpe.1 hqe.1).mpr (by rw [he]), by rw [he]⟩
    · have hfresh : ∀ b ∈ p :: before, b.1.name ≠ q.1.name := by
        intro b hb
        apply name_ne hn (hfind' b (List.mem_append_left _ hb)) hq
        rcases List.mem_cons.mp hb with rfl | hb
        · exact hid
        · have hbp := hle b hb
          omega
      refine .inr ⟨?_, ?_⟩
      · rw [Bool.eq_false_iff, ne_eq, continues_iff hn hpe.1 hqe.1]
        exact hfresh p List.mem_cons_self
      · intro hm
        have hm' : q.1.name ∈ (p :: before).map fun k ↦ k.1.name := hm
        obtain ⟨b, hb, hname⟩ := List.mem_map.mp hm'
        exact hfresh b hb hname

/-- In a store of documented keys the names of the known records are contiguous. -/
theorem contiguous_names (hn : schema.PlainNames) {store : Store} (hd : store.Documented)
    {k : Bytes} {ks : List Bytes}
    (h : (schema.known store.records).map (fun k ↦ k.1.name) = k :: ks) :
    ContiguousFrom continues [] k ks := by
  have hsorted : (schema.known store.records).Pairwise
      fun a b ↦ a.2.entityId ≤ b.2.entityId := by
    refine List.pairwise_filterMap.mpr ((Store.records_sorted hd).imp ?_)
    intro a b hab x hx y hy
    obtain ⟨_, -, rfl⟩ := Option.map_eq_some_iff.mp hx
    obtain ⟨_, -, rfl⟩ := Option.map_eq_some_iff.mp hy
    unfold ObjectRecord.Before at hab
    change a.entityId ≤ b.entityId
    omega
  have hfind : ∀ k ∈ schema.known store.records, schema.find k.2.entityId = some k.1 :=
    fun k hk ↦ (Schema.mem_known_iff.mp hk).2
  cases hR : schema.known store.records with
  | nil =>
    rw [hR] at h
    cases h
  | cons p rest =>
    rw [hR] at h hsorted hfind
    cases h
    have hnone : ∀ b ∈ ([] : List (EntityDef × ObjectRecord)),
        b.2.entityId ≤ p.2.entityId := by simp
    exact contiguous_known hn hfind hnone hsorted

end

/-! ### One value -/

private theorem values_eq_map (num : Bytes → Json) (xs : List Tree) :
    Tree.values num xs = xs.map (Tree.value num) := by
  induction xs with
  | nil => rfl
  | cons x xs ih =>
    rw [Tree.values, ih]
    rfl

private theorem memberValues_groupTrees (num : Bytes → Json) (gs : List (Bytes × List Tree)) :
    Tree.memberValues num (groupTrees gs) =
      groupMembers (gs.map fun g ↦ (g.1, g.2.map (Tree.value num))) := by
  induction gs with
  | nil => rfl
  | cons g gs ih =>
    rw [List.map_cons, ← values_eq_map]
    exact congrArg _ ih

private theorem value_groups (num : Bytes → Json) (items : List Item) :
    Tree.value num (.obj (groupTrees (groups continues (Item.trees items)))) =
      Json.object (groupMembers (groups continues
        (items.map fun i ↦ (i.name, i.tree.value num)))) := by
  have hm : items.map (fun i ↦ (i.name, i.tree.value num)) =
      (Item.trees items).map fun e ↦ (e.1, Tree.value num e.2) := by
    rw [Item.trees, List.map_map]
    rfl
  rw [hm, groups_map, ← memberValues_groupTrees]
  rfl

private theorem named_of_items {lib : Libraries} {reader : LmdbReader}
    {R : List (EntityDef × ObjectRecord)} {items : List Item}
    (h : List.Forall₂ (Item.Of lib reader) R items)
    (hinv : ∀ k ∈ R, ∀ v t, recordObject lib reader k.1 k.2 = .ok v →
      lib.json.dump none v = .ok t → read lib.json.number t = some v) :
    R.mapM (namedObject lib reader) =
      .ok (items.map fun i ↦ (i.name, i.tree.value lib.json.number)) := by
  rw [mapM_eq_ok]
  induction h with
  | nil => exact .nil
  | @cons k i _ _ hi _ ih =>
    obtain ⟨hk, hrest⟩ := List.forall_mem_cons.mp hinv
    obtain ⟨obj, hobj, htext⟩ := hi.object
    have hread := hk obj i.text hobj htext
    rw [JsonText.read, hi.parse, Option.map_some, Option.some.injEq] at hread
    subst hread
    exact .cons (namedObject_eq_ok.mpr ⟨hi.name, hobj⟩) (ih hrest)

private theorem map_fst_named (num : Bytes → Json) (items : List Item) :
    (items.map fun i ↦ (i.name, i.tree.value num)).map Prod.fst = items.map Item.name := by
  rw [List.map_map]
  rfl

/-- For entity names that need no escaping, differ and fit the buffer, and a store of
documented keys whose known records all decode and serialise, the command writes one object
with no member twice, of the same value as the text of `dumpToJson`. -/
theorem run_json_agrees (lib : Libraries) (hnl : lib.json.Documented) (sys : System)
    (files : Files) (argv : List Bytes) (model : Bytes) (schema : Schema) (reader : LmdbReader)
    (store : Store) (hrun : JsonRun lib sys files argv model schema reader store)
    (hnames : schema.PlainNames) (hdoc : store.Documented)
    (hok : ∀ k ∈ schema.known store.records, ∃ c, callOf lib reader k = .ok c)
    (hinv : lib.json.InverseOn fun v ↦
      ∃ k ∈ schema.known store.records, recordObject lib reader k.1 k.2 = .ok v) :
    ∃ trees result v, (run_json lib sys files argv).status = 0 ∧
      parse (run_json lib sys files argv).text = some (.obj trees) ∧
      (trees.map Prod.fst).Nodup ∧
      dumpToJson lib sys (cstr (argv.getD 2 [])) (cstr model) = .ok result ∧
      read lib.json.number (run_json lib sys files argv).text = some v ∧
      read lib.json.number result = some v ∧
      (schema.known store.records = [] → v = .obj []) := by
  obtain ⟨calls, hcalls⟩ := exists_mapM_eq_ok hok
  have hR : ∀ k ∈ schema.known store.records,
      plainString k.1.name = true ∧ Utf8.valid k.1.name = true := by
    intro k hk
    have he := Schema.mem_of_known hk
    exact ⟨hnames.plain _ he, (Schema.parse_namesValid hnl hrun.parses _ he).name⟩
  obtain ⟨items, htexts, hgood, hof⟩ := exists_items hnl (mapM_eq_ok.mp hcalls) hR
  have hnamed := named_of_items hof fun k hk v t hv ht ↦ hinv v ⟨k, hk, hv⟩ none t ht
  obtain ⟨named, result, hnamed', -, hdump, hresult⟩ :=
    dumpToJson_of_calls hnl hrun.parses hrun.opens hrun.serves hcalls
  rw [hnamed] at hnamed'
  cases hnamed'
  have hobjects : lib.json.InverseOn
      (· ∈ (items.map fun i ↦ (i.name, i.tree.value lib.json.number)).map Prod.snd) := by
    intro v hv
    obtain ⟨e, he, rfl⟩ := List.mem_map.mp hv
    obtain ⟨k, hk, hke⟩ := mem_of_mapM_eq_ok hnamed he
    exact hinv e.2 ⟨k, hk, (namedObject_eq_ok.mp hke).2⟩
  have hitems := names_of_items hof
  have hcontig : ∀ k ks, items.map Item.name = k :: ks → ContiguousFrom continues [] k ks := by
    intro k ks h
    rw [hitems] at h
    exact contiguous_names hnames hdoc h
  have hparse := parse_document hgood
  refine ⟨groupTrees (groups continues (Item.trees items)), result, _, ?_, ?_, ?_, hresult, ?_,
    inverseOn_grouped hnl hobjects _ rfl (some 2) result hdump, ?_⟩
  · rw [run_json_of_calls hrun hcalls]
  · rw [run_json_of_calls hrun hcalls, ← htexts]
    exact hparse
  · rw [map_fst_groupTrees]
    cases hn : items.map Item.name with
    | nil => exact List.nodup_nil
    | cons k ks => exact nodup_begins (hcontig k ks hn)
  · rw [run_json_of_calls hrun hcalls, ← htexts, JsonText.read, hparse,
      Option.map_some, value_groups, object_groups (by rwa [map_fst_named])]
  · intro hnone
    rw [hnone, List.map_nil, List.map_eq_nil_iff] at hitems
    rw [hitems]
    rfl

/-! ### The notes on the command line -/

/-- The arguments of a run to `stdout`. -/
def noteArgs : List Bytes := [lit "ob-dump", lit "--json", lit "data.mdb", lit "model.json"]

/-- A file system with the model. -/
def noteFiles : Files := ⟨fun _ ↦ some noteModel, fun _ ↦ true⟩

/-- The run of the command on the notes is in order. -/
theorem note_run : ∃ hd, JsonRun .reference noteStore.system noteFiles noteArgs noteModel
    ⟨[noteEntity], hd⟩ noteStore.reader noteStore := by
  have hent : (Schema.parse .reference (cstr noteModel)).map Schema.entities =
      .ok [noteEntity] := by decide +kernel
  obtain ⟨⟨_, hd⟩, hparse, rfl⟩ := Schema.parse_of_entities hent
  exact ⟨hd, by decide, rfl, fun _ _ ↦ rfl, hparse, rfl, noteStore.txn_serves⟩

/-- The keys of the sample store have the documented form. -/
theorem note_documented : noteStore.Documented := by
  unfold Store.Documented IsDataKey DocumentedKey
  decide

/-! ### A floating-point field -/

/-- A model of one entity with a weight. -/
private def parcelModel : Bytes :=
  lit "\x7b\"entities\":[\x7b\"id\":\"1:5\",\"name\":\"Parcel\",\"properties\":[" ++
    lit "\x7b\"id\":\"1:6\",\"name\":\"weight\",\"type\":7\x7d]\x7d]\x7d"

private def parcelEntity : EntityDef :=
  ⟨1, lit "Parcel", [⟨1, lit "weight", .float, false, 0⟩], []⟩

/-- A parcel of weight 1.5. -/
private def parcelRecord : Bytes :=
  [12, 0, 0, 0, 6, 0, 8, 0, 4, 0, 0, 0, 8, 0, 0, 0, 0, 0, 0xC0, 0x3F]

private def parcelStore : Store := ⟨[(dataKey 1 3, parcelRecord)], by decide⟩

/-- A file system with the model. -/
private def parcelFiles : Files := ⟨fun _ ↦ some parcelModel, fun _ ↦ true⟩

private theorem parcel_names (hd : ([parcelEntity].map EntityDef.entityId).Nodup) :
    Schema.PlainNames ⟨[parcelEntity], hd⟩ where
  distinct := List.nodup_singleton _
  length := List.forall_mem_singleton.mpr (by decide)
  plain := List.forall_mem_singleton.mpr (by decide)

private theorem parcel_inverse :
    Nlohmann.InverseOn .reference
      (· = .obj [(lit "id", .int 3), (lit "weight", .float64 0x3FF8000000000000)]) := by
  apply Nlohmann.reference_inverseOn_iff.mpr
  rintro v rfl -
  rfl

/-- A run over a floating-point field. -/
theorem run_json_agrees_sample : ∃ trees result v,
    (run_json .reference parcelStore.system parcelFiles noteArgs).status = 0 ∧
      parse (run_json .reference parcelStore.system parcelFiles noteArgs).text =
        some (.obj trees) ∧
      (trees.map Prod.fst).Nodup ∧
      dumpToJson .reference parcelStore.system (lit "data.mdb") (cstr parcelModel) = .ok result ∧
      JsonText.read Nlohmann.referenceNumber
        (run_json .reference parcelStore.system parcelFiles noteArgs).text = some v ∧
      JsonText.read Nlohmann.referenceNumber result = some v := by
  have hent : (Schema.parse .reference (cstr parcelModel)).map Schema.entities =
      .ok [parcelEntity] := by decide +kernel
  obtain ⟨⟨_, hd⟩, hparse, rfl⟩ := Schema.parse_of_entities hent
  have hknown : Schema.known ⟨[parcelEntity], hd⟩ parcelStore.records =
      [(parcelEntity, ⟨1, 3, parcelRecord⟩)] := rfl
  have hdoc : parcelStore.Documented := by
    unfold Store.Documented IsDataKey DocumentedKey
    decide
  obtain ⟨trees, result, v, h⟩ := run_json_agrees .reference Nlohmann.reference_documented
    parcelStore.system parcelFiles noteArgs parcelModel _ parcelStore.reader parcelStore
    ⟨by decide, rfl, fun _ _ ↦ rfl, hparse, rfl, parcelStore.txn_serves⟩ (parcel_names hd) hdoc
    (by
      rw [hknown]
      exact List.forall_mem_singleton.mpr ⟨_, rfl⟩)
    (by
      rw [hknown]
      rintro v ⟨k, hk, hv⟩
      rw [List.mem_singleton.mp hk] at hv
      cases hv
      exact parcel_inverse _ rfl)
  exact ⟨trees, result, v, h.1, h.2.1, h.2.2.1, h.2.2.2.1, h.2.2.2.2.1, h.2.2.2.2.2.1⟩

end ObDump
