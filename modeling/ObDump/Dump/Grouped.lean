import ObDump.Dump.Stream

/-!
# The in-memory dump is the stream, grouped

Library `Dump`. `dumpToJson` appends each record's object to the array of its entity's name.
The value it serialises is the full sequence of named objects, grouped.
-/

namespace ObDump

open Base

/-! ### Grouping -/

/-- The objects of a name, in order. -/
def objectsNamed (name : Bytes) (named : List (Bytes × Json)) : List Json :=
  (named.filter fun e ↦ e.1 = name).map Prod.snd

/-- Named objects grouped: one member for each name that occurs. -/
def grouped (named : List (Bytes × Json)) : Json :=
  Json.object ((named.map Prod.fst).dedup.map fun name ↦ (name, .arr (objectsNamed name named)))

private theorem map_fst_arrays (named : List (Bytes × Json)) (names : List Bytes) :
    (names.map fun name ↦ (name, Json.arr (objectsNamed name named))).map Prod.fst = names := by
  rw [List.map_map]
  exact List.map_id names

/-- The member of a name that occurs is the array of its objects, and there is no other. -/
theorem get?_grouped (named : List (Bytes × Json)) (name : Bytes) :
    (grouped named).get? name =
      if name ∈ named.map Prod.fst then some (.arr (objectsNamed name named)) else none := by
  simp only [grouped, Json.object, Json.get?]
  split
  · next h =>
    apply Members.lookup_insertAll_of_mem
    · rw [map_fst_arrays]
      exact List.nodup_dedup _
    · exact List.mem_map.mpr ⟨name, List.mem_dedup.mpr h, rfl⟩
  · next h =>
    rw [Members.lookup_insertAll_of_notMem, Members.lookup_nil]
    rw [map_fst_arrays, List.mem_dedup]
    exact h

private theorem grouped_eq_obj (named : List (Bytes × Json)) :
    ∃ ms, grouped named = .obj ms ∧ Members.Ordered ms :=
  ⟨_, rfl, Members.ordered_insertAll _ Members.ordered_nil⟩

private theorem objectsNamed_append (name : Bytes) (named : List (Bytes × Json))
    (e : Bytes × Json) : objectsNamed name (named ++ [e]) =
      objectsNamed name named ++ if e.1 = name then [e.2] else [] := by
  by_cases h : e.1 = name
  · simp [objectsNamed, List.filter_append, h]
  · simp [objectsNamed, List.filter_append, h]

private theorem objectsNamed_eq_nil {name : Bytes} {named : List (Bytes × Json)}
    (h : name ∉ named.map Prod.fst) : objectsNamed name named = [] := by
  rw [objectsNamed, List.map_eq_nil_iff, List.filter_eq_nil_iff]
  intro e he hn
  exact h (List.mem_map.mpr ⟨e, he, of_decide_eq_true hn⟩)

/-- Appending one object is grouping one more. -/
theorem appendTo_grouped (named : List (Bytes × Json)) (e : Bytes × Json) :
    appendTo (grouped named) e.1 e.2 = grouped (named ++ [e]) := by
  have hval : appendTo (grouped named) e.1 e.2 =
      (grouped named).set e.1 (.arr (objectsNamed e.1 (named ++ [e]))) := by
    rw [appendTo, get?_grouped, objectsNamed_append, if_pos rfl]
    split
    · rfl
    · next h =>
      rw [objectsNamed_eq_nil h]
      rfl
  obtain ⟨ms, hms, ho⟩ := grouped_eq_obj named
  obtain ⟨ns, hns, ho'⟩ := grouped_eq_obj (named ++ [e])
  have hm : ∀ name, Members.lookup ms name = (grouped named).get? name := by
    intro name
    rw [hms]
    rfl
  have hn : ∀ name, Members.lookup ns name = (grouped (named ++ [e])).get? name := by
    intro name
    rw [hns]
    rfl
  rw [hval, hms, hns]
  refine congrArg Json.obj (Members.ext (Members.ordered_insert _ _ ho) ho' fun name ↦ ?_)
  rw [Members.lookup_insert, hm, hn, get?_grouped, get?_grouped]
  by_cases h : name = e.1
  · simp [h]
  · rw [if_neg h, objectsNamed_append, if_neg (Ne.symm h), List.append_nil]
    exact if_congr (by simp [h]) rfl rfl

private theorem foldl_appendTo (pre named : List (Bytes × Json)) :
    named.foldl (fun result e ↦ appendTo result e.1 e.2) (grouped pre) =
      grouped (pre ++ named) := by
  induction named generalizing pre with
  | nil => rw [List.append_nil, List.foldl_nil]
  | cons e named ih =>
    rw [List.foldl_cons, appendTo_grouped, ih, List.append_assoc, List.singleton_append]

/-- Grouping is appending one object after the other. -/
theorem grouped_eq_foldl (named : List (Bytes × Json)) :
    grouped named = named.foldl (fun result e ↦ appendTo result e.1 e.2) (.obj []) :=
  (foldl_appendTo [] named).symm

/-- Grouped objects have a text exactly when every name and every object has one. -/
theorem encodable_grouped (named : List (Bytes × Json)) :
    (grouped named).encodable = true ↔
      ∀ e ∈ named, Utf8.valid e.1 = true ∧ e.2.encodable = true := by
  constructor
  · intro h e he
    obtain ⟨ms, hms, ho⟩ := grouped_eq_obj named
    have hm : ∀ name, Members.lookup ms name = (grouped named).get? name := by
      intro name
      rw [hms]
      rfl
    rw [hms, Json.encodable_obj_iff_lookup ho] at h
    simp only [hm, get?_grouped] at h
    have hk : e.1 ∈ named.map Prod.fst := List.mem_map_of_mem he
    obtain ⟨hv, ha⟩ := h e.1 _ (if_pos hk)
    refine ⟨hv, (Json.encodable_arr _).mp ha e.2 ?_⟩
    exact List.mem_map_of_mem (List.mem_filter.mpr ⟨he, decide_eq_true rfl⟩)
  · intro h
    apply Json.encodable_object
    intro m hmem
    obtain ⟨name, hname, rfl⟩ := List.mem_map.mp hmem
    obtain ⟨e, he, rfl⟩ := List.mem_map.mp (List.mem_dedup.mp hname)
    refine ⟨(h e he).1, (Json.encodable_arr _).mpr ?_⟩
    intro x hx
    obtain ⟨f, hf, rfl⟩ := List.mem_map.mp hx
    exact (h f (List.mem_filter.mp hf).1).2

/-- Grouped objects read back when each of them does. -/
theorem inverseOn_grouped {nl : Nlohmann} (hnl : nl.Documented) {named : List (Bytes × Json)}
    (h : nl.InverseOn (· ∈ named.map Prod.snd)) : nl.InverseOn (· = grouped named) := by
  apply hnl.inverse_settings
  intro v hv
  rw [List.map_map] at hv
  obtain ⟨name, -, rfl⟩ := List.mem_map.mp hv
  have harr : nl.InverseOn (· = .arr (objectsNamed name named)) := by
    apply hnl.inverse_array
    intro x hx
    obtain ⟨f, hf, rfl⟩ := List.mem_map.mp hx
    exact h f.2 (List.mem_map_of_mem (List.mem_filter.mp hf).1)
  exact harr _ rfl

/-! ### The in-memory dump -/

/-- The object of a known record, under its entity's name. -/
def namedObject (lib : Libraries) (reader : LmdbReader) (k : EntityDef × ObjectRecord) :
    Except Exc (Bytes × Json) := do
  let obj ← recordObject lib reader k.1 k.2
  pure (k.1.name, obj)

section

variable {lib : Libraries} {schema : Schema} {reader : LmdbReader}

private theorem deliver_inMemory {recs : List ObjectRecord} {named : List (Bytes × Json)}
    (h : (schema.known recs).mapM (namedObject lib reader) = .ok named) (result : Json) :
    deliver (dumpToJsonRecord lib schema reader) recs result =
      (named.foldl (fun result e ↦ appendTo result e.1 e.2) result, .ok ()) := by
  induction recs generalizing named result with
  | nil =>
    cases h
    rfl
  | cons rec recs ih =>
    rw [deliver, dumpToJsonRecord_eq]
    cases hf : schema.find rec.entityId with
    | none =>
      rw [Schema.known_cons_of_none hf] at h
      exact ih h result
    | some entity =>
      rw [Schema.known_cons_of_some hf, List.mapM_cons] at h
      obtain ⟨e, he, h⟩ := bind_eq_ok.mp h
      obtain ⟨es, hes, h⟩ := bind_eq_ok.mp h
      cases h
      obtain ⟨obj, hobj, he⟩ := bind_eq_ok.mp he
      cases he
      simp only [hobj]
      exact ih hes _

/-- A dump whose model and store open, and whose known records all have an object,
serialises them grouped. -/
theorem dumpToJson_eq {sys : System} {mdbPath modelJson : Bytes} {store : Store}
    (hparse : Schema.parse lib.json modelJson = .ok schema)
    (hopen : LmdbReader.ofPath sys mdbPath = .ok reader) (hs : reader.txn.Serves store)
    {named : List (Bytes × Json)}
    (h : (schema.known store.records).mapM (namedObject lib reader) = .ok named) :
    dumpToJson lib sys mdbPath modelJson = lib.json.dumpText (some 2) (grouped named) := by
  simp only [dumpToJson, hparse, hopen, ok_bind, LmdbReader.forEachObject_eq hs,
    deliver_inMemory h]
  rw [← grouped_eq_foldl]

end

end ObDump
