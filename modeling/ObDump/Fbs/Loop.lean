import ObDump.Base.Counter
import ObDump.Fbs.Layout
import ObDump.Schema.Declared

/-!
# The counter of the generator's loop

Library `Fbs`. `src/fbs_gen.cpp:107–149` with the `int` of its loop over the ids,
`for (int id = 1; id <= maxId; ++id)`: a table of an entity whose largest id is the largest `int`
has no end.
-/

namespace ObDump

open Base

/-! ### The generator with its counter -/

/-- The table of an entity put after `out`; `src/fbs_gen.cpp:119–144`. -/
def writeTableLoop (fuel : Nat) (schema : Schema) (entity : EntityDef) (out : Bytes) :
    Counted Bytes :=
  match countTo (fun id out ↦ out ++ writeId entity id) (maxId entity) fuel 1
    (out ++ (lit "table " ++ entity.name ++ lit " \x7b\n")) with
  | .done out =>
    .done (out ++ (entity.relations.flatMap (writeRelation schema) ++ lit "\x7d\n\n"))
  | .overflow => .overflow
  | .running => .running

/-- The loop over the entities; `src/fbs_gen.cpp:118–145`. -/
def writeTablesLoop (fuel : Nat) (schema : Schema) : List EntityDef → Bytes → Counted Bytes
  | [], out => .done out
  | e :: es, out =>
    match writeTableLoop fuel schema e out with
    | .done out => writeTablesLoop fuel schema es out
    | .overflow => .overflow
    | .running => .running

/-- `generateFbs`, `src/fbs_gen.cpp:107–149`, each loop over ids run on the given fuel. -/
def generateFbsLoop (fuel : Nat) (nl : Nlohmann) (modelJson : Bytes) :
    Except Exc (Counted Bytes) := do
  let schema ← Schema.parse nl modelJson
  pure (writeTablesLoop fuel schema schema.all fbsHeader)

/-- The generator ends without overflow, with a table for each entity that has one field for each
id from 1 to the largest. -/
def GeneratesAll (nl : Nlohmann) (modelJson : Bytes) (schema : Schema) : Prop :=
  (∃ fuel, generateFbsLoop fuel nl modelJson = .ok (.done (fbsHeader ++
    schema.all.flatMap fun e ↦
      tableText e.name (fbsFields e) (e.relations.flatMap (writeRelation schema))))) ∧
    ∀ e ∈ schema.entities, ((fbsFields e).length : Int) = maxId e

/-! ### One table -/

private theorem intsTo_one (n : Int) : intsTo 1 n = idsUpTo n := by
  have hn : n + 1 - 1 = n := by omega
  rw [intsTo, idsUpTo, hn]
  apply List.map_congr_left
  intro k _
  omega

private theorem foldl_append {α : Type} (f : α → Bytes) (l : List α) (out : Bytes) :
    l.foldl (fun out a ↦ out ++ f a) out = out ++ l.flatMap f := by
  induction l generalizing out with
  | nil => exact (List.append_nil out).symm
  | cons a l ih => rw [List.foldl_cons, ih, List.flatMap_cons, List.append_assoc]

/-- The fuel with which every loop ends. -/
private def enough : Nat := 2147483648

private theorem writeTableLoop_enough (schema : Schema) {entity : EntityDef}
    (hmax : maxId entity ≤ 2147483647) (out : Bytes) :
    writeTableLoop enough schema entity out =
      if maxId entity = 2147483647 then .overflow else .done (out ++ writeTable schema entity) := by
  have hfuel : 2147483649 - (1 : Int) ≤ enough := by decide
  rw [writeTableLoop, countTo_spec _ hmax (by omega) (by omega) hfuel]
  by_cases h : maxId entity = 2147483647
  · rw [if_pos h, if_pos h]
  · rw [if_neg h, if_neg h, foldl_append, intsTo_one]
    simp only [writeTable, List.append_assoc]

private theorem writeTableLoop_mono (schema : Schema) {entity : EntityDef} {fuel fuel' : Nat}
    (hle : fuel ≤ fuel') {out : Bytes} (h : writeTableLoop fuel schema entity out ≠ .running) :
    writeTableLoop fuel' schema entity out = writeTableLoop fuel schema entity out := by
  unfold writeTableLoop at h ⊢
  rw [countTo_mono _ hle]
  intro hr
  rw [hr] at h
  exact h rfl

/-! ### All tables -/

private theorem writeTablesLoop_mono (schema : Schema) {fuel fuel' : Nat} (hle : fuel ≤ fuel')
    {es : List EntityDef} {out : Bytes} (h : writeTablesLoop fuel schema es out ≠ .running) :
    writeTablesLoop fuel' schema es out = writeTablesLoop fuel schema es out := by
  induction es generalizing out with
  | nil => rfl
  | cons e es ih =>
    rw [writeTablesLoop] at h ⊢
    rw [writeTablesLoop]
    cases ht : writeTableLoop fuel schema e out with
    | done out' =>
      rw [writeTableLoop_mono schema hle (by rw [ht]; simp), ht]
      rw [ht] at h
      exact ih h
    | overflow => rw [writeTableLoop_mono schema hle (by rw [ht]; simp), ht]
    | running =>
      rw [ht] at h
      exact absurd rfl h

private theorem writeTablesLoop_enough (schema : Schema) {es : List EntityDef}
    (hmax : ∀ e ∈ es, maxId e ≤ 2147483647) (out : Bytes) :
    writeTablesLoop enough schema es out =
      if ∃ e ∈ es, maxId e = 2147483647 then .overflow
      else .done (out ++ es.flatMap (writeTable schema)) := by
  induction es generalizing out with
  | nil => simp [writeTablesLoop]
  | cons e es ih =>
    obtain ⟨he, hes⟩ := List.forall_mem_cons.mp hmax
    rw [writeTablesLoop, writeTableLoop_enough schema he]
    by_cases h : maxId e = 2147483647
    · rw [if_pos h, if_pos ⟨e, List.mem_cons_self, h⟩]
    · rw [if_neg h]
      simp only [ih hes, List.exists_mem_cons_iff, h, false_or, List.flatMap_cons,
        List.append_assoc]

private theorem maxId_le {nl : Nlohmann} {modelJson : Bytes} {schema : Schema}
    (h : Schema.parse nl modelJson = .ok schema) {e : EntityDef} (he : e ∈ schema.entities) :
    maxId e ≤ 2147483647 := by
  obtain ⟨entries, ds, -, hds, rfl⟩ := Schema.parse_eq_ok.mp h
  obtain ⟨entry, -, hparsed⟩ := exists_of_forall₂ hds (Schema.mem_of_mem_ofDefs he)
  obtain ⟨v, -, hps⟩ := hparsed.properties
  rcases (maxId_spec e).2 with h0 | ⟨p, hp, hid⟩
  · omega
  · obtain ⟨j, -, hj⟩ := exists_of_forall₂ hps hp
    obtain ⟨str, -, hstr⟩ := hj.id
    have hrange := parseLeadingId_range hstr
    omega

private theorem exists_maxId_iff {schema : Schema}
    (hmax : ∀ e ∈ schema.entities, maxId e ≤ 2147483647) :
    (∃ e ∈ schema.all, maxId e = 2147483647) ↔
      ∃ e ∈ schema.entities, ∃ p ∈ e.properties, p.id = 2147483647 := by
  constructor
  · rintro ⟨e, he, hm⟩
    rcases (maxId_spec e).2 with h0 | ⟨p, hp, hid⟩
    · omega
    · exact ⟨e, Schema.mem_all_iff.mp he, p, hp, hid.trans hm⟩
  · rintro ⟨e, he, p, hp, hid⟩
    have hle := (maxId_spec e).1 p hp
    have hge := hmax e he
    exact ⟨e, Schema.mem_all_iff.mpr he, by omega⟩

private theorem eq_enough {schema : Schema} {fuel : Nat}
    (hmax : ∀ e ∈ schema.all, maxId e ≤ 2147483647)
    (h : writeTablesLoop fuel schema schema.all fbsHeader ≠ .running) :
    writeTablesLoop fuel schema schema.all fbsHeader =
      writeTablesLoop enough schema schema.all fbsHeader := by
  rcases Nat.le_total fuel enough with hle | hle
  · exact (writeTablesLoop_mono schema hle h).symm
  · apply writeTablesLoop_mono schema hle
    rw [writeTablesLoop_enough schema hmax]
    split <;> simp

section

variable {nl : Nlohmann} {modelJson : Bytes} {schema : Schema}
  (h : Schema.parse nl modelJson = .ok schema)

include h

private theorem generateFbsLoop_eq (fuel : Nat) :
    generateFbsLoop fuel nl modelJson =
      .ok (writeTablesLoop fuel schema schema.all fbsHeader) := by
  rw [generateFbsLoop, h]
  rfl

private theorem generateFbsLoop_enough :
    generateFbsLoop enough nl modelJson = .ok
      (if ∃ e ∈ schema.entities, ∃ p ∈ e.properties, p.id = 2147483647 then .overflow
      else .done (fbsHeader ++ schema.all.flatMap fun e ↦
        tableText e.name (fbsFields e) (e.relations.flatMap (writeRelation schema)))) := by
  -- The loop overflows where a property has the largest id.
  have hmax : ∀ e ∈ schema.entities, maxId e ≤ 2147483647 := fun e he ↦ maxId_le h he
  have hfull := writeTablesLoop_enough schema
    (fun e he ↦ hmax e (Schema.mem_all_iff.mp he)) fbsHeader
  rw [generateFbsLoop_eq h, hfull, writeTables_eq]
  simp only [exists_maxId_iff hmax]

private theorem generateFbsLoop_ended {fuel : Nat} {c : Counted Bytes}
    (hc : generateFbsLoop fuel nl modelJson = .ok c) (hne : c ≠ .running) :
    generateFbsLoop enough nl modelJson = .ok c := by
  rw [generateFbsLoop_eq h] at hc ⊢
  have hrun := Except.ok.inj hc
  rw [← hrun] at hne
  rw [← eq_enough (fun e he ↦ maxId_le h (Schema.mem_all_iff.mp he)) hne, hrun]

end

/-- The generator ends, without overflow and with a field for each id, exactly on the accepted
models that give no property the largest id; on the others its counter overflows. -/
theorem generateFbs_ends_iff (nl : Nlohmann) (modelJson : Bytes) (schema : Schema)
    (h : Schema.parse nl modelJson = .ok schema) :
    (GeneratesAll nl modelJson schema ↔
      ∀ e ∈ schema.entities, ∀ p ∈ e.properties, p.id ≠ 2147483647) ∧
    ((∃ fuel, generateFbsLoop fuel nl modelJson = .ok .overflow) ↔
      ∃ e ∈ schema.entities, ∃ p ∈ e.properties, p.id = 2147483647) := by
  have hfull := generateFbsLoop_enough h
  constructor
  · constructor
    · rintro ⟨⟨fuel, hfuel⟩, -⟩ e he p hp hid
      rw [generateFbsLoop_ended h hfuel (by simp), if_pos ⟨e, he, p, hp, hid⟩] at hfull
      cases hfull
    · intro hne
      have hno : ¬ ∃ e ∈ schema.entities, ∃ p ∈ e.properties, p.id = 2147483647 := by
        rintro ⟨e, he, p, hp, hid⟩
        exact hne e he p hp hid
      constructor
      · refine ⟨enough, ?_⟩
        rw [hfull, if_neg hno]
      · intro e _
        rw [length_fbsFields, Int.toNat_of_nonneg (maxId_nonneg e)]
  · constructor
    · rintro ⟨fuel, hfuel⟩
      by_contra hex
      rw [generateFbsLoop_ended h hfuel (by simp), if_neg hex] at hfull
      cases hfull
    · intro hex
      refine ⟨enough, ?_⟩
      rw [hfull, if_pos hex]

/-- The generator on a model of one entity. -/
theorem generateFbs_ends_iff_sample : ∃ schema, Schema.parse .reference gapModel = .ok schema ∧
    (GeneratesAll .reference gapModel schema ↔
      ∀ e ∈ schema.entities, ∀ p ∈ e.properties, p.id ≠ 2147483647) ∧
    ((∃ fuel, generateFbsLoop fuel .reference gapModel = .ok .overflow) ↔
      ∃ e ∈ schema.entities, ∃ p ∈ e.properties, p.id = 2147483647) := by
  obtain ⟨schema, hparse, -⟩ := Schema.parse_of_entities gapModel_entities
  exact ⟨schema, hparse, generateFbs_ends_iff .reference gapModel schema hparse⟩

/-! ### The largest id -/

private def largestModel : Bytes :=
  lit "\x7b\"entities\":[\x7b\"id\":\"1:5\",\"name\":\"Plant\",\"properties\":[" ++
    lit "\x7b\"id\":\"2147483647:6\",\"name\":\"height\",\"type\":5\x7d]\x7d]\x7d"

private def largestEntity : EntityDef :=
  ⟨1, lit "Plant", [⟨2147483647, lit "height", .int, false, 0⟩], []⟩

private theorem largestModel_entities :
    (Schema.parse .reference largestModel).map Schema.entities = .ok [largestEntity] := by
  decide +kernel

/-- The model is accepted, and no run of the generator on it ends with a text. -/
theorem generateFbs_overflows : ∃ schema, Schema.parse .reference largestModel = .ok schema ∧
    (∀ fuel text, generateFbsLoop fuel .reference largestModel ≠ .ok (.done text)) ∧
      ¬ GeneratesAll .reference largestModel schema := by
  obtain ⟨schema, hparse, hs⟩ := Schema.parse_of_entities largestModel_entities
  have hex : ∃ e ∈ schema.entities, ∃ p ∈ e.properties, p.id = 2147483647 := by
    rw [hs]
    exact ⟨largestEntity, List.mem_cons_self, _, List.mem_cons_self, rfl⟩
  have hno : ∀ fuel text, generateFbsLoop fuel .reference largestModel ≠ .ok (.done text) := by
    intro fuel text hdone
    have hfull := generateFbsLoop_enough hparse
    rw [generateFbsLoop_ended hparse hdone (by simp), if_pos hex] at hfull
    cases hfull
  refine ⟨schema, hparse, hno, ?_⟩
  rintro ⟨⟨fuel, hfuel⟩, -⟩
  exact hno fuel _ hfuel

end ObDump
