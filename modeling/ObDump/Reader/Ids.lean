import ObDump.Json.Print
import ObDump.Reader.Relations
import ObDump.Schema.Parse

/-!
# Ids and the byte a key has for them

Library `Reader`. A key holds a relation id or an entity id in the high six bits of one
byte. The model's ids are `int`s, and `toManyTargets` drops the bits that do not fit.
-/

namespace ObDump

open Base

/-- Two declared relations with different ids never search the same range. -/
def RelationsSeparate (s : Schema) : Prop :=
  ∀ e₁ ∈ s.entities, ∀ r₁ ∈ e₁.relations, ∀ e₂ ∈ s.entities, ∀ r₂ ∈ e₂.relations, r₁.id ≠ r₂.id →
    ∀ source, LmdbReader.searchPrefix r₁.id source ≠ LmdbReader.searchPrefix r₂.id source

/-- Every declared entity id is the one read from some key of object data. -/
def EntitiesReachable (s : Schema) : Prop :=
  ∀ e ∈ s.entities, ∃ key value rec, IsDataKey key ∧ objectRecord (key, value) = some rec ∧
    rec.entityId = e.entityId

/-- The model's ids fit the byte: different relation ids differ in their low six bits, and
every entity id is one of 0 to 63. -/
structure IdsFit (s : Schema) : Prop where
  relations : ∀ e₁ ∈ s.entities, ∀ r₁ ∈ e₁.relations, ∀ e₂ ∈ s.entities, ∀ r₂ ∈ e₂.relations,
    r₁.id ≠ r₂.id → r₁.id % 64 ≠ r₂.id % 64
  entities : ∀ e ∈ s.entities, 0 ≤ e.entityId ∧ e.entityId ≤ 63

/-- Search prefixes agree exactly when the ids do in their low six bits. -/
theorem searchPrefix_eq_iff (a b : Int) (source : UInt32) :
    LmdbReader.searchPrefix a source = LmdbReader.searchPrefix b source ↔ a % 64 = b % 64 := by
  have hbyte : LmdbReader.searchPrefix a source = LmdbReader.searchPrefix b source ↔
      LmdbReader.relationByte a = LmdbReader.relationByte b := by
    simp only [LmdbReader.searchPrefix, List.cons_append, List.nil_append, List.cons.injEq,
      true_and, and_true]
  rw [hbyte, ← UInt8.toNat_inj, LmdbReader.toNat_relationByte, LmdbReader.toNat_relationByte]
  omega

/-- The ids that a key of object data can hold. -/
theorem exists_dataKey_iff (id : Int) :
    (∃ key value rec, IsDataKey key ∧ objectRecord (key, value) = some rec ∧ rec.entityId = id) ↔
      0 ≤ id ∧ id ≤ 63 := by
  constructor
  · rintro ⟨key, value, rec, hk, hr, rfl⟩
    rw [objectRecord, if_pos (show _ ∧ _ from hk)] at hr
    cases hr
    have hlt : (key.getD 3 0).toNat < 256 := (key.getD 3 0).toNat_lt
    simp only
    omega
  · rintro ⟨h0, h63⟩
    obtain ⟨n, rfl⟩ := Int.eq_ofNat_of_zero_le h0
    exact ⟨dataKey n 0, [], _, ⟨rfl, rfl⟩, objectRecord_dataKey (by omega) 0 [], rfl⟩

/-- Ids are never confused or lost exactly when they fit the byte. -/
theorem ids_exact_iff (s : Schema) : RelationsSeparate s ∧ EntitiesReachable s ↔ IdsFit s := by
  have hrel : RelationsSeparate s ↔ ∀ e₁ ∈ s.entities, ∀ r₁ ∈ e₁.relations, ∀ e₂ ∈ s.entities,
      ∀ r₂ ∈ e₂.relations, r₁.id ≠ r₂.id → r₁.id % 64 ≠ r₂.id % 64 := by
    simp only [RelationsSeparate, ne_eq, searchPrefix_eq_iff, forall_const]
  have hent : EntitiesReachable s ↔ ∀ e ∈ s.entities, 0 ≤ e.entityId ∧ e.entityId ≤ 63 := by
    simp only [EntitiesReachable, exists_dataKey_iff]
  rw [hrel, hent]
  exact ⟨fun h ↦ ⟨h.1, h.2⟩, fun h ↦ ⟨h.relations, h.entities⟩⟩

private def wideIdsModel : Bytes :=
  lit "\x7b\"entities\":[\x7b\"id\":\"64:1\",\"name\":\"A\",\"properties\":[]," ++
    lit "\"relations\":[\x7b\"id\":\"1:2\",\"name\":\"r\",\"targetId\":\"64:1\"\x7d," ++
    lit "\x7b\"id\":\"65:3\",\"name\":\"q\",\"targetId\":\"64:1\"\x7d]\x7d]\x7d"

private theorem wideIdsModel_entities :
    (Schema.parse .reference wideIdsModel).map Schema.entities =
      .ok [⟨64, lit "A", [], [⟨1, lit "r", 64⟩, ⟨65, lit "q", 64⟩]⟩] := by
  decide +kernel

/-- An accepted model with relations 1 and 65, which search the same range, in an entity 64,
which no key can hold. -/
theorem ids_confused : ∃ s, Schema.parse .reference wideIdsModel = .ok s ∧
    ¬ RelationsSeparate s ∧ ¬ EntitiesReachable s := by
  obtain ⟨s, hs, hent⟩ := Schema.parse_of_entities wideIdsModel_entities
  have he : _ ∈ s.entities := hent ▸ List.mem_singleton_self _
  refine ⟨s, hs, fun h ↦ ?_, fun h ↦ ?_⟩
  · exact h _ he ⟨1, lit "r", 64⟩ (by decide) _ he ⟨65, lit "q", 64⟩ (by decide) (by decide) 0 rfl
  · have hle := ((exists_dataKey_iff _).mp (h _ he)).2
    exact absurd hle (by decide)

end ObDump
