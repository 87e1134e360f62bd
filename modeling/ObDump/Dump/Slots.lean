import ObDump.Base.Counter
import ObDump.Dump.Listing

/-!
# The slots of an entity's properties

Library `Dump`. `slotFor` of `src/fb_decode.cpp:16–18` with the `int` arithmetic it is computed
in. `include/internal/schema.hpp:90` gives the slot as `4 + (id-1)*2`; the two entries below 4 are
the vtable's header.
-/

namespace ObDump

open Base FlatBuffers

/-- `4 + (propertyId - 1) * 2`, before the conversion to `uint16_t`. -/
def slotInt (propertyId : Int) : Option Int := do
  let index ← int32 (propertyId - 1)
  let offset ← int32 (index * 2)
  int32 (4 + offset)

/-- The slot is the computed number modulo 2¹⁶. -/
theorem slotFor_of_slotInt {id n : Int} (h : slotInt id = some n) :
    slotFor id = (n % 65536).toNat := by
  unfold slotInt at h
  obtain ⟨index, hindex, h⟩ := Option.bind_eq_some_iff.mp h
  obtain ⟨offset, hoffset, h⟩ := Option.bind_eq_some_iff.mp h
  rw [(int32_eq_some.mp h).2, (int32_eq_some.mp hoffset).2, (int32_eq_some.mp hindex).2]
  rfl

/-- The slot the listing gives a property, and the decoder reads its field from unless it is
called `id`. -/
structure PropertyDef.UsesSlot (p : PropertyDef) (slot : Nat) : Prop where
  reads : p.name ≠ lit "id" → ∀ lib t out, decodeProperty lib t p out =
    p.codec.elim (.ok out) fun c ↦ c.decode lib t slot p.name out
  lists : (propertyListing p).get? (lit "vtableSlot") = some (.int slot)

private theorem PropertyDef.usesSlot (p : PropertyDef) : p.UsesSlot (slotFor p.id) where
  reads := by
    intro hname lib t out
    rw [decodeProperty, if_neg hname, decodeField_eq_codec]
    cases p.codec with
    | none => rfl
    | some c => rfl
  lists := by
    unfold propertyListing
    cases p.isUnsigned <;> cases externalTypeName p.externalType <;> rfl

/-- The slots of an entity's properties are computed without overflow and kept as they are, lie
above the vtable's header, and differ where the ids do. -/
structure SlotsExact (entity : EntityDef) : Prop where
  used : ∀ p ∈ entity.properties, p.UsesSlot (slotFor p.id)
  computed : ∀ p ∈ entity.properties, slotInt p.id = some (slotFor p.id : Int)
  header : ∀ p ∈ entity.properties, 4 ≤ slotFor p.id
  distinct : ∀ p ∈ entity.properties, ∀ q ∈ entity.properties, p.id ≠ q.id →
    slotFor p.id ≠ slotFor q.id

private theorem slotInt_eq_slotFor_iff {id : Int} :
    slotInt id = some (slotFor id : Int) ∧ 4 ≤ slotFor id ↔ 1 ≤ id ∧ id ≤ 32766 := by
  constructor
  · rintro ⟨hcomputed, hheader⟩
    have hslot := slotFor_of_slotInt hcomputed
    have hlt : slotFor id < 65536 := by omega
    unfold slotInt at hcomputed
    obtain ⟨index, hindex, h⟩ := Option.bind_eq_some_iff.mp hcomputed
    obtain ⟨offset, hoffset, h⟩ := Option.bind_eq_some_iff.mp h
    have h1 := (int32_eq_some.mp h).2
    have h2 := (int32_eq_some.mp hoffset).2
    have h3 := (int32_eq_some.mp hindex).2
    omega
  · rintro ⟨h1, h2⟩
    have hslot := slotFor_eq h1 h2
    refine ⟨?_, by omega⟩
    have hindex : int32 (id - 1) = some (id - 1) := int32_eq_some.mpr ⟨by omega, rfl⟩
    have hoffset : int32 ((id - 1) * 2) = some ((id - 1) * 2) :=
      int32_eq_some.mpr ⟨by omega, rfl⟩
    have hsum : int32 (4 + (id - 1) * 2) = some (slotFor id : Int) :=
      int32_eq_some.mpr ⟨by omega, by omega⟩
    rw [slotInt, hindex, Option.bind_eq_bind, Option.bind_some, hoffset, Option.bind_some, hsum]

/-- The slots of a model are exact exactly when every property id is between 1 and 32766. -/
theorem slots_exact_iff (schema : Schema) :
    (∀ e ∈ schema.entities, SlotsExact e) ↔
      ∀ e ∈ schema.entities, ∀ p ∈ e.properties, 1 ≤ p.id ∧ p.id ≤ 32766 := by
  constructor
  · intro h e he p hp
    obtain ⟨-, hcomputed, hheader, -⟩ := h e he
    exact slotInt_eq_slotFor_iff.mp ⟨hcomputed p hp, hheader p hp⟩
  · intro h e he
    have hslot : ∀ p ∈ e.properties, slotInt p.id = some (slotFor p.id : Int) ∧
        4 ≤ slotFor p.id :=
      fun p hp ↦ slotInt_eq_slotFor_iff.mpr (h e he p hp)
    refine ⟨fun p _ ↦ p.usesSlot, fun p hp ↦ (hslot p hp).1, fun p hp ↦ (hslot p hp).2, ?_⟩
    intro p hp q hq hne heq
    obtain ⟨hp1, hp2⟩ := h e he p hp
    obtain ⟨hq1, hq2⟩ := h e he q hq
    rw [slotFor_eq hp1 hp2, slotFor_eq hq1 hq2] at heq
    omega

/-! ### Ids a vtable has no slot for -/

private def wrappedModel : Bytes :=
  lit "\x7b\"entities\":[\x7b\"id\":\"1:5\",\"name\":\"Plant\",\"properties\":[" ++
    lit "\x7b\"id\":\"1:6\",\"name\":\"height\",\"type\":5\x7d," ++
    lit "\x7b\"id\":\"32769:7\",\"name\":\"width\",\"type\":5\x7d," ++
    lit "\x7b\"id\":\"-2147483648:8\",\"name\":\"depth\",\"type\":5\x7d]\x7d]\x7d"

private def wrappedEntity : EntityDef :=
  ⟨1, lit "Plant", [⟨1, lit "height", .int, false, 0⟩, ⟨32769, lit "width", .int, false, 0⟩,
    ⟨-2147483648, lit "depth", .int, false, 0⟩], []⟩

private theorem wrappedModel_entities :
    (Schema.parse .reference wrappedModel).map Schema.entities = .ok [wrappedEntity] := by
  decide +kernel

/-- An accepted model: two of its properties share slot 4, as the number of the second does not
fit, and the third's is never computed. -/
theorem slots_wrap : ∃ schema, Schema.parse .reference wrappedModel = .ok schema ∧
    schema.entities = [wrappedEntity] ∧
      wrappedEntity.properties.map (fun p ↦ slotInt p.id) = [some 4, some 65540, none] ∧
      slotFor 1 = 4 ∧ slotFor 32769 = 4 ∧ ¬ SlotsExact wrappedEntity := by
  obtain ⟨schema, hparse, hs⟩ := Schema.parse_of_entities wrappedModel_entities
  refine ⟨schema, hparse, hs, by decide, by decide, by decide, ?_⟩
  rintro ⟨-, hcomputed, -, -⟩
  exact absurd hcomputed (by decide)

end ObDump
