import ObDump.Schema.Kept

/-!
# Models whose declarations are reordered

Library `Schema`. Two models with the same entries, the entries and the `properties` of each in
another order. Both are accepted or neither is, and the entities are the same up to the order of
their properties. `entitiesById_` is an `unordered_map`, so the order in which `Schema::all` meets
its entities is not given either.
-/

namespace ObDump

open Base

/-! ### Entities -/

/-- The same entity, its properties in another order. -/
structure EntityDef.Reordered (e d : EntityDef) : Prop where
  entityId : e.entityId = d.entityId
  name : e.name = d.name
  properties : e.properties.Perm d.properties
  relations : e.relations = d.relations

/-- Schemas whose listings are the same up to the order of each entity's properties. -/
def Schema.Reordered (s t : Schema) : Prop := List.Forall₂ EntityDef.Reordered s.all t.all

/-- Whatever order the map is walked in, sorting by id yields the listing. -/
theorem Schema.all_unique (s : Schema) {l : List EntityDef} (hp : l.Perm s.entities)
    (hs : l.Pairwise fun a b ↦ a.entityId ≤ b.entityId) : l = s.all := by
  apply List.Perm.eq_of_pairwise _ hs
  · apply s.all_sorted.imp
    intro a b hab
    omega
  · exact hp.trans s.all_perm.symm
  · intro a b ha hb hab hba
    apply List.inj_on_of_nodup_map s.nodup (hp.mem_iff.mp ha) (Schema.mem_all_iff.mp hb)
    omega

/-- Reordered schemas find the same entities. -/
theorem Schema.Reordered.find {s t : Schema} (h : s.Reordered t) (id : Int) :
    (s.find id = none ∧ t.find id = none) ∨
      ∃ e d, s.find id = some e ∧ t.find id = some d ∧ e.Reordered d := by
  cases hs : s.find id with
  | some e =>
    obtain ⟨he, rfl⟩ := Schema.mem_of_find hs
    obtain ⟨d, hd, hed, -⟩ := exists_and_of_forall₂ h h (Schema.mem_all_iff.mpr he)
    refine .inr ⟨e, d, rfl, ?_, hed⟩
    rw [hed.entityId]
    exact Schema.find_of_mem (Schema.mem_all_iff.mp hd)
  | none =>
    cases ht : t.find id with
    | none => exact .inl ⟨rfl, rfl⟩
    | some d =>
      obtain ⟨hd, rfl⟩ := Schema.mem_of_find ht
      obtain ⟨e, he, hed⟩ := exists_of_forall₂ h (Schema.mem_all_iff.mpr hd)
      rw [← hed.entityId, Schema.find_of_mem (Schema.mem_all_iff.mp he)] at hs
      cases hs

/-! ### Entries -/

/-- The same entry, the elements of its `properties` in another order. -/
structure Json.Reordered (e d : Json) : Prop where
  others : ∀ key ≠ lit "properties", e.get? key = d.get? key
  properties : e.get? (lit "properties") = d.get? (lit "properties") ∨
    ∃ ps qs, e.get? (lit "properties") = some (.arr ps) ∧
      d.get? (lit "properties") = some (.arr qs) ∧ ps.Perm qs

/-- The entries in another order, and each of them reordered. -/
def EntriesReordered (entries entries' : List Json) : Prop :=
  ∃ es, es.Perm entries ∧ List.Forall₂ Json.Reordered es entries'

private theorem exists_reordered {nl : Nlohmann} {e e' : Json} (h : e.Reordered e') {d : EntityDef}
    (hd : EntityParsed nl e d) : ∃ d', EntityParsed nl e' d' ∧ d.Reordered d' := by
  have hid : IdField e' (lit "id") d.entityId := by
    unfold IdField
    rw [← h.others (lit "id") (by decide)]
    exact hd.id
  have hname : e'.get? (lit "name") = some (.str d.name) := by
    rw [← h.others (lit "name") (by decide)]
    exact hd.name
  have hrelations : OptionalField e' (lit "relations")
      (fun v ↦ List.Forall₂ RelationParsed v.items) [] d.relations := by
    unfold OptionalField
    rw [← h.others (lit "relations") (by decide)]
    exact hd.relations
  obtain ⟨v, hv, hps⟩ := hd.properties
  rcases h.properties with heq | ⟨ps, qs, hp, hq, hperm⟩
  · refine ⟨d, ⟨hid, hname, ⟨v, ?_, hps⟩, hrelations⟩, rfl, rfl, .refl _, rfl⟩
    rw [← heq, hv]
  · rw [hv] at hp
    cases hp
    obtain ⟨qds, hqds, hf⟩ := exists_perm_of_forall₂_left hps hperm.symm
    exact ⟨{ d with properties := qds }, ⟨hid, hname, ⟨_, hq, hf⟩, hrelations⟩, rfl, rfl,
      hqds.symm, rfl⟩

private theorem map_entityId_eq {es ds : List EntityDef}
    (h : List.Forall₂ EntityDef.Reordered es ds) :
    es.map EntityDef.entityId = ds.map EntityDef.entityId := by
  induction h with
  | nil => rfl
  | cons hed _ ih => rw [List.map_cons, List.map_cons, ih, hed.entityId]

private theorem ofDefs_reordered {ds ds' es : List EntityDef}
    (hd : (ds.map EntityDef.entityId).Nodup) (hp : es.Perm ds)
    (h : List.Forall₂ EntityDef.Reordered es ds') :
    (Schema.ofDefs ds).Reordered (Schema.ofDefs ds') := by
  have hd' : (ds'.map EntityDef.entityId).Nodup := by
    rw [← map_entityId_eq h]
    exact (hp.map EntityDef.entityId).nodup_iff.mpr hd
  have hperm' := Schema.all_perm (Schema.ofDefs ds')
  rw [Schema.ofDefs_entities hd'] at hperm'
  obtain ⟨l, hl, hf⟩ := exists_perm_of_forall₂ h hperm'
  -- The list beside the second listing is sorted as that is, so it is the first listing.
  have hsorted : l.Pairwise fun a b ↦ a.entityId ≤ b.entityId := by
    apply List.pairwise_map.mp
    rw [map_entityId_eq hf]
    apply List.pairwise_map.mpr
    apply (Schema.ofDefs ds').all_sorted.imp
    intro a b hab
    omega
  have hall : l = (Schema.ofDefs ds).all := by
    apply Schema.all_unique _ _ hsorted
    rw [Schema.ofDefs_entities hd]
    exact hl.trans hp
  rw [Schema.Reordered, ← hall]
  exact hf

/-- A reordered model is accepted where the model is, and the schemas are reordered. -/
theorem Schema.parse_reordered {nl : Nlohmann} {modelJson modelJson' : Bytes} {s : Schema}
    {entries entries' : List Json} (hparse : Schema.parse nl modelJson = .ok s)
    (hentries : Schema.Entries nl modelJson entries)
    (hentries' : Schema.Entries nl modelJson' entries')
    (h : EntriesReordered entries entries') (hids : (entries.map Json.leadingId?).Nodup) :
    ∃ t, Schema.parse nl modelJson' = .ok t ∧ s.Reordered t := by
  obtain ⟨es, ds, hes, hds, rfl⟩ := Schema.parse_eq_ok.mp hparse
  obtain rfl := hentries.unique hes
  obtain ⟨es', hperm, hre⟩ := h
  obtain ⟨ds₁, hds₁, hf⟩ := exists_perm_of_forall₂_left hds hperm
  have hnodup : (ds.map EntityDef.entityId).Nodup := by
    rw [map_leadingId? (hds.imp fun e d hd ↦ hd.id)] at hids
    exact hids.of_map some
  obtain ⟨ds', hds', hdds⟩ := exists_forall₂_square hf hre fun e d e' hd hee ↦
    exists_reordered hee hd
  exact ⟨Schema.ofDefs ds', Schema.parse_eq_ok.mpr ⟨entries', ds', hentries', hds', rfl⟩,
    ofDefs_reordered hnodup hds₁ hdds⟩

end ObDump
