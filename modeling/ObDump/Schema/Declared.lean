import ObDump.Schema.Parse

/-!
# What an accepted model declares

Library `Schema`. `Schema::parse` said without its control flow: which fields of the JSON
entries a parsed property, relation and entity come from, and which of the parsed entities the
schema keeps.
-/

namespace ObDump

open Base

namespace Json

private theorem at?_eq_ok {j v : Json} {key : Bytes} : j.at? key = .ok v ↔ j.get? key = some v := by
  cases j with
  | obj ms =>
    simp only [at?, get?]
    cases Members.lookup ms key <;> simp
  | _ => simp [at?, get?]

private theorem getString_eq_ok {j : Json} {s : Bytes} : j.getString = .ok s ↔ j = .str s := by
  cases j <;> simp [getString]

end Json

/-! ### One entry -/

/-- An id field and the number it is read as. -/
def IdField (j : Json) (key : Bytes) (n : Int) : Prop :=
  ∃ s, j.get? key = some (.str s) ∧ parseLeadingId s = .ok n

/-- An optional field, read by `f` when it is there. -/
def OptionalField {α : Type} (j : Json) (key : Bytes) (f : Json → α → Prop) (default a : α) :
    Prop :=
  (j.get? key = none ∧ a = default) ∨ ∃ v, j.get? key = some v ∧ f v a

/-- The fields of an entry a property comes from. -/
structure PropertyParsed (nl : Nlohmann) (p : Json) (d : PropertyDef) : Prop where
  id : IdField p (lit "id") d.id
  name : p.get? (lit "name") = some (.str d.name)
  type : ∃ v n, p.get? (lit "type") = some v ∧ v.getInt nl = .ok n ∧ d.type = toPropertyType n
  isUnsigned : OptionalField p (lit "flags")
    (fun v b ↦ ∃ n, v.getInt nl = .ok n ∧
      b = (BitVec.ofInt 32 n &&& BitVec.ofInt 32 kPropertyFlagUnsigned != 0)) false d.isUnsigned
  externalType : OptionalField p (lit "externalType") (fun v n ↦ v.getInt nl = .ok n)
    ExternalPropertyType.unknown d.externalType

/-- The fields of an entry a relation comes from. -/
structure RelationParsed (r : Json) (d : RelationDef) : Prop where
  id : IdField r (lit "id") d.id
  name : r.get? (lit "name") = some (.str d.name)
  targetId : IdField r (lit "targetId") d.targetEntityId

/-- The fields of an entry an entity comes from. -/
structure EntityParsed (nl : Nlohmann) (e : Json) (d : EntityDef) : Prop where
  id : IdField e (lit "id") d.entityId
  name : e.get? (lit "name") = some (.str d.name)
  properties : ∃ v, e.get? (lit "properties") = some v ∧
    List.Forall₂ (PropertyParsed nl) v.items d.properties
  relations : OptionalField e (lit "relations") (fun v ↦ List.Forall₂ RelationParsed v.items) []
    d.relations

section

variable {β : Type} {j : Json} {key : Bytes} {r : β}

private theorem field_bind {rest : Json → Except Exc β} :
    (j.at? key >>= rest) = .ok r ↔ ∃ v, j.get? key = some v ∧ rest v = .ok r := by
  simp only [bind_eq_ok, Json.at?_eq_ok]

private theorem stringField_bind {rest : Bytes → Except Exc β} :
    (j.at? key >>= fun v ↦ v.getString >>= rest) = .ok r ↔
      ∃ s, j.get? key = some (.str s) ∧ rest s = .ok r := by
  simp only [bind_eq_ok, Json.at?_eq_ok, Json.getString_eq_ok]
  constructor
  · rintro ⟨v, hv, s, rfl, hs⟩
    exact ⟨s, hv, hs⟩
  · rintro ⟨s, hv, hs⟩
    exact ⟨_, hv, s, rfl, hs⟩

private theorem idField_bind {rest : Int → Except Exc β} :
    (j.at? key >>= fun v ↦ v.getString >>= fun s ↦ parseLeadingId s >>= rest) = .ok r ↔
      ∃ n, IdField j key n ∧ rest n = .ok r := by
  rw [stringField_bind]
  constructor
  · rintro ⟨s, hs, h⟩
    obtain ⟨n, hn, h⟩ := bind_eq_ok.mp h
    exact ⟨n, ⟨s, hs, hn⟩, h⟩
  · rintro ⟨n, ⟨s, hs, hn⟩, h⟩
    exact ⟨s, hs, bind_eq_ok.mpr ⟨n, hn, h⟩⟩

end

private theorem optionalField_iff {α : Type} {j : Json} {key : Bytes} {f : Json → α → Prop}
    {read : Json → Except Exc α} (hf : ∀ v a, read v = .ok a ↔ f v a) {default a : α} :
    (if j.contains key then j.at? key >>= read else pure default) = .ok a ↔
      OptionalField j key f default a := by
  unfold Json.contains OptionalField
  cases h : j.get? key with
  | none =>
    simp only [Option.isSome_none, Bool.false_eq_true, if_false, pure, Except.pure,
      Except.ok.injEq, true_and, reduceCtorEq, false_and, exists_false, or_false]
    exact eq_comm
  | some v =>
    have hv : j.at? key = .ok v := Json.at?_eq_ok.mpr h
    simp only [Option.isSome_some, if_true, hv, ok_bind, hf, reduceCtorEq, false_and, false_or,
      Option.some.injEq]
    constructor
    · intro ha
      exact ⟨v, rfl, ha⟩
    · rintro ⟨_, rfl, ha⟩
      exact ha

/-- When an entry is accepted as a property, and as which. -/
theorem parseProperty_eq_ok {nl : Nlohmann} {p : Json} {d : PropertyDef} :
    parseProperty nl p = .ok d ↔ PropertyParsed nl p d := by
  have hflag : ∀ b, parseUnsigned nl p = .ok b ↔ OptionalField p (lit "flags")
      (fun v b ↦ ∃ n, v.getInt nl = .ok n ∧
        b = (BitVec.ofInt 32 n &&& BitVec.ofInt 32 kPropertyFlagUnsigned != 0)) false b := by
    intro b
    apply optionalField_iff
    intro v c
    rw [bind_eq_ok]
    constructor
    · rintro ⟨n, hn, hc⟩
      exact ⟨n, hn, (Except.ok.inj hc).symm⟩
    · rintro ⟨n, hn, rfl⟩
      exact ⟨n, hn, rfl⟩
  have hext : ∀ n, parseExternalType nl p = .ok n ↔ OptionalField p (lit "externalType")
      (fun v n ↦ v.getInt nl = .ok n) ExternalPropertyType.unknown n := by
    intro n
    apply optionalField_iff
    intro v n
    exact Iff.rfl
  unfold parseProperty
  rw [idField_bind]
  constructor
  · rintro ⟨id, hid, h⟩
    obtain ⟨name, hname, h⟩ := stringField_bind.mp h
    obtain ⟨t, ht, h⟩ := field_bind.mp h
    obtain ⟨type, htype, h⟩ := bind_eq_ok.mp h
    obtain ⟨isUnsigned, hflags, h⟩ := bind_eq_ok.mp h
    obtain ⟨externalType, hexternal, h⟩ := bind_eq_ok.mp h
    cases h
    exact ⟨hid, hname, ⟨t, type, ht, htype, rfl⟩, (hflag _).mp hflags, (hext _).mp hexternal⟩
  · rintro ⟨hid, hname, ⟨t, type, ht, htype, htypeOf⟩, hflags, hexternal⟩
    refine ⟨_, hid, stringField_bind.mpr ⟨_, hname, field_bind.mpr ⟨t, ht, ?_⟩⟩⟩
    rw [htype, ok_bind, (hflag _).mpr hflags, ok_bind, (hext _).mpr hexternal, ok_bind, ← htypeOf]
    rfl

/-- When an entry is accepted as a relation, and as which. -/
theorem parseRelation_eq_ok {r : Json} {d : RelationDef} :
    parseRelation r = .ok d ↔ RelationParsed r d := by
  unfold parseRelation
  rw [idField_bind]
  constructor
  · rintro ⟨id, hid, h⟩
    obtain ⟨name, hname, h⟩ := stringField_bind.mp h
    obtain ⟨target, htarget, h⟩ := idField_bind.mp h
    cases h
    exact ⟨hid, hname, htarget⟩
  · rintro ⟨hid, hname, htarget⟩
    exact ⟨_, hid, stringField_bind.mpr ⟨_, hname, idField_bind.mpr ⟨_, htarget, rfl⟩⟩⟩

private theorem mapM_eq_ok_iff {α : Type} {f : Json → Except Exc α} {R : Json → α → Prop}
    (hf : ∀ j a, f j = .ok a ↔ R j a) {l : List Json} {r : List α} :
    l.mapM f = .ok r ↔ List.Forall₂ R l r := by
  rw [mapM_eq_ok]
  constructor
  · intro h
    exact h.imp fun j a ↦ (hf j a).mp
  · intro h
    exact h.imp fun j a ↦ (hf j a).mpr

/-- When an entry is accepted as an entity, and as which. -/
theorem parseEntity_eq_ok {nl : Nlohmann} {e : Json} {d : EntityDef} :
    parseEntity nl e = .ok d ↔ EntityParsed nl e d := by
  have hrel : ∀ rs, parseRelations e = .ok rs ↔ OptionalField e (lit "relations")
      (fun v ↦ List.Forall₂ RelationParsed v.items) [] rs := by
    intro rs
    apply optionalField_iff
    intro v rs
    apply mapM_eq_ok_iff
    intro r d
    exact parseRelation_eq_ok
  have hprop : ∀ (v : Json) ps, v.items.mapM (parseProperty nl) = .ok ps ↔
      List.Forall₂ (PropertyParsed nl) v.items ps := by
    intro v ps
    apply mapM_eq_ok_iff
    intro p d
    exact parseProperty_eq_ok
  unfold parseEntity
  rw [idField_bind]
  constructor
  · rintro ⟨id, hid, h⟩
    obtain ⟨name, hname, h⟩ := stringField_bind.mp h
    obtain ⟨ps, hps, h⟩ := field_bind.mp h
    obtain ⟨properties, hproperties, h⟩ := bind_eq_ok.mp h
    obtain ⟨relations, hrelations, h⟩ := bind_eq_ok.mp h
    cases h
    exact ⟨hid, hname, ⟨ps, hps, (hprop _ _).mp hproperties⟩, (hrel _).mp hrelations⟩
  · rintro ⟨hid, hname, ⟨ps, hps, hproperties⟩, hrelations⟩
    refine ⟨_, hid, stringField_bind.mpr ⟨_, hname, field_bind.mpr ⟨ps, hps, ?_⟩⟩⟩
    rw [(hprop _ _).mpr hproperties, ok_bind, (hrel _).mpr hrelations, ok_bind]
    rfl

/-! ### All entries -/

namespace Schema

/-- The entities emplaced one after the other. -/
def ofDefs (ds : List EntityDef) : Schema := ds.foldl emplace empty

private theorem mem_foldl_emplace {ds : List EntityDef} {s : Schema} {d : EntityDef}
    (h : d ∈ (ds.foldl emplace s).entities) : d ∈ s.entities ∨ d ∈ ds := by
  induction ds generalizing s with
  | nil => exact .inl h
  | cons e ds ih =>
    rcases ih h with hd | hd
    · rcases mem_emplace hd with hd | rfl
      · exact .inl hd
      · exact .inr List.mem_cons_self
    · exact .inr (List.mem_cons_of_mem _ hd)

/-- Nothing is kept that was not parsed. -/
theorem mem_of_mem_ofDefs {ds : List EntityDef} {d : EntityDef}
    (h : d ∈ (ofDefs ds).entities) : d ∈ ds := by
  rcases mem_foldl_emplace h with hd | hd
  · cases hd
  · exact hd

private theorem foldl_emplace_entities {ds : List EntityDef} {s : Schema}
    (h : ((s.entities ++ ds).map EntityDef.entityId).Nodup) :
    (ds.foldl emplace s).entities = s.entities ++ ds := by
  induction ds generalizing s with
  | nil => exact (List.append_nil _).symm
  | cons d ds ih =>
    have hnew : d.entityId ∉ s.entities.map EntityDef.entityId := by
      intro hd
      rw [List.map_append, List.map_cons] at h
      exact (List.nodup_append.mp h).2.2 _ hd _ List.mem_cons_self rfl
    have hs : (s.emplace d).entities = s.entities ++ [d] := by
      unfold emplace
      rw [dif_neg hnew]
    have hcons : s.entities ++ d :: ds = (s.emplace d).entities ++ ds := by
      rw [hs, List.append_assoc]
      rfl
    rw [hcons] at h ⊢
    exact ih h

/-- With ids that differ pairwise every entity is kept. -/
theorem ofDefs_entities {ds : List EntityDef} (h : (ds.map EntityDef.entityId).Nodup) :
    (ofDefs ds).entities = ds :=
  foldl_emplace_entities (s := empty) h

/-- The listing has the entities the schema keeps. -/
theorem all_perm (s : Schema) : s.all.Perm s.entities := List.mergeSort_perm _ _

/-- The list of all entities has those of the map. -/
theorem mem_all_iff {s : Schema} {e : EntityDef} : e ∈ s.all ↔ e ∈ s.entities :=
  List.mem_mergeSort

/-- The listing is in strictly increasing order of the ids. -/
theorem all_sorted (s : Schema) : s.all.Pairwise fun a b ↦ a.entityId < b.entityId := by
  have hle : s.all.Pairwise fun a b ↦ decide (a.entityId ≤ b.entityId) = true := by
    apply List.pairwise_mergeSort
    · intro a b c hab hbc
      simp only [decide_eq_true_eq] at hab hbc ⊢
      omega
    · intro a b
      simp only [Bool.or_eq_true, decide_eq_true_eq]
      omega
  have hne : s.all.Pairwise fun a b ↦ a.entityId ≠ b.entityId := by
    apply List.pairwise_map.mp
    exact (s.all_perm.map EntityDef.entityId).nodup_iff.mpr s.nodup
  refine (hle.and hne).imp ?_
  rintro a b ⟨hab, hneq⟩
  simp only [decide_eq_true_eq] at hab
  omega

/-- The entries of `entities`, when the text is JSON with such an array. -/
def Entries (nl : Nlohmann) (modelJson : Bytes) (entries : List Json) : Prop :=
  ∃ model, nl.parse modelJson = .ok model ∧ model.get? (lit "entities") = some (.arr entries)

end Schema

private theorem parseEntities_eq_ok {nl : Nlohmann} {es : List Json} {s t : Schema} :
    parseEntities nl es s = .ok t ↔
      ∃ ds, List.Forall₂ (EntityParsed nl) es ds ∧ t = ds.foldl Schema.emplace s := by
  induction es generalizing s with
  | nil =>
    rw [parseEntities]
    constructor
    · intro h
      cases h
      exact ⟨[], .nil, rfl⟩
    · rintro ⟨ds, hds, rfl⟩
      cases hds
      rfl
  | cons e es ih =>
    rw [parseEntities, bind_eq_ok]
    constructor
    · rintro ⟨d, hd, h⟩
      obtain ⟨ds, hds, ht⟩ := ih.mp h
      exact ⟨d :: ds, .cons (parseEntity_eq_ok.mp hd) hds, ht⟩
    · rintro ⟨ds, hds, ht⟩
      cases hds with
      | @cons _ d _ ds hd hds => exact ⟨d, parseEntity_eq_ok.mpr hd, ih.mpr ⟨ds, hds, ht⟩⟩

/-- A model is accepted exactly when it has entries and each of them is accepted; the schema is
what emplacing the parsed entities leaves. -/
theorem Schema.parse_eq_ok {nl : Nlohmann} {modelJson : Bytes} {s : Schema} :
    Schema.parse nl modelJson = .ok s ↔ ∃ entries ds, Entries nl modelJson entries ∧
      List.Forall₂ (EntityParsed nl) entries ds ∧ s = ofDefs ds := by
  unfold Schema.parse Entries
  constructor
  · intro h
    split at h
    · cases h
    · next model hmodel =>
      split at h
      · next entries hentries =>
        obtain ⟨ds, hds, hs⟩ := parseEntities_eq_ok.mp h
        exact ⟨entries, ds, ⟨model, hmodel, hentries⟩, hds, hs⟩
      · cases h
  · rintro ⟨entries, ds, ⟨model, hmodel, hentries⟩, hds, hs⟩
    simp only [hmodel, hentries]
    exact parseEntities_eq_ok.mpr ⟨ds, hds, hs⟩

/-- A model has one list of entries. -/
theorem Schema.Entries.unique {nl : Nlohmann} {modelJson : Bytes} {entries entries' : List Json}
    (h : Entries nl modelJson entries) (h' : Entries nl modelJson entries') :
    entries = entries' := by
  obtain ⟨model, hmodel, hentries⟩ := h
  obtain ⟨model', hmodel', hentries'⟩ := h'
  rw [hmodel] at hmodel'
  cases hmodel'
  rw [hentries] at hentries'
  exact Json.arr.inj (Option.some.inj hentries')

end ObDump
