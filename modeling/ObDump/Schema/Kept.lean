import ObDump.Json.Print
import ObDump.Schema.Declared

/-!
# What the schema keeps of a model

Library `Schema`. `Schema::parse`, `src/schema.cpp:54–98`, against the model as it is written: an
entity for each entry, with the numbers that stand there. `emplace` keeps the first entity of an
id and says nothing of the others, and `get<int>()` converts any number.
-/

namespace ObDump

open Base

/-! ### Numbers as written -/

/-- The integer a JSON number is, if it is one. -/
def Json.integer? : Json → Option Int
  | .int n => some n
  | .float64 bits => integralFloat 52 11 bits.toNat
  | _ => none

/-- The language says what `get<int>()` makes of the number: a floating-point number has its
integer part in `int`. -/
def Json.Convertible : Json → Prop
  | .float64 bits => FitsInt (truncFloat 52 11 bits.toNat)
  | _ => True

/-- The integers that keep their value. -/
theorem toInt32_eq_self_iff {n : Int} : toInt32 n = n ↔ FitsInt n := by
  unfold toInt32 FitsInt
  rw [BitVec.toInt_ofInt]
  constructor
  · intro h
    have hlo := Int.le_bmod (x := n) (m := 2 ^ 32) (by decide)
    have hhi := Int.bmod_lt (x := n) (m := 2 ^ 32) (by decide)
    rw [h] at hlo hhi
    omega
  · rintro ⟨hlo, hhi⟩
    apply Int.bmod_eq_of_le <;> omega

/-- An integer is converted modulo 2³², where its conversion is defined. -/
theorem Json.getInt_of_integer? {nl : Nlohmann} {v : Json} {n : Int} (h : v.integer? = some n)
    (hv : v.Convertible) : v.getInt nl = .ok (toInt32 n) := by
  cases v with
  | int k =>
    cases h
    rfl
  | float64 bits =>
    have htrunc := truncFloat_of_integralFloat (by omega) h
    simp only [Json.Convertible, htrunc] at hv
    simp only [getInt, htrunc, if_pos hv, toInt32_eq_self_iff.mpr hv]
  | _ => cases h

/-- The library, its undefined conversions making one number. -/
def Nlohmann.withCast (nl : Nlohmann) (cast : Int) : Nlohmann :=
  { nl with castInt := fun _ ↦ BitVec.ofInt 32 cast }

private theorem Json.getInt_withCast {nl : Nlohmann} {v : Json} {n cast : Int}
    (h : v.integer? = some n) (hv : ¬ v.Convertible) :
    ¬ FitsInt n ∧ v.getInt (nl.withCast cast) = .ok (toInt32 cast) := by
  cases v with
  | float64 bits =>
    have htrunc := truncFloat_of_integralFloat (by omega) h
    simp only [Json.Convertible, htrunc] at hv
    refine ⟨hv, ?_⟩
    simp only [getInt, htrunc, if_neg hv]
    rfl
  | int => exact absurd trivial hv
  | _ => cases h

private theorem unsigned_toInt32 (n : Int) :
    (BitVec.ofInt 32 (toInt32 n) &&& BitVec.ofInt 32 kPropertyFlagUnsigned != 0) =
      n.testBit 13 := by
  have hflag : BitVec.ofInt 32 kPropertyFlagUnsigned = BitVec.twoPow 32 13 := by decide
  have hbit : (BitVec.ofInt 32 n).getLsbD 13 = n.testBit 13 := by
    cases n with
    | ofNat m =>
      rw [Int.ofNat_eq_natCast, BitVec.ofInt_natCast, BitVec.getLsbD_ofNat]
      simp [Int.testBit]
    | negSucc m =>
      rw [BitVec.ofInt_negSucc_eq_not_ofNat, BitVec.getLsbD_not, BitVec.getLsbD_ofNat]
      simp [Int.testBit]
  rw [toInt32, BitVec.ofInt_toInt, hflag, BitVec.and_twoPow, hbit]
  cases n.testBit 13 <;> decide

/-! ### Type codes -/

private theorem code_toPropertyType (n : Int) :
    (toPropertyType n).code = n ∨ toPropertyType n = .unknown := by
  unfold toPropertyType
  split <;> simp [PropertyType.code]

private theorem toInt32_code (t : PropertyType) : toInt32 t.code = t.code := by
  cases t <;> decide

/-- The type's code is the number written. -/
def SameCode (n : Int) (t : PropertyType) : Prop := t.code = n

/-- The type's code is the number written, or no type has that code and it is kept as Unknown. -/
def SameCodeOrUnknown (n : Int) (t : PropertyType) : Prop :=
  t.code = n ∨ t = .unknown ∧ ∀ u : PropertyType, u.code ≠ n

/-- The number is a type's code. -/
def IsCode (n : Int) : Prop := ∃ t : PropertyType, t.code = n

/-- Narrowing the number to `int` makes it no type's code that it was not. -/
def StaysCode (n : Int) : Prop :=
  ∀ t : PropertyType, t.code = toInt32 n → t = .unknown ∨ t.code = n

private theorem isCode_iff (n : Int) : IsCode n ↔ SameCode n (toPropertyType (toInt32 n)) := by
  constructor
  · rintro ⟨t, rfl⟩
    rw [toInt32_code, toPropertyType_code]
    rfl
  · intro h
    exact ⟨_, h⟩

private theorem staysCode_iff (n : Int) :
    StaysCode n ↔ SameCodeOrUnknown n (toPropertyType (toInt32 n)) := by
  constructor
  · intro h
    have hstored : (toPropertyType (toInt32 n)).code = n ∨
        toPropertyType (toInt32 n) = .unknown := by
      rcases code_toPropertyType (toInt32 n) with hc | hu
      · exact (h _ hc).symm
      · exact .inr hu
    rcases hstored with hc | hu
    · exact .inl hc
    · by_cases hex : IsCode n
      · exact .inl ((isCode_iff n).mp hex)
      · exact .inr ⟨hu, fun u hn ↦ hex ⟨u, hn⟩⟩
  · intro h t ht
    have htype : toPropertyType (toInt32 n) = t := by rw [← ht, toPropertyType_code]
    rw [htype] at h
    rcases h with hc | ⟨hu, -⟩
    · exact .inr hc
    · exact .inl hu

/-! ### Entries -/

/-- The property an entry declares, its type kept as `same` says. -/
structure PropertyWritten (same : Int → PropertyType → Prop) (p : Json) (d : PropertyDef) :
    Prop where
  id : IdField p (lit "id") d.id
  name : p.get? (lit "name") = some (.str d.name)
  type : ∃ v n, p.get? (lit "type") = some v ∧ v.integer? = some n ∧ same n d.type
  isUnsigned : OptionalField p (lit "flags")
    (fun v b ↦ ∃ n, v.integer? = some n ∧ b = n.testBit 13) false d.isUnsigned
  externalType : OptionalField p (lit "externalType") (fun v n ↦ v.integer? = some n)
    ExternalPropertyType.unknown d.externalType

/-- The entity an entry declares: its id and name, and exactly its properties and relations, in
their order. -/
structure EntityWritten (same : Int → PropertyType → Prop) (e : Json) (d : EntityDef) : Prop where
  id : IdField e (lit "id") d.entityId
  name : e.get? (lit "name") = some (.str d.name)
  properties : ∃ v, e.get? (lit "properties") = some v ∧
    List.Forall₂ (PropertyWritten same) v.items d.properties
  relations : OptionalField e (lit "relations") (fun v ↦ List.Forall₂ RelationParsed v.items) []
    d.relations

/-- Nothing of the entries is dropped or altered: each entry's entity is found under its id, and
the listing has one entity for each entry, in strictly increasing order of the ids. -/
structure Schema.Keeps (same : Int → PropertyType → Prop) (entries : List Json) (s : Schema) :
    Prop where
  found : ∀ e ∈ entries, ∃ d, EntityWritten same e d ∧ s.find d.entityId = some d
  listed : ∃ es, es.Perm entries ∧ List.Forall₂ (EntityWritten same) es s.all
  sorted : s.all.Pairwise fun a b ↦ a.entityId < b.entityId

/-- The numbers of a property entry are integers whose conversion is defined, the type code one
of `codes` and the external type an `int`. -/
structure NumbersFit (codes : Int → Prop) (p : Json) : Prop where
  type : ∀ v, p.get? (lit "type") = some v → ∃ n, v.integer? = some n ∧ v.Convertible ∧ codes n
  flags : ∀ v, p.get? (lit "flags") = some v → ∃ n, v.integer? = some n ∧ v.Convertible
  externalType : ∀ v, p.get? (lit "externalType") = some v →
    ∃ n, v.integer? = some n ∧ v.Convertible ∧ FitsInt n

/-- The id of an entry. -/
def Json.leadingId? (e : Json) : Option Int :=
  match e.get? (lit "id") with
  | some (.str s) => (parseLeadingId s).toOption
  | _ => none

/-- No two entries have one id, and the numbers fit. -/
structure EntriesFit (codes : Int → Prop) (entries : List Json) : Prop where
  ids : (entries.map Json.leadingId?).Nodup
  numbers : ∀ e ∈ entries, ∀ v, e.get? (lit "properties") = some v → ∀ p ∈ v.items,
    NumbersFit codes p

private theorem Json.leadingId?_of_idField {e : Json} {n : Int} (h : IdField e (lit "id") n) :
    e.leadingId? = some n := by
  obtain ⟨s, hs, hn⟩ := h
  simp only [leadingId?, hs, hn]
  rfl

/-- The ids of the entries are those of their entities. -/
theorem map_leadingId? {entries : List Json} {ds : List EntityDef}
    (h : List.Forall₂ (fun e d ↦ IdField e (lit "id") d.entityId) entries ds) :
    entries.map Json.leadingId? = (ds.map EntityDef.entityId).map some := by
  induction h with
  | nil => rfl
  | cons hd _ ih =>
    rw [List.map_cons, ih, Json.leadingId?_of_idField hd]
    rfl

/-! ### One entry -/

private theorem OptionalField.imp {α : Type} {j : Json} {key : Bytes} {f g : Json → α → Prop}
    {default a : α} (h : OptionalField j key f default a)
    (hfg : ∀ v, j.get? key = some v → f v a → g v a) : OptionalField j key g default a := by
  rcases h with hnone | ⟨v, hv, hf⟩
  · exact .inl hnone
  · exact .inr ⟨v, hv, hfg v hv hf⟩

private theorem OptionalField.of_some {α : Type} {j v : Json} {key : Bytes} {f : Json → α → Prop}
    {default a : α} (h : OptionalField j key f default a) (hv : j.get? key = some v) : f v a := by
  rcases h with ⟨hnone, -⟩ | ⟨w, hw, hf⟩
  · rw [hv] at hnone
    cases hnone
  · rw [hv] at hw
    cases hw
    exact hf

section

variable {same : Int → PropertyType → Prop} {codes : Int → Prop} {nl : Nlohmann}

private theorem propertyWritten_of_fit
    (hsame : ∀ n, codes n ↔ same n (toPropertyType (toInt32 n))) {p : Json} {d : PropertyDef}
    (h : PropertyParsed nl p d) (hfit : NumbersFit codes p) : PropertyWritten same p d := by
  refine ⟨h.id, h.name, ?_, ?_, ?_⟩
  · obtain ⟨t, k, ht, hk, htype⟩ := h.type
    obtain ⟨n, hn, hv, hc⟩ := hfit.type t ht
    rw [Json.getInt_of_integer? hn hv] at hk
    rw [hsame, Except.ok.inj hk, ← htype] at hc
    exact ⟨t, n, ht, hn, hc⟩
  · apply h.isUnsigned.imp
    rintro v hv ⟨m, hm, hb⟩
    obtain ⟨n, hn, hconv⟩ := hfit.flags v hv
    rw [Json.getInt_of_integer? hn hconv] at hm
    cases hm
    exact ⟨n, hn, by rw [hb, unsigned_toInt32]⟩
  · apply h.externalType.imp
    intro v hv hm
    obtain ⟨n, hn, hconv, hrange⟩ := hfit.externalType v hv
    rw [Json.getInt_of_integer? hn hconv, toInt32_eq_self_iff.mpr hrange] at hm
    rw [hn, Except.ok.inj hm]

/-- The entry is accepted and kept as written, whatever number undefined conversions make. -/
private def AlwaysWritten (same : Int → PropertyType → Prop) (nl : Nlohmann) (p : Json) : Prop :=
  ∀ cast, ∃ d, PropertyParsed (nl.withCast cast) p d ∧ PropertyWritten same p d

private theorem type_fits (hsame : ∀ n, codes n ↔ same n (toPropertyType (toInt32 n)))
    (hstring : ∀ n, same n .string → FitsInt n) {p : Json} (h : AlwaysWritten same nl p)
    {v : Json} (hv : p.get? (lit "type") = some v) :
    ∃ n, v.integer? = some n ∧ v.Convertible ∧ codes n := by
  -- Where the conversion is undefined it could make the type String.
  obtain ⟨d, hparsed, hwritten⟩ := h (PropertyType.code .string)
  obtain ⟨w, k, hw, hk, htype⟩ := hparsed.type
  obtain ⟨w', n, hw', hn, hs⟩ := hwritten.type
  rw [hv] at hw hw'
  cases hw
  cases hw'
  by_cases hconv : v.Convertible
  · rw [Json.getInt_of_integer? hn hconv] at hk
    rw [htype, ← Except.ok.inj hk] at hs
    exact ⟨n, hn, hconv, (hsame n).mpr hs⟩
  · obtain ⟨hout, hget⟩ := Json.getInt_withCast hn hconv
    rw [hget] at hk
    rw [htype, ← Except.ok.inj hk, toInt32_code, toPropertyType_code] at hs
    exact absurd (hstring n hs) hout

private theorem flags_fit {p : Json} (h : AlwaysWritten same nl p) {v : Json}
    (hv : p.get? (lit "flags") = some v) : ∃ n, v.integer? = some n ∧ v.Convertible := by
  -- Where the conversion is undefined it could make the UNSIGNED bit either way.
  have hbit : ∀ cast : Int, ∃ n, v.integer? = some n ∧
      (v.Convertible ∨ n.testBit 13 = cast.testBit 13) := by
    intro cast
    obtain ⟨d, hparsed, hwritten⟩ := h cast
    obtain ⟨k, hk, hb⟩ := hparsed.isUnsigned.of_some hv
    obtain ⟨n, hn, hb'⟩ := hwritten.isUnsigned.of_some hv
    refine ⟨n, hn, ?_⟩
    by_cases hconv : v.Convertible
    · exact .inl hconv
    · rw [(Json.getInt_withCast hn hconv).2] at hk
      rw [← Except.ok.inj hk, unsigned_toInt32] at hb
      exact .inr (hb'.symm.trans hb)
  obtain ⟨n, hn, hclear⟩ := hbit 0
  obtain ⟨n', hn', hset⟩ := hbit kPropertyFlagUnsigned
  rw [hn] at hn'
  cases hn'
  refine ⟨n, hn, ?_⟩
  rcases hclear with hconv | hclear
  · exact hconv
  · rcases hset with hconv | hset
    · exact hconv
    · rw [hclear] at hset
      exact absurd hset (by decide)

private theorem externalType_fits {p : Json} (h : AlwaysWritten same nl p) {v : Json}
    (hv : p.get? (lit "externalType") = some v) :
    ∃ n, v.integer? = some n ∧ v.Convertible ∧ FitsInt n := by
  obtain ⟨d, hparsed, hwritten⟩ := h 0
  have hget := hparsed.externalType.of_some hv
  have hn := hwritten.externalType.of_some hv
  by_cases hconv : v.Convertible
  · rw [Json.getInt_of_integer? hn hconv] at hget
    exact ⟨_, hn, hconv, toInt32_eq_self_iff.mp (Except.ok.inj hget)⟩
  · obtain ⟨hout, hcast⟩ := Json.getInt_withCast hn hconv
    rw [hcast] at hget
    rw [← Except.ok.inj hget] at hout
    exact absurd (by decide) hout

private theorem entityWritten_of_fit
    (hsame : ∀ n, codes n ↔ same n (toPropertyType (toInt32 n))) {e : Json} {d : EntityDef}
    (h : EntityParsed nl e d)
    (hfit : ∀ v, e.get? (lit "properties") = some v → ∀ p ∈ v.items, NumbersFit codes p) :
    EntityWritten same e d := by
  obtain ⟨ps, hps, hparsed⟩ := h.properties
  refine ⟨h.id, h.name, ⟨ps, hps, ?_⟩, h.relations⟩
  apply ((List.forall₂_and_left _ _).mpr ⟨hfit ps hps, hparsed⟩).imp
  rintro p d ⟨hnum, hd⟩
  exact propertyWritten_of_fit hsame hd hnum

private theorem alwaysWritten_of_entity {e : Json}
    (h : ∀ cast, ∃ d, EntityParsed (nl.withCast cast) e d ∧ EntityWritten same e d) {v p : Json}
    (hv : e.get? (lit "properties") = some v) (hp : p ∈ v.items) : AlwaysWritten same nl p := by
  intro cast
  obtain ⟨d, hparsed, hwritten⟩ := h cast
  obtain ⟨ps, hps, hpparsed⟩ := hparsed.properties
  obtain ⟨ws, hws, hpwritten⟩ := hwritten.properties
  rw [hv] at hps hws
  cases hps
  cases hws
  obtain ⟨pd, -, hpd⟩ := exists_and_of_forall₂ hpparsed hpwritten hp
  exact ⟨pd, hpd⟩

private theorem nodup_of_keeps {entries : List Json} {s : Schema} (h : s.Keeps same entries) :
    (entries.map Json.leadingId?).Nodup := by
  obtain ⟨es, hperm, hes⟩ := h.listed
  apply (hperm.map Json.leadingId?).nodup_iff.mp
  rw [map_leadingId? (hes.imp fun e d hw ↦ hw.id)]
  apply List.Nodup.map (Option.some_injective Int)
  apply List.pairwise_map.mpr
  apply h.sorted.imp
  intro a b hab
  exact ne_of_lt hab

private theorem written_of_keeps {entries : List Json} {ds : List EntityDef}
    (hds : List.Forall₂ (EntityParsed nl) entries ds) (h : (Schema.ofDefs ds).Keeps same entries)
    {e : Json} (he : e ∈ entries) : ∃ d, EntityParsed nl e d ∧ EntityWritten same e d := by
  obtain ⟨es, hperm, hes⟩ := h.listed
  obtain ⟨d, hd, hw, -⟩ := exists_and_of_forall₂ hes hes (hperm.mem_iff.mpr he)
  obtain ⟨e', he', hparsed⟩ :=
    exists_of_forall₂ hds (Schema.mem_of_mem_ofDefs (Schema.mem_all_iff.mp hd))
  -- The listed entity was parsed from an entry of that id, and there is one only.
  have hee : e' = e := by
    apply List.inj_on_of_nodup_map (nodup_of_keeps h) he' he
    rw [Json.leadingId?_of_idField hparsed.id, Json.leadingId?_of_idField hw.id]
  rw [hee] at hparsed
  exact ⟨d, hparsed, hw⟩

private theorem keeps_of_fit (hsame : ∀ n, codes n ↔ same n (toPropertyType (toInt32 n)))
    {entries : List Json} {ds : List EntityDef}
    (hds : List.Forall₂ (EntityParsed nl) entries ds) (hfit : EntriesFit codes entries) :
    (Schema.ofDefs ds).Keeps same entries := by
  have hkept : (Schema.ofDefs ds).entities = ds := by
    apply Schema.ofDefs_entities
    have hnodup := hfit.ids
    rw [map_leadingId? (hds.imp fun e d hd ↦ hd.id)] at hnodup
    exact hnodup.of_map some
  have hwritten : List.Forall₂ (EntityWritten same) entries ds := by
    apply ((List.forall₂_and_left _ _).mpr ⟨hfit.numbers, hds⟩).imp
    rintro e d ⟨hnum, hd⟩
    exact entityWritten_of_fit hsame hd hnum
  constructor
  · intro e he
    obtain ⟨d, hd, hw, -⟩ := exists_and_of_forall₂ hwritten hwritten he
    refine ⟨d, hw, Schema.find_of_mem ?_⟩
    rwa [hkept]
  · apply exists_perm_of_forall₂ hwritten
    have hperm := Schema.all_perm (Schema.ofDefs ds)
    rwa [hkept] at hperm
  · apply Schema.all_sorted

end

/-! ### The number of an undefined conversion -/

private theorem getInt_some {nl : Nlohmann} (nl' : Nlohmann) {v : Json} {n : Int}
    (h : v.getInt nl = .ok n) : ∃ n, v.getInt nl' = .ok n := by
  cases v with
  | int | bool | float64 => exact ⟨_, rfl⟩
  | _ => cases h

private theorem OptionalField.some_of_some {α : Type} {j : Json} {key : Bytes}
    {f g : Json → α → Prop} {default a : α} (h : OptionalField j key f default a)
    (hfg : ∀ v a, f v a → ∃ b, g v b) : ∃ b, OptionalField j key g default b := by
  rcases h with ⟨hnone, -⟩ | ⟨v, hv, hf⟩
  · exact ⟨default, .inl ⟨hnone, rfl⟩⟩
  · obtain ⟨b, hb⟩ := hfg v a hf
    exact ⟨b, .inr ⟨v, hv, hb⟩⟩

private theorem propertyParsed_some {nl : Nlohmann} (nl' : Nlohmann) {p : Json}
    {d : PropertyDef} (h : PropertyParsed nl p d) : ∃ d, PropertyParsed nl' p d := by
  obtain ⟨v, n, hv, hn, -⟩ := h.type
  obtain ⟨m, hm⟩ := getInt_some nl' hn
  obtain ⟨b, hb⟩ : ∃ b, OptionalField p (lit "flags") (fun v b ↦ ∃ n, v.getInt nl' = .ok n ∧
      b = (BitVec.ofInt 32 n &&& BitVec.ofInt 32 kPropertyFlagUnsigned != 0)) false b := by
    apply h.isUnsigned.some_of_some
    rintro v b ⟨n, hn, -⟩
    obtain ⟨m, hm⟩ := getInt_some nl' hn
    exact ⟨_, m, hm, rfl⟩
  obtain ⟨k, hk⟩ : ∃ k, OptionalField p (lit "externalType") (fun v n ↦ v.getInt nl' = .ok n)
      ExternalPropertyType.unknown k := by
    apply h.externalType.some_of_some
    intro v n hn
    exact getInt_some nl' hn
  exact ⟨⟨d.id, d.name, toPropertyType m, b, k⟩, h.id, h.name, ⟨v, m, hv, hm, rfl⟩, hb, hk⟩

private theorem entityParsed_some {nl : Nlohmann} (nl' : Nlohmann) {e : Json} {d : EntityDef}
    (h : EntityParsed nl e d) : ∃ d, EntityParsed nl' e d := by
  obtain ⟨v, hv, hps⟩ := h.properties
  obtain ⟨ps, hps'⟩ := exists_forall₂_of_forall₂ hps fun _ _ hp ↦ propertyParsed_some nl' hp
  exact ⟨{ d with properties := ps }, h.id, h.name, ⟨v, hv, hps'⟩, h.relations⟩

/-- The model is kept as written, whatever conversions of floating-point numbers outside `int`
make. -/
def Schema.ParseKeeps (nl : Nlohmann) (modelJson : Bytes) (same : Int → PropertyType → Prop)
    (entries : List Json) : Prop :=
  ∀ castInt s, Schema.parse { nl with castInt } modelJson = .ok s → s.Keeps same entries

private theorem parseKeeps_iff {nl : Nlohmann} {modelJson : Bytes} {s : Schema}
    {entries : List Json} (hparse : Schema.parse nl modelJson = .ok s)
    (hentries : Schema.Entries nl modelJson entries)
    {same : Int → PropertyType → Prop} {codes : Int → Prop}
    (hsame : ∀ n, codes n ↔ same n (toPropertyType (toInt32 n)))
    (hstring : ∀ n, same n .string → FitsInt n) :
    Schema.ParseKeeps nl modelJson same entries ↔ EntriesFit codes entries := by
  obtain ⟨es, ds, hes, hds, -⟩ := Schema.parse_eq_ok.mp hparse
  obtain rfl := hentries.unique hes
  constructor
  · intro h
    have hcast : ∀ cast, ∃ ds, List.Forall₂ (EntityParsed (nl.withCast cast)) entries ds ∧
        (Schema.ofDefs ds).Keeps same entries := by
      intro cast
      obtain ⟨ds', hds'⟩ := exists_forall₂_of_forall₂ hds fun _ _ hd ↦
        entityParsed_some (nl.withCast cast) hd
      have hparsed : Schema.parse (nl.withCast cast) modelJson = .ok (Schema.ofDefs ds') :=
        Schema.parse_eq_ok.mpr ⟨entries, ds', hentries, hds', rfl⟩
      exact ⟨ds', hds', h _ _ hparsed⟩
    obtain ⟨_, -, hkeeps⟩ := hcast 0
    refine ⟨nodup_of_keeps hkeeps, ?_⟩
    intro e he v hv p hp
    have hwritten : AlwaysWritten same nl p := by
      refine alwaysWritten_of_entity (fun cast ↦ ?_) hv hp
      obtain ⟨ds', hds', hkeeps⟩ := hcast cast
      exact written_of_keeps hds' hkeeps he
    exact ⟨fun v hv ↦ type_fits hsame hstring hwritten hv, fun v hv ↦ flags_fit hwritten hv,
      fun v hv ↦ externalType_fits hwritten hv⟩
  · intro hfit castInt s hs
    obtain ⟨es, ds', hes, hds', rfl⟩ := Schema.parse_eq_ok.mp hs
    have hes' : Schema.Entries nl modelJson es := hes
    obtain rfl := hentries.unique hes'
    exact keeps_of_fit hsame hds' hfit

/-- An accepted model is kept as written exactly when no two entries have one id and the numbers
of the properties fit: a type's code, or one that narrowing makes no type's code where Unknown may
stand for a code without a type. -/
theorem parse_keeps_iff (nl : Nlohmann) (modelJson : Bytes) (s : Schema) (entries : List Json)
    (hparse : Schema.parse nl modelJson = .ok s)
    (hentries : Schema.Entries nl modelJson entries) :
    (Schema.ParseKeeps nl modelJson SameCode entries ↔ EntriesFit IsCode entries) ∧
      (Schema.ParseKeeps nl modelJson SameCodeOrUnknown entries ↔
        EntriesFit StaysCode entries) := by
  constructor
  · apply parseKeeps_iff hparse hentries isCode_iff
    intro n h
    rw [← h]
    decide
  · apply parseKeeps_iff hparse hentries staysCode_iff
    rintro n (h | ⟨h, -⟩)
    · rw [← h]
      decide
    · cases h

/-! ### Two entries of one id -/

/-- A model of one entity. -/
def plantModel : Bytes :=
  lit "\x7b\"entities\":[\x7b\"id\":\"1:5\",\"name\":\"Plant\",\"properties\":[" ++
    lit "\x7b\"id\":\"1:6\",\"name\":\"height\",\"type\":5,\"flags\":8192\x7d]\x7d]\x7d"

/-- The entity of the sample model. -/
theorem plantModel_entities :
    (Schema.parse .reference plantModel).map Schema.entities =
      .ok [⟨1, lit "Plant", [⟨1, lit "height", .int, true, 0⟩], []⟩] := by
  decide +kernel

/-- The model of one entity. -/
theorem parse_keeps_iff_sample : ∃ s entries, Schema.parse .reference plantModel = .ok s ∧
    (Schema.ParseKeeps .reference plantModel SameCode entries ↔ EntriesFit IsCode entries) ∧
      (Schema.ParseKeeps .reference plantModel SameCodeOrUnknown entries ↔
        EntriesFit StaysCode entries) := by
  obtain ⟨s, hparse, -⟩ := Schema.parse_of_entities plantModel_entities
  obtain ⟨entries, -, hentries, -⟩ := Schema.parse_eq_ok.mp hparse
  exact ⟨s, entries, hparse, parse_keeps_iff .reference plantModel s entries hparse hentries⟩

/-- A model with two entries of one id. -/
private def repeatedModel : Bytes :=
  lit "\x7b\"entities\":[\x7b\"id\":\"1:5\",\"name\":\"Plant\",\"properties\":[]\x7d," ++
    lit "\x7b\"id\":\"1:7\",\"name\":\"Pot\",\"properties\":[]\x7d]\x7d"

private theorem repeatedModel_entities :
    (Schema.parse .reference repeatedModel).map Schema.entities =
      .ok [⟨1, lit "Plant", [], []⟩] := by
  decide +kernel

/-- The number of entries of a model. -/
private def entryCount (model : Json) : Nat :=
  match model.get? (lit "entities") with
  | some (.arr entries) => entries.length
  | _ => 0

private theorem repeatedModel_entryCount :
    (Nlohmann.reference.parse repeatedModel).toOption.map entryCount = some 2 := by
  decide +kernel

/-- The second entry is dropped: the listing has one entity. -/
theorem parse_drops_entry : ∃ s entries, Schema.parse .reference repeatedModel = .ok s ∧
    Schema.Entries .reference repeatedModel entries ∧ entries.length = 2 ∧
      ¬ s.Keeps SameCode entries ∧ ¬ s.Keeps SameCodeOrUnknown entries := by
  obtain ⟨s, hparse, hs⟩ := Schema.parse_of_entities repeatedModel_entities
  obtain ⟨entries, -, hentries, -⟩ := Schema.parse_eq_ok.mp hparse
  have hcount : entries.length = 2 := by
    obtain ⟨model, hmodel, hget⟩ := hentries
    have h := repeatedModel_entryCount
    simpa [hmodel, Except.toOption, entryCount, hget] using h
  have hno : ∀ same, ¬ s.Keeps same entries := by
    rintro same ⟨-, ⟨es, hperm, hes⟩, -⟩
    have hall := s.all_perm.length_eq
    rw [hs, ← hes.length_eq, hperm.length_eq, hcount] at hall
    exact absurd hall (by decide)
  exact ⟨s, entries, hparse, hentries, hcount, hno _, hno _⟩

end ObDump
