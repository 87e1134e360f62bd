import ObDump.Schema.Kept

/-!
# Which id strings a model may carry

Library `Schema`. `parseLeadingId`, `src/schema.cpp:14–20`, in the four places of
`Schema::parse` where an id stands, against the form `<id>:<uid>` that its comment and its error
message give. `std::stoi` skips white space, takes a sign and stops at the first byte that is no
digit.
-/

namespace ObDump

open Base

/-! ### The id strings of an entry -/

/-- The string of a field. -/
def Json.stringsAt (j : Json) (key : Bytes) : List Bytes :=
  match j.get? key with
  | some (.str s) => [s]
  | _ => []

/-- The items of a field. -/
def Json.itemsAt (j : Json) (key : Bytes) : List Json :=
  match j.get? key with
  | some v => v.items
  | none => []

/-- The id strings of an entity entry: its own, those of its properties, and each relation's own
and target's. -/
def Json.idStrings (e : Json) : List Bytes :=
  e.stringsAt (lit "id") ++ (e.itemsAt (lit "properties")).flatMap (·.stringsAt (lit "id")) ++
    (e.itemsAt (lit "relations")).flatMap fun r ↦
      r.stringsAt (lit "id") ++ r.stringsAt (lit "targetId")

/-- The numbers an entity keeps for its id strings, in the same order. -/
def EntityDef.ids (d : EntityDef) : List Int :=
  [d.entityId] ++ d.properties.flatMap (fun p ↦ [p.id]) ++
    d.relations.flatMap fun r ↦ [r.id] ++ [r.targetEntityId]

/-- Decimal digits, a colon and the rest; the digits' value is the number, and it is positive. -/
def ExactId (s : Bytes) (n : Int) : Prop :=
  ∃ digits rest, s = digits ++ 0x3A :: rest ∧ digits ≠ [] ∧ (∀ b ∈ digits, isDigit b = true) ∧
    n = decimal digits ∧ 0 < n

/-- The first byte that is no digit is a colon, and a digit before it is not zero. -/
def PlainId (s : Bytes) : Prop :=
  (s.dropWhile isDigit).head? = some 0x3A ∧ ∃ b ∈ s.takeWhile isDigit, b ≠ 0x30

instance (s : Bytes) : Decidable (PlainId s) :=
  inferInstanceAs (Decidable (_ ∧ ∃ b ∈ s.takeWhile isDigit, b ≠ 0x30))

/-- Every id string of the entries has the exact form, and each entity that is kept comes from an
entry, with the numbers its id strings spell. -/
structure Schema.IdsExact (entries : List Json) (s : Schema) : Prop where
  strings : ∀ e ∈ entries, ∀ str ∈ e.idStrings, ∃ n, ExactId str n
  stored : ∀ d ∈ s.entities, ∃ e ∈ entries, List.Forall₂ ExactId e.idStrings d.ids

/-! ### One id string -/

private theorem decimal_pos_of {ds : Bytes} {b : UInt8} (hb : b ∈ ds) (hpos : 0x30 < b.toNat) :
    0 < decimal ds := by
  have hstep : ∀ (l : Bytes) (n : Nat), (0 < n ∨ b ∈ l) →
      0 < l.foldl (fun n c ↦ 10 * n + (c.toNat - 0x30)) n := by
    intro l
    induction l with
    | nil =>
      rintro n (hn | hn)
      · exact hn
      · cases hn
    | cons c l ih =>
      rintro n (hn | hn)
      · apply ih
        left
        show 0 < 10 * n + (c.toNat - 0x30)
        omega
      · apply ih
        rcases List.mem_cons.mp hn with rfl | hn
        · left
          show 0 < 10 * n + (b.toNat - 0x30)
          omega
        · exact .inr hn
  exact hstep ds 0 (.inr hb)

private theorem decimal_zeros {ds : Bytes} (h : ∀ b ∈ ds, b = 0x30) : decimal ds = 0 := by
  unfold decimal
  induction ds with
  | nil => rfl
  | cons b ds ih =>
    obtain ⟨rfl, hds⟩ := List.forall_mem_cons.mp h
    exact ih hds

private theorem isDigit_iff {b : UInt8} : isDigit b = true ↔ 0x30 ≤ b.toNat ∧ b.toNat ≤ 0x39 := by
  simp [isDigit, UInt8.le_iff_toNat_le]

private theorem not_isDigit_colon : isDigit 0x3A = false := by decide

private theorem takeWhile_digits {ds rest : Bytes} (h : ∀ b ∈ ds, isDigit b = true) :
    (ds ++ 0x3A :: rest).takeWhile isDigit = ds ∧
      (ds ++ 0x3A :: rest).dropWhile isDigit = 0x3A :: rest := by
  constructor
  · rw [List.takeWhile_append_of_pos h, List.takeWhile_cons_of_neg (by decide), List.append_nil]
  · rw [List.dropWhile_append_of_pos h, List.dropWhile_cons_of_neg (by decide)]

private theorem stoi_digits {ds : Bytes} (hne : ds ≠ []) (h : ∀ b ∈ ds, isDigit b = true) :
    stoi ds = stoiRange (decimal ds) := by
  have hspace : ds.dropWhile isSpace = ds := by
    cases ds with
    | nil => rfl
    | cons b ds =>
      have hb := isDigit_iff.mp (h b List.mem_cons_self)
      apply List.dropWhile_cons_of_neg
      simp only [isSpace, Bool.or_eq_true, Bool.and_eq_true, decide_eq_true_eq,
        UInt8.le_iff_toNat_le, ← UInt8.toNat_inj]
      have h20 : (0x20 : UInt8).toNat = 0x20 := rfl
      have h9 : (0x09 : UInt8).toNat = 0x09 := rfl
      have hD : (0x0D : UInt8).toNat = 0x0D := rfl
      omega
  have hsign : takeSign ds = (false, ds) := by
    cases ds with
    | nil => rfl
    | cons b ds =>
      have hb := isDigit_iff.mp (h b List.mem_cons_self)
      have hminus : b ≠ 0x2D := by
        rintro rfl
        exact absurd hb (by decide)
      have hplus : b ≠ 0x2B := by
        rintro rfl
        exact absurd hb (by decide)
      rw [takeSign, if_neg hminus, if_neg hplus]
  have htake : ds.takeWhile isDigit = ds := List.takeWhile_eq_self_iff.mpr h
  simp only [stoi, hspace, hsign, htake, if_neg hne, Bool.false_eq_true, if_false]

private theorem idxOf_colon {ds rest : Bytes} (h : ∀ b ∈ ds, isDigit b = true) :
    (ds ++ 0x3A :: rest).idxOf? 0x3A = some ds.length := by
  induction ds with
  | nil => simp [List.idxOf?_cons]
  | cons b ds ih =>
    obtain ⟨hb, hds⟩ := List.forall_mem_cons.mp h
    have hne : b ≠ 0x3A := by
      rintro rfl
      rw [not_isDigit_colon] at hb
      cases hb
    rw [List.cons_append, List.idxOf?_cons, ih hds]
    simp [hne]

private theorem plainId_of_exactId {s : Bytes} {n : Int} (h : ExactId s n) : PlainId s := by
  obtain ⟨digits, rest, rfl, -, hdigits, rfl, hpos⟩ := h
  obtain ⟨htake, hdrop⟩ := @takeWhile_digits _ rest hdigits
  refine ⟨by rw [hdrop]; rfl, ?_⟩
  rw [htake]
  by_contra hzero
  push Not at hzero
  rw [decimal_zeros hzero] at hpos
  exact absurd hpos (by decide)

private theorem exactId_iff {s : Bytes} {n : Int} (h : parseLeadingId s = .ok n) :
    ExactId s n ↔ PlainId s := by
  constructor
  · exact plainId_of_exactId
  · rintro ⟨hcolon, b, hb, hne⟩
    have hdigits : ∀ c ∈ s.takeWhile isDigit, isDigit c = true := fun c ↦ List.mem_takeWhile_imp
    obtain ⟨rest, hrest⟩ : ∃ rest, s.dropWhile isDigit = 0x3A :: rest := by
      cases hd : s.dropWhile isDigit with
      | nil =>
        rw [hd] at hcolon
        cases hcolon
      | cons c rest =>
        rw [hd] at hcolon
        cases hcolon
        exact ⟨rest, rfl⟩
    have hs : s = s.takeWhile isDigit ++ 0x3A :: rest := by
      rw [← hrest, List.takeWhile_append_dropWhile]
    have hnil : s.takeWhile isDigit ≠ [] := List.ne_nil_of_mem hb
    have hvalue : n = decimal (s.takeWhile isDigit) := by
      rw [parseLeadingId, hs, idxOf_colon hdigits] at h
      simp only [List.take_left', stoi_digits hnil hdigits, stoiRange] at h
      split at h
      · cases h
      · exact (Except.ok.inj h).symm
    have hpos : 0 < decimal (s.takeWhile isDigit) := by
      apply decimal_pos_of hb
      have hd := isDigit_iff.mp (hdigits b hb)
      have h30 : b.toNat ≠ 0x30 := fun heq ↦ hne (UInt8.toNat_inj.mp heq)
      omega
    exact ⟨_, rest, hs, hnil, hdigits, hvalue, by omega⟩

/-! ### The strings of an entry -/

private theorem forall₂_stringsAt {j : Json} {key : Bytes} {n : Int} (h : IdField j key n) :
    List.Forall₂ (fun s n ↦ parseLeadingId s = .ok n) (j.stringsAt key) [n] := by
  obtain ⟨s, hs, hn⟩ := h
  simp only [Json.stringsAt, hs]
  exact .cons hn .nil

private theorem forall₂_flatMap {α : Type} {R : Json → α → Prop} {l : List Json} {r : List α}
    {f : Json → List Bytes} {g : α → List Int} (h : List.Forall₂ R l r)
    (hfg : ∀ j a, R j a → List.Forall₂ (fun s n ↦ parseLeadingId s = .ok n) (f j) (g a)) :
    List.Forall₂ (fun s n ↦ parseLeadingId s = .ok n) (l.flatMap f) (r.flatMap g) := by
  induction h with
  | nil => exact .nil
  | cons hja _ ih => exact List.rel_append (hfg _ _ hja) ih

private theorem forall₂_idStrings {nl : Nlohmann} {e : Json} {d : EntityDef}
    (h : EntityParsed nl e d) :
    List.Forall₂ (fun s n ↦ parseLeadingId s = .ok n) e.idStrings d.ids := by
  apply List.rel_append
  · apply List.rel_append (forall₂_stringsAt h.id)
    obtain ⟨v, hv, hps⟩ := h.properties
    simp only [Json.itemsAt, hv]
    apply forall₂_flatMap hps
    intro p pd hp
    exact forall₂_stringsAt hp.id
  · rcases h.relations with ⟨hnone, hnil⟩ | ⟨v, hv, hrs⟩
    · simp only [Json.itemsAt, hnone, hnil]
      exact .nil
    · simp only [Json.itemsAt, hv]
      apply forall₂_flatMap hrs
      intro r rd hr
      exact List.rel_append (forall₂_stringsAt hr.id) (forall₂_stringsAt hr.targetId)

private theorem forall₂_exactId {strs : List Bytes} {ns : List Int}
    (h : List.Forall₂ (fun s n ↦ parseLeadingId s = .ok n) strs ns) :
    List.Forall₂ ExactId strs ns ↔ ∀ s ∈ strs, PlainId s :=
  forall₂_iff_of_forall₂ h fun _ _ hs ↦ exactId_iff hs

/-- The ids of an accepted model are parsed exactly when each id string starts with digits, not
all zeros, that its first colon follows. -/
theorem parse_ids_exact_iff (nl : Nlohmann) (modelJson : Bytes) (s : Schema)
    (entries : List Json) (hparse : Schema.parse nl modelJson = .ok s)
    (hentries : Schema.Entries nl modelJson entries) :
    s.IdsExact entries ↔ ∀ e ∈ entries, ∀ str ∈ e.idStrings, PlainId str := by
  obtain ⟨es, ds, hes, hds, rfl⟩ := Schema.parse_eq_ok.mp hparse
  obtain rfl := hentries.unique hes
  constructor
  · rintro ⟨hstrings, -⟩ e he str hstr
    obtain ⟨n, hn⟩ := hstrings e he str hstr
    exact plainId_of_exactId hn
  · intro h
    constructor
    · intro e he str hstr
      obtain ⟨d, -, hd, -⟩ := exists_and_of_forall₂ hds hds he
      have hexact := (forall₂_exactId (forall₂_idStrings hd)).mpr (h e he)
      obtain ⟨n, -, hn, -⟩ := exists_and_of_forall₂ hexact hexact hstr
      exact ⟨n, hn⟩
    · intro d hd
      obtain ⟨e, he, hparsed⟩ := exists_of_forall₂ hds (Schema.mem_of_mem_ofDefs hd)
      exact ⟨e, he, (forall₂_exactId (forall₂_idStrings hparsed)).mpr (h e he)⟩

/-! ### Ids that are no digits before a colon -/

/-- A model with plain ids. -/
theorem parse_ids_exact_iff_sample : ∃ s entries,
    Schema.parse .reference plantModel = .ok s ∧
      (s.IdsExact entries ↔ ∀ e ∈ entries, ∀ str ∈ e.idStrings, PlainId str) := by
  obtain ⟨s, hparse, -⟩ := Schema.parse_of_entities plantModel_entities
  obtain ⟨entries, -, hentries, -⟩ := Schema.parse_eq_ok.mp hparse
  exact ⟨s, entries, hparse,
    parse_ids_exact_iff .reference plantModel s entries hparse hentries⟩

/-- A sign and a zero, white space and a number cut short. -/
private def looseModel : Bytes :=
  lit "\x7b\"entities\":[\x7b\"id\":\"-1:5\",\"name\":\"Plant\",\"properties\":[" ++
    lit "\x7b\"id\":\"0:6\",\"name\":\"height\",\"type\":5\x7d," ++
    lit "\x7b\"id\":\" 2x3:7\",\"name\":\"width\",\"type\":5\x7d]\x7d]\x7d"

private theorem looseModel_entities :
    (Schema.parse .reference looseModel).map Schema.entities =
      .ok [⟨-1, lit "Plant", [⟨0, lit "height", .int, false, 0⟩,
        ⟨2, lit "width", .int, false, 0⟩], []⟩] := by
  decide +kernel

/-- The model is accepted, and none of its ids is an exact one. -/
theorem parse_accepts_loose_ids : ∃ s entries, Schema.parse .reference looseModel = .ok s ∧
    Schema.Entries .reference looseModel entries ∧ ¬ s.IdsExact entries := by
  obtain ⟨s, hparse, hs⟩ := Schema.parse_of_entities looseModel_entities
  obtain ⟨entries, -, hentries, -⟩ := Schema.parse_eq_ok.mp hparse
  refine ⟨s, entries, hparse, hentries, ?_⟩
  rintro ⟨-, hstored⟩
  rw [hs] at hstored
  obtain ⟨e, -, hids⟩ := hstored _ List.mem_cons_self
  -- The first number kept is the entity id, -1.
  cases hids' : e.idStrings with
  | nil =>
    rw [hids'] at hids
    cases hids
  | cons str strs =>
    rw [hids'] at hids
    cases hids with
    | cons hstr _ =>
      obtain ⟨digits, rest, -, -, -, -, hpos⟩ := hstr
      exact absurd hpos (by decide)

end ObDump
