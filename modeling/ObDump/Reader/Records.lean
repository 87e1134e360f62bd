import ObDump.Base.Except
import ObDump.Reader.Walks

/-!
# The records of a store

Library `Reader`. `LmdbReader::forEachObject` on a store whose calls succeed hands the
store's records to the callback one after the other, until it asks to stop or throws.
-/

namespace ObDump

open Base

/-- The object records of a store, in key order. -/
def Store.records (store : Store) : List ObjectRecord := store.entries.filterMap objectRecord

section

variable {σ : Type}

/-- Records handed to a callback in turn, until it stops or throws. -/
def deliver (cb : σ → ObjectRecord → σ × Except Exc Bool) :
    List ObjectRecord → σ → σ × Except Exc Unit
  | [], s => (s, .ok ())
  | rec :: recs, s =>
    match cb s rec with
    | (s', .error err) => (s', .error err)
    | (s', .ok false) => (s', .ok ())
    | (s', .ok true) => deliver cb recs s'

private theorem walkRecords_rc {cb : σ → ObjectRecord → σ × Except Exc Bool} {rc rc' : Int}
    {es : List Entry} {s s' : σ} (h : LmdbReader.walkRecords cb rc es s = (s', .ok rc')) :
    rc' = 0 ∨ rc' = rc := by
  induction es generalizing s with
  | nil =>
    cases h
    exact .inr rfl
  | cons e es ih =>
    rw [LmdbReader.walkRecords] at h
    split at h
    · exact ih h
    · split at h
      · cases h
      · cases h
        exact .inl rfl
      · exact ih h

private theorem walkRecords_deliver (cb : σ → ObjectRecord → σ × Except Exc Bool) (rc : Int)
    (es : List Entry) (s : σ) :
    deliver cb (es.filterMap objectRecord) s =
      ((LmdbReader.walkRecords cb rc es s).1,
        (LmdbReader.walkRecords cb rc es s).2.map fun _ ↦ ()) := by
  induction es generalizing s with
  | nil => rfl
  | cons e es ih =>
    rw [LmdbReader.walkRecords, List.filterMap_cons]
    cases objectRecord e with
    | none => exact ih s
    | some rec =>
      simp only [deliver]
      rcases cb s rec with ⟨s', err | _ | _⟩
      · rfl
      · rfl
      · exact ih s'

/-- On a store whose calls succeed, the walk delivers the store's records. -/
theorem LmdbReader.forEachObject_eq {reader : LmdbReader} {store : Store}
    (hs : reader.txn.Serves store) (cb : σ → ObjectRecord → σ × Except Exc Bool) (s : σ) :
    reader.forEachObject cb s = deliver cb store.records s := by
  rw [Store.records, walkRecords_deliver cb MDB_NOTFOUND]
  have hopen : check reader.sys reader.txn.cursorOpen (lit "mdb_cursor_open") = .ok () := by
    rw [hs.cursorOpen]
    rfl
  simp only [forEachObject, hopen, hs.first_rc, hs.first_entries]
  cases h : walkRecords cb MDB_NOTFOUND store.entries s with
  | mk s' r =>
    cases r with
    | error err => rfl
    | ok rc =>
      rcases walkRecords_rc h with rfl | rfl
      · rfl
      · rfl

/-- What every call of the callback preserves, a walk preserves, however the store's calls
end. -/
theorem LmdbReader.walkRecords_preserves {P : σ → Prop}
    {cb : σ → ObjectRecord → σ × Except Exc Bool} (hcb : ∀ s rec, P s → P (cb s rec).1) (rc : Int)
    (es : List Entry) {s : σ} (hs : P s) : P (walkRecords cb rc es s).1 := by
  induction es generalizing s with
  | nil => exact hs
  | cons e es ih =>
    rw [walkRecords]
    split
    · exact ih hs
    · next rec _ =>
      have hnext := hcb s rec hs
      split <;> next h => rw [h] at hnext; first | exact hnext | exact ih hnext

/-- The walk over the records of any store. -/
theorem LmdbReader.forEachObject_preserves {P : σ → Prop} (reader : LmdbReader)
    {cb : σ → ObjectRecord → σ × Except Exc Bool} (hcb : ∀ s rec, P s → P (cb s rec).1) {s : σ}
    (hs : P s) : P (reader.forEachObject cb s).1 := by
  unfold forEachObject
  split
  · exact hs
  · have hwalk := walkRecords_preserves hcb reader.txn.fromFirst.rc reader.txn.fromFirst.entries hs
    split <;> next h => rw [h] at hwalk; exact hwalk

/-- Callbacks that agree on every record make walks that agree. -/
theorem LmdbReader.walkRecords_agree {cb cb' : σ → ObjectRecord → σ × Except Exc Bool}
    (hcb : ∀ s rec, AgreeWith (cb s rec) (cb' s rec)) (rc : Int) (es : List Entry) (s : σ) :
    AgreeWith (walkRecords cb rc es s) (walkRecords cb' rc es s) := by
  induction es generalizing s with
  | nil => exact .inl rfl
  | cons e es ih =>
    rw [walkRecords, walkRecords]
    cases objectRecord e with
    | none => exact ih s
    | some rec =>
      rcases (hcb s rec).eq_or_errors with heq | ⟨s₁, err, s₂, err', hx, hy⟩
      · simp only [heq]
        cases cb' s rec with
        | mk s' out =>
          cases out with
          | error err => exact .inl rfl
          | ok more =>
            cases more with
            | false => exact .inl rfl
            | true => exact ih s'
      · simp only [hx, hy]
        apply agreeWith_errors

/-- The same of the walk over the records of a store. -/
theorem LmdbReader.forEachObject_agree (reader : LmdbReader)
    {cb cb' : σ → ObjectRecord → σ × Except Exc Bool}
    (hcb : ∀ s rec, AgreeWith (cb s rec) (cb' s rec)) (s : σ) :
    AgreeWith (reader.forEachObject cb s) (reader.forEachObject cb' s) := by
  unfold forEachObject
  cases check reader.sys reader.txn.cursorOpen (lit "mdb_cursor_open") with
  | error err => exact .inl rfl
  | ok u =>
    simp only
    have hwalk := walkRecords_agree hcb reader.txn.fromFirst.rc reader.txn.fromFirst.entries s
    rcases hwalk.eq_or_errors with heq | ⟨s₁, err, s₂, err', hx, hy⟩
    · rw [heq]
      exact .inl rfl
    · rw [hx, hy]
      apply agreeWith_errors

/-- A walk under a map of the callback's states. -/
theorem LmdbReader.walkRecords_hom {τ : Type} (f : σ → τ)
    {cb : σ → ObjectRecord → σ × Except Exc Bool}
    {cb' : τ → ObjectRecord → τ × Except Exc Bool}
    (h : ∀ s rec, cb' (f s) rec = (f (cb s rec).1, (cb s rec).2)) (rc : Int) (es : List Entry)
    (s : σ) :
    walkRecords cb' rc es (f s) =
      (f (walkRecords cb rc es s).1, (walkRecords cb rc es s).2) := by
  induction es generalizing s with
  | nil => rfl
  | cons e es ih =>
    unfold walkRecords
    cases objectRecord e with
    | none => exact ih s
    | some rec =>
      simp only [h]
      cases cb s rec with
      | mk s' r =>
        cases r with
        | error err => rfl
        | ok more =>
          cases more with
          | false => rfl
          | true => exact ih s'

/-- The walk over the records of any store, under a map of the callback's states. -/
theorem LmdbReader.forEachObject_hom {τ : Type} (f : σ → τ) (reader : LmdbReader)
    {cb : σ → ObjectRecord → σ × Except Exc Bool}
    {cb' : τ → ObjectRecord → τ × Except Exc Bool}
    (h : ∀ s rec, cb' (f s) rec = (f (cb s rec).1, (cb s rec).2)) (s : σ) :
    reader.forEachObject cb' (f s) =
      (f (reader.forEachObject cb s).1, (reader.forEachObject cb s).2) := by
  unfold forEachObject
  cases check reader.sys reader.txn.cursorOpen (lit "mdb_cursor_open") with
  | error err => rfl
  | ok u =>
    simp only [walkRecords_hom f h]
    cases walkRecords cb reader.txn.fromFirst.rc reader.txn.fromFirst.entries s with
    | mk s' r => cases r <;> rfl

/-- A callback that never stops or throws sees every record. -/
theorem deliver_continue (f : σ → ObjectRecord → σ) (recs : List ObjectRecord) (s : σ) :
    deliver (fun s rec ↦ (f s rec, .ok true)) recs s = (recs.foldl f s, .ok ()) := by
  induction recs generalizing s with
  | nil => rfl
  | cons rec recs ih => exact ih (f s rec)

end

/-! ### Stores of the documented form -/

/-- Every object-data key has the documented form. -/
def Store.Documented (store : Store) : Prop :=
  ∀ e ∈ store.entries, IsDataKey e.1 → DocumentedKey e.1

/-- Records ordered by entity id, then by object id. -/
def ObjectRecord.Before (a b : ObjectRecord) : Prop :=
  a.entityId < b.entityId ∨ a.entityId = b.entityId ∧ a.objectId < b.objectId

namespace Store

variable {store : Store}

private theorem record_of_entry (hd : store.Documented) {e : Entry} (he : e ∈ store.entries)
    {rec : ObjectRecord} (hr : objectRecord e = some rec) :
    ∃ n ≤ 63, e = (dataKey n rec.objectId, rec.data) ∧ rec.entityId = n := by
  unfold objectRecord at hr
  split at hr
  · next hk =>
    cases hr
    have hlt : (e.1.getD 3 0).toNat < 256 := (e.1.getD 3 0).toNat_lt
    exact ⟨_, by omega, Prod.ext (eq_dataKey hk (hd e he hk)) rfl, rfl⟩
  · cases hr

/-- The records are the stored objects, with the ids their keys were built from. -/
theorem mem_records_iff (hd : store.Documented) (rec : ObjectRecord) :
    rec ∈ store.records ↔ ∃ n ≤ 63, ∃ objectId value,
      (dataKey n objectId, value) ∈ store.entries ∧ rec = ⟨n, objectId, value⟩ := by
  rw [records, List.mem_filterMap]
  constructor
  · rintro ⟨e, he, hr⟩
    obtain ⟨n, hn, rfl, hid⟩ := record_of_entry hd he hr
    exact ⟨n, hn, _, _, he, by rw [← hid]⟩
  · rintro ⟨n, hn, objectId, value, he, rfl⟩
    exact ⟨_, he, objectRecord_dataKey hn objectId value⟩

/-- The records come in strictly increasing order of their ids. -/
theorem records_sorted (hd : store.Documented) : store.records.Pairwise ObjectRecord.Before := by
  have hmem : store.entries.Pairwise fun a b ↦
      a ∈ store.entries ∧ b ∈ store.entries ∧ a.1 < b.1 :=
    store.sorted.imp_of_mem fun ha hb hab ↦ ⟨ha, hb, hab⟩
  refine List.pairwise_filterMap.mpr (hmem.imp ?_)
  rintro a b ⟨ha, hb, hab⟩ r hr q hq
  obtain ⟨n, hn, rfl, hrn⟩ := record_of_entry hd ha hr
  obtain ⟨m, hm, rfl, hqm⟩ := record_of_entry hd hb hq
  unfold ObjectRecord.Before
  rw [hrn, hqm]
  rcases (dataKey_lt_iff hn hm _ _).mp hab with hlt | ⟨rfl, hlt⟩
  · exact .inl (by omega)
  · exact .inr ⟨rfl, hlt⟩

end Store

end ObDump
