import Mathlib

/-!
# Groups of consecutive items

Library `Base`. A keyed sequence cut into groups in one pass, with no lookahead: an item joins
the open group when its key joins the key just before, and begins a group otherwise. A group
carries the key of its first item.
-/

namespace ObDump.Base

universe u v w

variable {κ : Type u} {β : Type v} {γ : Type w} (joins : κ → κ → Bool)

/-- The groups from an open one on, after an item with key `prev`. -/
def groupsFrom (name : κ) (xs : List β) (prev : κ) : List (κ × β) → List (κ × List β)
  | [] => [(name, xs)]
  | (k, b) :: rest =>
    if joins prev k then groupsFrom name (xs ++ [b]) k rest
    else (name, xs) :: groupsFrom k [b] k rest

/-- The groups of a sequence. -/
def groups : List (κ × β) → List (κ × List β)
  | [] => []
  | (k, b) :: rest => groupsFrom joins k [b] k rest

/-- The keys that begin a group, after an item with key `prev`. -/
def beginsFrom (prev : κ) : List κ → List κ
  | [] => []
  | k :: ks => if joins prev k then beginsFrom k ks else k :: beginsFrom k ks

/-- The keys that begin a group. -/
def begins : List κ → List κ
  | [] => []
  | k :: ks => k :: beginsFrom joins k ks

private theorem map_fst_groupsFrom (name : κ) (xs : List β) (prev : κ) (l : List (κ × β)) :
    (groupsFrom joins name xs prev l).map Prod.fst =
      name :: beginsFrom joins prev (l.map Prod.fst) := by
  induction l generalizing name xs prev with
  | nil => rfl
  | cons e rest ih =>
    rw [groupsFrom, List.map_cons, beginsFrom]
    split
    · exact ih name _ e.1
    · rw [List.map_cons, ih]

/-- Each group is under the key that begins it. -/
theorem map_fst_groups (l : List (κ × β)) :
    (groups joins l).map Prod.fst = begins joins (l.map Prod.fst) := by
  cases l with
  | nil => rfl
  | cons e rest => exact map_fst_groupsFrom joins e.1 [e.2] e.1 rest

private theorem groupsFrom_map (f : β → γ) (name : κ) (xs : List β) (prev : κ)
    (l : List (κ × β)) :
    groupsFrom joins name (xs.map f) prev (l.map fun e ↦ (e.1, f e.2)) =
      (groupsFrom joins name xs prev l).map fun g ↦ (g.1, g.2.map f) := by
  induction l generalizing name xs prev with
  | nil => rfl
  | cons e rest ih =>
    rw [List.map_cons, groupsFrom, groupsFrom]
    split
    · have h := ih name (xs ++ [e.2]) e.1
      rw [List.map_append] at h
      exact h
    · rw [List.map_cons]
      exact congrArg _ (ih e.1 [e.2] e.1)

/-- Grouping does not look at the items. -/
theorem groups_map (f : β → γ) (l : List (κ × β)) :
    groups joins (l.map fun e ↦ (e.1, f e.2)) =
      (groups joins l).map fun g ↦ (g.1, g.2.map f) := by
  cases l with
  | nil => rfl
  | cons e rest => exact groupsFrom_map joins f e.1 [e.2] e.1 rest

/-- After an item with key `prev`, equal keys are adjacent, and exactly they join: an item has
the key just before, or one that is not among those seen. -/
def ContiguousFrom (seen : List κ) (prev : κ) : List κ → Prop
  | [] => True
  | k :: ks =>
    (joins prev k = true ∧ k = prev ∨ joins prev k = false ∧ k ∉ prev :: seen) ∧
      ContiguousFrom (prev :: seen) k ks

private theorem beginsFrom_fresh {joins : κ → κ → Bool} {seen : List κ} {prev : κ} {ks : List κ}
    (h : ContiguousFrom joins seen prev ks) :
    (∀ k ∈ beginsFrom joins prev ks, k ∉ prev :: seen) ∧ (beginsFrom joins prev ks).Nodup := by
  induction ks generalizing seen prev with
  | nil => exact ⟨by simp [beginsFrom], List.nodup_nil⟩
  | cons k ks ih =>
    obtain ⟨hk, hrest⟩ := h
    obtain ⟨hfresh, hnodup⟩ := ih hrest
    rw [beginsFrom]
    rcases hk with ⟨hj, rfl⟩ | ⟨hj, hnew⟩
    · rw [if_pos hj]
      exact ⟨fun x hx hm ↦ hfresh x hx (List.mem_cons_of_mem _ hm), hnodup⟩
    · rw [if_neg (by simp [hj])]
      constructor
      · intro x hx hm
        rcases List.mem_cons.mp hx with rfl | hx
        · exact hnew hm
        · exact hfresh x hx (List.mem_cons_of_mem _ hm)
      · exact List.nodup_cons.mpr ⟨fun hm ↦ hfresh k hm List.mem_cons_self, hnodup⟩

/-- When equal keys are adjacent, each key begins one group at most. -/
theorem nodup_begins {joins : κ → κ → Bool} {k : κ} {ks : List κ}
    (h : ContiguousFrom joins [] k ks) : (begins joins (k :: ks)).Nodup := by
  obtain ⟨hfresh, hnodup⟩ := beginsFrom_fresh h
  exact List.nodup_cons.mpr ⟨fun hm ↦ hfresh k hm List.mem_cons_self, hnodup⟩

/-! ### Which items begin a group -/

/-- The item at position `i` has key `k` and begins a group: it is the first, or its key does
not join the one before. -/
def BeginsAt (ks : List κ) (i : Nat) (k : κ) : Prop :=
  ks[i]? = some k ∧ ∀ j p, i = j + 1 → ks[j]? = some p → joins p k = false

section

variable {joins}

private theorem beginsAt_first {prev k : κ} {ks : List κ} :
    BeginsAt joins (prev :: ks) 0 k ↔ prev = k := by
  simp [BeginsAt]

private theorem beginsAt_second {prev k k' : κ} {ks : List κ} :
    BeginsAt joins (prev :: k' :: ks) 1 k ↔ k' = k ∧ joins prev k' = false := by
  simp only [BeginsAt, List.getElem?_cons_succ, List.getElem?_cons_zero, Option.some.injEq]
  constructor
  · rintro ⟨rfl, h⟩
    exact ⟨rfl, h 0 prev rfl (by simp)⟩
  · rintro ⟨rfl, h⟩
    refine ⟨rfl, fun j p hj hp ↦ ?_⟩
    obtain rfl : j = 0 := by omega
    cases hp
    exact h

private theorem beginsAt_later {prev k k' : κ} {ks : List κ} {i : Nat} :
    BeginsAt joins (prev :: k' :: ks) (i + 2) k ↔ BeginsAt joins (k' :: ks) (i + 1) k := by
  simp only [BeginsAt, List.getElem?_cons_succ]
  refine and_congr_right fun _ ↦ ⟨fun h j p hj hp ↦ ?_, fun h j p hj hp ↦ ?_⟩
  · exact h (j + 1) p (by omega) hp
  · obtain rfl : j = i + 1 := by omega
    exact h i p rfl hp

private theorem mem_beginsFrom {prev k : κ} {ks : List κ} :
    k ∈ beginsFrom joins prev ks ↔ ∃ i, BeginsAt joins (prev :: ks) (i + 1) k := by
  induction ks generalizing prev with
  | nil => simp [beginsFrom, BeginsAt]
  | cons k' ks ih =>
    have hsplit : (∃ i, BeginsAt joins (prev :: k' :: ks) (i + 1) k) ↔
        (k' = k ∧ joins prev k' = false) ∨ k ∈ beginsFrom joins k' ks := by
      have hsecond : BeginsAt joins (prev :: k' :: ks) 1 k ↔ k' = k ∧ joins prev k' = false :=
        beginsAt_second
      rw [ih, ← hsecond]
      constructor
      · rintro ⟨_ | i, h⟩
        · exact .inl h
        · exact .inr ⟨i, beginsAt_later.mp h⟩
      · rintro (h | ⟨i, h⟩)
        · exact ⟨0, h⟩
        · exact ⟨i + 1, beginsAt_later.mpr h⟩
    rw [hsplit, beginsFrom]
    split
    · next hj => simp [hj]
    · next hj => simp [hj, eq_comm]

/-- The keys that begin a group are those with a position where one begins. -/
theorem mem_begins_iff {k : κ} {ks : List κ} :
    k ∈ begins joins ks ↔ ∃ i, BeginsAt joins ks i k := by
  cases ks with
  | nil => simp [begins, BeginsAt]
  | cons k' ks =>
    rw [begins, List.mem_cons, mem_beginsFrom]
    constructor
    · rintro (rfl | ⟨i, h⟩)
      · exact ⟨0, beginsAt_first.mpr rfl⟩
      · exact ⟨i + 1, h⟩
    · rintro ⟨_ | i, h⟩
      · exact .inl (beginsAt_first.mp h).symm
      · exact .inr ⟨i, h⟩

private theorem nodup_cons_iff_positions {k₀ : κ} {bs : List κ} {P Q : Nat → κ → Prop}
    (hfirst : ∀ {k}, P 0 k ↔ k₀ = k) (hlater : ∀ {i k}, P (i + 1) k ↔ Q i k)
    (hmem : ∀ {k}, k ∈ bs ↔ ∃ i, Q i k)
    (hbs : bs.Nodup ↔ ∀ k i j, Q i k → Q j k → i = j) :
    (k₀ :: bs).Nodup ↔ ∀ k i j, P i k → P j k → i = j := by
  rw [List.nodup_cons, hbs, hmem]
  constructor
  · rintro ⟨hnew, h⟩ k (_ | i) (_ | j) hi hj
    · rfl
    · obtain rfl := hfirst.mp hi
      exact absurd ⟨j, hlater.mp hj⟩ hnew
    · obtain rfl := hfirst.mp hj
      exact absurd ⟨i, hlater.mp hi⟩ hnew
    · exact congrArg _ (h k i j (hlater.mp hi) (hlater.mp hj))
  · intro h
    constructor
    · rintro ⟨i, hi⟩
      have he := h k₀ 0 (i + 1) (hfirst.mpr rfl) (hlater.mpr hi)
      cases he
    · intro k i j hi hj
      exact Nat.succ.inj (h k (i + 1) (j + 1) (hlater.mpr hi) (hlater.mpr hj))

private theorem nodup_beginsFrom {prev : κ} {ks : List κ} :
    (beginsFrom joins prev ks).Nodup ↔ ∀ k i j, BeginsAt joins (prev :: ks) (i + 1) k →
      BeginsAt joins (prev :: ks) (j + 1) k → i = j := by
  induction ks generalizing prev with
  | nil => simp [beginsFrom, BeginsAt]
  | cons k' ks ih =>
    rw [beginsFrom]
    split
    · next hj =>
      have hfirst : ∀ k, ¬ BeginsAt joins (prev :: k' :: ks) 1 k := by
        intro k h
        have hf := (beginsAt_second.mp h).2
        rw [hj] at hf
        cases hf
      rw [ih]
      constructor
      · rintro h k (_ | i) (_ | j) hi hj'
        · rfl
        · exact absurd hi (hfirst k)
        · exact absurd hj' (hfirst k)
        · exact congrArg _ (h k i j (beginsAt_later.mp hi) (beginsAt_later.mp hj'))
      · intro h k i j hi hj'
        exact Nat.succ.inj (h k (i + 1) (j + 1) (beginsAt_later.mpr hi) (beginsAt_later.mpr hj'))
    · next hj =>
      rw [Bool.not_eq_true] at hj
      have hsecond : ∀ {k}, BeginsAt joins (prev :: k' :: ks) 1 k ↔ k' = k := by
        intro k
        rw [beginsAt_second, hj]
        exact and_iff_left rfl
      exact nodup_cons_iff_positions hsecond beginsAt_later mem_beginsFrom ih

/-- No key begins two groups exactly when each key has one such position at most. -/
theorem nodup_begins_iff {ks : List κ} :
    (begins joins ks).Nodup ↔
      ∀ k i j, BeginsAt joins ks i k → BeginsAt joins ks j k → i = j := by
  cases ks with
  | nil => simp [begins, BeginsAt]
  | cons k' ks =>
    exact nodup_cons_iff_positions beginsAt_first Iff.rfl mem_beginsFrom nodup_beginsFrom

/-- Every key begins exactly one group exactly when the keys that begin one are the keys,
none twice. -/
theorem existsUnique_beginsAt_iff {ks : List κ} :
    (∀ k ∈ ks, ∃! i, BeginsAt joins ks i k) ↔
      (begins joins ks).Nodup ∧ ∀ k, k ∈ begins joins ks ↔ k ∈ ks := by
  have hmem : ∀ k ∈ begins joins ks, k ∈ ks := by
    intro k hk
    obtain ⟨i, hi⟩ := mem_begins_iff.mp hk
    exact List.mem_of_getElem? hi.1
  rw [nodup_begins_iff]
  constructor
  · intro h
    constructor
    · intro k i j hi hj
      exact (h k (List.mem_of_getElem? hi.1)).unique hi hj
    · intro k
      exact ⟨hmem k, fun hk ↦ mem_begins_iff.mpr (h k hk).exists⟩
  · rintro ⟨hunique, hall⟩ k hk
    obtain ⟨i, hi⟩ := mem_begins_iff.mp ((hall k).mpr hk)
    exact ⟨i, hi, fun j hj ↦ hunique k j i hj hi⟩

end

end ObDump.Base
