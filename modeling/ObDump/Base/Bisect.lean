import Mathlib

/-!
# Binary search

Library `Base`. The search of a sorted sequence by halving a closed range of indices. The
comparison is any function of the index that changes sign once; it can fail, so that a search
that returns has compared elements of the sequence only.
-/

namespace ObDump.Base

/-- The loop `while (low <= high)` with a three-way comparison that is positive where the wanted
place lies above the index. The result is the index compared last, with its comparison. -/
def bisect (cmp : Nat → Option Int) (low : Nat) (high : Int) (last : Nat × Int) :
    Option (Nat × Int) :=
  if low ≤ high then
    let i := ((low + high) / 2).toNat
    match cmp i with
    | none => none
    | some c =>
      if c = 0 then some (i, c)
      else if 0 < c then bisect cmp (i + 1) high (i, c)
      else bisect cmp low (i - 1) (i, c)
  else some last
termination_by (high + 1 - low).toNat
decreasing_by all_goals omega

/-- The comparison succeeds on the range and changes sign at `m`, where it is not positive. -/
def SignChange (cmp : Nat → Option Int) (low : Nat) (high : Int) (m : Nat) : Prop :=
  ∀ i : Nat, low ≤ i → i ≤ high →
    ∃ c, cmp i = some c ∧ (i < m → 0 < c) ∧ (i = m → c ≤ 0) ∧ (m < i → c < 0)

section

variable {cmp : Nat → Option Int} {low m : Nat} {high : Int} {last : Nat × Int}

/-- An empty range is not searched. -/
theorem bisect_of_lt (h : high < low) : bisect cmp low high last = some last := by
  rw [bisect, if_neg (by omega)]

private theorem SignChange.mono {low' : Nat} {high' : Int} (h : SignChange cmp low high m)
    (hl : low ≤ low') (hh : high' ≤ high) : SignChange cmp low' high' m :=
  fun i h1 h2 ↦ h i (by omega) (by omega)

/-- On a nonempty range the search ends at the place where the sign changes: the index compared
last, or the one after it when the comparison there is positive. The comparison is zero just
when it is zero at that place. -/
theorem bisect_spec (last : Nat × Int) (hle : low ≤ high) (h : SignChange cmp low high m)
    (hlow : low ≤ m) (hhigh : (m : Int) ≤ high + 1) :
    ∃ i c, bisect cmp low high last = some (i, c) ∧ (if 0 < c then i + 1 else i) = m ∧
      (c = 0 ↔ (m : Int) ≤ high ∧ cmp m = some 0) := by
  induction hd : (high + 1 - low).toNat using Nat.strong_induction_on
    generalizing low high last with
  | h d ih =>
    obtain ⟨i, hi⟩ : ∃ i, i = (((low : Int) + high) / 2).toNat := ⟨_, rfl⟩
    have hil : low ≤ i := by omega
    have hih : (i : Int) ≤ high := by omega
    obtain ⟨c, hc, hbelow, hat, habove⟩ := h i hil hih
    rw [bisect, if_pos hle]
    simp only [← hi, hc]
    by_cases hz : c = 0
    · have him : i = m := by
        by_contra hne
        rcases Nat.lt_or_gt_of_ne hne with hlt | hgt
        · have := hbelow hlt
          omega
        · have := habove hgt
          omega
      subst him
      refine ⟨i, c, by rw [if_pos hz], by rw [if_neg (by omega)], ?_⟩
      simp [hz, hc, hih]
    rw [if_neg hz]
    by_cases hp : 0 < c
    · have him : i < m := by
        by_contra hge
        rcases Nat.lt_or_eq_of_le (Nat.not_lt.mp hge) with hgt | heq
        · have := habove hgt
          omega
        · have := hat heq.symm
          omega
      rw [if_pos hp]
      by_cases hrest : ((i + 1 : Nat) : Int) ≤ high
      · exact ih _ (by omega) (i, c) hrest (h.mono (by omega) (by omega)) (by omega) hhigh rfl
      · refine ⟨i, c, bisect_of_lt (by omega), by rw [if_pos hp]; omega, ?_⟩
        constructor
        · intro h0
          omega
        · rintro ⟨hm, -⟩
          omega
    · have him : m ≤ i := by
        by_contra hlt
        exact hp (hbelow (by omega))
      have hz' : cmp m = some 0 → m ≠ i := by
        rintro h0 rfl
        rw [hc, Option.some.injEq] at h0
        exact hz h0
      rw [if_neg hp]
      by_cases hrest : (low : Int) ≤ i - 1
      · obtain ⟨j, c', hb, hj, hiff⟩ := ih _ (by omega) (i, c) hrest
          (h.mono (by omega) (by omega)) hlow (by omega) rfl
        refine ⟨j, c', hb, hj, hiff.trans ?_⟩
        constructor
        · rintro ⟨hm, h0⟩
          exact ⟨by omega, h0⟩
        · rintro ⟨-, h0⟩
          have := hz' h0
          exact ⟨by omega, h0⟩
      · refine ⟨i, c, bisect_of_lt (by omega), by rw [if_neg hp]; omega, ?_⟩
        constructor
        · intro h0
          exact absurd h0 hz
        · rintro ⟨-, h0⟩
          have := hz' h0
          omega

end

/-! ### The place a test reaches -/

universe u

/-- How many elements at the front pass a test. -/
def countWhile {α : Type u} (p : α → Bool) (l : List α) : Nat := (l.takeWhile p).length

section

variable {α : Type u} {p : α → Bool} {l : List α}

/-- No more elements are counted than there are. -/
theorem countWhile_le (p : α → Bool) (l : List α) : countWhile p l ≤ l.length :=
  (List.takeWhile_prefix p).length_le

/-- What lies from that place on. -/
theorem drop_countWhile (p : α → Bool) (l : List α) : l.drop (countWhile p l) = l.dropWhile p := by
  induction l with
  | nil => rfl
  | cons a l ih =>
    by_cases ha : p a
    · rw [countWhile, List.takeWhile_cons_of_pos ha, List.dropWhile_cons_of_pos ha]
      exact ih
    · rw [countWhile, List.takeWhile_cons_of_neg ha, List.dropWhile_cons_of_neg ha]
      rfl

/-- In a sorted sequence the elements that pass a downward-closed test are those before its
place. -/
theorem pos_iff_lt_countWhile {R : α → α → Prop} {i : Nat} {a : α} (hl : l.Pairwise R)
    (hp : ∀ a b, R a b → p b → p a) (ha : l[i]? = some a) : p a ↔ i < countWhile p l := by
  induction l generalizing i with
  | nil => simp at ha
  | cons b l ih =>
    have ht := List.pairwise_cons.mp hl
    by_cases hb : p b
    · rw [countWhile, List.takeWhile_cons_of_pos hb, List.length_cons]
      cases i with
      | zero =>
        obtain rfl : b = a := by simpa using ha
        simp [hb]
      | succ i =>
        rw [ih ht.2 (by simpa using ha), countWhile]
        omega
    · rw [countWhile, List.takeWhile_cons_of_neg hb]
      simp only [List.length_nil, Nat.not_lt_zero, iff_false]
      cases i with
      | zero =>
        obtain rfl : b = a := by simpa using ha
        exact hb
      | succ i =>
        intro hpa
        exact hb (hp b a (ht.1 a (List.mem_of_getElem? ha)) hpa)

/-- Counting along a map. -/
theorem countWhile_map {β : Type u} (f : β → α) (p : α → Bool) (l : List β) :
    countWhile p (l.map f) = countWhile (p ∘ f) l := by
  rw [countWhile, List.takeWhile_map, List.length_map]
  rfl

/-- Elements in front that pass the test, and elements behind that do not. -/
theorem countWhile_append {before after : List α} (hb : ∀ a ∈ before, p a)
    (ha : ∀ a ∈ after, ¬ p a) :
    countWhile p (before ++ l ++ after) = before.length + countWhile p l := by
  induction before with
  | nil =>
    rw [List.nil_append, List.length_nil, Nat.zero_add]
    induction l with
    | nil =>
      cases after with
      | nil => rfl
      | cons a as =>
        rw [List.nil_append, countWhile, List.takeWhile_cons_of_neg (ha a (by simp))]
        rfl
    | cons b l ih =>
      by_cases hpb : p b
      · rw [List.cons_append, countWhile, List.takeWhile_cons_of_pos hpb, countWhile,
          List.takeWhile_cons_of_pos hpb, List.length_cons, List.length_cons]
        exact congrArg (· + 1) ih
      · rw [List.cons_append, countWhile, List.takeWhile_cons_of_neg hpb, countWhile,
          List.takeWhile_cons_of_neg hpb]
  | cons b bs ih =>
    rw [List.cons_append, List.cons_append, countWhile,
      List.takeWhile_cons_of_pos (hb b (by simp)), List.length_cons, List.length_cons]
    have := ih fun a h ↦ hb a (List.mem_cons_of_mem b h)
    rw [countWhile] at this
    omega

end

end ObDump.Base
