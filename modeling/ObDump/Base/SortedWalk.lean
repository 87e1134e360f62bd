import Mathlib

/-!
# Walks over a sorted sequence

Library `Base`. A cursor that seeks and then walks while a test holds visits a
contiguous run. Over a sorted sequence such a run is a filter, and the strings with
one prefix lie in one run because prefix ranges are convex in lexicographic order.
-/

namespace ObDump.Base

universe u

section Walk

variable {α : Type u} {R : α → α → Prop} {p : α → Bool} {l : List α}

/-- Walking while a downward-closed test holds visits exactly the elements that pass it. -/
theorem takeWhile_eq_filter (hl : l.Pairwise R) (hp : ∀ a b, R a b → p b → p a) :
    l.takeWhile p = l.filter p := by
  induction l with
  | nil => rfl
  | cons a l ih =>
    have ht := List.pairwise_cons.mp hl
    by_cases ha : p a
    · rw [List.takeWhile_cons_of_pos ha, List.filter_cons_of_pos ha, ih ht.2]
    · have hn : l.filter p = [] := by
        apply List.filter_eq_nil_iff.mpr
        intro b hb hpb
        exact ha (hp a b (ht.1 b hb) hpb)
      rw [List.takeWhile_cons_of_neg ha, List.filter_cons_of_neg ha, hn]

/-- Seeking past a downward-closed test leaves exactly the elements that fail it. -/
theorem dropWhile_eq_filter (hl : l.Pairwise R) (hp : ∀ a b, R a b → p b → p a) :
    l.dropWhile p = l.filter (fun a ↦ !p a) := by
  induction l with
  | nil => rfl
  | cons a l ih =>
    have ht := List.pairwise_cons.mp hl
    by_cases ha : p a
    · rw [List.dropWhile_cons_of_pos ha, ih ht.2, List.filter_cons_of_neg (by simp [ha])]
    · have hs : l.filter (fun b ↦ !p b) = l := by
        apply List.filter_eq_self.mpr
        intro b hb
        simp only [Bool.not_eq_true', Bool.eq_false_iff, ne_eq]
        exact fun hpb ↦ ha (hp a b (ht.1 b hb) hpb)
      rw [List.dropWhile_cons_of_neg ha, List.filter_cons_of_pos (by simp [ha]), hs]

end Walk

section Prefix

variable {α : Type u} [LT α] [LE α] [Std.IsLinearOrder α] [Std.LawfulOrderLT α]

/-- Every string between two strings with a prefix has that prefix. -/
theorem prefix_of_between {p a b c : List α} (ha : p <+: a) (hc : p <+: c)
    (hab : a ≤ b) (hbc : b ≤ c) : p <+: b := by
  induction p generalizing a b c with
  | nil => exact List.nil_prefix
  | cons x xs ih =>
    obtain ⟨a', rfl⟩ := ha
    obtain ⟨c', rfl⟩ := hc
    cases b with
    | nil => exact absurd hab (by simp)
    | cons y ys =>
      simp only [List.cons_append] at hab hbc
      have hxy : x ≤ y := List.left_le_left_of_cons_le_cons hab
      have hyx : y ≤ x := List.left_le_left_of_cons_le_cons hbc
      obtain rfl : x = y := Std.le_antisymm hxy hyx
      have h1 : xs ++ a' ≤ ys := List.le_of_cons_le_cons hab
      have h2 : ys ≤ xs ++ c' := List.le_of_cons_le_cons hbc
      obtain ⟨t, rfl⟩ := ih (List.prefix_append xs a') (List.prefix_append xs c') h1 h2
      exact ⟨t, rfl⟩

end Prefix

/-! ### Prefix ranges of keyed entries -/

section Range

variable {α : Type u} {β : Type u} [LT α] [LE α] [DecidableEq α] [DecidableLT α]
  [Std.IsLinearOrder α] [Std.LawfulOrderLT α]

/-- Seek to the first key not below `q`, then walk while the prefix `p` matches and the
extra test `t` holds. When every key with the prefix passes `t` and is not below `q`,
the walk visits exactly the entries whose key has the prefix. -/
theorem seek_walk_eq_filter {l : List (List α × β)} {p q : List α} {t : List α → Bool}
    (hl : l.Pairwise (fun a b ↦ a.1 < b.1)) (hpq : p <+: q)
    (ht : ∀ e ∈ l, p <+: e.1 → t e.1 = true) (hq : ∀ e ∈ l, p <+: e.1 → q ≤ e.1) :
    (l.dropWhile (fun e ↦ decide (e.1 < q))).takeWhile
        (fun e ↦ t e.1 && p.isPrefixOf e.1) =
      l.filter (fun e ↦ p.isPrefixOf e.1) := by
  have hd : l.dropWhile (fun e ↦ decide (e.1 < q)) =
      l.filter (fun e ↦ !decide (e.1 < q)) := by
    apply dropWhile_eq_filter hl
    intro a b hab hb
    simp only [decide_eq_true_eq] at hb ⊢
    exact List.lt_trans hab hb
  rw [hd]
  have hs : (l.filter (fun e ↦ !decide (e.1 < q))).Pairwise
      (fun a b ↦ a ∈ l ∧ b ∈ l ∧ a.1 < b.1 ∧ q ≤ a.1) := by
    apply List.Pairwise.imp_of_mem _ (hl.filter _)
    intro a b ha hb hab
    obtain ⟨hal, haq⟩ := List.mem_filter.mp ha
    obtain ⟨hbl, -⟩ := List.mem_filter.mp hb
    simp only [Bool.not_eq_true', decide_eq_false_iff_not] at haq
    exact ⟨hal, hbl, hab, List.not_lt.mp haq⟩
  rw [takeWhile_eq_filter hs, List.filter_filter]
  · apply List.filter_congr
    intro e he
    by_cases hp : p <+: e.1
    · have hle := hq e he hp
      simp [List.isPrefixOf_iff_prefix.mpr hp, ht e he hp, List.not_lt.mpr hle]
    · have hf : p.isPrefixOf e.1 = false := by
        rw [Bool.eq_false_iff, ne_eq, List.isPrefixOf_iff_prefix]
        exact hp
      simp [hf]
  · rintro a b ⟨hal, -, hab, hqa⟩ hb
    simp only [Bool.and_eq_true, List.isPrefixOf_iff_prefix] at hb ⊢
    have hpa := prefix_of_between hpq hb.2 hqa (List.le_of_lt hab)
    exact ⟨ht a hal hpa, hpa⟩

end Range

end ObDump.Base
