import ObDump.Lmdb.Environment
import Mathlib.Data.List.Sort
import Mathlib.Data.List.TakeWhile

/-!
# Lists of free pages

Library `Lmdb`. Pages are listed once and in order: what a search in such a list finds, and
what is left of it; pages that are put back, merged in, or saved in records.
-/

namespace ObDump.Lmdb

/-! ### Order -/

private theorem pairwise_lt_of_le {l : List Nat} (h : l.Pairwise (· ≤ ·)) (hn : l.Nodup) :
    l.Pairwise (· < ·) :=
  (h.and hn).imp fun hle ↦ Nat.lt_of_le_of_ne hle.1 hle.2

/-- Two lists of page numbers that are apart are merged in order. -/
theorem pairwise_merge_lt {l l' : List Nat} (h : l.Pairwise (· < ·)) (h' : l'.Pairwise (· < ·))
    (hd : ∀ p ∈ l, p ∉ l') : (l.merge l').Pairwise (· < ·) := by
  apply pairwise_lt_of_le
  · exact (h.imp Nat.le_of_lt).merge (h'.imp Nat.le_of_lt)
  · rw [(List.merge_perm_append _).nodup_iff]
    apply List.Nodup.append (h.imp Nat.ne_of_lt) (h'.imp Nat.ne_of_lt)
    exact fun p hp hp' ↦ hd p hp hp'

/-- Page numbers that differ are sorted strictly. -/
theorem pairwise_mergeSort_lt {l : List Nat} (h : l.Nodup) : l.mergeSort.Pairwise (· < ·) :=
  pairwise_lt_of_le (List.pairwise_mergeSort' _ l) ((List.mergeSort_perm l _).nodup_iff.mpr h)

/-- In an ascending list numbers grow at least as fast as places. -/
theorem getElem_add_le {l : List Nat} (h : l.Pairwise (· < ·)) {i k : Nat}
    (hk : i + k < l.length) : l[i] + k ≤ l[i + k] := by
  induction k with
  | zero => exact Nat.le_refl _
  | succ k ih =>
    have hlt : l[i + k] < l[i + (k + 1)] := List.pairwise_iff_getElem.mp h _ _ _ _ (by omega)
    have hle := ih (by omega)
    omega

/-! ### Searching -/

section

variable {mop : List Nat} {num i : Nat}

/-- The range found is in the list, its last page `num - 1` past its first. -/
theorem searchRange_eq_some (h : searchRange num mop = some i) :
    i + num ≤ mop.length ∧ mop[i + (num - 1)]? = mop[i]?.map (· + (num - 1)) := by
  have hmem := List.mem_of_find?_eq_some h
  have hp := List.find?_some h
  rw [List.mem_range] at hmem
  exact ⟨by omega, of_decide_eq_true hp⟩

variable (h : mop.Pairwise (· < ·)) (hs : searchRange num mop = some i) (hnum : 0 < num)
include h hs hnum

/-- The places found hold consecutive numbers. -/
theorem getElem_of_searchRange {k : Nat} (hk : k < num) :
    mop[i + k]? = some (mop.getD i 0 + k) := by
  obtain ⟨hlen, hend⟩ := searchRange_eq_some hs
  have hfirst : mop[i]? = some mop[i] := List.getElem?_eq_getElem (by omega)
  rw [List.getElem?_eq_getElem (show i + (num - 1) < mop.length by omega), hfirst] at hend
  have hlast : mop[i + (num - 1)] = mop[i] + (num - 1) := Option.some.inj hend
  have hlow : mop[i] + k ≤ mop[i + k] := getElem_add_le h (by omega)
  have hhigh : mop[i + k] + (num - 1 - k) ≤ mop[i + k + (num - 1 - k)] :=
    getElem_add_le h (by omega)
  have hplace : i + k + (num - 1 - k) = i + (num - 1) := by omega
  simp only [hplace] at hhigh
  rw [List.getElem?_eq_getElem (by omega), List.getD_eq_getElem?_getD, hfirst]
  exact congrArg some (by show mop[i + k] = mop[i] + k; omega)

/-- The pages found were in the list. -/
theorem mem_of_searchRange {p : Nat} (hp : mop.getD i 0 ≤ p) (hlt : p < mop.getD i 0 + num) :
    p ∈ mop := by
  have hk := getElem_of_searchRange h hs hnum (show p - mop.getD i 0 < num by omega)
  rw [Nat.add_sub_cancel' hp] at hk
  exact List.mem_of_getElem? hk

/-- What is left of the list once they are taken. -/
theorem mem_taken_iff {p : Nat} :
    p ∈ mop.take i ++ mop.drop (i + num) ↔
      p ∈ mop ∧ ¬ (mop.getD i 0 ≤ p ∧ p < mop.getD i 0 + num) := by
  obtain ⟨hlen, -⟩ := searchRange_eq_some hs
  have hat : ∀ k, k < num → ∀ hlt : i + k < mop.length, mop[i + k] = mop.getD i 0 + k := by
    intro k hk hlt
    have hget := getElem_of_searchRange h hs hnum hk
    rw [List.getElem?_eq_getElem hlt] at hget
    exact Option.some.inj hget
  have hfirst := hat 0 hnum (by omega)
  have hlast := hat (num - 1) (by omega) (by omega)
  have hmono := List.pairwise_iff_getElem.mp h
  rw [List.mem_append, List.mem_take_iff_getElem, List.mem_drop_iff_getElem,
    List.mem_iff_getElem]
  constructor
  · rintro (⟨j, hj, rfl⟩ | ⟨j, hj, rfl⟩)
    · have hlt := hmono j (i + 0) (by omega) (by omega) (by omega)
      exact ⟨⟨j, by omega, rfl⟩, by omega⟩
    · have hlt := hmono (i + (num - 1)) (i + num + j) (by omega) (by omega) (by omega)
      exact ⟨⟨i + num + j, by omega, rfl⟩, by omega⟩
  · rintro ⟨⟨j, hj, rfl⟩, hout⟩
    by_cases hji : j < i
    · exact .inl ⟨j, by omega, rfl⟩
    · have hge : i + num ≤ j := by
        by_contra hlt
        have hplace : i + (j - i) = j := by omega
        have hval := hat (j - i) (by omega) (by omega)
        simp only [hplace] at hval
        exact hout ⟨by omega, by omega⟩
      refine .inr ⟨j - (i + num), by omega, ?_⟩
      congr 1
      omega

omit hs hnum in
/-- The rest of an ascending list ascends. -/
theorem pairwise_taken : (mop.take i ++ mop.drop (i + num)).Pairwise (· < ·) := by
  have hdrop : (mop.drop (i + num)).Sublist (mop.drop i) := by
    rw [← List.drop_drop]
    exact List.drop_sublist _ _
  have happ := (List.Sublist.refl (mop.take i)).append hdrop
  rw [List.take_append_drop] at happ
  exact List.Pairwise.sublist happ h

end

/-! ### Putting pages back -/

section

variable {mop : List Nat} {pg num : Nat}

/-- The pages of the list and those put into it. -/
theorem mem_insertRange {p : Nat} :
    p ∈ insertRange mop pg num ↔ p ∈ mop ∨ pg ≤ p ∧ p < pg + num := by
  have hsplit : p ∈ mop ↔ p ∈ mop.takeWhile (· < pg) ∨ p ∈ mop.dropWhile (· < pg) := by
    rw [← List.mem_append, List.takeWhile_append_dropWhile]
  rw [insertRange, List.mem_append, List.mem_append, List.mem_range'_1, hsplit]
  tauto

/-- Past the smaller pages of an ascending list none is smaller. -/
theorem le_of_mem_dropWhile (h : mop.Pairwise (· < ·)) {p : Nat}
    (hp : p ∈ mop.dropWhile (· < pg)) : pg ≤ p := by
  induction mop with
  | nil => exact absurd hp List.not_mem_nil
  | cons q l ih =>
    rw [List.dropWhile_cons] at hp
    by_cases hq : q < pg
    · rw [if_pos (decide_eq_true hq)] at hp
      exact ih h.of_cons hp
    · rw [if_neg (by simpa using hq)] at hp
      obtain rfl | hp := List.mem_cons.mp hp
      · omega
      · have hlt := List.rel_of_pairwise_cons h hp
        omega

/-- Pages put into the list are in their order there. -/
theorem pairwise_insertRange (h : mop.Pairwise (· < ·))
    (hd : ∀ p ∈ mop, ¬ (pg ≤ p ∧ p < pg + num)) : (insertRange mop pg num).Pairwise (· < ·) := by
  have hbefore : ∀ p ∈ mop.takeWhile (· < pg), p < pg := by
    intro p hp
    simpa using List.mem_takeWhile_imp hp
  have hafter : ∀ p ∈ mop.dropWhile (· < pg), pg + num ≤ p := by
    intro p hp
    have hge := le_of_mem_dropWhile h hp
    have hmem : p ∈ mop := (List.dropWhile_sublist _).subset hp
    have := hd p hmem
    omega
  rw [insertRange]
  refine List.pairwise_append.mpr ⟨List.pairwise_append.mpr ⟨?_, ?_, ?_⟩, ?_, ?_⟩
  · exact List.Pairwise.sublist (List.takeWhile_sublist _) h
  · exact List.pairwise_lt_range' 1
  · intro p hp q hq
    have := hbefore p hp
    rw [List.mem_range'_1] at hq
    omega
  · exact List.Pairwise.sublist (List.dropWhile_sublist _) h
  · intro p hp q hq
    have := hafter q hq
    rw [List.mem_append, List.mem_range'_1] at hp
    obtain hp | hp := hp
    · have := hbefore p hp
      omega
    · omega

end

/-! ### Saving pages -/

section

variable {mop : List Nat} {room : List (Nat × Nat)}

/-- The records have the keys reserved. -/
theorem map_fst_fillReserved : (fillReserved mop room).map Prod.fst = room.map Prod.fst := by
  induction room generalizing mop with
  | nil => rfl
  | cons r room ih => simp [fillReserved, ih]

/-- A record holds pages of the list, in their order. -/
theorem sublist_of_mem_fillReserved {r : Nat × List Nat} (hr : r ∈ fillReserved mop room) :
    r.2.Sublist mop := by
  induction room generalizing mop with
  | nil => exact absurd hr List.not_mem_nil
  | cons s room ih =>
    obtain rfl | hr := List.mem_cons.mp hr
    · exact List.take_sublist _ _
    · exact (ih hr).trans (List.drop_sublist _ _)

/-- No page is in two of them. -/
theorem fillReserved_once (hn : mop.Nodup) {r r' : Nat × List Nat} (hr : r ∈ fillReserved mop room)
    (hr' : r' ∈ fillReserved mop room) {p : Nat} (hp : p ∈ r.2) (hp' : p ∈ r'.2) : r = r' := by
  induction room generalizing mop with
  | nil => exact absurd hr List.not_mem_nil
  | cons s room ih =>
    have hapart : ∀ {q : Nat × List Nat}, q ∈ fillReserved (mop.drop s.2) room → p ∈ q.2 →
        p ∉ mop.take s.2 := by
      intro q hq hpq hpt
      have hpd := (sublist_of_mem_fillReserved hq).subset hpq
      exact List.disjoint_take_drop hn (Nat.le_refl s.2) hpt hpd
    obtain rfl | hr := List.mem_cons.mp hr
    · obtain rfl | hr' := List.mem_cons.mp hr'
      · rfl
      · exact absurd hp (hapart hr' hp')
    · obtain rfl | hr' := List.mem_cons.mp hr'
      · exact absurd hp' (hapart hr hp)
      · exact ih (hn.sublist (List.drop_sublist _ _)) hr hr'

end

end ObDump.Lmdb
