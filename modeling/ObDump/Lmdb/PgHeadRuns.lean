import ObDump.Lmdb.PgHead

/-!
# Runs on the list of free pages

Library `Lmdb`. What fetching, taking, giving back and merging do to the list in memory, one
operation at a time, and then any run of them: in memory happens what happens to the ascending
list of the shared environment.
-/

namespace ObDump.Lmdb

open Base

/-! ### The operations on a list in memory -/

section

variable {m : Mem} {mop idl : Ptr} {room num pg : Nat} {l idlist : List Nat}

/-- The range is found and cut out as in the ascending list. -/
theorem Represents.seek (h : Represents m mop room l) (hnum : 0 < num) :
    seekRange m mop (num - 1) l.length =
      some ((searchRange num l).map fun t ↦ (l.length - t, l.getD t 0)) := by
  rw [seekRange_eq (h.holds.mono h.enough) hnum, h.elements]
  apply congrArg some
  cases hs : searchRange num l with
  | none => rfl
  | some t =>
    obtain ⟨hlen, -⟩ := searchRange_eq_some hs
    have hget := getElem?_ascending (f := m.view mop) (show t < l.length by omega)
    rw [h.elements] at hget
    rw [Option.map_some, Option.map_some, List.getD_eq_getElem?_getD, hget, Option.getD_some]

private theorem Represents.cut (h : Represents m mop room l) (hnum : 0 < num) {t : Nat}
    (hs : searchRange num l = some t) :
    ∃ m', cutRange m mop l.length num (l.length - t) = some m' ∧
      Represents m' mop room (l.take t ++ l.drop (t + num)) ∧ m.Keeps m' mop.blk := by
  obtain ⟨hlen, -⟩ := searchRange_eq_some hs
  obtain ⟨f', hrun, h0, helem⟩ := cutRange_spec (f := m.view mop) (h.holds.mono h.enough) hnum
    (show num ≤ l.length - t by omega) (Nat.sub_le _ _)
  rw [Mem.write_view] at hrun
  have hat : l.length - (l.length - t) = t := by omega
  rw [h.elements, hat] at helem
  have hlen' : (l.take t ++ l.drop (t + num)).length = l.length - num := by
    rw [← helem, length_ascending]
  refine ⟨m.write mop f', hrun, ?_, Mem.Keeps.write m mop f'⟩
  apply h.write
  · rw [h0, hlen']
  · rw [hlen']
    have := h.enough
    omega
  · rw [hlen', helem]

private theorem Represents.give (h : Represents m mop room l) (pg : Nat) (hnum : 0 < num)
    (hn : num + l.length < 2 ^ 31) (data : Nat → Nat) :
    ∃ m' mop' room', giveRange m mop pg num data = some (m', mop') ∧
      Represents m' mop' room' (insertRange l pg num) ∧ m.Keeps m' mop.blk ∧
      (mop'.blk = mop.blk ∨ mop'.blk = m.next) := by
  obtain ⟨m₁, mop', room', hneed, h', hroom, hkeeps, hblk⟩ := mdb_midl_need_spec h hn data
  have hholds : m₁.Holds mop' (l.length + num) := h'.holds.mono hroom
  obtain ⟨f₁, f', i', hmove, hput, h0, helem⟩ :=
    giveRange_write pg hholds h'.length hnum
  rw [Mem.write_view] at hmove
  rw [h'.elements] at helem
  have hlen' : (insertRange l pg num).length = l.length + num := by
    rw [← helem, length_ascending]
  refine ⟨m₁.write mop' (Function.update f' 0 (l.length + num)), mop', room', ?_, ?_, ?_, hblk⟩
  · have hlen : m₁.load mop' 0 = some l.length := by
      rw [Mem.load_eq h'.holds (Nat.zero_le _), h'.length]
    simp only [giveRange, hneed, hlen, hmove, hput, Mem.load_write hholds (Nat.zero_le _), h0,
      Mem.store_write hholds (Nat.zero_le _), Option.bind_eq_bind, Option.bind_some]
    rfl
  · apply h'.write
    · rw [hlen', Function.update_self]
    · rw [hlen']
      exact hroom
    · rw [hlen', ← helem]
      exact ascending_congr fun x hx _ ↦ Function.update_of_ne (by omega) _ _
  · exact hkeeps.trans (Mem.Keeps.write m₁ mop' _) (hblk.imp_right fun hb ↦ Nat.le_of_eq hb.symm)

/-- A list that is only read. -/
structure Record (m : Mem) (idl : Ptr) (l : List Nat) : Prop where
  holds : m.Holds idl l.length
  length : m.view idl 0 = l.length
  elements : ascending (m.view idl) l.length = l
  used : idl.blk < m.next

private theorem Record.keeps {m' : Mem} {blk : Nat} (h : Record m idl l) (hk : m.Keeps m' blk)
    (hne : idl.blk ≠ blk) : Record m' idl l where
  holds := (hk.holds h.used hne).mpr h.holds
  length := by rw [hk.view h.used hne]; exact h.length
  elements := by rw [hk.view h.used hne]; exact h.elements
  used := Nat.lt_of_lt_of_le h.used hk.next

/-- Of two ascending lists it does not matter which is merged into which. -/
theorem merge_comm_of_sorted {l l' : List Nat} (h : l.Pairwise (· ≤ ·)) (h' : l'.Pairwise (· ≤ ·)) :
    l.merge l' = l'.merge l := by
  apply List.Perm.eq_of_pairwise' (h.merge h') (h'.merge h)
  calc (l.merge l').Perm (l ++ l') := List.merge_perm_append _
    _ |>.Perm (l' ++ l) := List.perm_append_comm
    _ |>.Perm (l'.merge l) := (List.merge_perm_append _).symm

private theorem mem_ascending {f : Nat → Nat} {n i : Nat} (hi : 1 ≤ i) (hn : i ≤ n) :
    f i ∈ ascending f n := by
  have hget := getElem?_ascending (f := f) (show n - i < n by omega)
  rw [show n - (n - i) = i by omega] at hget
  exact List.mem_of_getElem? hget

private theorem length_merge_nat (l l' : List Nat) :
    (l.merge l').length = l.length + l'.length := by
  rw [(List.merge_perm_append _).length_eq, List.length_append]

/-- A record is merged in. -/
theorem Represents.xmerge (h : Represents m mop room l) (hr : Record m idl idlist)
    (hne : idl.blk ≠ mop.blk) (hroom : l.length + idlist.length ≤ room)
    (hmax : ∀ p ∈ idlist, p ≤ maxId) (hs : l.Pairwise (· ≤ ·)) (hs' : idlist.Pairwise (· ≤ ·)) :
    ∃ m', mdb_midl_xmerge m mop idl = some m' ∧ Represents m' mop room (l.merge idlist) ∧
      m.Keeps m' mop.blk := by
  have hreads : ReadsAs m mop (m.view mop) room idl idlist.length (m.view idl) := by
    intro f _ i hi
    rw [Mem.load_eq (Mem.holds_write.mpr hr.holds) hi, Mem.view_write_of_ne hne]
  obtain ⟨f', hrun, h0, -, helem⟩ := xmerge_write h.holds h.length hreads hr.length
    (by omega) fun x hx hxl ↦ hmax _ (hr.elements ▸ mem_ascending hx hxl)
  rw [Mem.write_view] at hrun
  rw [hr.elements, h.elements, merge_comm_of_sorted hs' hs] at helem
  have hlen := length_merge_nat l idlist
  refine ⟨m.write mop f', hrun, ?_, Mem.Keeps.write m mop f'⟩
  apply h.write
  · rw [h0, hlen, Nat.add_comm]
  · rw [hlen]
    exact hroom
  · rw [hlen, Nat.add_comm, helem]

/-- The list, or none yet. -/
def Held (m : Mem) : Option Ptr → Option (List Nat) → Prop
  | none, none => True
  | some mop, some l => ∃ room, Represents m mop room l
  | _, _ => False

private theorem fetchRecord_spec {head : Option Ptr} {pghead : Option (List Nat)}
    (h : Held m head pghead) (hr : Record m idl idlist) (hne : ∀ mop ∈ head, idl.blk ≠ mop.blk)
    (hn : (pghead.getD []).length + idlist.length < 2 ^ 31) (hmax : ∀ p ∈ idlist, p ≤ maxId)
    (hs : (pghead.getD []).Pairwise (· ≤ ·)) (hs' : idlist.Pairwise (· ≤ ·)) (data : Nat → Nat) :
    ∃ m' mop', fetchRecord m head idl data = some (m', mop') ∧
      Held m' (some mop') (some ((pghead.getD []).merge idlist)) ∧
      ∃ blk, m.Keeps m' blk ∧ (blk = mop'.blk ∨ ∃ mop ∈ head, blk = mop.blk) ∧
        (mop'.blk = m.next ∨ ∃ mop ∈ head, mop'.blk = mop.blk) := by
  have hlen : m.load idl 0 = some idlist.length := by
    rw [Mem.load_eq hr.holds (Nat.zero_le _), hr.length]
  cases head with
  | none =>
    cases pghead with
    | some l => exact h.elim
    | none =>
      obtain ⟨m₁, mop', halloc, h', hkeeps, hblk⟩ :=
        mdb_midl_alloc_spec m idlist.length data
      have hother : idl.blk ≠ m.next := Nat.ne_of_lt hr.used
      obtain ⟨m₂, hmerge, hrep, hkeeps'⟩ := h'.xmerge (hr.keeps hkeeps hother)
        (by rw [hblk]; exact hother) (by simp) hmax .nil hs'
      refine ⟨m₂, mop', ?_, ⟨_, hrep⟩, m.next, ?_, .inl hblk.symm, .inl hblk⟩
      · simp only [fetchRecord, hlen, halloc, hmerge, Option.bind_eq_bind, Option.bind_some]
        rfl
      · exact hkeeps.trans hkeeps' (.inl hblk)
  | some mop =>
    cases pghead with
    | none => exact h.elim
    | some l =>
      obtain ⟨room, h⟩ := h
      have hother : idl.blk ≠ mop.blk := hne mop rfl
      have hn' : idlist.length + l.length < 2 ^ 31 := by
        rw [Nat.add_comm]
        exact hn
      obtain ⟨m₁, mop', room', hneed, h', hroom, hkeeps, hblk⟩ := mdb_midl_need_spec h hn' data
      have hother' : idl.blk ≠ mop'.blk := by
        obtain hb | hb := hblk
        · rw [hb]
          exact hother
        · rw [hb]
          exact Nat.ne_of_lt hr.used
      obtain ⟨m₂, hmerge, hrep, hkeeps'⟩ := h'.xmerge (hr.keeps hkeeps hother) hother' hroom hmax
        hs hs'
      refine ⟨m₂, mop', ?_, ⟨room', hrep⟩, mop.blk, ?_, .inr ⟨mop, rfl, rfl⟩, ?_⟩
      · simp only [fetchRecord, hlen, hneed, hmerge, Option.bind_eq_bind, Option.bind_some]
        rfl
      · exact hkeeps.trans hkeeps' (hblk.imp_right fun hb ↦ Nat.le_of_eq hb.symm)
      · exact hblk.symm.imp_right fun hb ↦ ⟨mop, rfl, hb⟩

/-! ### Loose pages -/

private theorem storeLoose_spec {loose : Ptr} {n k : Nat} {g : Nat → Nat} (pages : List Nat)
    (h : m.Holds loose n) (hn : k + pages.length ≤ n) :
    ∃ g', storeLoose loose k pages (m.write loose g) =
        some (k + pages.length, m.write loose g') ∧
      ascending g' (k + pages.length) = pages.reverse ++ ascending g k := by
  induction pages generalizing k g with
  | nil => exact ⟨g, rfl, rfl⟩
  | cons p pages ih =>
    rw [List.length_cons] at hn
    obtain ⟨g', hrun, helem⟩ := ih (k := k + 1) (g := Function.update g (k + 1) p) (by omega)
    have hlen : k + (p :: pages).length = k + 1 + pages.length := by
      rw [List.length_cons]
      omega
    refine ⟨g', ?_, ?_⟩
    · simp only [storeLoose, Mem.store_write h (show k + 1 ≤ n by omega), Option.bind_eq_bind,
        Option.bind_some, hrun, hlen]
    · have hlow : ascending (Function.update g (k + 1) p) k = ascending g k :=
        ascending_congr fun x _ hx ↦ Function.update_of_ne (by omega) _ _
      rw [hlen, helem, ascending, hlow, Function.update_self, List.reverse_cons,
        List.append_assoc]
      rfl

/-- The pages stored behind are sorted as a list of their own. -/
theorem sortLoose_spec {loose : Ptr} {pages : List Nat} (h : m.Holds loose pages.length)
    (hn : pages.length ≤ 2 ^ 30) :
    ∃ g g', storeLoose loose 0 pages m = some (pages.length, m.write loose g) ∧
      mdb_midl_sort (m.write loose (Function.update g 0 pages.length)) loose =
        some (m.write loose g') ∧
      g' 0 = pages.length ∧ ascending g' pages.length = pages.mergeSort := by
  obtain ⟨g, hstore, helem⟩ := storeLoose_spec (k := 0) (g := m.view loose) pages h (by omega)
  rw [Mem.write_view, Nat.zero_add] at hstore
  rw [Nat.zero_add] at helem
  obtain ⟨g', hsort, hre, hsorted⟩ := sort_write (f := Function.update g 0 pages.length) h hn
    (Function.update_self _ _ _)
  refine ⟨g, g', hstore, hsort, ?_, ?_⟩
  · rw [hre.eq_outside (.inl Nat.zero_lt_one), Function.update_self]
  · have hperm : (ascending g' pages.length).Perm pages := by
      rw [hsorted]
      apply (List.mergeSort_perm _ _).trans
      rw [ascending_congr (g := g) fun x hx _ ↦ Function.update_of_ne (by omega) _ _, helem]
      simp [ascending, List.reverse_perm]
    have hle : (ascending g' pages.length).Pairwise (· ≤ ·) :=
      hsorted ▸ List.pairwise_mergeSort' _ _
    apply List.Perm.eq_of_pairwise' hle (List.pairwise_mergeSort' _ _)
    exact hperm.trans (List.mergeSort_perm _ _).symm

private theorem Represents.loosen (h : Represents m mop room l) {pages : List Nat}
    (hn : 2 * pages.length + 1 + l.length < 2 ^ 31) (hmax : ∀ p ∈ pages, p ≤ maxId)
    (hs : l.Pairwise (· ≤ ·)) (data : Nat → Nat) :
    ∃ m' mop' room', mergeLoose m mop pages data = some (m', mop') ∧
      Represents m' mop' room' (l.merge pages.mergeSort) ∧ m.Keeps m' mop.blk ∧
      (mop'.blk = mop.blk ∨ mop'.blk = m.next) := by
  obtain ⟨m₁, mop', room', hneed, h', hroom, hkeeps, hblk⟩ := mdb_midl_need_spec h hn data
  obtain ⟨c, hc⟩ : ∃ c, c = pages.length := ⟨_, rfl⟩
  obtain ⟨d, hd⟩ : ∃ d, d = room' - c := ⟨_, rfl⟩
  rw [← hc] at hneed hroom hn
  have hloose : m₁.Holds (mop'.add d) c := h'.holds.add (by omega)
  obtain ⟨g, g', hstore, hsort, hcount, hpages⟩ := sortLoose_spec (hc ▸ hloose)
    (show pages.length ≤ 2 ^ 30 by omega)
  rw [← hc] at hstore hsort hcount hpages
  -- the list behind is part of the same block, past what the merge writes
  obtain ⟨f, hf⟩ : ∃ f, f = fun i ↦ if i < d then m₁.view mop' i else g' (i - d) := ⟨_, rfl⟩
  have hreads : ReadsAs m₁ mop' f (c + l.length) (mop'.add d) c g' := by
    intro f₁ hf₁ i hi
    rw [Mem.load_add, Mem.load_write h'.holds (show d + i ≤ room' by omega),
      hf₁ (d + i) (by omega), hf]
    show some (if d + i < d then _ else g' (d + i - d)) = _
    rw [if_neg (by omega), Nat.add_sub_cancel_left]
  have hlow : ∀ i, i ≤ l.length → f i = m₁.view mop' i := by
    intro i hi
    rw [hf]
    exact if_pos (by omega)
  obtain ⟨f', hmerge, h0, -, helem'⟩ := xmerge_write (f := f) (h'.holds.mono (by omega))
    ((hlow 0 (Nat.zero_le _)).trans h'.length) hreads hcount (Nat.le_refl _)
    fun x hx hxc ↦ hmax _ <| by
      have hmem := mem_ascending (f := g') hx hxc
      rw [hpages] at hmem
      exact List.mem_mergeSort.mp hmem
  rw [hpages, ascending_congr fun x _ hx ↦ hlow x hx, h'.elements,
    merge_comm_of_sorted (List.pairwise_mergeSort' _ _) hs] at helem'
  have hlen : (l.merge pages.mergeSort).length = c + l.length := by
    rw [length_merge_nat, List.length_mergeSort, hc, Nat.add_comm]
  refine ⟨m₁.write mop' f', mop', room', ?_, ?_, ?_, hblk⟩
  · have hsize : m₁.load (roomPtr mop') 0 = some room' := h'.load_room
    simp only [mergeLoose, hneed, hsize, ← hc, ← hd, hstore, Option.bind_eq_bind,
      Option.bind_some, Mem.store_write hloose (Nat.zero_le _), hsort]
    rw [Mem.write_add, ← hf, hmerge]
    rfl
  · apply h'.write
    · rw [h0, hlen]
    · rw [hlen]
      omega
    · rw [hlen, helem']
  · exact hkeeps.trans (Mem.Keeps.write m₁ mop' _) (hblk.imp_right fun hb ↦ Nat.le_of_eq hb.symm)

end

/-! ### Records filled -/

/-- The words of a record with these pages. -/
def recordWords (l : List Nat) : List Nat := l.length :: l.reverse

private theorem fillReserved_nil (room : List (Nat × Nat)) :
    fillReserved [] room = room.map fun r ↦ (r.1, []) := by
  induction room with
  | nil => rfl
  | cons r room ih =>
    rw [fillReserved, List.take_nil, List.drop_nil, ih, List.map_cons]

section

variable {m : Mem} {mop : Ptr} {f : Nat → Nat} {n k len : Nat} {room : List (Nat × Nat)}

private theorem readIdl_eq (h : m.Holds mop n) (hk : k + len ≤ n) (hf : f k = len) :
    readIdl (m.write mop f) (mop.add k) len =
      some (recordWords (ascending (fun i ↦ f (k + i)) len)) := by
  have helem : (ascending (fun i ↦ f (k + i)) len).reverse =
      (List.range' 1 len).map fun i ↦ f (k + i) := by
    rw [ascending_eq, List.reverse_reverse]
  rw [readIdl, mapM_range_eq_some, recordWords, length_ascending, helem]
  refine ⟨by simp, fun i hi ↦ ?_⟩
  rw [List.length_cons, List.length_map, List.length_range'] at hi
  rw [Mem.load_add, Mem.load_write h (by omega)]
  cases i with
  | zero => exact congrArg some hf
  | succ i =>
    rw [List.getElem_cons_succ, List.getElem_map, List.getElem_range']
    apply congrArg some
    apply congrArg
    omega

/-- The tail of the array holds the first pages of the list. -/
theorem take_ascending {f : Nat → Nat} {len r : Nat} :
    ascending (fun i ↦ f (len - min r len + i)) (min r len) = (ascending f len).take r := by
  by_cases hr : r ≤ len
  · obtain ⟨low, rfl⟩ := Nat.exists_eq_add_of_le' hr
    rw [Nat.min_eq_left hr, Nat.add_sub_cancel, ascending_add, List.take_left' length_ascending]
  · have hle : len ≤ r := by omega
    rw [Nat.min_eq_right hle, Nat.sub_self, List.take_of_length_le (by rwa [length_ascending])]
    exact ascending_congr fun x _ _ ↦ congrArg f (Nat.zero_add x)

private theorem drop_ascending_min {f : Nat → Nat} {len r : Nat} :
    ascending f (len - min r len) = (ascending f len).drop r := by
  by_cases hr : r ≤ len
  · obtain ⟨low, rfl⟩ := Nat.exists_eq_add_of_le' hr
    rw [Nat.min_eq_left hr, Nat.add_sub_cancel, drop_ascending]
  · have hle : len ≤ r := by omega
    rw [Nat.min_eq_right hle, Nat.sub_self, List.drop_eq_nil_of_le (by rwa [length_ascending])]
    rfl

/-- The list is written into the records piece by piece, each time with the number put before the
piece for as long; then the list is as it was. -/
theorem fillRecords_write (room : List (Nat × Nat)) (h : m.Holds mop n) (hlen : len ≤ n) :
    fillRecords mop len room (m.write mop f) =
      some ((fillReserved (ascending f len) room).map fun r ↦ (r.1, recordWords r.2),
        m.write mop f) := by
  induction room generalizing len with
  | nil => rfl
  | cons r room ih =>
    by_cases h0 : len = 0
    · subst h0
      rw [fillRecords, if_pos rfl]
      show _ = some ((fillReserved [] (r :: room)).map _, _)
      rw [fillReserved_nil, List.map_map]
      rfl
    · obtain ⟨k, hk⟩ : ∃ k, k = min r.2 len := ⟨_, rfl⟩
      obtain ⟨low, hlow⟩ : ∃ low, low = len - k := ⟨_, rfl⟩
      have hsum : low + k = len := by omega
      have hload : (m.write mop f).load (mop.add low) 0 = some (f low) := by
        rw [Mem.load_add, Mem.load_write h (by omega)]
        rfl
      have hstore : ∀ f v, (m.write mop f).store (mop.add low) 0 v =
          some (m.write mop (Function.update f low v)) := by
        intro f v
        rw [Mem.store_add, Mem.store_write h (by omega)]
        rfl
      have hread := readIdl_eq (f := Function.update f low k) h (show low + k ≤ n by omega)
        (Function.update_self _ _ _)
      have hback : Function.update (Function.update f low k) low (f low) = f := by
        rw [Function.update_idem, Function.update_eq_self]
      have hpiece : ascending (fun i ↦ Function.update f low k (low + i)) k =
          (ascending f len).take r.2 := by
        rw [← take_ascending, ← hk, ← hlow]
        exact ascending_congr fun x hx _ ↦ Function.update_of_ne (by omega) _ _
      have hrest : (ascending f len).drop r.2 = ascending f low := by
        rw [← drop_ascending_min, ← hk, ← hlow]
      rw [fillRecords, if_neg h0]
      simp only [← hk, ← hlow, hload, hstore, hread, hback, ih (show low ≤ n by omega),
        Option.bind_eq_bind, Option.bind_some]
      rw [fillReserved, List.map_cons, hpiece, hrest]
      rfl

end

/-! ### Runs -/

/-- What `mdb_page_alloc`, `mdb_ovpage_free` and `mdb_freelist_save` do to `me_pghead`. -/
inductive HeadOp
  | fetch (record : Ptr) (idl : List Nat)
  | take (num : Nat)
  | give (pg num : Nat)
  | loose (pages : List Nat)

/-- In memory, with the page number found by a search; `data` is what new memory holds. -/
def HeadOp.exec (data : Nat → Nat) : HeadOp → Mem → Option Ptr →
    Option (Mem × Option Ptr × Option Nat)
  | .fetch record _, m, head => do
    let (m, mop) ← fetchRecord m head record data
    return (m, some mop, none)
  | .take num, m, some mop => do
    let mop_len ← m.load mop 0
    match ← seekRange m mop (num - 1) mop_len with
    | some (i, pgno) =>
      let m ← cutRange m mop mop_len num i
      return (m, some mop, some pgno)
    | none => return (m, some mop, none)
  | .take _, m, none => some (m, none, none)
  | .give pg num, m, some mop => do
    let (m, mop) ← giveRange m mop pg num data
    return (m, some mop, none)
  | .loose pages, m, some mop => do
    let (m, mop) ← mergeLoose m mop pages data
    return (m, some mop, none)
  | _, _, none => none

/-- On the ascending list, as the shared environment does it. -/
def HeadOp.apply : HeadOp → Option (List Nat) → Option (List Nat) × Option Nat
  | .fetch _ idl, pghead => (some ((pghead.getD []).merge idl), none)
  | .take num, pghead =>
    match searchRange num (pghead.getD []) with
    | some i =>
      (pghead.map fun mop ↦ mop.take i ++ mop.drop (i + num), some ((pghead.getD []).getD i 0))
    | none => (pghead, none)
  | .give pg num, pghead => (pghead.map (insertRange · pg num), none)
  | .loose pages, pghead => (pghead.map (·.merge pages.mergeSort), none)

/-- The operation is called as `mdb.c` calls it: records and loose pages are not in the list yet,
pages are given back to a list there is, and the numbers fit. -/
def HeadOp.Allowed (m : Mem) (pghead : Option (List Nat)) : HeadOp → Prop
  | .fetch record idl => Record m record idl ∧ idl.Pairwise (· < ·) ∧
      (∀ p ∈ pghead.getD [], p ∉ idl) ∧ (∀ p ∈ idl, p ≤ maxId) ∧
      (pghead.getD []).length + idl.length < 2 ^ 31
  | .take num => 0 < num
  | .give pg num => 0 < num ∧ pghead ≠ none ∧ (∀ p ∈ pghead.getD [], ¬ (pg ≤ p ∧ p < pg + num)) ∧
      num + (pghead.getD []).length < 2 ^ 31
  | .loose pages => pghead ≠ none ∧ pages.Nodup ∧ (∀ p ∈ pghead.getD [], p ∉ pages) ∧
      (∀ p ∈ pages, p ≤ maxId) ∧ 2 * pages.length + 1 + (pghead.getD []).length < 2 ^ 31

/-- In memory, one operation after the other. -/
def runHead : List (HeadOp × (Nat → Nat)) → Mem → Option Ptr →
    Option (Mem × Option Ptr × List (Option Nat))
  | [], m, head => some (m, head, [])
  | (op, data) :: ops, m, head => do
    let (m, head, answer) ← op.exec data m head
    let (m, head, answers) ← runHead ops m head
    return (m, head, answer :: answers)

/-- The same on the ascending list. -/
def applyHead : List HeadOp → Option (List Nat) → Option (List Nat) × List (Option Nat)
  | [], pghead => (pghead, [])
  | op :: ops, pghead =>
    let next := op.apply pghead
    let rest := applyHead ops next.1
    (rest.1, next.2 :: rest.2)

/-- All operations are called as `mdb.c` calls them, on records that are in memory from the
start. -/
def AllAllowed (m : Mem) : List HeadOp → Option (List Nat) → Prop
  | [], _ => True
  | op :: ops, pghead => op.Allowed m pghead ∧ AllAllowed m ops (op.apply pghead).1

/-- The list in memory is the list of the environment, in blocks that are new since `m₀`. -/
structure Mirrors (m₀ m : Mem) (head : Option Ptr) (pghead : Option (List Nat)) : Prop where
  held : Held m head pghead
  sorted : (pghead.getD []).Pairwise (· < ·)
  keeps : m₀.Keeps m m₀.next
  apart : ∀ mop ∈ head, m₀.next ≤ mop.blk

namespace Mirrors

variable {m₀ m : Mem} {head : Option Ptr} {pghead : Option (List Nat)}

/-- The list moves on to other pages, in its block or a new one. -/
theorem moved {mop : Ptr} (h : Mirrors m₀ m (some mop) pghead) {m' : Mem} {mop' : Ptr}
    {room : Nat} {l : List Nat} (hl : Represents m' mop' room l) (hs : l.Pairwise (· < ·))
    (hk : m.Keeps m' mop.blk) (hb : mop'.blk = mop.blk ∨ mop'.blk = m.next) :
    Mirrors m₀ m' (some mop') (some l) where
  held := ⟨room, hl⟩
  sorted := hs
  keeps := h.keeps.trans hk (.inr (h.apart mop rfl))
  apart := by
    intro q hq
    obtain rfl := Option.some.inj hq
    have hold := h.apart mop rfl
    have hnext := h.keeps.next
    omega

private theorem fetch (h : Mirrors m₀ m head pghead) {record : Ptr} {idl : List Nat}
    (ha : (HeadOp.fetch record idl).Allowed m₀ pghead) (data : Nat → Nat) :
    ∃ m' head', (HeadOp.fetch record idl).exec data m head = some (m', head', none) ∧
      Mirrors m₀ m' head' (some ((pghead.getD []).merge idl)) := by
  obtain ⟨hrec, hidl, hnew, hmax, hlen⟩ := ha
  have hother : ∀ mop ∈ head, record.blk ≠ mop.blk := by
    intro mop hmop
    have hold := h.apart mop hmop
    have hused := hrec.used
    omega
  obtain ⟨m', mop', hrun, hheld, blk, hkeeps, hblk, hnext⟩ :=
    fetchRecord_spec h.held (hrec.keeps h.keeps (Nat.ne_of_lt hrec.used)) hother hlen hmax
      (h.sorted.imp Nat.le_of_lt) (hidl.imp Nat.le_of_lt) data
  have hmop : m₀.next ≤ mop'.blk := by
    obtain hb | ⟨mop, hm, hb⟩ := hnext
    · rw [hb]
      exact h.keeps.next
    · rw [hb]
      exact h.apart mop hm
  have hat : m₀.next ≤ blk := by
    obtain hb | ⟨mop, hm, hb⟩ := hblk
    · rw [hb]
      exact hmop
    · rw [hb]
      exact h.apart mop hm
  refine ⟨m', some mop', ?_, hheld, pairwise_merge_lt h.sorted hidl hnew, ?_, ?_⟩
  · simp only [HeadOp.exec, hrun, Option.bind_eq_bind, Option.bind_some]
    rfl
  · exact h.keeps.trans hkeeps (.inr hat)
  · intro q hq
    obtain rfl := Option.some.inj hq
    exact hmop

private theorem take (h : Mirrors m₀ m head pghead) {num : Nat} (hnum : 0 < num)
    (data : Nat → Nat) :
    ∃ m' head', (HeadOp.take num).exec data m head =
        some (m', head', ((HeadOp.take num).apply pghead).2) ∧
      Mirrors m₀ m' head' ((HeadOp.take num).apply pghead).1 := by
  cases head with
  | none =>
    cases pghead with
    | some l => exact h.held.elim
    | none =>
      have hnone : (HeadOp.take num).apply none = (none, none) := by
        have hs : searchRange num [] = none := by
          rw [searchRange, List.length_nil, show 0 + 1 - num = 0 by omega]
          rfl
        simp only [HeadOp.apply, Option.getD_none, hs]
      rw [hnone]
      exact ⟨m, none, rfl, h⟩
  | some mop =>
    cases pghead with
    | none => exact h.held.elim
    | some l =>
      obtain ⟨room, hl⟩ := h.held
      have hlen : m.load mop 0 = some l.length := by
        rw [Mem.load_eq hl.holds (Nat.zero_le _), hl.length]
      have hseek := hl.seek hnum
      simp only [HeadOp.exec, HeadOp.apply, Option.getD_some, hlen, hseek, Option.bind_eq_bind,
        Option.bind_some]
      cases hs : searchRange num l with
      | none => exact ⟨m, some mop, rfl, h⟩
      | some t =>
        obtain ⟨m', hcut, hl', hkeeps⟩ := hl.cut hnum hs
        refine ⟨m', some mop, ?_, h.moved hl' (pairwise_taken h.sorted) hkeeps (.inl rfl)⟩
        simp only [Option.map_some, hcut, Option.bind_some]
        rfl

/-- Each operation in memory does what it does to the list. -/
theorem step (h : Mirrors m₀ m head pghead) {op : HeadOp} (ha : op.Allowed m₀ pghead)
    (data : Nat → Nat) :
    ∃ m' head', op.exec data m head = some (m', head', (op.apply pghead).2) ∧
      Mirrors m₀ m' head' (op.apply pghead).1 := by
  cases op with
  | fetch record idl => exact h.fetch ha data
  | take num => exact h.take ha data
  | give pg num =>
    obtain ⟨hnum, hsome, hnew, hlen⟩ := ha
    cases head with
    | none =>
      cases pghead with
      | none => exact absurd rfl hsome
      | some l => exact h.held.elim
    | some mop =>
      cases pghead with
      | none => exact h.held.elim
      | some l =>
        obtain ⟨room, hl⟩ := h.held
        obtain ⟨m', mop', room', hrun, hl', hkeeps, hblk⟩ := hl.give pg hnum hlen data
        refine ⟨m', some mop', ?_, h.moved hl' ?_ hkeeps hblk⟩
        · simp only [HeadOp.exec, hrun, Option.bind_eq_bind, Option.bind_some]
          rfl
        · exact pairwise_insertRange h.sorted hnew
  | loose pages =>
    obtain ⟨hsome, hnodup, hnew, hmax, hlen⟩ := ha
    cases head with
    | none =>
      cases pghead with
      | none => exact absurd rfl hsome
      | some l => exact h.held.elim
    | some mop =>
      cases pghead with
      | none => exact h.held.elim
      | some l =>
        obtain ⟨room, hl⟩ := h.held
        obtain ⟨m', mop', room', hrun, hl', hkeeps, hblk⟩ :=
          hl.loosen hlen hmax (h.sorted.imp Nat.le_of_lt) data
        refine ⟨m', some mop', ?_, h.moved hl' ?_ hkeeps hblk⟩
        · simp only [HeadOp.exec, hrun, Option.bind_eq_bind, Option.bind_some]
          rfl
        · apply pairwise_merge_lt h.sorted (pairwise_mergeSort_lt hnodup)
          exact fun p hp hp' ↦ hnew p hp (List.mem_mergeSort.mp hp')

private theorem run {ops : List (HeadOp × (Nat → Nat))} (h : Mirrors m₀ m head pghead)
    (ha : AllAllowed m₀ (ops.map Prod.fst) pghead) :
    ∃ m' head', runHead ops m head =
        some (m', head', (applyHead (ops.map Prod.fst) pghead).2) ∧
      Mirrors m₀ m' head' (applyHead (ops.map Prod.fst) pghead).1 := by
  induction ops generalizing m head pghead with
  | nil => exact ⟨m, head, rfl, h⟩
  | cons op ops ih =>
    obtain ⟨op, data⟩ := op
    obtain ⟨m₁, head₁, hexec, h₁⟩ := h.step ha.1 data
    obtain ⟨m', head', hrun, h'⟩ := ih h₁ ha.2
    refine ⟨m', head', ?_, h'⟩
    simp only [runHead, hexec, hrun, Option.bind_eq_bind, Option.bind_some]
    rfl

end Mirrors

/-- Any run of operations on `me_pghead` in memory stays inside the blocks it has, finds the pages
that are found in the ascending list, and ends with that list; from there the records reserved
are filled with the pages the list has for them. -/
theorem pghead_refines {m : Mem} {ops : List (HeadOp × (Nat → Nat))}
    (h : AllAllowed m (ops.map Prod.fst) none) :
    ∃ m' head, runHead ops m none = some (m', head, (applyHead (ops.map Prod.fst) none).2) ∧
      Held m' head (applyHead (ops.map Prod.fst) none).1 ∧
      ∀ mop ∈ head, ∀ l ∈ (applyHead (ops.map Prod.fst) none).1, ∀ room,
        fillRecords mop l.length room m' =
          some ((fillReserved l room).map fun r ↦ (r.1, recordWords r.2), m') := by
  have hstart : Mirrors m m none none :=
    ⟨trivial, .nil, .refl _ _, fun mop hmop ↦ absurd hmop (Option.not_mem_none mop)⟩
  obtain ⟨m', head, hrun, hend⟩ := hstart.run h
  refine ⟨m', head, hrun, hend.held, fun mop hmop l hl room ↦ ?_⟩
  have hheld := hend.held
  rw [Option.mem_def.mp hmop, Option.mem_def.mp hl] at hheld
  obtain ⟨size, hrep⟩ := hheld
  have hfill := fillRecords_write (f := m'.view mop) room hrep.holds hrep.enough
  rwa [Mem.write_view, hrep.elements] at hfill

/-- A record of the pages 3, 5 and 6. -/
def sampleRecord : Mem where
  next := 1
  size := fun _ ↦ 4
  words := fun _ i ↦ [3, 6, 5, 3].getD i 0

/-- The record is fetched, and two pages in a row are taken. -/
theorem pghead_refines_sample :
    ∃ m' head, runHead [(.fetch ⟨0, 0⟩ [3, 5, 6], fun _ ↦ 0), (.take 2, fun _ ↦ 0)] sampleRecord
        none = some (m', head, [none, some 5]) ∧
      Held m' head (some [3]) ∧
      ∀ mop ∈ head, ∀ l ∈ some [3], ∀ room, fillRecords mop l.length room m' =
        some ((fillReserved l room).map fun r ↦ (r.1, recordWords r.2), m') := by
  have hmerge : List.merge [] [3, 5, 6] = [3, 5, 6] := List.nil_merge _
  have happly : applyHead [.fetch ⟨0, 0⟩ [3, 5, 6], .take 2] none = (some [3], [none, some 5]) := by
    simp only [applyHead, HeadOp.apply, Option.getD_none, hmerge]
    rfl
  have hrecord : Record sampleRecord ⟨0, 0⟩ [3, 5, 6] := 
    ⟨show 0 + 3 < 4 by decide, rfl, rfl, show 0 < 1 by decide⟩
  have hall := @pghead_refines sampleRecord
    [(.fetch ⟨0, 0⟩ [3, 5, 6], fun _ ↦ 0), (.take 2, fun _ ↦ 0)]
    ⟨⟨hrecord, by decide, by decide, by decide, by decide⟩, Nat.zero_lt_two,
      trivial⟩
  simp only [List.map_cons, List.map_nil, happly] at hall
  exact hall

end ObDump.Lmdb
