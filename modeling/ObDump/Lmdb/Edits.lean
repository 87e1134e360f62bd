import ObDump.Lmdb.Reclaim

/-!
# What the writer edits

Library `Lmdb`. Between two allocations a write transaction fills and links its pages, frees
pages, and gives pages back; at its end it saves the free list. None of it touches a page of a
version that is still read.
-/

namespace ObDump.Lmdb

open Base

/-! ### Dirty pages -/

section

variable {l : List Dirty} (h : l.Pairwise fun d e ↦ ∀ p, d.Covers p → ¬ e.Covers p)
include h

/-- A page lies in one entry of the dirty list. -/
theorem eq_of_covers {d e : Dirty} (hd : d ∈ l) (he : e ∈ l) {p : Nat} (hp : d.Covers p)
    (hp' : e.Covers p) : d = e := by
  obtain ⟨i, hi, rfl⟩ := List.mem_iff_getElem.mp hd
  obtain ⟨j, hj, rfl⟩ := List.mem_iff_getElem.mp he
  have hapart := List.pairwise_iff_getElem.mp h
  obtain hij | rfl | hij := Nat.lt_trichotomy i j
  · exact absurd hp' (hapart i j hi hj hij p hp)
  · rfl
  · exact absurd hp (hapart j i hj hi hij p hp')

variable (hpos : ∀ d ∈ l, 0 < d.num)
include hpos

private theorem eq_of_mid_eq {d e : Dirty} (hd : d ∈ l) (he : e ∈ l) (hmid : d.mid = e.mid) :
    d = e := by
  have hdpos := hpos d hd
  have hepos := hpos e he
  refine eq_of_covers h hd he (p := d.mid) ⟨Nat.le_refl _, by omega⟩ ⟨by omega, by omega⟩

/-- Without an entry its pages are not dirty. -/
theorem exists_covers_filter {d : Dirty} (hd : d ∈ l) {p : Nat} :
    (∃ e ∈ l.filter (·.mid ≠ d.mid), e.Covers p) ↔ (∃ e ∈ l, e.Covers p) ∧ ¬ d.Covers p := by
  constructor
  · rintro ⟨e, he, hp⟩
    obtain ⟨hel, hmid⟩ := List.mem_filter.mp he
    refine ⟨⟨e, hel, hp⟩, fun hdp ↦ ?_⟩
    rw [eq_of_covers h hd hel hdp hp] at hmid
    simp at hmid
  · rintro ⟨⟨e, he, hp⟩, hdp⟩
    refine ⟨e, List.mem_filter.mpr ⟨he, ?_⟩, hp⟩
    apply decide_eq_true
    intro hmid
    rw [eq_of_mid_eq h hpos he hd hmid] at hp
    exact hdp hp

/-- Without the entries of loose pages these are not dirty. -/
theorem exists_covers_unloosened {loose : List Nat}
    (hl : ∀ p ∈ loose, ∃ d ∈ l, d.mid = p ∧ d.num = 1) {p : Nat} :
    (∃ e ∈ l.filter (·.mid ∉ loose), e.Covers p) ↔ (∃ e ∈ l, e.Covers p) ∧ p ∉ loose := by
  constructor
  · rintro ⟨e, he, hp⟩
    obtain ⟨hel, hmid⟩ := List.mem_filter.mp he
    refine ⟨⟨e, hel, hp⟩, fun hpl ↦ ?_⟩
    obtain ⟨d, hd, rfl, hone⟩ := hl p hpl
    rw [← eq_of_covers h hd hel ⟨Nat.le_refl _, by omega⟩ hp] at hmid
    exact of_decide_eq_true hmid hpl
  · rintro ⟨⟨e, he, hp⟩, hpl⟩
    refine ⟨e, List.mem_filter.mpr ⟨he, ?_⟩, hp⟩
    apply decide_eq_true
    intro hmid
    obtain ⟨d, hd, heq, hone⟩ := hl e.mid hmid
    have hde := eq_of_mid_eq h hpos hd he heq
    subst hde
    have hpm : p = d.mid := by
      have := hp.1
      have := hp.2
      omega
    exact hpl (hpm ▸ hmid)

end

namespace MDB_env.Ok

variable {env : MDB_env} {since : Nat} {vs : Nat → Version} {txn : WriteTxn}

/-! ### Between calls -/

/-- A write transaction begins. -/
theorem begin (h : env.Ok since vs) (hi : env.me_txn = .idle) (proc : Nat) :
    (env.setTxn (.renew proc env.mti_txnid (env.me_metas (env.mti_txnid % 2)))).Ok since vs := by
  have hnow : env.now = env.mti_txnid := by
    apply h.published
    rw [hi]
    exact Writer.noConfusion
  have htxn : WriteTxn.renew proc env.mti_txnid (env.me_metas (env.mti_txnid % 2)) =
      { env.txn with proc := proc } := by
    rw [MDB_env.txn, hi, ← hnow]
    rfl
  rw [htxn]
  exact
    { h with
      readers := fun i ↦ { h.readers i with }
      published := fun _ ↦ hnow
      unpublished := fun hw ↦ Writer.noConfusion hw
      resting := fun hn ↦ absurd rfl (hn _)
      flushing := fun rest hr ↦ { h.flushing rest hr with } }

/-- `mdb_page_alloc` is called. -/
theorem call (h : env.Ok since vs) (ha : env.me_txn = .active txn) (hpc : txn.pc = .work)
    {num : Nat} (hnum : 0 < num) :
    (env.setTxn { txn with pc := .search num (num * 60) false }).Ok since vs := by
  apply h.setPc ha _ _ _ _ fun rest hr ↦ WritePc.noConfusion hr
  · exact fun j o hs ↦ absurd hs (Option.some_ne_none _).symm
  · exact fun k t j o _ hs ↦ absurd hs (Option.some_ne_none _).symm
  · rintro n ⟨⟩
    exact hnum
  · simp [hpc]

/-- A loose page is used again. -/
theorem reuse (h : env.Ok since vs) (ha : env.me_txn = .active txn) (hpc : txn.pc = .work)
    {p : Nat} {loose : List Nat} (hl : txn.mt_loose_pgs = p :: loose) :
    (env.setTxn { txn with mt_loose_pgs := loose }).Ok since vs := by
  have hnow := h.now_eq ha
  obtain rfl := txn_eq ha
  have hsub : ∀ q ∈ loose, q ∈ env.txn.mt_loose_pgs := by
    intro q hq
    rw [hl]
    exact List.mem_cons_of_mem p hq
  exact
    { h with
      readers := fun i ↦ { h.readers i with }
      published := fun _ ↦ hnow
      unpublished := fun hw ↦ Writer.noConfusion hw
      resting := fun hn ↦ absurd rfl (hn _)
      loose_dirty := fun q hq ↦ h.loose_dirty q (hsub q hq)
      loose_free := fun q hq ↦ h.loose_free q (hsub q hq)
      loose_nodup := (List.nodup_cons.mp (hl ▸ h.loose_nodup)).2
      flushing := fun rest hr ↦ absurd (hpc.symm.trans hr) WritePc.noConfusion }

/-- A dirty page becomes loose. -/
theorem loosen (h : env.Ok since vs) (ha : env.me_txn = .active txn) (hpc : txn.pc = .work)
    {d : Dirty} (hd : d ∈ txn.dirty_list) (hone : d.num = 1) (hfree : d.mid ∉ txn.mt_free_pgs)
    (hloose : d.mid ∉ txn.mt_loose_pgs) :
    (env.setTxn { txn with mt_loose_pgs := d.mid :: txn.mt_loose_pgs }).Ok since vs := by
  have hnow := h.now_eq ha
  obtain rfl := txn_eq ha
  exact
    { h with
      readers := fun i ↦ { h.readers i with }
      published := fun _ ↦ hnow
      unpublished := fun hw ↦ Writer.noConfusion hw
      resting := fun hn ↦ absurd rfl (hn _)
      loose_dirty := List.forall_mem_cons.mpr ⟨⟨d, hd, rfl, hone⟩, h.loose_dirty⟩
      loose_free := List.forall_mem_cons.mpr ⟨hfree, h.loose_free⟩
      loose_nodup := List.nodup_cons.mpr ⟨hloose, h.loose_nodup⟩
      flushing := fun rest hr ↦ absurd (hpc.symm.trans hr) WritePc.noConfusion }

/-- The pages of the last version are those its trees have in the file. -/
theorem live_now (h : env.Ok since vs) {p : Nat} :
    env.last.Pages env.me_psize env.me_map p ↔
      (vs env.now).page.Pages env.me_psize (vs env.now).map p := by
  have hlast := h.metas env.now h.inv.since_le (Nat.le_refl _) (Nat.le_succ _)
  have hmap := h.inv.intact env.now h.inv.since_le (Nat.le_refl _)
  rw [MDB_env.last, hlast]
  exact MDB_meta.pages_congr hmap

/-- A page is freed. -/
theorem free (h : env.Ok since vs) (ha : env.me_txn = .active txn) (hpc : txn.pc = .work) {p : Nat}
    (hp : env.last.Pages env.me_psize env.me_map p ∨ txn.IsDirty p) (hfree : p ∉ txn.mt_free_pgs)
    (hloose : p ∉ txn.mt_loose_pgs) :
    (env.setTxn { txn with mt_free_pgs := p :: txn.mt_free_pgs }).Ok since vs := by
  have hnow := h.now_eq ha
  obtain rfl := txn_eq ha
  have hused := hp.imp h.live_now.mp id
  have hdrop := h.inv.drop (a := {p}) (b := ∅) (Set.singleton_subset_iff.mpr hused)
  refine
    { h with
      inv := hdrop.of_eq (Versions.ext rfl rfl rfl rfl rfl rfl rfl rfl rfl rfl ?_ ?_)
      readers := fun i ↦ { h.readers i with }
      published := fun _ ↦ hnow
      unpublished := fun hw ↦ Writer.noConfusion hw
      resting := fun hn ↦ absurd rfl (hn _)
      loose_free := ?_
      free_nodup := List.nodup_cons.mpr ⟨hfree, h.free_nodup⟩
      flushing := fun rest hr ↦ absurd (hpc.symm.trans hr) WritePc.noConfusion }
  · exact Set.sdiff_empty.symm
  · apply Set.ext
    intro q
    exact List.mem_cons.trans or_comm
  · intro q hq hc
    obtain rfl | hc := List.mem_cons.mp hc
    · exact hloose hq
    · exact h.loose_free q hq hc

/-- Dirty pages are filled. -/
theorem edit (h : env.Ok since vs) (ha : env.me_txn = .active txn) (hpc : txn.pc = .work)
    (data : Nat → Nat → MDB_page) (free_root main_root : Nat) :
    (env.setTxn (txn.edit data free_root main_root)).Ok since vs := by
  have hnow := h.now_eq ha
  obtain rfl := txn_eq ha
  refine
    { h with
      inv := h.inv.of_eq (Versions.ext rfl rfl rfl rfl rfl rfl rfl rfl rfl rfl ?_ rfl)
      readers := fun i ↦ { h.readers i with }
      published := fun _ ↦ hnow
      unpublished := fun hw ↦ Writer.noConfusion hw
      resting := fun hn ↦ absurd rfl (hn _)
      dirty_pos := List.forall_mem_map.mpr h.dirty_pos
      dirty_apart := List.pairwise_map.mpr h.dirty_apart
      loose_dirty := ?_
      flushing := fun rest hr ↦ absurd (hpc.symm.trans hr) WritePc.noConfusion }
  · apply Set.ext
    intro p
    constructor
    · rintro ⟨e, he, hp⟩
      obtain ⟨d, hd, rfl⟩ := List.mem_map.mp he
      exact ⟨d, hd, hp⟩
    · rintro ⟨d, hd, hp⟩
      exact ⟨_, List.mem_map_of_mem hd, hp⟩
  · intro p hp
    obtain ⟨d, hd, hmid⟩ := h.loose_dirty p hp
    exact ⟨_, List.mem_map_of_mem hd, hmid⟩

/-- A dirty page goes back to the list of free ones. -/
theorem giveBack (h : env.Ok since vs) (ha : env.me_txn = .active txn) (hpc : txn.pc = .work)
    {d : Dirty} (hd : d ∈ txn.dirty_list)
    (hfree : ∀ p, d.Covers p → p ∉ txn.mt_free_pgs ∧ p ∉ txn.mt_loose_pgs) :
    (env.giveBack txn d).Ok since vs := by
  have hnow := h.now_eq ha
  obtain rfl := txn_eq ha
  have hrelease := h.inv.release (a := {p | d.Covers p}) (fun p hp ↦ ⟨d, hd, hp⟩)
    fun p hp ↦ (hfree p hp).1
  have hapart : ∀ p ∈ env.pghead, ¬ d.Covers p :=
    fun p hp hc ↦ (h.inv.held_apart p ⟨d, hd, hc⟩).1 hp
  refine
    { h with
      inv := hrelease.of_eq (Versions.ext rfl rfl rfl rfl rfl rfl rfl rfl ?_ rfl ?_ rfl)
      readers := fun i ↦ { h.readers i with }
      published := fun _ ↦ hnow
      unpublished := fun hw ↦ Writer.noConfusion hw
      resting := fun hn ↦ absurd rfl (hn _)
      pghead := pairwise_insertRange h.pghead hapart
      dirty_pos := fun e he ↦ h.dirty_pos e (List.mem_of_mem_filter he)
      dirty_apart := h.dirty_apart.filter _
      loose_dirty := ?_
      flushing := fun rest hr ↦ absurd (hpc.symm.trans hr) WritePc.noConfusion }
  · exact Set.ext fun p ↦ mem_insertRange
  · exact Set.ext fun p ↦ exists_covers_filter h.dirty_apart h.dirty_pos hd
  · intro p hp
    obtain ⟨e, he, rfl, hone⟩ := h.loose_dirty p hp
    refine ⟨e, List.mem_filter.mpr ⟨he, decide_eq_true fun hmid ↦ ?_⟩, rfl, hone⟩
    have hde := eq_of_mid_eq h.dirty_apart h.dirty_pos he hd hmid
    subst hde
    exact (hfree e.mid ⟨Nat.le_refl _, by omega⟩).2 hp

/-! ### Saving the free list -/

/-- The loose pages are freed. -/
theorem freeLoose (h : env.Ok since vs) (ha : env.me_txn = .active txn) (hpc : txn.pc = .work) :
    (env.setTxn txn.freeLoose).Ok since vs := by
  have hnow := h.now_eq ha
  obtain rfl := txn_eq ha
  have hheld : ∀ p ∈ env.txn.mt_loose_pgs, env.txn.IsDirty p := by
    intro p hp
    obtain ⟨d, hd, rfl, hone⟩ := h.loose_dirty p hp
    exact ⟨d, hd, Nat.le_refl _, by omega⟩
  have hdrop := h.inv.drop (a := {p | p ∈ env.txn.mt_loose_pgs})
    (b := {p | p ∈ env.txn.mt_loose_pgs}) fun p hp ↦ .inr (hheld p hp)
  refine
    { h with
      inv := hdrop.of_eq (Versions.ext rfl rfl rfl rfl rfl rfl rfl rfl rfl rfl ?_ ?_)
      readers := fun i ↦ { h.readers i with }
      published := fun _ ↦ hnow
      unpublished := fun hw ↦ Writer.noConfusion hw
      resting := fun hn ↦ absurd rfl (hn _)
      dirty_pos := fun e he ↦ h.dirty_pos e (List.mem_of_mem_filter he)
      dirty_apart := h.dirty_apart.filter _
      loose_dirty := fun p hp ↦ absurd hp List.not_mem_nil
      loose_free := fun p hp ↦ absurd hp List.not_mem_nil
      loose_nodup := List.nodup_nil
      free_nodup := ?_
      flushing := fun rest hr ↦ absurd (hpc.symm.trans hr) WritePc.noConfusion }
  · exact Set.ext fun p ↦ exists_covers_unloosened h.dirty_apart h.dirty_pos h.loose_dirty
  · apply Set.ext
    intro p
    exact List.mem_append.trans or_comm
  · exact h.loose_nodup.append h.free_nodup fun p hp ↦ h.loose_free p hp

/-- The free pages are saved. -/
theorem freelist_save (h : env.Ok since vs) (ha : env.me_txn = .active txn)
    (hpc : txn.pc = .work) {room : List (Nat × Nat)}
    (hnone : env.me_pghead = none → txn.mt_loose_pgs = []) (hroom : env.Reserves txn room) :
    (env.mdb_freelist_save txn room).Ok since vs := by
  have hnow := h.now_eq ha
  obtain rfl := txn_eq ha
  have hheld : ∀ p ∈ env.txn.mt_loose_pgs, env.txn.IsDirty p := by
    intro p hp
    obtain ⟨d, hd, rfl, hone⟩ := h.loose_dirty p hp
    exact ⟨d, hd, Nat.le_refl _, by omega⟩
  have hrelease := h.inv.release (a := {p | p ∈ env.txn.mt_loose_pgs}) (fun p hp ↦ hheld p hp)
    h.loose_free
  have hmop : (env.mdb_freelist_save env.txn room).pghead =
      env.pghead.merge env.txn.mt_loose_pgs.mergeSort := by
    unfold MDB_env.mdb_freelist_save MDB_env.pghead
    cases hhead : env.me_pghead with
    | none => simp [hnone hhead]
    | some mop => rfl
  have hsorted : (env.pghead.merge env.txn.mt_loose_pgs.mergeSort).Pairwise (· < ·) := by
    apply pairwise_merge_lt h.pghead (pairwise_mergeSort_lt h.loose_nodup)
    intro p hp hl
    exact (h.inv.held_apart p (hheld p (List.mem_mergeSort.mp hl))).1 hp
  have hrecords := h.records (by simp [hpc])
  refine
    { h with
      inv := hrelease.of_eq (Versions.ext rfl rfl rfl rfl rfl rfl rfl rfl ?_ rfl ?_ rfl)
      readers := fun i ↦
        { h.readers i with scan := fun t j oldest _ hs ↦ absurd hs (Option.some_ne_none _).symm }
      scan_le := fun j oldest hs ↦ absurd hs (Option.some_ne_none _).symm
      published := fun _ ↦ hnow
      unpublished := fun hw ↦ Writer.noConfusion hw
      resting := fun hn ↦ absurd rfl (hn _)
      pghead := hmop ▸ hsorted
      num := fun num hs ↦ absurd hs (Option.some_ne_none _).symm
      dirty_pos := fun e he ↦ h.dirty_pos e (List.mem_of_mem_filter he)
      dirty_apart := h.dirty_apart.filter _
      loose_dirty := fun p hp ↦ absurd hp List.not_mem_nil
      loose_free := fun p hp ↦ absurd hp List.not_mem_nil
      loose_nodup := List.nodup_nil
      records := fun hr ↦ absurd rfl (hr _)
      flushing := ?_ }
  · apply Set.ext
    intro p
    show p ∈ (env.mdb_freelist_save env.txn room).pghead ↔ p ∈ env.pghead ∨ p ∈ env.txn.mt_loose_pgs
    rw [hmop, List.mem_merge, List.mem_mergeSort]
  · exact Set.ext fun p ↦ exists_covers_unloosened h.dirty_apart h.dirty_pos h.loose_dirty
  · rintro rest ⟨⟩
    refine ⟨List.Subset.refl _, fun d hd ↦ .inl hd,
      fillReserved (env.pghead.merge env.txn.mt_loose_pgs.mergeSort) room, ?_, ?_, ?_, ?_⟩
    · show _ ++ env.txn.free.filter _ ++ _ = _
      rw [hrecords]
      rfl
    · apply List.pairwise_map.mp
      rw [map_fst_fillReserved]
      exact List.pairwise_map.mpr hroom.sorted
    · intro r hr
      have hkey : r.1 ∈ room.map Prod.fst := by
        rw [← map_fst_fillReserved]
        exact List.mem_map_of_mem hr
      obtain ⟨s, hs, heq⟩ := List.mem_map.mp hkey
      have hkeys := heq ▸ hroom.keys s hs
      exact ⟨hkeys.1, hkeys.2, hmop ▸ sublist_of_mem_fillReserved hr⟩
    · intro r hr r' hr' p hp hp'
      exact congrArg Prod.fst (fillReserved_once (hsorted.imp Nat.ne_of_lt) hr hr' hp hp')

end MDB_env.Ok

end ObDump.Lmdb
