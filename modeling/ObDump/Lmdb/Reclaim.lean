import ObDump.Lmdb.Readers

/-!
# What the writer reclaims

Library `Lmdb`. The steps of the writer keep what readers rely on: pages it takes are part of no
version that is still read, and what it commits becomes the next version.
-/

namespace ObDump.Lmdb

open Base

/-! ### Records by key -/

section

variable {l : List (Nat × List Nat)} (h : l.Pairwise (·.1 < ·.1))
include h

private theorem eq_of_key_eq {r r' : Nat × List Nat} (hr : r ∈ l) (hr' : r' ∈ l)
    (heq : r.1 = r'.1) :
    r = r' := by
  obtain ⟨i, hi, rfl⟩ := List.mem_iff_getElem.mp hr
  obtain ⟨j, hj, rfl⟩ := List.mem_iff_getElem.mp hr'
  have hmono := List.pairwise_iff_getElem.mp h
  obtain hij | rfl | hij := Nat.lt_trichotomy i j
  · exact absurd heq (Nat.ne_of_lt (hmono i j hi hj hij))
  · rfl
  · exact absurd heq.symm (Nat.ne_of_lt (hmono j i hj hi hij))

/-- The first record past a key has the least key of those. -/
theorem le_of_find? {k : Nat} {r r' : Nat × List Nat} (hr : l.find? (fun r ↦ k < r.1) = some r)
    (hr' : r' ∈ l) (hlt : k < r'.1) : r.1 ≤ r'.1 := by
  obtain ⟨-, before, after, rfl, hbefore⟩ := List.find?_eq_some_iff_append.mp hr
  obtain hmem | hmem := List.mem_append.mp hr'
  · have hno := hbefore r' hmem
    simp [hlt] at hno
  · obtain rfl | hmem := List.mem_cons.mp hmem
    · exact Nat.le_refl _
    · have hpair := (List.pairwise_append.mp h).2.1
      exact Nat.le_of_lt (List.rel_of_pairwise_cons hpair hmem)

end

private theorem MDB_meta.freed_eq (page : MDB_meta) (h : page.free.Pairwise (·.1 < ·.1))
    {r : Nat × List Nat} (hr : r ∈ page.free) : page.Freed r.1 = {p | p ∈ r.2} := by
  apply Set.ext
  intro p
  constructor
  · rintro ⟨r', hr', heq, hp⟩
    rw [eq_of_key_eq h hr' hr heq] at hp
    exact hp
  · exact fun hp ↦ ⟨r, hr, rfl, hp⟩

namespace MDB_env.Ok

variable {env : MDB_env} {since : Nat} {vs : Nat → Version} {txn : WriteTxn}

/-- The transaction of an environment that has one. -/
theorem txn_eq (ha : env.me_txn = .active txn) : env.txn = txn := by
  rw [MDB_env.txn, ha]

/-- While a transaction is active the lock file has the last version. -/
theorem now_eq (h : env.Ok since vs) (ha : env.me_txn = .active txn) :
    env.now = env.mti_txnid := by
  apply h.published
  rw [ha]
  exact Writer.noConfusion

/-! ### Looking for pages -/

/-- The transaction goes on elsewhere. -/
theorem setPc (h : env.Ok since vs) (ha : env.me_txn = .active txn) {pc : WritePc}
    (hle : ∀ j oldest, pc.scanned = some (j, oldest) → oldest ≤ env.mti_txnid)
    (hscan : ∀ i t j oldest, (env.txns i).mt_txnid = some t → pc.scanned = some (j, oldest) →
      j ≤ i → oldest ≤ t)
    (hnum : ∀ num, pc.num = some num → 0 < num) (hpc : ∀ rest, txn.pc ≠ .flush rest)
    (hpc' : ∀ rest, pc ≠ .flush rest) : (env.setTxn { txn with pc := pc }).Ok since vs := by
  have hnow := h.now_eq ha
  obtain rfl := txn_eq ha
  exact
    { h with
      readers := fun i ↦ { h.readers i with scan := hscan i }
      scan_le := hle
      published := fun _ ↦ hnow
      unpublished := fun hw ↦ Writer.noConfusion hw
      resting := fun hn ↦ absurd rfl (hn _)
      num := hnum
      records := fun _ ↦ h.records hpc
      flushing := fun rest hr ↦ absurd hr (hpc' rest) }

/-- Pages that may be taken become dirty. -/
theorem takeDirty (h : env.Ok since vs) (ha : env.me_txn = .active txn)
    (hpc : ∀ rest, txn.pc ≠ .flush rest) {d : Dirty} (pghead : Option (List Nat)) (next : Nat)
    (hd : 0 < d.num) (hsub : ∀ p, d.Covers p → p ∈ env.pghead ∨ txn.mt_next_pgno ≤ p)
    (hpool : ∀ p, p ∈ pghead.getD [] ↔ p ∈ env.pghead ∧ ¬ d.Covers p)
    (hsorted : (pghead.getD []).Pairwise (· < ·))
    (hnext : ∀ p, next ≤ p ↔ txn.mt_next_pgno ≤ p ∧ ¬ d.Covers p) :
    MDB_env.Ok
      { env with
        me_pghead := pghead
        me_txn := .active
          { txn with mt_next_pgno := next, dirty_list := d :: txn.dirty_list, pc := .work } }
      since vs := by
  have hnow := h.now_eq ha
  obtain rfl := txn_eq ha
  have halloc := h.inv.alloc (a := {p | d.Covers p}) fun p hp ↦ hsub p hp
  have hapart : ∀ e ∈ env.txn.dirty_list, ∀ p, d.Covers p → ¬ e.Covers p := by
    intro e he p hp hep
    obtain ⟨hpool, hfresh, -⟩ := h.inv.held_apart p ⟨e, he, hep⟩
    exact (hsub p hp).elim hpool hfresh
  refine
    { h with
      inv := ?_
      readers := fun i ↦
        { h.readers i with scan := fun t j oldest _ hs ↦ absurd hs (Option.some_ne_none _).symm }
      scan_le := fun j oldest hs ↦ absurd hs (Option.some_ne_none _).symm
      published := fun _ ↦ hnow
      unpublished := fun hw ↦ Writer.noConfusion hw
      resting := fun hn ↦ absurd rfl (hn _)
      pghead := hsorted
      next := Nat.lt_of_lt_of_le h.next ((hnext next).mp (Nat.le_refl _)).1
      num := fun num hs ↦ absurd hs (Option.some_ne_none _).symm
      dirty_pos := List.forall_mem_cons.mpr ⟨hd, h.dirty_pos⟩
      dirty_apart := List.pairwise_cons.mpr ⟨hapart, h.dirty_apart⟩
      loose_dirty := ?_
      records := fun _ ↦ h.records hpc
      flushing := fun rest hr ↦ WritePc.noConfusion hr }
  · have hheld : ∀ p, (∃ e ∈ d :: env.txn.dirty_list, e.Covers p) ↔
        env.txn.IsDirty p ∨ d.Covers p := by
      intro p
      rw [List.exists_mem_cons_iff, or_comm]
      exact Iff.rfl
    refine halloc.of_eq (Versions.ext rfl rfl rfl rfl rfl rfl rfl rfl ?_ ?_ ?_ rfl)
    · exact Set.ext hpool
    · exact Set.ext hnext
    · exact Set.ext hheld
  · intro p hp
    obtain ⟨e, he, hmid⟩ := h.loose_dirty p hp
    exact ⟨e, List.mem_cons_of_mem d he, hmid⟩

private theorem fail (h : env.Ok since vs) (ha : env.me_txn = .active txn)
    (hpc : ∀ rest, txn.pc ≠ .flush rest) : (env.setTxn { txn with pc := .error }).Ok since vs := by
  apply h.setPc ha _ _ _ hpc
  · exact fun rest hr ↦ WritePc.noConfusion hr
  · exact fun j oldest hs ↦ absurd hs (Option.some_ne_none _).symm
  · exact fun i t j oldest _ hs ↦ absurd hs (Option.some_ne_none _).symm
  · exact fun num hs ↦ absurd hs (Option.some_ne_none _).symm

private theorem grow (h : env.Ok since vs) (ha : env.me_txn = .active txn)
    (hpc : ∀ rest, txn.pc ≠ .flush rest) {num : Nat} (hnum : 0 < num) (data : Nat → MDB_page) :
    (env.grow txn num data).Ok since vs := by
  unfold MDB_env.grow
  by_cases hfull : env.me_maxpg txn.proc ≤ txn.mt_next_pgno + num
  · rw [if_pos hfull]
    exact h.fail ha hpc
  · rw [if_neg hfull]
    have hfresh : ∀ p ∈ env.pghead, p < txn.mt_next_pgno := by
      intro p hp
      have hno := (h.inv.pool_apart p hp).1
      rw [← txn_eq ha]
      exact Nat.lt_of_not_le hno
    apply h.takeDirty ha hpc env.me_pghead _ hnum
    · exact fun p hp ↦ .inr hp.1
    · intro p
      refine ⟨fun hp ↦ ⟨hp, fun hc ↦ ?_⟩, fun hp ↦ hp.1⟩
      exact absurd (hfresh p hp) (Nat.not_lt.mpr hc.1)
    · exact h.pghead
    · intro p
      show txn.mt_next_pgno + num ≤ p ↔
        txn.mt_next_pgno ≤ p ∧ ¬ (txn.mt_next_pgno ≤ p ∧ p < txn.mt_next_pgno + num)
      omega

private theorem takePages (h : env.Ok since vs) (ha : env.me_txn = .active txn)
    (hpc : ∀ rest, txn.pc ≠ .flush rest) {num i : Nat} (hnum : 0 < num)
    (hs : searchRange num env.pghead = some i) (data : Nat → MDB_page) :
    (env.takePages txn num i data).Ok since vs := by
  have hin : ∀ p, (⟨env.pghead.getD i 0, num, data⟩ : Dirty).Covers p → p ∈ env.pghead :=
    fun p hp ↦ mem_of_searchRange h.pghead hs hnum hp.1 hp.2
  apply h.takeDirty ha hpc _ txn.mt_next_pgno hnum
  · exact fun p hp ↦ .inl (hin p hp)
  · exact fun p ↦ mem_taken_iff h.pghead hs hnum
  · exact pairwise_taken h.pghead
  · intro p
    refine ⟨fun hp ↦ ⟨hp, fun hc ↦ ?_⟩, fun hp ↦ hp.1⟩
    apply (h.inv.pool_apart p (hin p hc)).1
    show env.txn.mt_next_pgno ≤ p
    rw [txn_eq ha]
    exact hp

/-- The next record is read. -/
theorem fetch (h : env.Ok since vs) (ha : env.me_txn = .active txn) {num retry : Nat}
    {found_old : Bool} (hpc : txn.pc = .fetch num retry found_old) {r : Nat × List Nat}
    (hr : txn.free.find? (fun r ↦ env.me_pglast < r.1) = some r)
    (hold : r.1 < env.me_pgoldest txn.proc) :
    MDB_env.Ok
      { env with
        me_pghead := some (env.pghead.merge r.2)
        me_pglast := r.1
        me_txn := .active { txn with pc := .search num retry found_old } }
      (max since r.1) vs := by
  have hnow := h.now_eq ha
  obtain rfl := txn_eq ha
  have hpc' : ∀ rest, env.txn.pc ≠ .flush rest := by simp [hpc]
  rw [h.records hpc'] at hr
  have hmem := List.mem_of_find?_eq_some hr
  have hpast : env.me_pglast < r.1 := by simpa using List.find?_some hr
  have hmti : r.1 ≤ env.mti_txnid := Nat.le_trans (Nat.le_of_lt hold) (h.oldest_le _)
  have hle : r.1 ≤ env.now := Nat.le_trans hmti h.mti_le_now
  have hmax : ∀ {n}, max since r.1 ≤ n → since ≤ n := Nat.le_trans (Nat.le_max_left _ _)
  -- keys ascend: no other record lies between
  have hkey : ∀ r' ∈ env.last.free, env.me_pglast < r'.1 → r.1 ≤ r'.1 :=
    fun r' hr' ↦ le_of_find? h.sorted hr hr'
  have hfreed := env.last.freed_eq h.sorted hmem
  have hapart : ∀ p ∈ env.pghead, p ∉ r.2 := by
    intro p hp hpr
    refine (h.inv.pool_apart p hp).2 r.1 ⟨hpast, ?_⟩
    rw [hfreed]
    exact hpr
  refine
    { h with
      inv := ?_
      readers := ?_
      metas := fun n hn ↦ h.metas n (hmax hn)
      last_pg := fun m n hm ↦ h.last_pg m n (hmax hm)
      since_le := Nat.max_le.mpr ⟨h.since_le, hmti⟩
      scan_le := fun j oldest hs ↦ absurd hs (Option.some_ne_none _).symm
      published := fun _ ↦ hnow
      unpublished := fun hw ↦ Writer.noConfusion hw
      resting := fun hn ↦ absurd rfl (hn _)
      pglast_le := hle
      pghead := pairwise_merge_lt h.pghead (h.ascending r hmem) hapart
      num := ?_
      records := fun _ ↦ h.records hpc'
      flushing := fun rest hr ↦ WritePc.noConfusion hr }
  · refine (h.inv.take hle).of_eq (Versions.ext rfl rfl rfl rfl rfl rfl rfl ?_ ?_ rfl rfl rfl)
    · funext k
      apply Set.ext
      intro p
      show r.1 < k ∧ p ∈ env.last.Freed k ↔
        p ∈ Function.update (env.versions since vs).queue r.1 ∅ k
      by_cases hk : k = r.1
      · subst hk
        rw [Function.update_self]
        exact ⟨fun hp ↦ absurd hp.1 (Nat.lt_irrefl _), fun hp ↦ absurd hp (Set.notMem_empty p)⟩
      · rw [Function.update_of_ne hk]
        constructor
        · exact fun hp ↦ ⟨Nat.lt_trans hpast hp.1, hp.2⟩
        · rintro ⟨hlt, r', hr', rfl, hp⟩
          exact ⟨Nat.lt_of_le_of_ne (hkey r' hr' hlt) (Ne.symm hk), r', hr', rfl, hp⟩
    · apply Set.ext
      intro p
      show p ∈ env.pghead.merge r.2 ↔ p ∈ env.pghead ∨ env.me_pglast < r.1 ∧ p ∈ env.last.Freed r.1
      rw [List.mem_merge, hfreed]
      exact or_congr_right (and_iff_right hpast).symm
  · intro i
    refine
      { h.readers i with
        since_le := fun t hs ↦ Nat.max_le.mpr ⟨(h.readers i).since_le t hs, ?_⟩
        scan := fun t j oldest _ hs ↦ absurd hs (Option.some_ne_none _).symm }
    exact Nat.le_trans (Nat.le_of_lt hold) ((h.readers i).oldest_le _ t hs)
  · rintro num ⟨⟩
    exact h.num num (by rw [hpc]; rfl)

/-! ### Looking at readers -/

/-- A transaction that has begun holds its slot. -/
theorem pid_of_begun (h : env.Ok since vs) {i t : Nat} (ht : (env.txns i).mt_txnid = some t) :
    (env.mti_readers i).mr_pid ≠ 0 := by
  apply (h.readers i).slot
  intro hf
  rw [hf] at ht
  exact absurd ht (Option.some_ne_none _).symm

private theorem tooRecent (h : env.Ok since vs) (ha : env.me_txn = .active txn)
    (hpc : ∀ rest, txn.pc ≠ .flush rest) {num : Nat} (hnum : 0 < num) (retry : Nat)
    (found_old : Bool) (data : Nat → MDB_page) :
    (env.tooRecent txn num retry found_old data).Ok since vs := by
  cases found_old with
  | true => exact h.grow ha hpc hnum data
  | false =>
    have hid : txn.mt_txnid = env.mti_txnid + 1 := by
      rw [← h.now_eq ha, ← txn_eq ha]
      exact h.txnid
    apply h.setPc ha _ _ _ hpc fun rest hr ↦ WritePc.noConfusion hr
    · rintro j oldest ⟨⟩
      omega
    · -- a slot past those in use has no reader
      rintro i t j oldest ht ⟨⟩ hi
      exact absurd ((h.readers i).pid (h.pid_of_begun ht)) (Nat.not_lt.mpr hi)
    · rintro num ⟨⟩
      exact hnum

variable {num retry i oldest : Nat}

/-- `mdb_find_oldest` looks at a slot in use. -/
theorem lookAt (h : env.Ok since vs) (ha : env.me_txn = .active txn)
    (hpc : txn.pc = .pid num retry (i + 1) oldest) :
    (env.setTxn { txn with pc := .txnid num retry i oldest }).Ok since vs := by
  obtain rfl := txn_eq ha
  have hscan : env.txn.pc.scanned = some (i + 1, oldest) := by rw [hpc]; rfl
  apply h.setPc ha _ _ _ _ fun rest hr ↦ WritePc.noConfusion hr
  · rintro j o ⟨⟩
    exact h.scan_le _ _ hscan
  · rintro k t j o ht ⟨⟩ hk
    exact (h.readers k).scan t _ _ ht hscan hk
  · rintro n ⟨⟩
    exact h.num num (by rw [hpc]; rfl)
  · simp [hpc]

/-- `mdb_find_oldest` passes a slot that is free. -/
theorem skip (h : env.Ok since vs) (ha : env.me_txn = .active txn)
    (hpc : txn.pc = .pid num retry (i + 1) oldest) (hpid : (env.mti_readers i).mr_pid = 0) :
    (env.setTxn { txn with pc := .pid num retry i oldest }).Ok since vs := by
  obtain rfl := txn_eq ha
  have hscan : env.txn.pc.scanned = some (i + 1, oldest) := by rw [hpc]; rfl
  apply h.setPc ha _ _ _ _ fun rest hr ↦ WritePc.noConfusion hr
  · rintro j o ⟨⟩
    exact h.scan_le _ _ hscan
  · rintro k t j o ht ⟨⟩ hk
    have hne : k ≠ i := by
      rintro rfl
      exact h.pid_of_begun ht hpid
    exact (h.readers k).scan t _ _ ht hscan (by omega)
  · rintro n ⟨⟩
    exact h.num num (by rw [hpc]; rfl)
  · simp [hpc]

/-- `mdb_find_oldest` takes the id of a slot into account. -/
theorem account (h : env.Ok since vs) (ha : env.me_txn = .active txn)
    (hpc : txn.pc = .txnid num retry i oldest) {oldest' : Nat} (hle : oldest' ≤ oldest)
    (hid : ∀ t, (env.mti_readers i).mr_txnid = some t → oldest' ≤ t) :
    (env.setTxn { txn with pc := .pid num retry i oldest' }).Ok since vs := by
  obtain rfl := txn_eq ha
  have hscan : env.txn.pc.scanned = some (i + 1, oldest) := by rw [hpc]; rfl
  apply h.setPc ha _ _ _ _ fun rest hr ↦ WritePc.noConfusion hr
  · rintro j o ⟨⟩
    exact Nat.le_trans hle (h.scan_le _ _ hscan)
  · rintro k t j o ht ⟨⟩ hk
    by_cases hki : k = i
    · subst hki
      exact hid t ((h.readers k).id t ht)
    · exact Nat.le_trans hle ((h.readers k).scan t _ _ ht hscan (by omega))
  · rintro n ⟨⟩
    exact h.num num (by rw [hpc]; rfl)
  · simp [hpc]

/-- `mdb_find_oldest` is done. -/
theorem found (h : env.Ok since vs) (ha : env.me_txn = .active txn)
    (hpc : txn.pc = .pid num retry 0 oldest) :
    MDB_env.Ok
      { env with
        me_pgoldest := Function.update env.me_pgoldest txn.proc oldest
        me_txn := .active { txn with pc := .fetch num retry true } }
      since vs := by
  have hnow := h.now_eq ha
  obtain rfl := txn_eq ha
  have hscan : env.txn.pc.scanned = some (0, oldest) := by rw [hpc]; rfl
  have hother : ∀ proc t, env.me_pgoldest proc ≤ t → oldest ≤ t →
      Function.update env.me_pgoldest env.txn.proc oldest proc ≤ t := by
    intro proc t hle hle'
    by_cases hproc : proc = env.txn.proc
    · subst hproc
      rw [Function.update_self]
      exact hle'
    · rw [Function.update_of_ne hproc]
      exact hle
  have hpc' : ∀ rest, env.txn.pc ≠ .flush rest := by simp [hpc]
  exact
    { h with
      readers := fun k ↦
        { h.readers k with
          oldest_le := fun proc t ht ↦ hother proc t ((h.readers k).oldest_le proc t ht)
            ((h.readers k).scan t _ _ ht hscan (Nat.zero_le k))
          scan := fun t j o _ hs ↦ absurd hs (Option.some_ne_none _).symm }
      oldest_le := fun proc ↦ hother proc _ (h.oldest_le proc) (h.scan_le _ _ hscan)
      scan_le := fun j o hs ↦ absurd hs (Option.some_ne_none _).symm
      published := fun _ ↦ hnow
      unpublished := fun hw ↦ Writer.noConfusion hw
      resting := fun hn ↦ absurd rfl (hn _)
      num := by
        rintro n ⟨⟩
        exact h.num num (by rw [hpc]; rfl)
      records := fun _ ↦ h.records hpc'
      flushing := fun rest hr ↦ WritePc.noConfusion hr }

/-! ### `mdb_page_alloc` -/

/-- The search goes on with a record. -/
theorem toFetch (h : env.Ok since vs) (ha : env.me_txn = .active txn)
    (hpc : ∀ rest, txn.pc ≠ .flush rest) (hnum : 0 < num) (retry : Nat) (found_old : Bool) :
    (env.setTxn { txn with pc := .fetch num retry found_old }).Ok since vs := by
  apply h.setPc ha _ _ _ hpc fun rest hr ↦ WritePc.noConfusion hr
  · exact fun j o hs ↦ absurd hs (Option.some_ne_none _).symm
  · exact fun k t j o _ hs ↦ absurd hs (Option.some_ne_none _).symm
  · rintro n ⟨⟩
    exact hnum

/-- A step of `mdb_page_alloc`; only the record of an older transaction moves what is kept. -/
theorem page_alloc (h : env.Ok since vs) (ha : env.me_txn = .active txn) (data : Nat → MDB_page) :
    ∃ since', since ≤ since' ∧ (env.mdb_page_alloc txn data).Ok since' vs := by
  have htxn := txn_eq ha
  have hpos : ∀ num, txn.pc.num = some num → 0 < num := htxn ▸ h.num
  unfold MDB_env.mdb_page_alloc
  cases hpc : txn.pc with
  | search num retry found_old =>
    have hpc' : ∀ rest, txn.pc ≠ .flush rest := by simp [hpc]
    have hnum := hpos num (by rw [hpc]; rfl)
    refine ⟨since, Nat.le_refl _, ?_⟩
    dsimp only
    cases hs : searchRange num env.pghead with
    | some i => exact h.takePages ha hpc' hnum hs data
    | none =>
      by_cases hlen : num ≤ env.pghead.length
      · by_cases hretry : retry = 0
        · rw [if_pos hlen, if_pos hretry]
          exact h.grow ha hpc' hnum data
        · rw [if_pos hlen, if_neg hretry]
          exact h.toFetch ha hpc' hnum _ _
      · rw [if_neg hlen]
        exact h.toFetch ha hpc' hnum _ _
  | fetch num retry found_old =>
    have hpc' : ∀ rest, txn.pc ≠ .flush rest := by simp [hpc]
    have hnum := hpos num (by rw [hpc]; rfl)
    dsimp only
    by_cases hold : env.me_pgoldest txn.proc ≤ env.me_pglast + 1
    · rw [if_pos hold]
      exact ⟨since, Nat.le_refl _, h.tooRecent ha hpc' hnum _ _ _⟩
    · rw [if_neg hold]
      cases hr : txn.free.find? fun r ↦ env.me_pglast < r.1 with
      | none => exact ⟨since, Nat.le_refl _, h.grow ha hpc' hnum data⟩
      | some r =>
        dsimp only
        by_cases hrec : env.me_pgoldest txn.proc ≤ r.1
        · rw [if_pos hrec]
          exact ⟨since, Nat.le_refl _, h.tooRecent ha hpc' hnum _ _ _⟩
        · rw [if_neg hrec]
          exact ⟨max since r.1, Nat.le_max_left _ _, h.fetch ha hpc hr (Nat.lt_of_not_le hrec)⟩
  | pid num retry i oldest =>
    refine ⟨since, Nat.le_refl _, ?_⟩
    cases i with
    | zero => exact h.found ha hpc
    | succ i =>
      dsimp only
      by_cases hpid : (env.mti_readers i).mr_pid ≠ 0
      · rw [if_pos hpid]
        exact h.lookAt ha hpc
      · rw [if_neg hpid]
        exact h.skip ha hpc (not_not.mp hpid)
  | txnid num retry i oldest =>
    refine ⟨since, Nat.le_refl _, ?_⟩
    apply h.account ha hpc
    · cases (env.mti_readers i).mr_txnid with
      | none => exact Nat.le_refl _
      | some mr => exact Nat.min_le_left _ _
    · intro t ht
      rw [ht]
      exact Nat.min_le_right _ _
  | work => exact ⟨since, Nat.le_refl _, h⟩
  | error => exact ⟨since, Nat.le_refl _, h⟩
  | flush rest => exact ⟨since, Nat.le_refl _, h⟩

end MDB_env.Ok

end ObDump.Lmdb
