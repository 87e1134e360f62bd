import ObDump.Lmdb.Edits

/-!
# What the writer commits

Library `Lmdb`. A write transaction flushes its dirty pages and writes its meta page, or is
given up. With that every step of an environment keeps what readers rely on.
-/

namespace ObDump.Lmdb

open Base

namespace MDB_env.Ok

variable {env : MDB_env} {since : Nat} {vs : Nat → Version} {txn : WriteTxn}

/-! ### Flushing -/

private theorem flush (h : env.Ok since vs) (ha : env.me_txn = .active txn) {d : Dirty}
    {rest : List Dirty}
    (hpc : txn.pc = .flush (d :: rest)) : (env.flushEntry txn d rest).Ok since vs := by
  have hnow := h.now_eq ha
  obtain rfl := txn_eq ha
  have hf := h.flushing _ hpc
  have hd : d ∈ env.txn.dirty_list := hf.sub List.mem_cons_self
  have hwrite := h.inv.write (env.flushEntry env.txn d rest).me_map fun p hp ↦
    if_neg fun hc ↦ hp ⟨d, hd, hc⟩
  refine
    { h with
      inv := hwrite
      readers := fun i ↦
        { h.readers i with scan := fun t j oldest _ hs ↦ absurd hs (Option.some_ne_none _).symm }
      scan_le := fun j oldest hs ↦ absurd hs (Option.some_ne_none _).symm
      published := fun _ ↦ hnow
      unpublished := fun hw ↦ Writer.noConfusion hw
      resting := fun hn ↦ absurd rfl (hn _)
      num := fun num hs ↦ absurd hs (Option.some_ne_none _).symm
      records := fun hr ↦ absurd rfl (hr _)
      flushing := ?_ }
  rintro rest' ⟨⟩
  refine { hf with sub := fun e he ↦ hf.sub (List.mem_cons_of_mem d he), written := ?_ }
  intro e he
  have hnew : ∀ p, d.Covers p → e = d →
      (env.flushEntry env.txn d rest).me_map p = e.data (p - e.mid) := by
    rintro p hp rfl
    exact if_pos hp
  obtain hmem | hdone := hf.written e he
  · obtain rfl | hmem := List.mem_cons.mp hmem
    · exact .inr fun p hp ↦ hnew p hp rfl
    · exact .inl hmem
  · refine .inr fun p hp ↦ ?_
    by_cases hdp : d.Covers p
    · exact hnew p hdp (eq_of_covers h.dirty_apart he hd hp hdp)
    · exact (if_neg hdp).trans (hdone p hp)

/-- All is flushed: the file is what the transaction sees. -/
theorem view_eq (h : env.Ok since vs) (hpc : env.txn.pc = .flush []) :
    env.txn.view env.me_map = env.me_map := by
  funext p
  unfold WriteTxn.view
  cases hf : env.txn.dirty_list.find? fun d ↦ d.Covers p with
  | none => rfl
  | some d =>
    have hp : d.Covers p := by simpa using List.find?_some hf
    obtain hmem | hdone := (h.flushing _ hpc).written d (List.mem_of_find?_eq_some hf)
    · exact absurd hmem List.not_mem_nil
    · exact (hdone p hp).symm

/-! ### The next version -/

/-- No transaction is under way. -/
theorem rest (hidle : ∀ txn, env.me_txn ≠ .active txn) (hhead : env.me_pghead = none)
    (hlast : env.me_pglast = 0) (h : env.Protects since vs) : env.Ok since vs := by
  have htxn : env.txn = .renew 0 env.now env.last := by
    unfold MDB_env.txn
    cases hm : env.me_txn with
    | active txn => exact absurd hm (hidle txn)
    | idle => rfl
    | written => rfl
  have hpghead : env.pghead = [] := by rw [MDB_env.pghead, hhead]; rfl
  refine
    { h with
      scan_le := ?_
      resting := fun _ ↦ ⟨hhead, hlast⟩
      pglast_le := hlast ▸ Nat.zero_le _
      pghead := hpghead ▸ List.Pairwise.nil
      txnid := ?_
      next := ?_
      num := ?_
      dirty_pos := ?_
      dirty_apart := ?_
      loose_dirty := ?_
      loose_free := ?_
      loose_nodup := ?_
      free_nodup := ?_
      records := ?_
      flushing := ?_ }
  all_goals rw [htxn]
  · exact fun j oldest hs ↦ absurd hs (Option.some_ne_none _).symm
  · rfl
  · exact Nat.lt_succ_self _
  · exact fun num hs ↦ absurd hs (Option.some_ne_none _).symm
  · exact fun d hd ↦ absurd hd List.not_mem_nil
  · exact List.Pairwise.nil
  · exact fun p hp ↦ absurd hp List.not_mem_nil
  · exact fun p hp ↦ absurd hp List.not_mem_nil
  · exact List.nodup_nil
  · exact List.nodup_nil
  · exact fun _ ↦ rfl
  · exact fun rest hr ↦ WritePc.noConfusion hr

private theorem abort (h : env.Ok since vs) (ha : env.me_txn = .active txn) :
    env.abort.Ok since vs := by
  have hnow := h.now_eq ha
  refine rest (fun txn hc ↦ Writer.noConfusion hc) rfl rfl
    { h with
      inv := h.inv.abort.of_eq (Versions.ext rfl rfl rfl rfl rfl rfl rfl ?_ ?_ rfl ?_ ?_)
      readers := fun i ↦
        { h.readers i with scan := fun t j oldest _ hs ↦ absurd hs (Option.some_ne_none _).symm }
      published := fun _ ↦ hnow
      unpublished := fun hw ↦ Writer.noConfusion hw }
  · funext k
    apply Set.ext
    intro p
    refine ⟨fun hp ↦ hp.2, fun hp ↦ ⟨?_, hp⟩⟩
    obtain ⟨r, hr, rfl, -⟩ := hp
    exact (h.keys r hr).1
  · exact Set.eq_empty_of_forall_notMem fun p ↦ List.not_mem_nil
  · apply Set.eq_empty_of_forall_notMem
    rintro p ⟨d, hd, -⟩
    exact List.not_mem_nil hd
  · exact Set.eq_empty_of_forall_notMem fun p ↦ List.not_mem_nil

private theorem publish (h : env.Ok since vs) (hw : env.me_txn = .written) :
    MDB_env.Ok { env with mti_txnid := env.mti_txnid + 1, me_txn := .idle } since vs := by
  have htxn : env.txn = .renew 0 env.now env.last := by rw [MDB_env.txn, hw]
  obtain ⟨hhead, hlast⟩ := h.resting (by simp [hw])
  refine rest (fun txn hc ↦ Writer.noConfusion hc) hhead hlast
    { h with
      inv := h.inv.of_eq (Versions.ext rfl rfl rfl rfl rfl rfl rfl rfl rfl ?_ ?_ ?_)
      readers := fun i ↦
        { h.readers i with
          scan := fun t j oldest _ hs ↦ absurd hs (Option.some_ne_none _).symm
          le := fun t ht ↦ Nat.le_succ_of_le ((h.readers i).le t ht) }
      since_le := Nat.le_succ_of_le h.since_le
      oldest_le := fun proc ↦ Nat.le_succ_of_le (h.oldest_le proc)
      published := fun _ ↦ h.unpublished hw
      unpublished := fun hw ↦ Writer.noConfusion hw }
  all_goals
    simp only [MDB_env.versions, htxn]
    rfl

/-- The version written is the next one. -/
theorem now_write_meta (h : env.Ok since vs) (ha : env.me_txn = .active txn) :
    (env.mdb_env_write_meta txn).now = env.now + 1 := by
  have hid : txn.mt_txnid = env.now + 1 := txn_eq ha ▸ h.txnid
  have hzero : (env.me_metas 0).mm_txnid ≤ env.now := Nat.le_max_left _ _
  have hone : (env.me_metas 1).mm_txnid ≤ env.now := Nat.le_max_right _ _
  show max (Function.update env.me_metas (txn.mt_txnid % 2) txn.meta_page 0).mm_txnid
    (Function.update env.me_metas (txn.mt_txnid % 2) txn.meta_page 1).mm_txnid = env.now + 1
  obtain hpar | hpar := Nat.mod_two_eq_zero_or_one txn.mt_txnid
  · rw [hpar, Function.update_self, Function.update_of_ne Nat.one_ne_zero]
    show max txn.mt_txnid _ = _
    omega
  · rw [hpar, Function.update_self, Function.update_of_ne Nat.zero_ne_one]
    show max _ txn.mt_txnid = _
    omega

private theorem last_write_meta (h : env.Ok since vs) (ha : env.me_txn = .active txn) :
    (env.mdb_env_write_meta txn).last = txn.meta_page := by
  have hid : txn.mt_txnid = env.now + 1 := txn_eq ha ▸ h.txnid
  rw [MDB_env.last, h.now_write_meta ha, ← hid]
  exact Function.update_self _ _ _

/-- The pages of the free list that is saved. -/
theorem mem_freed_meta_page {rs : List (Nat × List Nat)} {page : MDB_meta} {pglast : Nat}
    (hfree : txn.free = rs ++ page.free.filter (pglast < ·.1) ++ txn.freeRecord) {k p : Nat} :
    p ∈ txn.meta_page.Freed k ↔ (∃ r ∈ rs, r.1 = k ∧ p ∈ r.2) ∨
      (pglast < k ∧ p ∈ page.Freed k) ∨ (k = txn.mt_txnid ∧ p ∈ txn.mt_free_pgs) := by
  have hown : ∀ r, r ∈ txn.freeRecord ↔
      txn.mt_free_pgs ≠ [] ∧ r = (txn.mt_txnid, txn.mt_free_pgs.mergeSort) := by
    intro r
    unfold WriteTxn.freeRecord
    by_cases hnil : txn.mt_free_pgs = []
    · simp [hnil]
    · simp [hnil]
  show (∃ r ∈ txn.free, r.1 = k ∧ p ∈ r.2) ↔ _
  rw [hfree]
  constructor
  · rintro ⟨r, hr, rfl, hp⟩
    obtain hr | hr := List.mem_append.mp hr
    · obtain hr | hr := List.mem_append.mp hr
      · exact .inl ⟨r, hr, rfl, hp⟩
      · obtain ⟨hr, hlt⟩ := List.mem_filter.mp hr
        exact .inr (.inl ⟨of_decide_eq_true hlt, r, hr, rfl, hp⟩)
    · obtain ⟨-, rfl⟩ := (hown r).mp hr
      exact .inr (.inr ⟨rfl, List.mem_mergeSort.mp hp⟩)
  · rintro (⟨r, hr, rfl, hp⟩ | ⟨hlt, r, hr, rfl, hp⟩ | ⟨rfl, hp⟩)
    · exact ⟨r, List.mem_append_left _ (List.mem_append_left _ hr), rfl, hp⟩
    · refine ⟨r, List.mem_append_left _ (List.mem_append_right _ ?_), rfl, hp⟩
      exact List.mem_filter.mpr ⟨hr, decide_eq_true hlt⟩
    · refine ⟨_, List.mem_append_right _ ((hown _).mpr ⟨List.ne_nil_of_mem hp, rfl⟩), rfl, ?_⟩
      exact List.mem_mergeSort.mpr hp

/-- After a commit the pages of records read and not used wait again, and those freed. -/
theorem freed_eq_waiting (h : env.Ok since vs) {rs : List (Nat × List Nat)}
    (hfree : env.txn.free =
      rs ++ env.last.free.filter (env.me_pglast < ·.1) ++ env.txn.freeRecord)
    (hrs : ∀ r ∈ rs, r.1 ≤ env.me_pglast) (k : Nat) :
    env.txn.meta_page.Freed k =
      (env.versions since vs).waiting (fun k ↦ {p | ∃ r ∈ rs, r.1 = k ∧ p ∈ r.2}) k := by
  have hpast := h.pglast_le
  have hold : ∀ p ∈ env.last.Freed k, k ≤ env.now := by
    rintro p ⟨r, hr, rfl, -⟩
    exact (h.keys r hr).2
  have hnew : ∀ p, (∃ r ∈ rs, r.1 = k ∧ p ∈ r.2) → k ≤ env.now := by
    rintro p ⟨r, hr, rfl, -⟩
    exact Nat.le_trans (hrs r hr) hpast
  apply Set.ext
  intro p
  rw [mem_freed_meta_page hfree, h.txnid]
  show _ ↔ p ∈ (if k ≤ env.now then _ else if k = env.now + 1 then _ else ∅ : Set Nat)
  by_cases hk : k ≤ env.now
  · rw [if_pos hk]
    have hne : k ≠ env.now + 1 := by omega
    constructor
    · rintro (hp | hp | ⟨heq, -⟩)
      · exact .inr hp
      · exact .inl hp
      · exact absurd heq hne
    · rintro (hp | hp)
      · exact .inr (.inl hp)
      · exact .inl hp
  · rw [if_neg hk]
    by_cases hk' : k = env.now + 1
    · rw [if_pos hk']
      constructor
      · rintro (hp | hp | ⟨-, hp⟩)
        · exact absurd (hnew p hp) hk
        · exact absurd (hold p hp.2) hk
        · exact hp
      · exact fun hp ↦ .inr (.inr ⟨hk', hp⟩)
    · rw [if_neg hk']
      constructor
      · rintro (hp | hp | ⟨heq, -⟩)
        · exact absurd (hnew p hp) hk
        · exact absurd (hold p hp.2) hk
        · exact absurd heq hk'
      · exact fun hp ↦ absurd hp (Set.notMem_empty p)

/-- The records saved are in order. -/
theorem records_saved (h : env.Ok since vs) {rest : List Dirty} (hpc : env.txn.pc = .flush rest) :
    (∀ r ∈ env.txn.free, 1 ≤ r.1 ∧ r.1 ≤ env.now + 1) ∧ env.txn.free.Pairwise (·.1 < ·.1) ∧
      ∀ r ∈ env.txn.free, r.2.Pairwise (· < ·) := by
  obtain ⟨-, -, rs, hfree, hsorted, hrs, -⟩ := h.flushing rest hpc
  have hpast := h.pglast_le
  have hown : ∀ r ∈ env.txn.freeRecord,
      r = (env.now + 1, env.txn.mt_free_pgs.mergeSort) := by
    intro r hr
    unfold WriteTxn.freeRecord at hr
    by_cases hnil : env.txn.mt_free_pgs = []
    · rw [if_pos hnil] at hr
      exact absurd hr List.not_mem_nil
    · rw [if_neg hnil, h.txnid] at hr
      exact List.mem_singleton.mp hr
  have hmid : ∀ r ∈ env.last.free.filter (env.me_pglast < ·.1),
      r ∈ env.last.free ∧ env.me_pglast < r.1 := by
    intro r hr
    obtain ⟨hr, hlt⟩ := List.mem_filter.mp hr
    exact ⟨hr, of_decide_eq_true hlt⟩
  rw [hfree]
  refine ⟨?_, List.pairwise_append.mpr ⟨List.pairwise_append.mpr ⟨hsorted, ?_, ?_⟩, ?_, ?_⟩, ?_⟩
  · intro r hr
    obtain hr | hr := List.mem_append.mp hr
    · obtain hr | hr := List.mem_append.mp hr
      · obtain ⟨hpos, hle, -⟩ := hrs r hr
        exact ⟨hpos, by omega⟩
      · obtain ⟨hpos, hle⟩ := h.keys r (hmid r hr).1
        exact ⟨hpos, by omega⟩
    · rw [hown r hr]
      exact ⟨Nat.succ_pos _, Nat.le_refl _⟩
  · exact h.sorted.filter _
  · intro r hr r' hr'
    exact Nat.lt_of_le_of_lt (hrs r hr).2.1 (hmid r' hr').2
  · unfold WriteTxn.freeRecord
    by_cases hnil : env.txn.mt_free_pgs = []
    · rw [if_pos hnil]
      exact List.Pairwise.nil
    · rw [if_neg hnil]
      exact List.pairwise_singleton _ _
  · intro r hr r' hr'
    rw [hown r' hr']
    obtain hr | hr := List.mem_append.mp hr
    · have := (hrs r hr).2.1
      show r.1 < env.now + 1
      omega
    · have := (h.keys r (hmid r hr).1).2
      show r.1 < env.now + 1
      omega
  · intro r hr
    obtain hr | hr := List.mem_append.mp hr
    · obtain hr | hr := List.mem_append.mp hr
      · exact List.Pairwise.sublist (hrs r hr).2.2 h.pghead
      · exact h.ascending r (hmid r hr).1
    · rw [hown r hr]
      exact pairwise_mergeSort_lt h.free_nodup

/-- The versions after a commit. -/
theorem commit_inv (h : env.Ok since vs) (ha : env.me_txn = .active txn)
    (hpc : txn.pc = .flush []) (hc : env.Confined txn) :
    ((env.mdb_env_write_meta txn).versions since
      (Function.update vs (env.now + 1) (env.mdb_env_write_meta txn).version)).Inv := by
  have hnow := h.now_write_meta ha
  have hlast := h.last_write_meta ha
  obtain rfl := txn_eq ha
  obtain ⟨-, -, rs, hfree, -, hrs, honce⟩ := h.flushing [] hpc
  have hfreed := h.freed_eq_waiting hfree fun r hr ↦ (hrs r hr).2.1
  have hkeys : ∀ k, ∀ p ∈ env.txn.meta_page.Freed k, 0 < k := by
    intro k p hp
    obtain ⟨r, hr, rfl, -⟩ | ⟨-, r, hr, rfl, -⟩ | ⟨rfl, -⟩ := (mem_freed_meta_page hfree).mp hp
    · exact (hrs r hr).1
    · exact (h.keys r hr).1
    · exact h.txnid ▸ Nat.succ_pos _
  have hcommit := h.inv.commit
    {p | env.txn.meta_page.Pages env.me_psize env.me_map p}
    (fun k ↦ {p | ∃ r ∈ rs, r.1 = k ∧ p ∈ r.2}) ?_ ?_ ?_
  · refine hcommit.of_eq (Versions.ext rfl hnow rfl ?_ ?_ ?_ ?_ ?_ ?_ ?_ ?_ ?_)
    · funext n
      by_cases hn : n = env.now + 1
      · subst hn
        simp only [MDB_env.versions, Versions.commit, Function.update_self, MDB_env.version, hlast]
        rfl
      · simp only [MDB_env.versions, Versions.commit, Function.update_of_ne hn]
        rfl
    · funext n
      by_cases hn : n = env.now + 1
      · subst hn
        simp only [MDB_env.versions, Versions.commit, Function.update_self]
        rfl
      · simp only [MDB_env.versions, Versions.commit, Function.update_of_ne hn]
    · show (env.mdb_env_write_meta env.txn).last.Freed = _
      rw [hlast]
      exact funext hfreed
    · show {p | (env.mdb_env_write_meta env.txn).last.mm_last_pg < p} = _
      rw [hlast]
      apply Set.ext
      intro p
      have hpos := h.next
      show env.txn.mt_next_pgno - 1 < p ↔ env.txn.mt_next_pgno ≤ p
      omega
    · funext k
      show {p | 0 < k ∧ p ∈ (env.mdb_env_write_meta env.txn).last.Freed k} = _
      rw [hlast]
      refine Eq.trans (Set.ext fun p ↦ ?_) (hfreed k)
      exact and_iff_right_of_imp (hkeys k p)
    · exact Set.eq_empty_of_forall_notMem fun p ↦ List.not_mem_nil
    · apply Set.ext
      intro p
      have hpos := h.next
      show (env.mdb_env_write_meta env.txn).last.mm_last_pg + 1 ≤ p ↔ env.txn.mt_next_pgno ≤ p
      rw [hlast]
      show env.txn.mt_next_pgno - 1 + 1 ≤ p ↔ _
      omega
    · apply Set.eq_empty_of_forall_notMem
      rintro p ⟨d, hd, -⟩
      exact List.not_mem_nil hd
    · exact Set.eq_empty_of_forall_notMem fun p ↦ List.not_mem_nil
  · intro p hp
    rw [Set.mem_ofPred_eq, ← h.view_eq hpc] at hp
    obtain ⟨hin, hout⟩ := hc p hp
    exact ⟨hin.imp h.live_now.mp id, hout⟩
  · rintro k p ⟨r, hr, rfl, hp⟩
    exact (hrs r hr).2.2.subset hp
  · rintro j k p ⟨r, hr, rfl, hp⟩ ⟨r', hr', rfl, hp'⟩
    exact honce r hr r' hr' p hp hp'

private theorem commit (h : env.Ok since vs) (ha : env.me_txn = .active txn)
    (hpc : txn.pc = .flush []) (hc : env.Confined txn) :
    (env.mdb_env_write_meta txn).Ok since
      (Function.update vs (env.now + 1) (env.mdb_env_write_meta txn).version) := by
  have hinv := h.commit_inv ha hpc hc
  have hnow := h.now_write_meta ha
  have hlast := h.last_write_meta ha
  have hmti := h.now_eq ha
  obtain rfl := txn_eq ha
  have hrecords := h.records_saved hpc
  have hold : ∀ n, n ≤ env.now →
      Function.update vs (env.now + 1) (env.mdb_env_write_meta env.txn).version n = vs n :=
    fun n hn ↦ Function.update_of_ne (by omega) _ _
  have hnew : Function.update vs (env.now + 1) (env.mdb_env_write_meta env.txn).version
      (env.now + 1) = (env.mdb_env_write_meta env.txn).version := Function.update_self _ _ _
  refine rest (fun txn hw ↦ Writer.noConfusion hw) rfl rfl
    { inv := hinv
      readers := ?_
      metas := ?_
      last_pg := ?_
      since_le := h.since_le
      oldest_le := h.oldest_le
      published := fun hw ↦ absurd rfl hw
      unpublished := fun _ ↦ hnow.trans (congrArg _ hmti)
      keys := ?_
      sorted := ?_
      ascending := ?_ }
  · intro i
    refine
      { h.readers i with
        scan := fun t j oldest _ hs ↦ absurd hs (Option.some_ne_none _).symm
        root := ?_
        active := ?_ }
    · intro t root ht
      obtain ⟨n, htn, hn, hpar, hroot⟩ := (h.readers i).root t root ht
      refine ⟨n, htn, by omega, hpar, ?_⟩
      rw [hold n hn]
      exact hroot
    · intro t root next ht
      obtain ⟨n, htn, hn, hroot, hnext⟩ := (h.readers i).active t root next ht
      refine ⟨n, htn, by omega, ?_⟩
      rw [hold n hn]
      exact ⟨hroot, hnext⟩
  · intro n hs hle hge
    rw [hnow] at hle hge
    show Function.update env.me_metas (env.txn.mt_txnid % 2) _ (n % 2) = _
    by_cases hn : n = env.now + 1
    · subst hn
      rw [h.txnid, Function.update_self, hnew]
      exact hlast.symm
    · have hpar : n % 2 ≠ env.txn.mt_txnid % 2 := by
        rw [h.txnid]
        omega
      rw [Function.update_of_ne hpar, hold n (by omega)]
      exact h.metas n hs (by omega) (by omega)
  · intro m n hs hmn hle
    rw [hnow] at hle
    by_cases hn : n = env.now + 1
    · have hpage : (vs env.now).page = env.last :=
        (h.metas env.now h.inv.since_le (Nat.le_refl _) (Nat.le_succ _)).symm
      have hnext : env.last.mm_last_pg ≤ env.txn.meta_page.mm_last_pg := Nat.le_pred_of_lt h.next
      rw [hn, hnew]
      show _ ≤ (env.mdb_env_write_meta env.txn).last.mm_last_pg
      rw [hlast]
      by_cases hm : m = env.now + 1
      · rw [hm, hnew]
        exact Nat.le_of_eq (congrArg MDB_meta.mm_last_pg hlast)
      · rw [hold m (by omega)]
        have hle := h.last_pg m env.now hs (by omega) (Nat.le_refl _)
        rw [hpage] at hle
        exact Nat.le_trans hle hnext
    · rw [hold m (by omega), hold n (by omega)]
      exact h.last_pg m n hs hmn (by omega)
  · rw [hlast, hnow]
    exact hrecords.1
  · rw [hlast]
    exact hrecords.2.1
  · rw [hlast]
    exact hrecords.2.2

end MDB_env.Ok

/-! ### Every step -/

/-- The versions after a step. -/
def MDB_env.extend (env env' : MDB_env) (vs : Nat → Version) : Nat → Version :=
  if env'.now = env.now then vs else Function.update vs env'.now env'.version

variable {env env' : MDB_env} {since : Nat} {vs : Nat → Version}

/-- `mdb_page_alloc` changes what the writing process knows. -/
theorem mdb_page_alloc_eq (env : MDB_env) (txn : WriteTxn) (data : Nat → MDB_page) :
    ∃ pghead pglast me_txn pgoldest, env.mdb_page_alloc txn data =
      { env with
        me_pghead := pghead, me_pglast := pglast, me_txn := me_txn, me_pgoldest := pgoldest } := by
  unfold MDB_env.mdb_page_alloc MDB_env.tooRecent MDB_env.grow
  split <;> repeat' split
  all_goals exact ⟨_, _, _, _, rfl⟩

/-- Every step keeps what readers rely on. -/
theorem MDB_env.Ok.step (h : env.Ok since vs) (hs : Step env env') :
    ∃ since', since ≤ since' ∧ env'.Ok since' (env.extend env' vs) := by
  have hsame : ∀ {env' : MDB_env}, env'.me_metas = env.me_metas → env.extend env' vs = vs := by
    intro env' hm
    rw [MDB_env.extend, if_pos (by rw [MDB_env.now, hm]; rfl)]
  have hkeep : ∀ {env' : MDB_env}, env'.me_metas = env.me_metas → env'.Ok since vs →
      ∃ since', since ≤ since' ∧ env'.Ok since' (env.extend env' vs) := by
    intro env' hm ho
    rw [hsame hm]
    exact ⟨since, Nat.le_refl _, ho⟩
  cases hs with
  | claim hpid hslot => exact hkeep rfl (h.claim _)
  | renew i me_maxpg => exact hkeep rfl (h.renew i me_maxpg)
  | endRead i hi => exact hkeep rfl (h.endRead i)
  | leave i => exact hkeep rfl (h.leave i)
  | begin proc hi _ => exact hkeep rfl (h.begin hi proc)
  | alloc num ha hpc hnum => exact hkeep rfl (h.call ha hpc hnum)
  | page_alloc data ha =>
    obtain ⟨since', hle, ho⟩ := h.page_alloc ha data
    obtain ⟨_, _, _, _, heq⟩ := mdb_page_alloc_eq env _ data
    rw [hsame (by rw [heq])]
    exact ⟨since', hle, ho⟩
  | reuse ha hpc hl => exact hkeep rfl (h.reuse ha hpc hl)
  | edit data free_root main_root ha hpc => exact hkeep rfl (h.edit ha hpc data free_root main_root)
  | free ha hpc hp hfree hloose => exact hkeep rfl (h.free ha hpc hp hfree hloose)
  | loosen ha hpc hd hone hfree hloose => exact hkeep rfl (h.loosen ha hpc hd hone hfree hloose)
  | giveBack ha hpc hhead hd hfree => exact hkeep rfl (h.giveBack ha hpc hd hfree)
  | freeLoose ha hpc hhead => exact hkeep rfl (h.freeLoose ha hpc)
  | freelist_save ha hpc hnone hroom => exact hkeep rfl (h.freelist_save ha hpc hnone hroom)
  | flush ha hpc => exact hkeep rfl (h.flush ha hpc)
  | commit ha hpc hc =>
    refine ⟨since, Nat.le_refl _, ?_⟩
    rw [MDB_env.extend, h.now_write_meta ha, if_neg (Nat.succ_ne_self _)]
    exact h.commit ha hpc hc
  | publish hw => exact hkeep rfl (h.publish hw)
  | abort ha => exact hkeep rfl (h.abort ha)

end ObDump.Lmdb
