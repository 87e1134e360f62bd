import ObDump.Base.Potential
import ObDump.Lmdb.Live

/-!
# Progress

Library `Lmdb`. Readers and the writer do not wait for each other: how many steps of its own a
reader needs to begin, and the writer to get pages, whatever the others do between them.
-/

namespace ObDump.Lmdb

open Base

/-! ### A reader begins -/

/-- In `mdb_txn_renew0`, with a slot. -/
def ReadTxn.Begins : ReadTxn → Prop
  | .finished => False
  | .active _ _ _ => False
  | _ => True

/-- A step of the thread on slot `i` while its transaction begins, or any step that leaves the
slot alone, with the commits it publishes. -/
inductive BeginStep (i : Nat) (env : MDB_env) : Nat → Nat → MDB_env → Prop
  | own (me_maxpg : Nat) : (env.txns i).Begins → BeginStep i env 1 0 (env.renew i me_maxpg)
  | other {env' : MDB_env} : Step env env' → env'.mti_readers i = env.mti_readers i →
      env'.txns i = env.txns i → BeginStep i env 0 (env'.mti_txnid - env.mti_txnid) env'

/-- The steps a beginning transaction needs if nothing is committed meanwhile. -/
def ReadTxn.remaining (mti_txnid : Nat) (r : MDB_reader) : ReadTxn → Nat
  | .load => 5
  | .store t => if t = mti_txnid then 4 else 7
  | .check => if r.mr_txnid = some mti_txnid then 3 else 6
  | .dbs _ => 2
  | .last _ _ => 1
  | _ => 0

section

variable {i : Nat} {env env' : MDB_env}

private theorem setReader_txns (r : MDB_reader × ReadTxn) : (env.setReader i r).txns i = r.2 :=
  Function.update_self _ _ _

private theorem setReader_readers (r : MDB_reader × ReadTxn) :
    (env.setReader i r).mti_readers i = r.1 :=
  Function.update_self _ _ _

/-- An own step uses one up. -/
theorem remaining_renew {me_maxpg : Nat} {r : MDB_reader} {txn : ReadTxn} (h : txn.Begins) :
    1 + (txn.renew env me_maxpg r).2.remaining env.mti_txnid (txn.renew env me_maxpg r).1 ≤
      txn.remaining env.mti_txnid r := by
  cases txn with
  | finished => exact h.elim
  | load =>
    show 1 + (if env.mti_txnid = env.mti_txnid then 4 else 7) ≤ 5
    rw [if_pos rfl]
  | store t =>
    show 1 + (if some t = some env.mti_txnid then 3 else 6) ≤ if t = env.mti_txnid then 4 else 7
    by_cases ht : t = env.mti_txnid
    · rw [if_pos ht, if_pos (congrArg some ht)]
    · rw [if_neg ht, if_neg fun hc ↦ ht (Option.some.inj hc)]
  | check =>
    show 1 + (if r.mr_txnid = some env.mti_txnid then ReadTxn.dbs env.mti_txnid
      else .load).remaining env.mti_txnid r ≤ if r.mr_txnid = some env.mti_txnid then 3 else 6
    by_cases ht : r.mr_txnid = some env.mti_txnid
    · rw [if_pos ht, if_pos ht]
      exact Nat.le_refl _
    · rw [if_neg ht, if_neg ht]
      exact Nat.le_refl _
  | dbs t => exact Nat.le_refl _
  | last t root =>
    simp only [ReadTxn.renew]
    by_cases hfull : me_maxpg < (env.me_metas (t % 2)).mm_last_pg + 1
    · rw [if_pos hfull]
      exact Nat.le_refl _
    · rw [if_neg hfull]
      exact Nat.le_refl _
  | active t root next => exact h.elim

private theorem ite_le_add_three {p q : Prop} [Decidable p] [Decidable q] (n : Nat) :
    (if p then n else n + 3) ≤ (if q then n else n + 3) + 3 := by
  have hhigh : (if p then n else n + 3) ≤ n + 3 := by
    split <;> omega
  have hlow : n ≤ if q then n else n + 3 := by
    split <;> omega
  omega

/-- However many commits there are, they cost at most one more turn of the loop. -/
theorem remaining_publish {n n' : Nat} {r : MDB_reader} {txn : ReadTxn} :
    txn.remaining n' r ≤ txn.remaining n r + 3 := by
  cases txn with
  | store t => exact ite_le_add_three 4
  | check => exact ite_le_add_three 3
  | _ => exact Nat.le_add_right _ _

private theorem remaining_other {n n' : Nat} {r : MDB_reader} {txn : ReadTxn} (hle : n ≤ n') :
    txn.remaining n' r ≤ txn.remaining n r + 3 * (n' - n) := by
  by_cases heq : n' = n
  · rw [heq]
    exact Nat.le_add_right _ _
  · have hturn : txn.remaining n' r ≤ txn.remaining n r + 3 := remaining_publish
    omega

/-- The number of the last commit never gets smaller. -/
theorem mti_txnid_le (hs : Step env env') : env.mti_txnid ≤ env'.mti_txnid := by
  cases hs with
  | page_alloc data ha =>
    obtain ⟨_, _, _, _, heq⟩ := mdb_page_alloc_eq env _ data
    rw [heq]
  | publish hw => exact Nat.le_succ _
  | _ => exact Nat.le_refl _

private theorem remaining_step {a b : Nat} (h : BeginStep i env a b env') :
    a + (env'.txns i).remaining env'.mti_txnid (env'.mti_readers i) ≤
      (env.txns i).remaining env.mti_txnid (env.mti_readers i) + 3 * b := by
  cases h with
  | own me_maxpg hb =>
    show 1 + ((env.setReader i _).txns i).remaining env.mti_txnid
      ((env.setReader i _).mti_readers i) ≤ _
    rw [setReader_txns, setReader_readers]
    exact remaining_renew hb
  | other hs hr ht =>
    rw [hr, ht, Nat.zero_add]
    exact remaining_other (mti_txnid_le hs)

end

private theorem counted_renew {i k c : Nat} {env env' : MDB_env}
    (h : CountedRun (BeginStep i) env k c env') (me_maxpg : Nat) (hb : (env'.txns i).Begins) :
    CountedRun (BeginStep i) env (k + 1) c (env'.renew i me_maxpg) :=
  h.step (.own me_maxpg hb)

/-- A reader that begins has begun, or failed, after five steps of its own, and three more for
each commit published meanwhile. -/
theorem reader_begins {i k c : Nat} {env env' : MDB_env} (h : CountedRun (BeginStep i) env k c env')
    (hload : env.txns i = .load) : k ≤ 5 + 3 * c := by
  have hbound := h.bounded (I := fun _ ↦ True) (g := 3) (fun _ _ _ _ _ _ ↦ trivial)
    (fun _ _ _ _ _ hs ↦ remaining_step hs) trivial
  rw [hload] at hbound
  exact Nat.le_trans (Nat.le_add_right _ _) hbound.2

/-- A reader begins while a commit waits to be published. -/
def sampleLoading : MDB_env :=
  { (sampleEnv.claim 7).renew 0 1024 with me_txn := .written }

/-- It is published after the reader has loaded the number of the last one, and the reader goes
round once more: eight steps, the bound. -/
theorem reader_begins_sample :
    ∃ env, CountedRun (BeginStep 0) sampleLoading 8 1 env ∧ 8 ≤ 5 + 3 * 1 := by
  have hstart : CountedRun (BeginStep 0) sampleLoading 0 0 sampleLoading := .start
  have hload := counted_renew hstart 1024 trivial
  have hpublish := hload.step (BeginStep.other (.publish rfl) rfl rfl)
  have hstored := counted_renew hpublish 1024 trivial
  have hretried := counted_renew (counted_renew hstored 1024 trivial) 1024 trivial
  have hchecked := counted_renew (counted_renew hretried 1024 trivial) 1024 trivial
  have hbegun := counted_renew (counted_renew hchecked 1024 trivial) 1024 trivial
  exact ⟨_, hbegun, reader_begins hbegun rfl⟩

/-! ### The writer gets pages -/

/-- In `mdb_page_alloc`. -/
def WritePc.Allocates : WritePc → Prop
  | .work => False
  | .error => False
  | .flush _ => False
  | _ => True

/-- A step of the writer in `mdb_page_alloc`, or any step that leaves its transaction alone. -/
inductive AllocStep (env : MDB_env) : Nat → Nat → MDB_env → Prop
  | own {txn : WriteTxn} (data : Nat → MDB_page) : env.me_txn = .active txn →
      txn.pc.Allocates → AllocStep env 1 0 (env.mdb_page_alloc txn data)
  | other {env' : MDB_env} : Step env env' → env'.me_txn = env.me_txn →
      env'.me_pglast = env.me_pglast → AllocStep env 0 0 env'

/-- The records not read yet. -/
def WriteTxn.unread (txn : WriteTxn) (me_pglast : Nat) : Nat :=
  (txn.free.filter (me_pglast < ·.1)).length

/-- The readers are looked at once at most. -/
def scanSteps (readers : Nat) (found_old : Bool) : Nat := if found_old then 0 else 2 * readers + 3

/-- The steps needed at most, with so many slots in the reader table. -/
def WritePc.remaining (unread readers : Nat) : WritePc → Nat
  | .search _ _ found_old => 2 * unread + 2 + scanSteps readers found_old
  | .fetch _ _ found_old => 2 * unread + 1 + scanSteps readers found_old
  | .pid _ _ i _ => 2 * i + 2 * unread + 2
  | .txnid _ _ i _ => 2 * i + 2 * unread + 3
  | _ => 0

/-- The same, of the writing transaction there is. -/
def MDB_env.remaining (env : MDB_env) (readers : Nat) : Nat :=
  match env.me_txn with
  | .active txn => txn.pc.remaining (txn.unread env.me_pglast) readers
  | _ => 0

section

variable {env env' : MDB_env} {txn : WriteTxn} {readers : Nat}

/-- A record that is read is not read again. -/
theorem unread_lt {me_pglast : Nat} {r : Nat × List Nat}
    (hr : txn.free.find? (fun r ↦ me_pglast < r.1) = some r) :
    txn.unread r.1 < txn.unread me_pglast := by
  have hp := List.find?_some hr
  have hlt : me_pglast < r.1 := of_decide_eq_true hp
  have hmem : r ∈ txn.free.filter (me_pglast < ·.1) :=
    List.mem_filter.mpr ⟨List.mem_of_find?_eq_some hr, hp⟩
  have hsub : txn.free.filter (r.1 < ·.1) =
      (txn.free.filter (me_pglast < ·.1)).filter (r.1 < ·.1) := by
    rw [List.filter_filter]
    apply List.filter_congr
    intro s _
    by_cases hs : r.1 < s.1
    · rw [decide_eq_true hs, decide_eq_true (Nat.lt_trans hlt hs)]
      rfl
    · rw [decide_eq_false hs]
      rfl
  unfold WriteTxn.unread
  rw [hsub]
  exact List.length_filter_lt_length_iff_exists.mpr ⟨r, hmem, by simp⟩

private theorem remaining_grow (num : Nat) (data : Nat → MDB_page) :
    (env.grow txn num data).remaining readers = 0 := by
  unfold MDB_env.grow
  by_cases hfull : env.me_maxpg txn.proc ≤ txn.mt_next_pgno + num
  · rw [if_pos hfull]
    rfl
  · rw [if_neg hfull]
    rfl

private theorem remaining_tooRecent {num retry : Nat} {found_old : Bool} {data : Nat → MDB_page}
    (hn : env.mti_numreaders ≤ readers) :
    1 + (env.tooRecent txn num retry found_old data).remaining readers ≤
      2 * txn.unread env.me_pglast + 1 + scanSteps readers found_old := by
  unfold MDB_env.tooRecent
  cases found_old with
  | true =>
    rw [if_pos rfl, remaining_grow]
    omega
  | false =>
    rw [if_neg Bool.false_ne_true]
    show 1 + (2 * env.mti_numreaders + 2 * txn.unread env.me_pglast + 2) ≤
      2 * txn.unread env.me_pglast + 1 + (2 * readers + 3)
    omega

private theorem remaining_search {num retry : Nat} {found_old : Bool} (data : Nat → MDB_page)
    (hp : txn.pc = .search num retry found_old) :
    1 + (env.mdb_page_alloc txn data).remaining readers ≤
      2 * txn.unread env.me_pglast + 2 + scanSteps readers found_old := by
  unfold MDB_env.mdb_page_alloc
  simp only [hp]
  cases searchRange num env.pghead with
  | some i =>
    show 1 + 0 ≤ _
    omega
  | none =>
    simp only
    by_cases hlen : num ≤ env.pghead.length
    · rw [if_pos hlen]
      by_cases hr : retry = 0
      · rw [if_pos hr, remaining_grow]
        omega
      · rw [if_neg hr]
        show 1 + (2 * txn.unread env.me_pglast + 1 + scanSteps readers found_old) ≤ _
        omega
    · rw [if_neg hlen]
      show 1 + (2 * txn.unread env.me_pglast + 1 + scanSteps readers found_old) ≤ _
      omega

private theorem remaining_fetch {num retry : Nat} {found_old : Bool} (data : Nat → MDB_page)
    (hp : txn.pc = .fetch num retry found_old) (hn : env.mti_numreaders ≤ readers) :
    1 + (env.mdb_page_alloc txn data).remaining readers ≤
      2 * txn.unread env.me_pglast + 1 + scanSteps readers found_old := by
  unfold MDB_env.mdb_page_alloc
  simp only [hp]
  by_cases hold : env.me_pgoldest txn.proc ≤ env.me_pglast + 1
  · rw [if_pos hold]
    exact remaining_tooRecent hn
  · rw [if_neg hold]
    cases hr : txn.free.find? fun r ↦ env.me_pglast < r.1 with
    | none =>
      rw [remaining_grow]
      omega
    | some r =>
      simp only
      by_cases hnew : env.me_pgoldest txn.proc ≤ r.1
      · rw [if_pos hnew]
        exact remaining_tooRecent hn
      · rw [if_neg hnew]
        have hlt := unread_lt hr
        show 1 + (2 * txn.unread r.1 + 2 + scanSteps readers found_old) ≤ _
        omega

/-- The scan looks at each slot twice, and then goes back for the next record. -/
theorem remaining_pid {num retry i oldest : Nat} (data : Nat → MDB_page)
    (hp : txn.pc = .pid num retry i oldest) :
    1 + (env.mdb_page_alloc txn data).remaining readers ≤
      2 * i + 2 * txn.unread env.me_pglast + 2 := by
  unfold MDB_env.mdb_page_alloc
  simp only [hp]
  cases i with
  | zero =>
    show 1 + (2 * txn.unread env.me_pglast + 1 + 0) ≤ _
    omega
  | succ i =>
    simp only
    by_cases hused : (env.mti_readers i).mr_pid ≠ 0
    · rw [if_pos hused]
      show 1 + (2 * i + 2 * txn.unread env.me_pglast + 3) ≤ _
      omega
    · rw [if_neg hused]
      show 1 + (2 * i + 2 * txn.unread env.me_pglast + 2) ≤ _
      omega

/-- A step of the writer uses one up. -/
theorem remaining_page_alloc (hpc : txn.pc.Allocates) (hn : env.mti_numreaders ≤ readers)
    (data : Nat → MDB_page) :
    1 + (env.mdb_page_alloc txn data).remaining readers ≤
      txn.pc.remaining (txn.unread env.me_pglast) readers := by
  cases hp : txn.pc with
  | search num retry found_old => exact remaining_search data hp
  | fetch num retry found_old => exact remaining_fetch data hp hn
  | pid num retry i oldest => exact remaining_pid data hp
  | txnid num retry i oldest =>
    unfold MDB_env.mdb_page_alloc
    simp only [hp]
    show 1 + (2 * i + 2 * txn.unread env.me_pglast + 2) ≤
      2 * i + 2 * txn.unread env.me_pglast + 3
    omega
  | work =>
    rw [hp] at hpc
    exact hpc.elim
  | error =>
    rw [hp] at hpc
    exact hpc.elim
  | flush rest =>
    rw [hp] at hpc
    exact hpc.elim

/-- The reader table stays within the bound. -/
def TableFits (readers : Nat) (env : MDB_env) : Prop :=
  env.mti_numreaders ≤ readers ∧ env.me_maxreaders ≤ readers

private theorem TableFits.step (h : TableFits readers env) (hs : Step env env') :
    TableFits readers env' := by
  cases hs with
  | claim hpid hslot =>
    refine ⟨?_, h.2⟩
    show max env.mti_numreaders (env.freeSlot + 1) ≤ readers
    exact Nat.max_le.mpr ⟨h.1, Nat.le_trans hslot h.2⟩
  | page_alloc data ha =>
    obtain ⟨_, _, _, _, heq⟩ := mdb_page_alloc_eq env _ data
    rw [heq]
    exact h
  | _ => exact h

private theorem TableFits.alloc_step {a b : Nat} (h : TableFits readers env)
    (hs : AllocStep env a b env') : TableFits readers env' := by
  cases hs with
  | own data ha hpc => exact h.step (.page_alloc data ha)
  | other hs htxn hlast => exact h.step hs

private theorem remaining_alloc_step {a b : Nat} (h : TableFits readers env)
    (hs : AllocStep env a b env') : a + env'.remaining readers ≤ env.remaining readers + 0 * b := by
  rw [Nat.zero_mul, Nat.add_zero]
  cases hs with
  | @own txn data ha hpc =>
    have hthis : env.remaining readers =
        txn.pc.remaining (txn.unread env.me_pglast) readers := by
      rw [MDB_env.remaining, ha]
    rw [hthis]
    exact remaining_page_alloc hpc h.1 data
  | other hs htxn hlast =>
    rw [Nat.zero_add, MDB_env.remaining, MDB_env.remaining, htxn, hlast]

end

/-- `mdb_page_alloc` returns after so many steps of its own, whatever readers do between them: two
for each record not read yet, two for each slot there can be, and five. -/
theorem mdb_page_alloc_ends {k c num retry : Nat} {env env' : MDB_env} {txn : WriteTxn}
    (h : CountedRun AllocStep env k c env') (ha : env.me_txn = .active txn)
    (hpc : txn.pc = .search num retry false) :
    k ≤ 2 * txn.unread env.me_pglast + 2 * max env.mti_numreaders env.me_maxreaders + 5 := by
  have hfits : TableFits (max env.mti_numreaders env.me_maxreaders) env :=
    ⟨Nat.le_max_left _ _, Nat.le_max_right _ _⟩
  have hbound := (h.bounded (fun _ _ _ _ hi hs ↦ hi.alloc_step hs)
    (fun _ _ _ _ hi hs ↦ remaining_alloc_step hi hs) hfits).2
  have hstart : env.remaining (max env.mti_numreaders env.me_maxreaders) =
      2 * txn.unread env.me_pglast + 2 +
        (2 * max env.mti_numreaders env.me_maxreaders + 3) := by
    rw [MDB_env.remaining, ha]
    show txn.pc.remaining _ _ = _
    rw [hpc]
    rfl
  omega

/-- The writer of the sample looks for a page. -/
def sampleSearch : MDB_env := sampleBegun.setTxn { sampleBegun.txn with pc := .search 1 60 false }

/-- A thread gives its transaction up between two steps. -/
theorem mdb_page_alloc_ends_sample :
    ∃ env, CountedRun AllocStep sampleSearch 2 0 env ∧
      2 ≤ 2 * sampleSearch.txn.unread sampleSearch.me_pglast +
        2 * max sampleSearch.mti_numreaders sampleSearch.me_maxreaders + 5 := by
  have hstart : CountedRun AllocStep sampleSearch 0 0 sampleSearch := .start
  have hsearch := hstart.step (.own (fun _ ↦ sampleEnv.me_map 0) rfl trivial)
  have hleave := hsearch.step (.other (.leave 0) rfl rfl)
  have hfetch := hleave.step (.own (fun _ ↦ sampleEnv.me_map 0) rfl trivial)
  exact ⟨_, hfetch, mdb_page_alloc_ends hfetch rfl rfl⟩

end ObDump.Lmdb
