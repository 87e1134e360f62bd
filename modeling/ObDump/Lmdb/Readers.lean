import ObDump.Base.Versions
import ObDump.Lmdb.FreeList

/-!
# What readers rely on

Library `Lmdb`. The versions of an environment in the sense of `Base.Versions`, and what holds
of it between steps: what a reader has published protects the version it reads, from before it
looks up the root of that version. Here the steps of readers keep this.
-/

namespace ObDump.Lmdb

open Base

/-! ### Versions -/

/-- The pages of the record of a transaction. -/
def MDB_meta.Freed (page : MDB_meta) (k : Nat) : Set Nat := {p | ∃ r ∈ page.free, r.1 = k ∧ p ∈ r.2}

/-- The transaction under way, or else the one that would begin. -/
def MDB_env.txn (env : MDB_env) : WriteTxn :=
  match env.me_txn with
  | .active txn => txn
  | _ => .renew 0 env.now env.last

/-- The environment as versions over shared pages: `vs` are those committed, and the ones from
`since` on may still be read. -/
def MDB_env.versions (env : MDB_env) (since : Nat) (vs : Nat → Version) :
    Versions Nat MDB_page where
  cells := env.me_map
  now := env.now
  since := since
  live n := {p | (vs n).page.Pages env.me_psize (vs n).map p}
  kept n := (vs n).map
  retired := env.last.Freed
  unused := {p | env.last.mm_last_pg < p}
  queue k := {p | env.me_pglast < k ∧ p ∈ env.last.Freed k}
  pool := {p | p ∈ env.pghead}
  fresh := {p | env.txn.mt_next_pgno ≤ p}
  held := {p | env.txn.IsDirty p}
  dropped := {p | p ∈ env.txn.mt_free_pgs}

/-! ### The invariant -/

/-- The id a read transaction has begun with. -/
def ReadTxn.mt_txnid : ReadTxn → Option Nat
  | .dbs t => some t
  | .last t _ => some t
  | .active t _ _ => some t
  | _ => none

/-- The slots `mdb_find_oldest` has looked at, and the oldest id it found there. -/
def WritePc.scanned : WritePc → Option (Nat × Nat)
  | .pid _ _ i oldest => some (i, oldest)
  | .txnid _ _ i oldest => some (i + 1, oldest)
  | _ => none

/-- The number of pages asked for. -/
def WritePc.num : WritePc → Option Nat
  | .search num _ _ => some num
  | .fetch num _ _ => some num
  | .pid num _ _ _ => some num
  | .txnid num _ _ _ => some num
  | _ => none

/-- A reader on slot `i`: nothing older than the id it has begun with gets reclaimed, and what
it has read of the meta page is that of a version not older. -/
structure MDB_env.Reads (env : MDB_env) (since : Nat) (vs : Nat → Version) (i : Nat)
    (r : MDB_reader) (txn : ReadTxn) : Prop where
  pid : r.mr_pid ≠ 0 → i < env.mti_numreaders
  slot : txn ≠ .finished → r.mr_pid ≠ 0
  id : ∀ t, txn.mt_txnid = some t → r.mr_txnid = some t
  since_le : ∀ t, txn.mt_txnid = some t → since ≤ t
  oldest_le : ∀ proc t, txn.mt_txnid = some t → env.me_pgoldest proc ≤ t
  scan : ∀ t j oldest, txn.mt_txnid = some t → env.txn.pc.scanned = some (j, oldest) → j ≤ i →
    oldest ≤ t
  le : ∀ t, txn.mt_txnid = some t → t ≤ env.mti_txnid
  root : ∀ t root, txn = .last t root → ∃ n, t ≤ n ∧ n ≤ env.now ∧ n % 2 = t % 2 ∧
    (vs n).page.main_root = root
  active : ∀ t root next, txn = .active t root next → ∃ n, t ≤ n ∧ n ≤ env.now ∧
    (vs n).page.main_root = root ∧ (vs n).page.mm_last_pg < next

/-- A transaction whose free list is saved: what it still has to flush, and its records. -/
structure Flushing (map : Nat → MDB_page) (mop : List Nat) (pglast : Nat) (page : MDB_meta)
    (txn : WriteTxn) (rest : List Dirty) : Prop where
  sub : rest ⊆ txn.dirty_list
  written : ∀ d ∈ txn.dirty_list, d ∈ rest ∨ ∀ p, d.Covers p → map p = d.data (p - d.mid)
  saved : ∃ rs, txn.free = rs ++ page.free.filter (pglast < ·.1) ++ txn.freeRecord ∧
    rs.Pairwise (·.1 < ·.1) ∧ (∀ r ∈ rs, 1 ≤ r.1 ∧ r.1 ≤ pglast ∧ r.2.Sublist mop) ∧
      ∀ r ∈ rs, ∀ r' ∈ rs, ∀ p, p ∈ r.2 → p ∈ r'.2 → r.1 = r'.1

/-- What holds of the versions and of their readers. -/
structure MDB_env.Protects (env : MDB_env) (since : Nat) (vs : Nat → Version) : Prop where
  inv : (env.versions since vs).Inv
  readers : ∀ i, env.Reads since vs i (env.mti_readers i) (env.txns i)
  metas : ∀ n, since ≤ n → n ≤ env.now → env.now ≤ n + 1 → env.me_metas (n % 2) = (vs n).page
  last_pg : ∀ m n, since ≤ m → m ≤ n → n ≤ env.now →
    (vs m).page.mm_last_pg ≤ (vs n).page.mm_last_pg
  since_le : since ≤ env.mti_txnid
  oldest_le : ∀ proc, env.me_pgoldest proc ≤ env.mti_txnid
  published : env.me_txn ≠ .written → env.now = env.mti_txnid
  unpublished : env.me_txn = .written → env.now = env.mti_txnid + 1
  keys : ∀ r ∈ env.last.free, 1 ≤ r.1 ∧ r.1 ≤ env.now
  sorted : env.last.free.Pairwise (·.1 < ·.1)
  ascending : ∀ r ∈ env.last.free, r.2.Pairwise (· < ·)

/-- What holds between steps. -/
structure MDB_env.Ok (env : MDB_env) (since : Nat) (vs : Nat → Version) : Prop
    extends env.Protects since vs where
  scan_le : ∀ j oldest, env.txn.pc.scanned = some (j, oldest) → oldest ≤ env.mti_txnid
  resting : (∀ txn, env.me_txn ≠ .active txn) → env.me_pghead = none ∧ env.me_pglast = 0
  pglast_le : env.me_pglast ≤ env.now
  pghead : env.pghead.Pairwise (· < ·)
  txnid : env.txn.mt_txnid = env.now + 1
  next : env.last.mm_last_pg < env.txn.mt_next_pgno
  num : ∀ num, env.txn.pc.num = some num → 0 < num
  dirty_pos : ∀ d ∈ env.txn.dirty_list, 0 < d.num
  dirty_apart : env.txn.dirty_list.Pairwise fun d e ↦ ∀ p, d.Covers p → ¬ e.Covers p
  loose_dirty : ∀ p ∈ env.txn.mt_loose_pgs, ∃ d ∈ env.txn.dirty_list, d.mid = p ∧ d.num = 1
  loose_free : ∀ p ∈ env.txn.mt_loose_pgs, p ∉ env.txn.mt_free_pgs
  loose_nodup : env.txn.mt_loose_pgs.Nodup
  free_nodup : env.txn.mt_free_pgs.Nodup
  records : (∀ rest, env.txn.pc ≠ .flush rest) → env.txn.free = env.last.free
  flushing : ∀ rest, env.txn.pc = .flush rest →
    Flushing env.me_map env.pghead env.me_pglast env.last env.txn rest

namespace MDB_env.Ok

variable {env : MDB_env} {since : Nat} {vs : Nat → Version}

/-- The lock file is not ahead of the meta pages. -/
theorem mti_le_now (h : env.Ok since vs) : env.mti_txnid ≤ env.now := by
  by_cases hw : env.me_txn = .written
  · have := h.unpublished hw
    omega
  · exact Nat.le_of_eq (h.published hw).symm

/-! ### Steps of readers -/

private theorem setReader (h : env.Ok since vs) {i : Nat} {r : MDB_reader × ReadTxn}
    (hr : env.Reads since vs i r.1 r.2) : (env.setReader i r).Ok since vs :=
  { h with
    readers := by
      intro j
      show MDB_env.Reads _ since vs j (Function.update env.mti_readers i r.1 j)
        (Function.update env.txns i r.2 j)
      by_cases hj : j = i
      · subst hj
        rw [Function.update_self, Function.update_self]
        exact { hr with }
      · rw [Function.update_of_ne hj, Function.update_of_ne hj]
        exact { h.readers j with } }

/-- A transaction that has not begun needs its slot only. -/
theorem reads_of_none {i : Nat} {r : MDB_reader} {txn : ReadTxn} (ht : txn.mt_txnid = none)
    (hpid : r.mr_pid ≠ 0 → i < env.mti_numreaders) (hslot : txn ≠ .finished → r.mr_pid ≠ 0) :
    env.Reads since vs i r txn := by
  have hno : ∀ {t : Nat}, txn.mt_txnid ≠ some t := by
    intro t hs
    rw [ht] at hs
    cases hs
  exact
    { pid := hpid
      slot := hslot
      id := fun t hs ↦ absurd hs hno
      since_le := fun t hs ↦ absurd hs hno
      oldest_le := fun proc t hs ↦ absurd hs hno
      scan := fun t j oldest hs ↦ absurd hs hno
      le := fun t hs ↦ absurd hs hno
      root := fun t root hs ↦ absurd (congrArg ReadTxn.mt_txnid hs) hno
      active := fun t root next hs ↦ absurd (congrArg ReadTxn.mt_txnid hs) hno }

/-- A transaction that has begun goes on. -/
theorem reads_of_eq {i : Nat} {r : MDB_reader} {txn txn' : ReadTxn}
    (hr : env.Reads since vs i r txn) (ht : txn'.mt_txnid = txn.mt_txnid) (hne : txn ≠ .finished)
    (hroot : ∀ t root, txn' = .last t root → ∃ n, t ≤ n ∧ n ≤ env.now ∧ n % 2 = t % 2 ∧
      (vs n).page.main_root = root)
    (hactive : ∀ t root next, txn' = .active t root next → ∃ n, t ≤ n ∧ n ≤ env.now ∧
      (vs n).page.main_root = root ∧ (vs n).page.mm_last_pg < next) :
    env.Reads since vs i r txn' where
  pid := hr.pid
  slot := fun _ ↦ hr.slot hne
  id := fun t hs ↦ hr.id t (ht ▸ hs)
  since_le := fun t hs ↦ hr.since_le t (ht ▸ hs)
  oldest_le := fun proc t hs ↦ hr.oldest_le proc t (ht ▸ hs)
  scan := fun t j oldest hs ↦ hr.scan t j oldest (ht ▸ hs)
  le := fun t hs ↦ hr.le t (ht ▸ hs)
  root := hroot
  active := hactive

/-- The meta page an id refers to is that of the last version of its parity. -/
theorem meta_of_id (h : env.Ok since vs) {t : Nat} (hs : since ≤ t) (ht : t ≤ env.mti_txnid) :
    ∃ n, t ≤ n ∧ n ≤ env.now ∧ env.now ≤ n + 1 ∧ n % 2 = t % 2 ∧
      env.me_metas (t % 2) = (vs n).page := by
  have hle : t ≤ env.now := Nat.le_trans ht h.mti_le_now
  by_cases hpar : env.now % 2 = t % 2
  · refine ⟨env.now, hle, Nat.le_refl _, Nat.le_succ _, hpar, ?_⟩
    rw [← hpar]
    exact h.metas env.now (Nat.le_trans hs hle) (Nat.le_refl _) (Nat.le_succ _)
  · have hodd : (env.now - 1) % 2 = t % 2 := by omega
    refine ⟨env.now - 1, by omega, Nat.sub_le _ _, by omega, hodd, ?_⟩
    rw [← hodd]
    exact h.metas (env.now - 1) (by omega) (Nat.sub_le _ _) (by omega)

/-- What a slot publishes is checked once more before it counts. -/
theorem reads_check (h : env.Ok since vs) {i : Nat} {r : MDB_reader}
    (hr : env.Reads since vs i r .check) (heq : r.mr_txnid = some env.mti_txnid) :
    env.Reads since vs i r (.dbs env.mti_txnid) := by
  have hid : ∀ {t}, (ReadTxn.dbs env.mti_txnid).mt_txnid = some t → t = env.mti_txnid :=
    fun hs ↦ (Option.some.inj hs).symm
  exact
    { pid := hr.pid
      slot := fun _ ↦ hr.slot ReadTxn.noConfusion
      id := fun t hs ↦ (hid hs).symm ▸ heq
      since_le := fun t hs ↦ (hid hs).symm ▸ h.since_le
      oldest_le := fun proc t hs ↦ (hid hs).symm ▸ h.oldest_le proc
      scan := fun t j oldest hs hscan _ ↦ (hid hs).symm ▸ h.scan_le j oldest hscan
      le := fun t hs ↦ Nat.le_of_eq (hid hs)
      root := fun t root hs ↦ ReadTxn.noConfusion hs
      active := fun t root next hs ↦ ReadTxn.noConfusion hs }

private theorem reads_dbs (h : env.Ok since vs) {i t : Nat} {r : MDB_reader}
    (hr : env.Reads since vs i r (.dbs t)) :
    env.Reads since vs i r (.last t (env.me_metas (t % 2)).main_root) := by
  obtain ⟨n, htn, hn, -, hpar, hpage⟩ := h.meta_of_id (hr.since_le t rfl) (hr.le t rfl)
  refine reads_of_eq hr rfl ReadTxn.noConfusion ?_ fun t root next hs ↦ ReadTxn.noConfusion hs
  rintro t root ⟨⟩
  exact ⟨n, htn, hn, hpar, by rw [hpage]⟩

/-- The root may be older than the last page read after it, and no younger. -/
theorem reads_last (h : env.Ok since vs) {i t root : Nat} {r : MDB_reader}
    (hr : env.Reads since vs i r (.last t root)) :
    env.Reads since vs i r (.active t root ((env.me_metas (t % 2)).mm_last_pg + 1)) := by
  have hst := hr.since_le t rfl
  obtain ⟨n, htn, hn, hnpar, hroot⟩ := hr.root t root rfl
  obtain ⟨m, htm, hm, hlast, hmpar, hpage⟩ := h.meta_of_id hst (hr.le t rfl)
  refine reads_of_eq hr rfl ReadTxn.noConfusion (fun t root hs ↦ ReadTxn.noConfusion hs) ?_
  rintro t root next ⟨⟩
  have hnm : n ≤ m := by omega
  have hle := h.last_pg n m (Nat.le_trans hst htn) hnm hm
  refine ⟨n, htn, hn, hroot, ?_⟩
  rw [hpage]
  omega

/-- A read transaction makes its next access. -/
theorem renew (h : env.Ok since vs) (i me_maxpg : Nat) : (env.renew i me_maxpg).Ok since vs := by
  apply h.setReader
  have hr := h.readers i
  cases htxn : env.txns i with
  | finished =>
    rw [htxn] at hr
    by_cases hslot : (env.mti_readers i).mr_pid ≠ 0 ∧ (env.mti_readers i).mr_txnid = none
    · simp only [ReadTxn.renew, if_pos hslot]
      exact reads_of_none rfl hr.pid fun _ ↦ hslot.1
    · simp only [ReadTxn.renew, if_neg hslot]
      exact hr
  | load =>
    rw [htxn] at hr
    exact reads_of_none rfl hr.pid fun _ ↦ hr.slot ReadTxn.noConfusion
  | store t =>
    rw [htxn] at hr
    exact reads_of_none rfl hr.pid fun _ ↦ hr.slot ReadTxn.noConfusion
  | check =>
    rw [htxn] at hr
    by_cases heq : (env.mti_readers i).mr_txnid = some env.mti_txnid
    · simp only [ReadTxn.renew, if_pos heq]
      exact h.reads_check hr heq
    · simp only [ReadTxn.renew, if_neg heq]
      exact reads_of_none rfl hr.pid fun _ ↦ hr.slot ReadTxn.noConfusion
  | dbs t =>
    rw [htxn] at hr
    exact h.reads_dbs hr
  | last t root =>
    rw [htxn] at hr
    simp only [ReadTxn.renew]
    by_cases hsize : me_maxpg < (env.me_metas (t % 2)).mm_last_pg + 1
    · rw [if_pos hsize]
      exact reads_of_none rfl hr.pid fun hne ↦ absurd rfl hne
    · rw [if_neg hsize]
      exact h.reads_last hr
  | active t root next =>
    rw [htxn] at hr
    exact hr

/-- A read transaction ends. -/
theorem endRead (h : env.Ok since vs) (i : Nat) : (env.endRead i).Ok since vs :=
  h.setReader (reads_of_none rfl (h.readers i).pid fun hne ↦ absurd rfl hne)

/-- A reader is gone. -/
theorem leave (h : env.Ok since vs) (i : Nat) : (env.leave i).Ok since vs :=
  h.setReader (reads_of_none rfl (fun hne ↦ absurd rfl hne) fun hne ↦ absurd rfl hne)

/-- The table may grow. -/
theorem setNumreaders (h : env.Ok since vs) {nr : Nat} (hle : env.mti_numreaders ≤ nr) :
    MDB_env.Ok { env with mti_numreaders := nr } since vs :=
  { h with
    readers := fun i ↦
      { h.readers i with pid := fun hpid ↦ Nat.lt_of_lt_of_le ((h.readers i).pid hpid) hle } }

/-- A slot is claimed. -/
theorem claim (h : env.Ok since vs) (pid : Nat) : (env.claim pid).Ok since vs := by
  have hnr := h.setNumreaders (Nat.le_max_left env.mti_numreaders (env.freeSlot + 1))
  apply setReader (i := env.freeSlot) (r := ({ mr_pid := pid, mr_txnid := none }, .finished)) hnr
  apply reads_of_none rfl
  · exact fun _ ↦ Nat.lt_of_lt_of_le (Nat.lt_succ_self _) (Nat.le_max_right _ _)
  · exact fun hne ↦ absurd rfl hne

end MDB_env.Ok

end ObDump.Lmdb
