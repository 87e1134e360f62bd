import ObDump.Lmdb.Commits
import ObDump.Lmdb.Served

/-!
# Reading a live database

Library `Lmdb`. In every run of an environment a read transaction sees one version from its
first call to its last: the one that was last when it began, or one committed while it did.
What the file holds between any two steps is the last version.
-/

namespace ObDump.Lmdb

open Base

/-! ### Where runs start -/

section

variable {env : MDB_env}

/-- An environment nobody uses yet protects its one version. -/
theorem MDB_env.Opened.ok (h : env.Opened) : env.Ok env.mti_txnid fun _ ↦ env.version := by
  have hnow := h.now
  have hidle : ∀ txn, env.me_txn ≠ .active txn := by
    intro txn hc
    rw [h.idle] at hc
    exact Writer.noConfusion hc
  have htxn : env.txn = .renew 0 env.now env.last := by rw [MDB_env.txn, h.idle]
  have hpghead : env.pghead = [] := by rw [MDB_env.pghead, h.pghead]; rfl
  have hhead : ∀ p, p ∉ env.pghead := by
    rw [hpghead]
    exact fun p ↦ List.not_mem_nil
  have hheld : ∀ p, ¬ env.txn.IsDirty p := by
    rw [htxn]
    rintro p ⟨d, hd, -⟩
    exact List.not_mem_nil hd
  have hdropped : ∀ p, p ∉ env.txn.mt_free_pgs := by
    rw [htxn]
    exact fun p ↦ List.not_mem_nil
  refine .rest hidle h.pghead h.pglast
    { inv := ?_
      readers := ?_
      metas := ?_
      last_pg := fun m n _ _ _ ↦ Nat.le_refl _
      since_le := Nat.le_refl _
      oldest_le := h.pgoldest
      published := fun _ ↦ hnow
      unpublished := fun hw ↦ ?_
      keys := h.sound.keys
      sorted := h.sound.sorted
      ascending := h.sound.ascending }
  · exact
      { since_le := Nat.le_of_eq hnow.symm
        intact := fun n _ _ p _ ↦ rfl
        retired_le := by
          rintro k p ⟨r, hr, rfl, -⟩
          exact (h.sound.keys r hr).2
        retired_live := by
          rintro k p ⟨r, hr, rfl, hp⟩ n _ _ hl
          exact absurd hl (h.sound.apart r hr p hp)
        retired_once := by
          rintro j k p ⟨r, hr, rfl, hp⟩ ⟨r', hr', rfl, hp'⟩
          exact h.sound.once r hr r' hr' p hp hp'
        retired_used := by
          rintro k p ⟨r, hr, rfl, hp⟩
          exact Nat.not_lt.mpr (h.sound.free_le r hr p hp)
        live_used := fun n _ _ p hp ↦ Nat.not_lt.mpr (h.sound.pages_le p hp)
        queue_sub := fun k p hp ↦ hp.2
        fresh_sub := by
          intro p hp
          have hle : env.txn.mt_next_pgno ≤ p := hp
          rw [htxn] at hle
          exact hle
        pool_apart := fun p hp ↦ absurd hp (hhead p)
        pool_live := fun p hp ↦ absurd hp (hhead p)
        held_live := fun p hp ↦ absurd hp (hheld p)
        held_apart := fun p hp ↦ absurd hp (hheld p)
        dropped_apart := fun p hp ↦ absurd hp (hdropped p) }
  · intro i
    obtain ⟨hpid, hfin⟩ := h.readers i
    rw [hfin]
    exact Ok.reads_of_none rfl (fun hne ↦ absurd hpid hne) fun hne ↦ absurd rfl hne
  · intro n hs hn _
    obtain rfl : n = env.now := by omega
    rfl
  · rw [h.idle] at hw
    exact Writer.noConfusion hw

end

/-! ### Whole runs -/

section

variable {env env' : MDB_env} {since : Nat} {vs : Nat → Version}

private theorem Step.frame (h : env.Ok since vs) (hs : Step env env') :
    env'.me_psize = env.me_psize ∧ env.mti_txnid ≤ env'.mti_txnid ∧
      (env'.now = env.now ∨ env'.now = env.now + 1) := by
  cases hs with
  | page_alloc data ha =>
    obtain ⟨_, _, _, _, heq⟩ := mdb_page_alloc_eq env _ data
    rw [heq]
    exact ⟨rfl, Nat.le_refl _, .inl rfl⟩
  | commit ha hpc hc => exact ⟨rfl, Nat.le_refl _, .inr (h.now_write_meta ha)⟩
  | publish hw => exact ⟨rfl, Nat.le_succ _, .inl rfl⟩
  | _ => exact ⟨rfl, Nat.le_refl _, .inl rfl⟩

/-- A later state: what it has in common with an earlier one, and that it protects its own
versions. -/
structure Later (env : MDB_env) (since : Nat) (vs : Nat → Version) (env' : MDB_env)
    (since' : Nat) (vs' : Nat → Version) : Prop where
  ok : env'.Ok since' vs'
  psize : env'.me_psize = env.me_psize
  now_le : env.now ≤ env'.now
  mti_le : env.mti_txnid ≤ env'.mti_txnid
  since_le : since ≤ since'
  same : ∀ n, n ≤ env.now → vs' n = vs n

private theorem Later.refl (h : env.Ok since vs) : Later env since vs env since vs :=
  ⟨h, rfl, Nat.le_refl _, Nat.le_refl _, Nat.le_refl _, fun _ _ ↦ rfl⟩

private theorem extend_of_le {n : Nat} (hn : n ≤ env.now) (hle : env.now ≤ env'.now) :
    env.extend env' vs n = vs n := by
  unfold MDB_env.extend
  by_cases hnow : env'.now = env.now
  · rw [if_pos hnow]
  · rw [if_neg hnow]
    exact Function.update_of_ne (by omega) _ _

private theorem Later.step {env'' : MDB_env} {since' : Nat} {vs' : Nat → Version}
    (h : Later env since vs env' since' vs') (hs : Step env' env'') :
    ∃ since'', Later env since vs env'' since'' (env'.extend env'' vs') := by
  obtain ⟨hpsize, hmti, hnow⟩ := hs.frame h.ok
  obtain ⟨since'', hle, ho⟩ := h.ok.step hs
  have hle' : env'.now ≤ env''.now := by omega
  refine
    ⟨since'', ho, hpsize.trans h.psize, Nat.le_trans h.now_le hle', Nat.le_trans h.mti_le hmti,
      Nat.le_trans h.since_le hle, fun n hn ↦ ?_⟩
  rw [extend_of_le (Nat.le_trans hn h.now_le) hle']
  exact h.same n hn

private theorem MDB_env.Ok.steps (h : env.Ok since vs) (hs : Steps env env') :
    ∃ since' vs', Later env since vs env' since' vs' := by
  induction hs with
  | refl => exact ⟨since, vs, .refl h⟩
  | tail _ hs ih =>
    obtain ⟨since', vs', hl⟩ := ih
    obtain ⟨since'', hl'⟩ := hl.step hs
    exact ⟨since'', _, hl'⟩

/-- The last version may be taken to be the file as it is now. -/
theorem MDB_env.Ok.rebase (h : env.Ok since vs) :
    env.Ok since (Function.update vs env.now env.version) := by
  have hpage : ∀ n, (Function.update vs env.now env.version n).page = (vs n).page := by
    intro n
    by_cases hn : n = env.now
    · subst hn
      rw [Function.update_self]
      exact h.metas _ h.inv.since_le (Nat.le_refl _) (Nat.le_succ _)
    · rw [Function.update_of_ne hn]
  have hlive : ∀ n p, (Function.update vs env.now env.version n).page.Pages env.me_psize
      (Function.update vs env.now env.version n).map p ↔
        (vs n).page.Pages env.me_psize (vs n).map p := by
    intro n p
    by_cases hn : n = env.now
    · subst hn
      rw [Function.update_self]
      exact h.live_now
    · rw [Function.update_of_ne hn]
  refine
    { h with
      inv := ?_
      readers := fun i ↦ { h.readers i with root := ?_, active := ?_ }
      metas := fun n hs hn hge ↦ (h.metas n hs hn hge).trans (hpage n).symm
      last_pg := ?_ }
  · have hkeep := h.inv.keep (fun n ↦ (Function.update vs env.now env.version n).map) ?_
    · refine hkeep.of_eq (Versions.ext rfl rfl rfl ?_ rfl rfl rfl rfl rfl rfl rfl rfl)
      exact funext fun n ↦ Set.ext (hlive n)
    · intro n hs hn p hp
      by_cases heq : n = env.now
      · subst heq
        rw [Function.update_self]
        rfl
      · rw [Function.update_of_ne heq]
        exact h.inv.intact n hs hn p hp
  · simp only [hpage]
    exact (h.readers i).root
  · simp only [hpage]
    exact (h.readers i).active
  · intro m n
    rw [hpage, hpage]
    exact h.last_pg m n

/-- The versions of a run are those its last state protects, from its start on. -/
theorem History.later {versions : List Version} (h : env.Ok since vs)
    (hv : vs env.now = env.version) (hh : History env versions env') :
    ∃ since' vs', Later env since vs env' since' vs' ∧
      versions.length = env'.now - env.now + 1 ∧
        ∀ n, env.now ≤ n → n ≤ env'.now → versions[n - env.now]? = some (vs' n) := by
  induction hh with
  | start =>
    refine ⟨since, vs, .refl h, by simp, fun n hle hge ↦ ?_⟩
    obtain rfl := Nat.le_antisymm hle hge
    rw [Nat.sub_self, hv]
    rfl
  | @step versions env' env'' _ hs ih =>
    obtain ⟨since', vs', hl, hlen, hget⟩ := ih
    obtain ⟨since'', hl'⟩ := hl.step hs
    obtain ⟨-, -, hnow⟩ := hs.frame hl.ok
    have hle := hl.now_le
    refine ⟨since'', _, hl', ?_⟩
    unfold MDB_env.record MDB_env.extend
    by_cases heq : env''.now = env'.now
    · rw [if_pos heq, if_pos heq, heq]
      exact ⟨hlen, hget⟩
    · rw [if_neg heq, if_neg heq]
      refine ⟨by rw [List.length_append, List.length_singleton]; omega, fun n hn hn' ↦ ?_⟩
      by_cases hlast : n = env''.now
      · have hplace : n - env.now = versions.length := by omega
        rw [hplace, List.getElem?_concat_length, hlast, Function.update_self]
      · rw [Function.update_of_ne hlast, List.getElem?_append_left (by omega)]
        exact hget n hn (by omega)

/-- A read transaction begins with the id in the lock file, and keeps it. -/
theorem mt_txnid_renew {me_maxpg t : Nat} {r : MDB_reader} {txn : ReadTxn}
    (ht : (txn.renew env me_maxpg r).2.mt_txnid = some t) :
    t = env.mti_txnid ∨ txn.mt_txnid = some t := by
  have hno : ∀ {txn : ReadTxn} {P : Prop}, txn.mt_txnid = none → txn.mt_txnid = some t → P :=
    fun hn hs ↦ absurd (hn.symm.trans hs) (Option.some_ne_none _).symm
  cases txn with
  | finished =>
    simp only [ReadTxn.renew] at ht
    by_cases hslot : r.mr_pid ≠ 0 ∧ r.mr_txnid = none
    · rw [if_pos hslot] at ht
      exact hno rfl ht
    · rw [if_neg hslot] at ht
      exact hno rfl ht
  | load => exact hno rfl ht
  | store t' => exact hno rfl ht
  | check =>
    simp only [ReadTxn.renew] at ht
    by_cases heq : r.mr_txnid = some env.mti_txnid
    · rw [if_pos heq] at ht
      exact .inl (Option.some.inj ht).symm
    · rw [if_neg heq] at ht
      exact hno rfl ht
  | dbs t' => exact .inr ht
  | last t' root =>
    simp only [ReadTxn.renew] at ht
    by_cases hsize : me_maxpg < (env.me_metas (t' % 2)).mm_last_pg + 1
    · rw [if_pos hsize] at ht
      exact hno rfl ht
    · rw [if_neg hsize] at ht
      exact .inr ht
  | active t' root next => exact .inr ht

/-- No read transaction begins with an id older than what the lock file has. -/
theorem Step.fresh {i b : Nat} (hs : Step env env') (hb : b ≤ env.mti_txnid)
    (hf : ∀ t, (env.txns i).mt_txnid = some t → b ≤ t) :
    ∀ t, (env'.txns i).mt_txnid = some t → b ≤ t := by
  have hset : ∀ {j : Nat} {r : MDB_reader × ReadTxn}, (∀ t, r.2.mt_txnid = some t →
      t = env.mti_txnid ∨ (env.txns j).mt_txnid = some t) →
      ∀ t, (Function.update env.txns j r.2 i).mt_txnid = some t → b ≤ t := by
    intro j r hr t ht
    by_cases hij : i = j
    · subst hij
      rw [Function.update_self] at ht
      exact (hr t ht).elim (fun heq ↦ heq ▸ hb) (hf t)
    · rw [Function.update_of_ne hij] at ht
      exact hf t ht
  have hover : ∀ {j : Nat} {r : MDB_reader} t, (r, ReadTxn.finished).2.mt_txnid = some t →
      t = env.mti_txnid ∨ (env.txns j).mt_txnid = some t :=
    fun t ht ↦ absurd ht (Option.some_ne_none _).symm
  cases hs with
  | claim _ _ => exact hset hover
  | renew j me_maxpg => exact hset fun t ht ↦ mt_txnid_renew ht
  | endRead j _ => exact hset hover
  | leave j => exact hset hover
  | page_alloc data ha =>
    obtain ⟨_, _, _, _, heq⟩ := mdb_page_alloc_eq env _ data
    rw [heq]
    exact hf
  | _ => exact hf

/-- The last version when a read transaction was not yet begun is not newer than its id. -/
theorem History.fresh {versions : List Version} {i : Nat} (h : env.Ok since vs)
    (hf : (env.txns i).mt_txnid = none) (hh : History env versions env') :
    ∀ t, (env'.txns i).mt_txnid = some t → env.mti_txnid ≤ t := by
  have hall : ∃ since' vs', Later env since vs env' since' vs' ∧
      ∀ t, (env'.txns i).mt_txnid = some t → env.mti_txnid ≤ t := by
    induction hh with
    | start => exact ⟨since, vs, .refl h, fun t ht ↦ absurd (hf.symm.trans ht) (by simp)⟩
    | step _ hs ih =>
      obtain ⟨since', vs', hl, hfresh⟩ := ih
      obtain ⟨since'', hl'⟩ := hl.step hs
      exact ⟨since'', _, hl', hs.fresh hl.mti_le hfresh⟩
  exact hall.choose_spec.choose_spec.2

end

/-! ### A small run -/

/-- The sample database as an environment, with one version before it. -/
def sampleEnv : MDB_env where
  me_psize := 4096
  me_map := sampleTxn.me_map
  me_metas n := ⟨n, 5, P_INVALID, 4, []⟩
  mti_txnid := 1
  mti_numreaders := 0
  mti_readers := fun _ ↦ ⟨0, none⟩
  me_maxreaders := 126
  me_pghead := none
  me_pglast := 0
  me_txn := .idle
  me_maxpg := fun _ ↦ 1024
  me_pgoldest := fun _ ↦ 0
  txns := fun _ ↦ .finished

private theorem treePage_sample {p : Nat} (h : TreePage sampleTxn.me_map 4 p) :
    p = 4 ∨ p = 2 ∨ p = 3 := by
  induction h with
  | root => exact .inl rfl
  | child _ hb hn ih =>
    obtain rfl | rfl | rfl := ih
    · have hnode := List.mem_cons.mp hn
      obtain rfl | hn := hnode
      · exact .inr (.inl rfl)
      · obtain rfl := List.mem_singleton.mp hn
        exact .inr (.inr rfl)
    · exact absurd hb (by decide)
    · exact absurd hb (by decide)

private theorem occupies_sample {p : Nat} (h : Occupies 4096 sampleTxn.me_map 4 p) : p ≤ 5 := by
  cases h with
  | tree h =>
    obtain rfl | rfl | rfl := treePage_sample h <;> decide
  | overflow h hl hn hf hi =>
    obtain rfl | rfl | rfl := treePage_sample h
    · exact absurd hl (by decide)
    · obtain rfl | hn := List.mem_cons.mp hn
      · exact absurd hf (by decide)
      · obtain rfl := List.mem_singleton.mp hn
        exact absurd hf (by decide)
    · obtain rfl | hn := List.mem_cons.mp hn
      · exact absurd hf (by decide)
      · obtain rfl := List.mem_singleton.mp hn
        rw [Nat.lt_one_iff.mp hi]
        decide

private theorem sampleEnv_opened : sampleEnv.Opened where
  now := rfl
  idle := rfl
  pghead := rfl
  pglast := rfl
  pgoldest := fun _ ↦ Nat.zero_le _
  readers := fun _ ↦ ⟨rfl, rfl⟩
  sound :=
    { pages_le := by
        rintro p (⟨hinv, -⟩ | ⟨-, hp⟩)
        · exact absurd rfl hinv
        · exact occupies_sample hp
      free_le := fun r hr ↦ absurd hr List.not_mem_nil
      keys := fun r hr ↦ absurd hr List.not_mem_nil
      sorted := .nil
      ascending := fun r hr ↦ absurd hr List.not_mem_nil
      once := fun r hr ↦ absurd hr List.not_mem_nil
      apart := fun r hr ↦ absurd hr List.not_mem_nil }

/-- A process has claimed a slot and begun to read. -/
def sampleReader : MDB_env := (MDB_env.renew · 0 1024)^[6] (sampleEnv.claim 7)

/-- Then a process begins to write. -/
def sampleBegun : MDB_env := sampleReader.setTxn (.renew 0 1 (sampleReader.me_metas 1))

/-- It commits a version that has the same trees. -/
def sampleWriter : MDB_env := sampleBegun.mdb_freelist_save sampleBegun.txn []

/-- The sample once that version is committed. -/
def sampleCommitted : MDB_env := sampleWriter.mdb_env_write_meta sampleWriter.txn

private theorem sampleReader_history : History sampleEnv [sampleEnv.version] sampleReader :=
  .step (.step (.step (.step (.step (.step (.step .start (.claim (by decide) (by decide)))
    (.renew 0 1024)) (.renew 0 1024)) (.renew 0 1024)) (.renew 0 1024)) (.renew 0 1024))
    (.renew 0 1024)

private theorem sampleReader_active : sampleReader.txns 0 = .active 1 4 6 := rfl

private theorem sampleReader_begin : Step sampleReader sampleBegun := .begin 0 rfl (by decide)

private theorem sampleBegun_save : Step sampleBegun sampleWriter :=
  .freelist_save rfl rfl (fun _ ↦ rfl) ⟨fun r hr ↦ absurd hr List.not_mem_nil, .nil, by decide⟩

private theorem sampleWriter_commit : Step sampleWriter sampleCommitted :=
  .commit rfl rfl fun _ hp ↦ ⟨.inl hp, List.not_mem_nil⟩

private theorem sampleCommitted_steps : Steps sampleReader sampleCommitted :=
  .tail (.tail (.single sampleReader_begin) sampleBegun_save) sampleWriter_commit

private theorem sampleCommitted_history :
    History sampleEnv [sampleEnv.version, sampleCommitted.version] sampleCommitted :=
  .step (.step (.step sampleReader_history sampleReader_begin) sampleBegun_save)
    sampleWriter_commit

/-! ### What a reader sees -/

/-- The transaction of a reader, in the environment as it is now. -/
def MDB_env.readTxn (env : MDB_env) (md_root mt_next_pgno : Nat) : MDB_txn where
  me_map := env.me_map
  md_root := md_root
  mt_next_pgno := mt_next_pgno

section

variable {env₀ envb env : MDB_env} {versions : List Version} {since i t root next : Nat}
variable {vs : Nat → Version}

/-- The pages of one version, at least as new as the transaction's id, are in place as long as
the transaction lasts. -/
theorem MDB_env.Ok.active_agrees (h : env.Ok since vs) (ha : env.txns i = .active t root next) :
    ∃ n, t ≤ n ∧ n ≤ env.now ∧ ∀ env', Steps env env' → env'.txns i = .active t root next →
      (vs n).txn.Agrees env.me_psize (env'.readTxn root next) := by
  obtain ⟨n, htn, hn, hroot, hnext⟩ := (h.readers i).active t root next ha
  refine ⟨n, htn, hn, fun env' hs ha' ↦ ?_⟩
  obtain ⟨since', vs', hl⟩ := h.steps hs
  have hsince := (hl.ok.readers i).since_le t (by rw [ha']; rfl)
  have hintact := hl.ok.inv.intact n (Nat.le_trans hsince htn) (Nat.le_trans hn hl.now_le)
  have hsame := hl.same n hn
  refine ⟨hroot.symm, hnext, fun hne p hp ↦ ?_⟩
  have hpages : (vs' n).page.Pages env'.me_psize (vs' n).map p := by
    rw [hsame, hl.psize]
    exact .inr ⟨hne, hp⟩
  have hmap := hintact p hpages
  show env'.me_map p = (vs n).map p
  rw [← hsame]
  exact hmap

variable (ho : env₀.Opened) (hb : Steps env₀ envb) (hw : envb.me_txn ≠ .written)
variable (hidle : (envb.txns i).mt_txnid = none) (hh : History envb versions env)
variable (ha : env.txns i = .active t root next)
include ho hb hw hidle hh ha

/-- The versions a transaction may see are the one that was last when it began, and those
committed since. -/
theorem History.ok_of_active :
    ∃ since vs, env.Ok since vs ∧ ∀ n, t ≤ n → n ≤ env.now → vs n ∈ versions := by
  obtain ⟨_, _, hl⟩ := ho.ok.steps hb
  have hbase := hl.ok.rebase
  obtain ⟨since, vs, hl, -, hget⟩ := hh.later hbase (Function.update_self _ _ _)
  have hfresh := hh.fresh hbase hidle t (by rw [ha]; rfl)
  have hpub := hbase.published hw
  exact ⟨since, vs, hl.ok, fun n htn hn ↦ List.mem_of_getElem? (hget n (by omega) hn)⟩

/-- A read transaction sees one version, whatever is written meanwhile: the one that was last
when it began, or one committed before it had begun. -/
theorem read_txn_sees_version :
    ∃ v ∈ versions, ∀ env', Steps env env' → env'.txns i = .active t root next →
      v.txn.Agrees env.me_psize (env'.readTxn root next) := by
  obtain ⟨since, vs, hok, hmem⟩ := History.ok_of_active ho hb hw hidle hh ha
  obtain ⟨n, htn, hn, hsees⟩ := hok.active_agrees ha
  exact ⟨vs n, hmem n htn hn, hsees⟩

end

/-- The reader of the sample still sees the version it began with, once another is committed. -/
theorem read_txn_sees_version_sample :
    sampleEnv.version.txn.Agrees 4096 (sampleCommitted.readTxn 4 6) := by
  obtain ⟨v, hv, hsees⟩ := read_txn_sees_version sampleEnv_opened .refl Writer.noConfusion rfl
    sampleReader_history sampleReader_active
  obtain rfl := List.mem_singleton.mp hv
  exact hsees _ sampleCommitted_steps rfl

/-! ### Cursors of a live reader -/

/-- The calls of a read transaction, each in the environment as it is then: the pages of the
cursor's stack are those of the file at the call. -/
def liveCalls (root next : Nat) : List (MDB_env × MDB_cursor_op × Bytes) → MDB_cursor →
    Option (List (Except Int Entry) × MDB_cursor)
  | [], mc => some ([], mc)
  | (env, op, key) :: calls, mc =>
    match mdb_cursor_get (env.readTxn root next) op key (mc.reload env.me_map) with
    | none => none
    | some (mc, r) => (liveCalls root next calls mc).map fun rest ↦ (r :: rest.1, rest.2)

/-- A cursor keeps its position from call to call, though the file changes. -/
theorem liveCalls_answered {psize root next : Nat} {txn : MDB_txn} {store : Store}
    (hs : txn.Stores store) (hn : txn.Numbered) {calls : List (MDB_env × MDB_cursor_op × Bytes)}
    (hc : ∀ c ∈ calls, txn.Agrees psize (c.1.readTxn root next)) {env : MDB_env} {mc : MDB_cursor}
    {p : Position} (he : txn.Agrees psize (env.readTxn root next))
    (hp : Placed (env.readTxn root next) store.entries mc p) :
    ∃ rs mc' p', liveCalls root next calls mc = some (rs, mc') ∧
      Run store.entries (calls.map Prod.snd) p rs p' ∧ mc'.mt_error = false := by
  induction calls generalizing env mc p with
  | nil => exact ⟨[], mc, p, rfl, .done p, hp.valid⟩
  | cons c calls ih =>
    obtain ⟨hhere, hrest⟩ := List.forall_mem_cons.mp hc
    have hplaced := (he.trans_symm hhere (Nat.le_refl _)).placed (he.numbered hn) hp
    obtain ⟨mc', a, p', hr, ha, hp'⟩ :=
      mdb_cursor_get_answered c.2.1 c.2.2 (hhere.stores hs) hplaced
    obtain ⟨rs, mc'', p'', hrs, hrun, herr⟩ := ih hrest hhere hp'
    refine ⟨a :: rs, mc'', p'', ?_, .call ha hrun, herr⟩
    have hr' : mdb_cursor_get (c.1.readTxn root next) c.2.1 c.2.2 (mc.reload c.1.me_map) =
        some (mc', a) := hr
    simp only [liveCalls, hr', hrs, Option.map_some]

section

variable {env₀ envb env : MDB_env} {versions : List Version} {i t root next : Nat}

/-- Whatever calls a read transaction makes on a cursor, and whatever is written between them,
they are answered as over the store of one version. -/
theorem live_calls_answered (ho : env₀.Opened) (hb : Steps env₀ envb) (hw : envb.me_txn ≠ .written)
    (hidle : (envb.txns i).mt_txnid = none) (hh : History envb versions env)
    (ha : env.txns i = .active t root next) {store : Version → Store}
    (hstores : ∀ v ∈ versions, v.txn.Stores (store v))
    (hnumbered : ∀ v ∈ versions, v.txn.Numbered) :
    ∃ v ∈ versions, ∀ calls : List (MDB_env × MDB_cursor_op × Bytes),
      (∀ c ∈ calls, Steps env c.1 ∧ c.1.txns i = .active t root next) →
      ∃ rs mc p, liveCalls root next calls mdb_cursor_init = some (rs, mc) ∧
        Run (store v).entries (calls.map Prod.snd) .unset rs p ∧ mc.mt_error = false := by
  obtain ⟨since, vs, hok, hmem⟩ := History.ok_of_active ho hb hw hidle hh ha
  obtain ⟨n, htn, hn, hsees⟩ := hok.active_agrees ha
  have hv := hmem n htn hn
  refine ⟨vs n, hv, fun calls hc ↦ ?_⟩
  have hagree : ∀ c ∈ calls, (vs n).txn.Agrees env.me_psize (c.1.readTxn root next) :=
    fun c hcm ↦ hsees c.1 (hc c hcm).1 (hc c hcm).2
  exact liveCalls_answered (hstores _ hv) (hnumbered _ hv) hagree (hsees env .refl ha)
    (placed_mdb_cursor_init _ _)

end

/-- A walk over the sample, during which a version is committed. -/
theorem live_calls_answered_sample :
    ∃ rs mc p, liveCalls 4 6
        [(sampleReader, .MDB_FIRST, []), (sampleCommitted, .MDB_NEXT, [])] mdb_cursor_init =
          some (rs, mc) ∧
      Run sampleStore.entries [(.MDB_FIRST, []), (.MDB_NEXT, [])] .unset rs p ∧
        mc.mt_error = false := by
  have hstores : ∀ v ∈ [sampleEnv.version], v.txn.Stores ((fun _ ↦ sampleStore) v) := by
    intro v hv
    obtain rfl := List.mem_singleton.mp hv
    exact sampleTxn_stores
  have hnumbered : ∀ v ∈ [sampleEnv.version], v.txn.Numbered := by
    intro v hv
    obtain rfl := List.mem_singleton.mp hv
    intro _ p hp
    obtain rfl | rfl | rfl := treePage_sample hp <;> rfl
  obtain ⟨v, -, hcalls⟩ := live_calls_answered sampleEnv_opened .refl Writer.noConfusion rfl
    sampleReader_history sampleReader_active hstores hnumbered
  apply hcalls
  intro c hc
  obtain rfl | hc := List.mem_cons.mp hc
  · exact ⟨.refl, rfl⟩
  · obtain rfl := List.mem_singleton.mp hc
    exact ⟨sampleCommitted_steps, rfl⟩

/-! ### What a crash leaves -/

/-- The file opened again by the first process: the lock file is set up afresh;
`mdb_env_setup_locks`, `mdb_env_share_locks`. -/
def MDB_env.reopen (env : MDB_env) : MDB_env :=
  { env with
    mti_txnid := env.now
    mti_numreaders := 0
    mti_readers := fun _ ↦ ⟨0, none⟩
    me_pghead := none
    me_pglast := 0
    me_txn := .idle
    me_pgoldest := fun _ ↦ 0
    txns := fun _ ↦ .finished }

private theorem MDB_env.Ok.sound {env : MDB_env} {since : Nat} {vs : Nat → Version}
    (h : env.Ok since vs) : env.last.Sound env.me_psize env.me_map env.now where
  pages_le := fun _ hp ↦ Nat.le_of_not_lt
    (h.inv.live_used env.now h.inv.since_le (Nat.le_refl _) _ (h.live_now.mp hp))
  free_le := fun r hr p hp ↦ Nat.le_of_not_lt (h.inv.retired_used r.1 p ⟨r, hr, rfl, hp⟩)
  keys := h.keys
  sorted := h.sorted
  ascending := h.ascending
  once := fun r hr r' hr' p hp hp' ↦
    h.inv.retired_once r.1 r'.1 p ⟨r, hr, rfl, hp⟩ ⟨r', hr', rfl, hp'⟩
  apart := fun r hr _ hp hl ↦ h.inv.retired_now ⟨r, hr, rfl, hp⟩ (h.live_now.mp hl)

/-- Between any two steps the file holds the last version: whoever opens it once all processes
are gone finds a sound environment, and in it that version with all the pages of its trees. -/
theorem file_holds_version {env₀ env : MDB_env} {versions : List Version} (ho : env₀.Opened)
    (hh : History env₀ versions env) :
    env.reopen.Opened ∧ ∃ v, versions.getLast? = some v ∧ v.page = env.reopen.last ∧
      (∀ p, v.page.Pages env.me_psize v.map p → env.reopen.me_map p = v.map p) ∧
        v.txn.Agrees env.me_psize env.reopen.version.txn := by
  have hv : (fun _ ↦ env₀.version) env₀.now = env₀.version := rfl
  obtain ⟨since, vs, hl, hlen, hget⟩ := hh.later ho.ok hv
  have hok := hl.ok
  have hpage : env.last = (vs env.now).page :=
    hok.metas env.now hok.inv.since_le (Nat.le_refl _) (Nat.le_succ _)
  have hintact := hok.inv.intact env.now hok.inv.since_le (Nat.le_refl _)
  refine ⟨?_, vs env.now, ?_, hpage.symm, hintact, ?_⟩
  · exact
      { now := rfl
        idle := rfl
        pghead := rfl
        pglast := rfl
        pgoldest := fun _ ↦ Nat.zero_le _
        readers := fun _ ↦ ⟨rfl, rfl⟩
        sound := hok.sound }
  · rw [List.getLast?_eq_getElem?, ← hget env.now hl.now_le (Nat.le_refl _), hlen]
    rfl
  · refine ⟨congrArg MDB_meta.main_root hpage, ?_, fun hne p hp ↦ ?_⟩
    · exact Nat.le_of_eq (congrArg (MDB_meta.mm_last_pg · + 1) hpage.symm)
    · exact hintact _ (.inr ⟨hne, hp⟩)

/-- The version committed in the sample is what is found again. -/
theorem file_holds_version_sample :
    sampleCommitted.reopen.Opened ∧ ∃ v,
      [sampleEnv.version, sampleCommitted.version].getLast? = some v ∧
        v.page = sampleCommitted.reopen.last ∧
          (∀ p, v.page.Pages 4096 v.map p → sampleCommitted.reopen.me_map p = v.map p) ∧
            v.txn.Agrees 4096 sampleCommitted.reopen.version.txn :=
  file_holds_version sampleEnv_opened sampleCommitted_history

end ObDump.Lmdb
