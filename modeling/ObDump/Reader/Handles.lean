import ObDump.Base.Except
import ObDump.Base.Handles
import ObDump.Reader.Walks

/-!
# The handles of the LMDB reader

Library `Reader`. `src/lmdb_reader.cpp:52–176` with the environment, the transaction and the
cursors as explicit handles. A client uses one reader for any number of calls, also from inside
a callback; every call may fail, and a callback may stop the walk or throw. The constructor
forgets its environment on three of its exits, and a walk its cursor when the callback throws.
-/

namespace ObDump

open Base

/-- The handles of a reader; cursors are numbered by the call that opens them. -/
inductive Handle where
  | env
  | txn
  | cursor (call : Nat)
  deriving DecidableEq, Repr

/-- A transaction belongs to its environment and a cursor to its transaction. -/
def Handle.parent : Handle → Option Handle
  | .env => none
  | .txn => some .env
  | .cursor _ => some .txn

/-- What has happened: the calls made, the callbacks run, the handles opened and closed, and the
exceptions that left a callback. -/
structure Usage where
  calls : Nat
  turns : Nat
  handles : List (HandleEvent Handle)
  thrown : List Exc

namespace Usage

/-- A handle is opened. -/
def opening (u : Usage) (h : Handle) : Usage := { u with handles := u.handles ++ [.opened h] }

/-- A handle is closed. -/
def closing (u : Usage) (h : Handle) : Usage := { u with handles := u.handles ++ [.closed h] }

/-- A call opens its cursor. -/
def started (u : Usage) : Usage :=
  Usage.opening { u with calls := u.calls + 1 } (.cursor u.calls)

end Usage

/-! ### The reader's functions -/

section

variable (sys : System)

/-- The constructor, `src/lmdb_reader.cpp:52–92`, on an object that does not exist yet. -/
def openReader (path : Bytes) : List (HandleEvent Handle) × Except Exc Unit :=
  match check sys sys.envCreate (lit "mdb_env_create") with
  | .error e => ([], .error e)
  | .ok () =>
    match check sys sys.setMaxdbs (lit "mdb_env_set_maxdbs") with
    | .error e => ([.opened .env], .error e)
    | .ok () =>
      match check sys sys.setMapsize (lit "mdb_env_set_mapsize") with
      | .error e => ([.opened .env], .error e)
      | .ok () =>
        match isRegularFile sys path with
        | .error e => ([.opened .env], .error e)
        | .ok nosubdir =>
          match check sys (sys.envOpen (cstr path) nosubdir)
              (lit "mdb_env_open(" ++ path ++ lit ")") with
          | .error e => ([.opened .env, .closed .env], .error e)
          | .ok () =>
            match check sys (sys.txnBegin (cstr path)) (lit "mdb_txn_begin") with
            | .error e => ([.opened .env, .closed .env], .error e)
            | .ok () =>
              match check sys (sys.dbiOpen (cstr path)) (lit "mdb_dbi_open") with
              | .error e => ([.opened .env, .opened .txn, .closed .txn, .closed .env], .error e)
              | .ok () => ([.opened .env, .opened .txn], .ok ())

/-- What the destructor closes, `src/lmdb_reader.cpp:94–101`. -/
def closeReader : List (HandleEvent Handle) := [.closed .txn, .closed .env]

-- What LMDB does in each call on the open transaction.
variable (txns : Nat → Txn)

/-- `toManyTargets`, `src/lmdb_reader.cpp:152–175`. -/
def useToManyTargets (relationId : Int) (sourceObjectId : UInt32) (u : Usage) :
    Usage × Except Exc (List UInt32) :=
  match check sys (txns u.calls).cursorOpen (lit "mdb_cursor_open") with
  | .error e => ({ u with calls := u.calls + 1 }, .error e)
  | .ok () =>
    (u.started.closing (.cursor u.calls),
      LmdbReader.toManyTargets ⟨sys, txns u.calls⟩ relationId sourceObjectId)

/-- `forEachObject`, `src/lmdb_reader.cpp:103–131`: an exception of the callback leaves the
loop before `mdb_cursor_close`. -/
def useForEachObject (cb : Usage → ObjectRecord → Usage × Except Exc Bool) (u : Usage) :
    Usage × Except Exc Unit :=
  match check sys (txns u.calls).cursorOpen (lit "mdb_cursor_open") with
  | .error e => ({ u with calls := u.calls + 1 }, .error e)
  | .ok () =>
    let walk := (txns u.calls).fromFirst
    match LmdbReader.walkRecords cb walk.rc walk.entries u.started with
    | (u', .error e) => ({ u' with thrown := u'.thrown ++ [e] }, .error e)
    | (u', .ok rc) =>
      (u'.closing (.cursor u.calls),
        if rc ≠ MDB_NOTFOUND then check sys rc (lit "mdb_cursor_get") else .ok ())

/-! ### Clients -/

/-- A program on a reader: it ends with a result, or calls one of the reader's functions and
goes on with what that returns or throws. A callback is such a program too, chosen by the
number of callbacks run before it and by its record; true asks to keep going. -/
inductive Client where
  | done (result : Except Exc Bool)
  | toManyTargets (relationId : Int) (sourceObjectId : UInt32)
      (next : Except Exc (List UInt32) → Client)
  | forEachObject (cb : Nat → ObjectRecord → Client) (next : Except Exc Unit → Client)

/-- A client's run on an open reader. -/
def Client.run : Client → Usage → Usage × Except Exc Bool
  | .done result, u => (u, result)
  | .toManyTargets relationId sourceObjectId next, u =>
    let (u, r) := useToManyTargets sys txns relationId sourceObjectId u
    (next r).run u
  | .forEachObject cb next, u =>
    let (u, r) := useForEachObject sys txns
      (fun u rec ↦ (cb u.turns rec).run { u with turns := u.turns + 1 }) u
    (next r).run u

/-- The life of a reader: the constructor, the client and the destructor, which does not run
when the constructor throws. -/
def lifetime (path : Bytes) (client : Client) : Usage × Except Exc Bool :=
  match openReader sys path with
  | (handles, .error e) => (⟨0, 0, handles, []⟩, .error e)
  | (handles, .ok ()) =>
    let (u, r) := client.run sys txns ⟨0, 0, handles, []⟩
    ({ u with handles := u.handles ++ closeReader }, r)

end

/-! ### The functions are the reader's -/

section

variable {sys : System}

/-- The constructor returns or throws as the reader's does. -/
theorem openReader_eq (path : Bytes) :
    (openReader sys path).2 = (LmdbReader.ofPath sys path).map fun _ ↦ () := by
  unfold openReader LmdbReader.ofPath
  cases check sys sys.envCreate (lit "mdb_env_create") with
  | error e => rfl
  | ok u =>
    cases check sys sys.setMaxdbs (lit "mdb_env_set_maxdbs") with
    | error e => rfl
    | ok u =>
      cases check sys sys.setMapsize (lit "mdb_env_set_mapsize") with
      | error e => rfl
      | ok u =>
        cases isRegularFile sys path with
        | error e => rfl
        | ok nosubdir =>
          simp only [ok_bind]
          cases check sys (sys.envOpen (cstr path) nosubdir)
            (lit "mdb_env_open(" ++ path ++ lit ")") with
          | error e => rfl
          | ok u =>
            simp only [ok_bind]
            cases check sys (sys.txnBegin (cstr path)) (lit "mdb_txn_begin") with
            | error e => rfl
            | ok u =>
              cases check sys (sys.dbiOpen (cstr path)) (lit "mdb_dbi_open") with
              | error e => rfl
              | ok u => rfl

variable {txns : Nat → Txn}

/-- The search returns or throws as the reader's does. -/
theorem useToManyTargets_eq (relationId : Int) (sourceObjectId : UInt32) (u : Usage) :
    (useToManyTargets sys txns relationId sourceObjectId u).2 =
      LmdbReader.toManyTargets ⟨sys, txns u.calls⟩ relationId sourceObjectId := by
  unfold useToManyTargets
  cases h : check sys (txns u.calls).cursorOpen (lit "mdb_cursor_open") with
  | error e =>
    unfold LmdbReader.toManyTargets
    simp only [h]
    rfl
  | ok v => rfl

/-- The walk returns or throws as the reader's does. -/
theorem useForEachObject_eq (cb : Usage → ObjectRecord → Usage × Except Exc Bool) (u : Usage) :
    (useForEachObject sys txns cb u).2 =
      (LmdbReader.forEachObject ⟨sys, txns u.calls⟩ cb u.started).2 := by
  unfold useForEachObject LmdbReader.forEachObject
  cases check sys (txns u.calls).cursorOpen (lit "mdb_cursor_open") with
  | error e => rfl
  | ok v =>
    simp only
    cases LmdbReader.walkRecords cb (txns u.calls).fromFirst.rc
        (txns u.calls).fromFirst.entries u.started with
    | mk u' r => cases r <;> rfl

end

/-! ### What a run leaves open -/

/-- Handles that can be open when a call starts: the transaction, and cursors of earlier calls. -/
def OpenAt (u : Usage) (opens : List Handle) : Prop :=
  .txn ∈ opens ∧ ∀ n, .cursor n ∈ opens → n < u.calls

/-- From `u` to `u'` the ledger keeps what was open, and besides it cursors of the calls in
between: some exactly when an exception left a callback. -/
def Accounts (u u' : Usage) : Prop :=
  ∃ trace leaked es, u'.handles = u.handles ++ trace ∧ u'.thrown = u.thrown ++ es ∧
    u.calls ≤ u'.calls ∧ (∀ h ∈ leaked, ∃ n, h = .cursor n ∧ u.calls ≤ n ∧ n < u'.calls) ∧
    (leaked = [] ↔ es = []) ∧
    ∀ opens, OpenAt u opens → Ledger.run Handle.parent opens trace = some (leaked ++ opens)

private theorem Accounts.of_same {u u' : Usage} (hh : u'.handles = u.handles)
    (ht : u'.thrown = u.thrown) (hc : u.calls ≤ u'.calls) : Accounts u u' :=
  ⟨[], [], [], by simp [hh], by simp [ht], hc, by simp, iff_of_true rfl rfl, fun _ _ ↦ rfl⟩

private theorem OpenAt.append {u u' : Usage} {leaked opens : List Handle} (h : OpenAt u opens)
    (hc : u.calls ≤ u'.calls)
    (hl : ∀ h ∈ leaked, ∃ n, h = .cursor n ∧ u.calls ≤ n ∧ n < u'.calls) :
    OpenAt u' (leaked ++ opens) := by
  refine ⟨List.mem_append_right leaked h.1, fun n hn ↦ ?_⟩
  rcases List.mem_append.mp hn with hn | hn
  · obtain ⟨m, hm, -, hlt⟩ := hl _ hn
    cases hm
    exact hlt
  · exact Nat.lt_of_lt_of_le (h.2 n hn) hc

private theorem Accounts.trans {u u' u'' : Usage} (h : Accounts u u') (h' : Accounts u' u'') :
    Accounts u u'' := by
  obtain ⟨trace, leaked, es, hh, ht, hc, hl, hnil, hrun⟩ := h
  obtain ⟨trace', leaked', es', hh', ht', hc', hl', hnil', hrun'⟩ := h'
  refine ⟨trace ++ trace', leaked' ++ leaked, es ++ es', ?_, ?_, Nat.le_trans hc hc', ?_, ?_, ?_⟩
  · rw [hh', hh, List.append_assoc]
  · rw [ht', ht, List.append_assoc]
  · intro h hm
    rcases List.mem_append.mp hm with hm | hm
    · obtain ⟨n, rfl, hle, hlt⟩ := hl' h hm
      exact ⟨n, rfl, Nat.le_trans hc hle, hlt⟩
    · obtain ⟨n, rfl, hle, hlt⟩ := hl h hm
      exact ⟨n, rfl, hle, Nat.lt_of_lt_of_le hlt hc'⟩
  · rw [List.append_eq_nil_iff, List.append_eq_nil_iff, hnil, hnil', and_comm]
  · intro opens hopens
    rw [Ledger.run_append, hrun opens hopens, Option.bind_some,
      hrun' _ (hopens.append hc hl), List.append_assoc]

private theorem OpenAt.cursor_fresh {u : Usage} {opens : List Handle} (h : OpenAt u opens) :
    Handle.cursor u.calls ∉ opens := fun hm ↦ Nat.lt_irrefl _ (h.2 _ hm)

private theorem OpenAt.parent_open {u : Usage} {opens : List Handle} (h : OpenAt u opens) :
    ∀ p ∈ (Handle.cursor u.calls).parent, p ∈ opens := by
  intro p hp
  cases hp
  exact h.1

private theorem cursor_leaf {n : Nat} (c : Handle) : c.parent ≠ some (.cursor n) := by
  cases c <;> exact fun h ↦ by cases h

private theorem OpenAt.started {u : Usage} {opens : List Handle} (h : OpenAt u opens) :
    OpenAt u.started (.cursor u.calls :: opens) := by
  refine ⟨List.mem_cons_of_mem _ h.1, fun n hn ↦ ?_⟩
  rcases List.mem_cons.mp hn with hn | hn
  · cases hn
    exact Nat.lt_succ_self _
  · exact Nat.lt_succ_of_lt (h.2 n hn)

private theorem Accounts.closing {u u' : Usage} (h : Accounts u.started u') :
    Accounts u (u'.closing (.cursor u.calls)) := by
  obtain ⟨trace, leaked, es, hh, ht, hc, hl, hnil, hrun⟩ := h
  refine ⟨.opened (.cursor u.calls) :: (trace ++ [.closed (.cursor u.calls)]), leaked, es, ?_, ht,
    Nat.le_of_succ_le hc, ?_, hnil, ?_⟩
  · simp [Usage.closing, hh, Usage.started, Usage.opening]
  · intro h hm
    obtain ⟨n, rfl, hle, hlt⟩ := hl h hm
    exact ⟨n, rfl, Nat.le_of_succ_le hle, hlt⟩
  · intro opens hopens
    have hfresh : Handle.cursor u.calls ∉ leaked := by
      intro hm
      obtain ⟨n, hn, hle, -⟩ := hl _ hm
      cases hn
      exact Nat.not_succ_le_self _ hle
    exact Ledger.run_bracket hopens.cursor_fresh hopens.parent_open cursor_leaf
      (hrun _ hopens.started) hfresh

private theorem Accounts.throwing {u u' : Usage} (h : Accounts u.started u') (e : Exc) :
    Accounts u { u' with thrown := u'.thrown ++ [e] } := by
  obtain ⟨trace, leaked, es, hh, ht, hc, hl, -, hrun⟩ := h
  refine ⟨.opened (.cursor u.calls) :: trace, leaked ++ [.cursor u.calls], es ++ [e], ?_, ?_,
    Nat.le_of_succ_le hc, ?_, by simp, ?_⟩
  · simp [hh, Usage.started, Usage.opening]
  · simp [ht, Usage.started, Usage.opening]
  · intro h hm
    rcases List.mem_append.mp hm with hm | hm
    · obtain ⟨n, rfl, hle, hlt⟩ := hl h hm
      exact ⟨n, rfl, Nat.le_of_succ_le hle, hlt⟩
    · exact ⟨u.calls, List.mem_singleton.mp hm, Nat.le_refl _, hc⟩
  · intro opens hopens
    rw [Ledger.run_cons, Ledger.step_opened hopens.cursor_fresh hopens.parent_open,
      Option.bind_some, hrun _ hopens.started, List.append_assoc, List.singleton_append]

section

variable {sys : System} {txns : Nat → Txn}

private theorem useToManyTargets_accounts (relationId : Int) (sourceObjectId : UInt32)
    (u : Usage) : Accounts u (useToManyTargets sys txns relationId sourceObjectId u).1 := by
  unfold useToManyTargets
  cases check sys (txns u.calls).cursorOpen (lit "mdb_cursor_open") with
  | error e => exact .of_same rfl rfl (Nat.le_succ _)
  | ok v =>
    have hbody : Accounts u.started u.started := .of_same rfl rfl (Nat.le_refl _)
    exact hbody.closing

private theorem walkRecords_accounts {cb : Usage → ObjectRecord → Usage × Except Exc Bool}
    (hcb : ∀ u rec, Accounts u (cb u rec).1) (rc : Int) (es : List Entry) (u : Usage) :
    Accounts u (LmdbReader.walkRecords cb rc es u).1 := by
  induction es generalizing u with
  | nil => exact .of_same rfl rfl (Nat.le_refl _)
  | cons e es ih =>
    unfold LmdbReader.walkRecords
    cases objectRecord e with
    | none => exact ih u
    | some rec =>
      have hrec := hcb u rec
      cases hr : cb u rec with
      | mk u' r =>
        rw [hr] at hrec
        simp only [hr]
        cases r with
        | error err => exact hrec
        | ok more =>
          cases more with
          | false => exact hrec
          | true => exact hrec.trans (ih u')

private theorem useForEachObject_accounts
    {cb : Usage → ObjectRecord → Usage × Except Exc Bool}
    (hcb : ∀ u rec, Accounts u (cb u rec).1) (u : Usage) :
    Accounts u (useForEachObject sys txns cb u).1 := by
  unfold useForEachObject
  cases check sys (txns u.calls).cursorOpen (lit "mdb_cursor_open") with
  | error e => exact .of_same rfl rfl (Nat.le_succ _)
  | ok v =>
    have hwalk := walkRecords_accounts hcb (txns u.calls).fromFirst.rc
      (txns u.calls).fromFirst.entries u.started
    cases hr : LmdbReader.walkRecords cb (txns u.calls).fromFirst.rc
        (txns u.calls).fromFirst.entries u.started with
    | mk u' r =>
      rw [hr] at hwalk
      simp only [hr]
      cases r with
      | error err => exact hwalk.throwing err
      | ok rc => exact hwalk.closing

private theorem Client.run_accounts (client : Client) (u : Usage) :
    Accounts u (client.run sys txns u).1 := by
  -- By induction on the client: a callback is a part of it.
  induction client generalizing u with
  | done result => exact .of_same rfl rfl (Nat.le_refl _)
  | toManyTargets relationId sourceObjectId next ih =>
    exact (useToManyTargets_accounts relationId sourceObjectId u).trans (ih _ _)
  | forEachObject cb next ihcb ihnext =>
    refine (useForEachObject_accounts (fun u rec ↦ ?_) u).trans (ihnext _ _)
    have hturn : Accounts u { u with turns := u.turns + 1 } := .of_same rfl rfl (Nat.le_refl _)
    exact hturn.trans (ihcb _ rec _)

end

/-! ### When every handle is released -/

/-- Once the environment exists, its settings and the path check succeed. -/
def System.Prepares (sys : System) (path : Bytes) : Prop :=
  sys.envCreate = 0 → sys.setMaxdbs = 0 ∧ sys.setMapsize = 0 ∧
    ∃ nosubdir, sys.isRegularFile path = .ok nosubdir

section

variable {sys : System} {txns : Nat → Txn} {path : Bytes}

private theorem check_zero (what : Bytes) : check sys 0 what = .ok () := rfl

private theorem check_ne {rc : Int} (h : rc ≠ 0) (what : Bytes) :
    check sys rc what = .error (.runtimeError (what ++ lit ": " ++ sys.strerror rc)) := if_pos h

private theorem env_left : ¬ Ledger.Released Handle.parent [.opened .env] :=
  fun h ↦ absurd (h.count_eq .env) (by decide)

private theorem openReader_failed (hp : ¬ sys.Prepares path) :
    ∃ e, openReader sys path = ([.opened .env], .error e) := by
  simp only [System.Prepares, Classical.not_imp, not_and] at hp
  obtain ⟨hc, hp⟩ := hp
  unfold openReader
  rw [hc, check_zero]
  by_cases hd : sys.setMaxdbs = 0
  · rw [hd, check_zero]
    by_cases hm : sys.setMapsize = 0
    · rw [hm, check_zero]
      cases hr : sys.isRegularFile path with
      | ok nosubdir => exact absurd ⟨nosubdir, hr⟩ (hp hd hm)
      | error message =>
        have hcheck : isRegularFile sys path = .error (.runtimeError
            (lit "cannot stat path: " ++ path ++ lit ": " ++ message)) := by
          unfold isRegularFile
          rw [hr]
          rfl
        rw [hcheck]
        exact ⟨_, rfl⟩
    · rw [check_ne hm]
      exact ⟨_, rfl⟩
  · rw [check_ne hd]
    exact ⟨_, rfl⟩

private theorem openReader_prepared (hp : sys.Prepares path) :
    openReader sys path = ([.opened .env, .opened .txn], .ok ()) ∨
      ∃ handles e, openReader sys path = (handles, .error e) ∧
        Ledger.Released Handle.parent handles := by
  unfold openReader
  by_cases hc : sys.envCreate = 0
  · obtain ⟨hd, hm, nosubdir, hr⟩ := hp hc
    have hcheck : isRegularFile sys path = .ok nosubdir := by
      unfold isRegularFile
      rw [hr]
      rfl
    rw [hc, check_zero, hd, check_zero, hm, check_zero, hcheck]
    simp only
    cases check sys (sys.envOpen (cstr path) nosubdir)
      (lit "mdb_env_open(" ++ path ++ lit ")") with
    | error e => exact .inr ⟨_, e, rfl, by decide⟩
    | ok v =>
      simp only
      cases check sys (sys.txnBegin (cstr path)) (lit "mdb_txn_begin") with
      | error e => exact .inr ⟨_, e, rfl, by decide⟩
      | ok v =>
        simp only
        cases check sys (sys.dbiOpen (cstr path)) (lit "mdb_dbi_open") with
        | error e => exact .inr ⟨_, e, rfl, by decide⟩
        | ok v => exact .inl rfl
  · rw [check_ne hc]
    exact .inr ⟨_, _, rfl, rfl⟩

private theorem run_closeReader {leaked : List Handle} (hl : ∀ h ∈ leaked, ∃ n, h = .cursor n) :
    Ledger.run Handle.parent (leaked ++ [.txn, .env]) closeReader = some [] ↔ leaked = [] := by
  constructor
  · intro hrun
    cases leaked with
    | nil => rfl
    | cons h leaked =>
      obtain ⟨n, rfl⟩ := hl h List.mem_cons_self
      have hstep : Ledger.step Handle.parent (.cursor n :: leaked ++ [.txn, .env])
          (.closed .txn) = none :=
        Ledger.step_closed_of_child (List.mem_append_left _ List.mem_cons_self) rfl
      rw [closeReader, Ledger.run_cons, hstep, Option.bind_none] at hrun
      cases hrun
  · rintro rfl
    rfl

/-- Every handle of a reader's life is opened once and closed once, cursors before their
transaction and the transaction before its environment, exactly when the constructor gets to
`mdb_env_open` and no exception leaves a callback of a walk. -/
theorem lifetime_released_iff (sys : System) (txns : Nat → Txn) (path : Bytes)
    (client : Client) :
    Ledger.Released Handle.parent (lifetime sys txns path client).1.handles ↔
      sys.Prepares path ∧ (lifetime sys txns path client).1.thrown = [] := by
  by_cases hp : sys.Prepares path
  · rcases openReader_prepared hp with hopen | ⟨handles, e, hopen, hreleased⟩
    · have haccounts : Accounts ⟨0, 0, [.opened .env, .opened .txn], []⟩
          (client.run sys txns ⟨0, 0, [.opened .env, .opened .txn], []⟩).1 :=
        client.run_accounts _
      obtain ⟨trace, leaked, es, hh, ht, -, hl, hnil, hrun⟩ := haccounts
      have hopens : OpenAt ⟨0, 0, [.opened .env, .opened .txn], []⟩ [.txn, .env] :=
        ⟨by decide, fun n hn ↦ by simp at hn⟩
      have hcursors : ∀ h ∈ leaked, ∃ n, h = .cursor n := by
        intro h hm
        obtain ⟨n, rfl, -⟩ := hl h hm
        exact ⟨n, rfl⟩
      have hstart : Ledger.run Handle.parent [] [.opened .env, .opened .txn] =
          some [.txn, .env] := by decide
      unfold lifetime Ledger.Released
      rw [hopen]
      simp only [hh, ht, hp, true_and, List.nil_append]
      rw [Ledger.run_append, Ledger.run_append, hstart, Option.bind_some, hrun _ hopens,
        Option.bind_some, run_closeReader hcursors, hnil]
    · unfold lifetime
      rw [hopen]
      exact iff_of_true hreleased ⟨hp, rfl⟩
  · obtain ⟨e, hopen⟩ := openReader_failed hp
    unfold lifetime
    rw [hopen]
    exact iff_of_false env_left fun h ↦ hp h.1

end

/-- A store with one record, whose value is empty. -/
private def emptyRecordStore : Store where
  entries := [([0x18, 0, 0, 4, 0, 0, 0, 1], [])]
  sorted := by decide

/-- A system where the path does not exist. -/
private def pathlessSystem : System :=
  { emptyRecordStore.system with
    isRegularFile := fun _ ↦ .error (lit "No such file or directory") }

/-- A walk whose callback throws at each record. -/
private def throwingClient : Client :=
  .forEachObject (fun _ _ ↦ .done (.error (.runtimeError (lit "corrupt record"))))
    fun r ↦ .done (r.map fun _ ↦ true)

/-- A path that does not exist leaves the environment open, and a callback that throws leaves
its cursor open when the transaction is aborted. -/
theorem lifetime_leaks :
    (∀ client, ¬ Ledger.Released Handle.parent (lifetime pathlessSystem
      (fun _ ↦ emptyRecordStore.txn) (lit "missing.mdb") client).1.handles) ∧
    ¬ Ledger.Released Handle.parent (lifetime emptyRecordStore.system
      (fun _ ↦ emptyRecordStore.txn) (lit "data.mdb") throwingClient).1.handles := by
  constructor
  · exact fun client ↦ env_left
  · exact fun h ↦ absurd (h.count_eq (.cursor 0)) (by decide)

end ObDump
