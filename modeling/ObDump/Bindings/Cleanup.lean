import ObDump.Base.Scoped
import ObDump.Bindings.Relations

/-!
# The cleanup of the Dart walks

Library `Bindings`. `dart/lib/src/lmdb_root_walk.dart` with its LMDB handles and its native
allocations. Each `try` of the two functions has a `finally` that releases what was made before
it. Any call may fail, and a callback may stop the walk or throw: what was made is released once,
children before their parents, and the error is the one a walk without handles ends with.
-/

namespace ObDump.Dart.LmdbRootWalk

open Base Base.Traced

/-- The allocations with `calloc`, and the copy of the path. -/
inductive Allocation where
  | envPtrPtr
  | pathPtr
  | txnPtrPtr
  | dbiPtr
  | cursorPtrPtr
  | keyVal
  | dataVal
  | searchKeyPtr
  deriving DecidableEq, Repr

/-- What a walk makes and has to release. -/
inductive Handle where
  | env
  | txn
  | cursor
  | allocation (a : Allocation)
  deriving DecidableEq, Repr

/-- A transaction belongs to its environment and a cursor to its transaction. -/
def Handle.parent : Handle → Option Handle
  | .env => none
  | .txn => some .env
  | .cursor => some .txn
  | .allocation _ => none

/-- What a walk throws, by its text: an `LmdbException`, the file system's exception, or the
object that the callback threw. -/
inductive Thrown where
  | lmdbException (message : Bytes)
  | fileSystemException (message : Bytes)
  | object (text : Bytes)
  deriving DecidableEq, Repr

/-! ### The functions -/

section

variable {σ α : Type}

/-- `ensureLmdbLoaded`, `dart/lib/src/lmdb_root_walk.dart:31–40`, by what the probe throws. -/
def ensureLmdbLoaded (probe : Except Bytes Unit) : Except Thrown Unit :=
  probe.mapError fun e ↦
    .lmdbException (lit "Could not load the native LMDB library bundled with ob_dump_reader " ++
      lit "(built by its build hook from src/lmdb): " ++ e)

variable (sys : System)

/-- `_check`, `dart/lib/src/lmdb_root_walk.dart:47–51`. -/
def check (what : Bytes) (rc : Int) : Except Thrown Unit :=
  if rc ≠ 0 then .error (.lmdbException (what ++ lit ": " ++ sys.strerror rc)) else .ok ()

/-- `FileSystemEntity.isFileSync`. -/
def isFileSync (path : Bytes) : Except Thrown Bool :=
  (sys.isRegularFile path).mapError .fileSystemException

/-- A native allocation. -/
def calloc (as : List Allocation) : Traced Handle σ Thrown Unit :=
  acquire (as.map .allocation)

/-- `calloc.free`. -/
def free (as : List Allocation) : Traced Handle σ Thrown Unit :=
  release (as.map .allocation)

/-- `dart/lib/src/lmdb_root_walk.dart:65–142` and the same again in `151–252`: the ladder of scopes
around a walk, whose own allocations are the buffers. -/
def withRootCursor (probe : Except Bytes Unit) (path : Bytes) (buffers : List Allocation)
    (walk : Plain σ Thrown α) : Traced Handle σ Thrown α := do
  ensureLmdbLoaded probe
  calloc [.envPtrPtr]
  try
    check sys (lit "mdb_env_create") (← create sys.envCreate .env)
    try
      check sys (lit "mdb_env_set_maxdbs") sys.setMaxdbs
      check sys (lit "mdb_env_set_mapsize") sys.setMapsize
      let isFile ← isFileSync sys path
      calloc [.pathPtr]
      try
        check sys (lit "mdb_env_open(" ++ path ++ lit ")") (sys.envOpen (cstr path) isFile)
      finally
        free [.pathPtr]
      calloc [.txnPtrPtr]
      try
        check sys (lit "mdb_txn_begin") (← create (sys.txnBegin (cstr path)) .txn)
        try
          calloc [.dbiPtr]
          try
            check sys (lit "mdb_dbi_open") (sys.dbiOpen (cstr path))
          finally
            free [.dbiPtr]
          calloc [.cursorPtrPtr]
          try
            check sys (lit "mdb_cursor_open") (← create (sys.txn (cstr path)).cursorOpen .cursor)
            try
              calloc buffers
              try
                walk
              finally
                free buffers
            finally
              release [.cursor]
          finally
            free [.cursorPtrPtr]
        finally
          release [.txn]
      finally
        free [.txnPtrPtr]
    finally
      release [.env]
  finally
    free [.envPtrPtr]

/-- The loop of `dart/lib/src/lmdb_root_walk.dart:111–117`, with the code it leaves. -/
def walkEntries (onEntry : Bytes → Bytes → Plain σ Thrown Bool) (rc : Int) :
    List Entry → Plain σ Thrown Int
  | [] => pure rc
  | e :: es => do
    if ← onEntry e.1 e.2 then walkEntries onEntry rc es else pure 0

/-- `dart/lib/src/lmdb_root_walk.dart:118–120`. -/
def checkCursorGet (rc : Int) : Except Thrown Unit :=
  if rc ≠ 0 ∧ rc ≠ MDB_NOTFOUND then check sys (lit "mdb_cursor_get") rc else .ok ()

/-- `dart/lib/src/lmdb_root_walk.dart:111–120`. -/
def rootWalk (path : Bytes) (onEntry : Bytes → Bytes → Plain σ Thrown Bool) :
    Plain σ Thrown Unit := do
  let walk := (sys.txn (cstr path)).fromFirst
  checkCursorGet sys (← walkEntries onEntry walk.rc walk.entries)

/-- `forEachRootEntry`, `dart/lib/src/lmdb_root_walk.dart:61–143`. -/
def forEachRootEntry (probe : Except Bytes Unit) (path : Bytes)
    (onEntry : Bytes → Bytes → Plain σ Thrown Bool) : Traced Handle σ Thrown Unit :=
  withRootCursor sys probe path [.keyVal, .dataVal] (rootWalk sys path onEntry)

/-- `dart/lib/src/lmdb_root_walk.dart:199–229`; the search key's last four bytes are zero. -/
def targetWalk (path : Bytes) (relationId sourceObjectId : Int) :
    Plain σ Thrown (List Int) := do
  let pre := searchPrefix relationId (UInt32.ofInt sourceObjectId)
  let walk := (sys.txn (cstr path)).fromRange (pre ++ [0, 0, 0, 0])
  let (targets, rc) := walkTargets pre walk.rc walk.entries
  checkCursorGet sys rc
  pure targets

/-- `readRelationTargets`, `dart/lib/src/lmdb_root_walk.dart:148–255`. -/
def readRelationTargets (probe : Except Bytes Unit) (path : Bytes)
    (relationId sourceObjectId : Int) : Traced Handle σ Thrown (List Int) :=
  withRootCursor sys probe path [.keyVal, .dataVal, .searchKeyPtr]
    (targetWalk sys path relationId sourceObjectId)

/-! ### The walk without handles -/

/-- The calls in their order, up to the first error: what a walk is for, without anything to
release. -/
def rootCursorWalk (probe : Except Bytes Unit) (path : Bytes)
    (walk : Plain σ Thrown α) : Plain σ Thrown α := do
  ensureLmdbLoaded probe
  check sys (lit "mdb_env_create") sys.envCreate
  check sys (lit "mdb_env_set_maxdbs") sys.setMaxdbs
  check sys (lit "mdb_env_set_mapsize") sys.setMapsize
  let isFile ← isFileSync sys path
  check sys (lit "mdb_env_open(" ++ path ++ lit ")") (sys.envOpen (cstr path) isFile)
  check sys (lit "mdb_txn_begin") (sys.txnBegin (cstr path))
  check sys (lit "mdb_dbi_open") (sys.dbiOpen (cstr path))
  check sys (lit "mdb_cursor_open") (sys.txn (cstr path)).cursorOpen
  walk

/-- The call that makes a handle returned zero; allocations do not fail. -/
def Made (path : Bytes) : Handle → Prop
  | .env => sys.envCreate = 0
  | .txn => sys.txnBegin (cstr path) = 0
  | .cursor => (sys.txn (cstr path)).cursorOpen = 0
  | .allocation _ => True

end

/-! ### The ladder -/

section

variable {σ α : Type} {sys : System}

private theorem check_eq_ok (what : Bytes) (rc : Int) :
    (check sys what rc : Except Thrown Unit) = .ok () ↔ rc = 0 := by
  unfold check
  by_cases h : rc = 0
  · simp [h]
  · simp [h]

private theorem fresh_allocations {opens : List Handle} {as : List Allocation} (hd : as.Nodup)
    (hnew : ∀ a ∈ as, .allocation a ∉ opens) :
    Fresh Handle.parent opens (as.map .allocation) where
  nodup := hd.map fun a b h ↦ by cases h; rfl
  unopened := List.forall_mem_map.mpr hnew
  parents := List.forall_mem_map.mpr fun a _ p hp ↦ by cases hp
  leaves := List.forall_mem_map.mpr fun a _ c _ ↦ by cases c <;> simp [Handle.parent]

private theorem withRootCursor_mirrors (probe : Except Bytes Unit) (path : Bytes)
    {buffers : List Allocation} (hd : buffers.Nodup)
    (hnew : ∀ a ∈ buffers, a ∉ [Allocation.cursorPtrPtr, .txnPtrPtr, .envPtrPtr])
    (walk : Plain σ Thrown α) :
    Mirrors Handle.parent (Made sys path) []
      ([.allocation .envPtrPtr, .env, .allocation .pathPtr, .allocation .txnPtrPtr, .txn,
        .allocation .dbiPtr, .allocation .cursorPtrPtr, .cursor] ++ buffers.map .allocation)
      (withRootCursor sys probe path buffers walk) (rootCursorWalk sys probe path walk) := by
  have hmade (as : List Allocation) : ∀ h ∈ as.map Handle.allocation, Made sys path h :=
    List.forall_mem_map.mpr fun a _ ↦ trivial
  apply Mirrors.mono
  · apply Mirrors.liftExcept_bind
    rintro ⟨⟩
    apply Mirrors.scope (fresh_allocations (by decide) (by decide)) (hmade _)
    -- The environment, then its settings.
    apply Mirrors.call (check_eq_ok _)
    · exact ⟨by decide, by decide, by decide, by decide⟩
    · exact id
    apply Mirrors.liftExcept_bind
    rintro ⟨⟩
    apply Mirrors.liftExcept_bind
    rintro ⟨⟩
    apply Mirrors.liftExcept_bind
    intro isFile
    apply Mirrors.scope_bind (fresh_allocations (by decide) (by decide)) (hmade _)
      (Mirrors.liftExcept _)
    rintro ⟨⟩
    apply Mirrors.scope (fresh_allocations (by decide) (by decide)) (hmade _)
    -- The transaction, in it the root database.
    apply Mirrors.call (check_eq_ok _)
    · exact ⟨by decide, by decide, by decide, by decide⟩
    · exact id
    apply Mirrors.scope_bind (fresh_allocations (by decide) (by decide)) (hmade _)
      (Mirrors.liftExcept _)
    rintro ⟨⟩
    apply Mirrors.scope (fresh_allocations (by decide) (by decide)) (hmade _)
    -- The cursor, and the walk with its buffers.
    apply Mirrors.call (check_eq_ok _)
    · exact ⟨by decide, by decide, by decide, by decide⟩
    · exact id
    apply Mirrors.scope (fresh_allocations hd fun a ha ho ↦ hnew a ha ?_) (hmade _)
      (Mirrors.lift walk)
    simpa using ho
  · simp only [List.append_nil]
    exact List.Sublist.refl _

/-- A walk with the ladder of its handles and one without handles, from the same state: the same
result or error in the same state. The trace is released, nothing is made twice, and what is
closed was made by a call that succeeded. -/
def Cleans (sys : System) (path : Bytes) (x : Traced Handle σ Thrown α) (y : Plain σ Thrown α) :
    Prop :=
  ∀ s, ∃ trace, x ([], s) = ((y s).1, (trace, (y s).2)) ∧ Ledger.Released Handle.parent trace ∧
    ∀ h, trace.count (.closed h) = trace.count (.opened h) ∧ trace.count (.opened h) ≤ 1 ∧
      (.closed h ∈ trace → Made sys path h)

private theorem Cleans.of_mirrors {x : Traced Handle σ Thrown α} {y : Plain σ Thrown α}
    {new : List Handle} {path : Bytes} (hnew : new.Nodup)
    (h : Mirrors Handle.parent (Made sys path) [] new x y) : Cleans sys path x y := by
  intro s
  obtain ⟨trace, hx, hb⟩ := h [] s
  rw [List.nil_append] at hx
  obtain ⟨hr, hall⟩ := hb.released hnew
  refine ⟨trace, hx, hr, fun h ↦ ⟨hr.count_eq h, (hall h).1, fun hm ↦ (hall h).2 ?_⟩⟩
  rw [← List.count_pos_iff, ← hr.count_eq h]
  exact List.count_pos_iff.mpr hm

/-- Both functions release everything on every exit: for every path, every outcome of every LMDB
call and every callback, they end as their calls without handles. -/
theorem walks_release_everything (sys : System) (probe : Except Bytes Unit) (path : Bytes)
    (onEntry : Bytes → Bytes → Plain σ Thrown Bool) (relationId sourceObjectId : Int) :
    Cleans sys path (forEachRootEntry sys probe path onEntry)
        (rootCursorWalk sys probe path (rootWalk sys path onEntry)) ∧
      Cleans sys path
        (readRelationTargets sys probe path relationId sourceObjectId :
          Traced Handle σ Thrown (List Int))
        (rootCursorWalk sys probe path (targetWalk sys path relationId sourceObjectId)) := by
  constructor
  · apply Cleans.of_mirrors _ (withRootCursor_mirrors probe path _ _ _)
    · decide
    · decide
    · decide
  · apply Cleans.of_mirrors _ (withRootCursor_mirrors probe path _ _ _)
    · decide
    · decide
    · decide

/-- A callback that throws on the first entry. -/
example : (forEachRootEntry (Store.system ⟨[([0x18], [])], by decide⟩) (.ok ()) (lit "data.mdb")
    (fun _ _ ↦ throw (.object (lit "stop")))) ([], ()) =
      (.error (.object (lit "stop")),
        ([.opened (.allocation .envPtrPtr), .opened .env, .opened (.allocation .pathPtr),
          .closed (.allocation .pathPtr), .opened (.allocation .txnPtrPtr), .opened .txn,
          .opened (.allocation .dbiPtr), .closed (.allocation .dbiPtr),
          .opened (.allocation .cursorPtrPtr), .opened .cursor, .opened (.allocation .keyVal),
          .opened (.allocation .dataVal), .closed (.allocation .keyVal),
          .closed (.allocation .dataVal), .closed .cursor, .closed (.allocation .cursorPtrPtr),
          .closed .txn, .closed (.allocation .txnPtrPtr), .closed .env,
          .closed (.allocation .envPtrPtr)], ())) := rfl

/-! ### The walks on an open transaction -/

/-- Every call before the cursor succeeds. -/
structure Opens (sys : System) (probe : Except Bytes Unit) (path : Bytes) : Prop where
  loaded : probe = .ok ()
  envCreate : sys.envCreate = 0
  setMaxdbs : sys.setMaxdbs = 0
  setMapsize : sys.setMapsize = 0
  envOpen : ∃ isFile, sys.isRegularFile path = .ok isFile ∧ sys.envOpen (cstr path) isFile = 0
  txnBegin : sys.txnBegin (cstr path) = 0
  dbiOpen : sys.dbiOpen (cstr path) = 0

variable {probe : Except Bytes Unit} {path : Bytes}

private theorem rootCursorWalk_of_opens (h : Opens sys probe path) (walk : Plain σ Thrown α) :
    rootCursorWalk sys probe path walk =
      (liftM (check sys (lit "mdb_cursor_open") (sys.txn (cstr path)).cursorOpen) >>=
        fun _ ↦ walk) := by
  obtain ⟨isFile, hfile, hopen⟩ := h.envOpen
  have hzero (what : Bytes) : check sys what 0 = .ok () := (check_eq_ok what 0).mpr rfl
  unfold rootCursorWalk isFileSync
  rw [h.loaded, h.envCreate, h.setMaxdbs, h.setMapsize, h.txnBegin, h.dbiOpen, hfile]
  simp only [hzero]
  show (liftM (check sys _ (sys.envOpen (cstr path) isFile)) >>= fun _ ↦ _ : Plain σ Thrown α) = _
  rw [hopen, hzero]
  rfl

/-- On an open transaction `readRelationTargets` returns what the search on it does. -/
theorem rootCursorWalk_targets (h : Opens sys probe path) (relationId sourceObjectId : Int)
    (s : σ) :
    (rootCursorWalk sys probe path (targetWalk sys path relationId sourceObjectId)) s =
      ((Dart.readRelationTargets ⟨sys, sys.txn (cstr path)⟩ relationId
        (UInt32.ofInt sourceObjectId)).mapError .lmdbException, s) := by
  rw [rootCursorWalk_of_opens h, Dart.readRelationTargets]
  by_cases hc : (sys.txn (cstr path)).cursorOpen = 0
  · rw [if_neg (not_not.mpr hc), (check_eq_ok _ _).mpr hc]
    show (targetWalk sys path relationId sourceObjectId : Plain σ Thrown _) s = _
    unfold targetWalk checkCursorGet
    dsimp only
    split_ifs with hrc
    · rw [check, if_pos hrc.1]
      rfl
    · rfl
  · rw [if_pos hc, check, if_pos hc]
    rfl

/-- A callback that does not throw. -/
def quiet (visit : σ → Bytes → Bytes → σ × Bool) (key value : Bytes) : Plain σ Thrown Bool :=
  fun s ↦ (.ok (visit s key value).2, (visit s key value).1)

private theorem walkEntries_pure (visit : σ → Bytes → Bytes → σ × Bool) (rc : Int)
    (es : List Entry) (s : σ) :
    walkEntries (quiet visit) rc es s =
      (.ok (Dart.walkEntries visit rc es s).2, (Dart.walkEntries visit rc es s).1) := by
  induction es generalizing s with
  | nil => rfl
  | cons e es ih =>
    rw [walkEntries, Dart.walkEntries, Traced.bind_apply, quiet]
    cases hv : visit s e.1 e.2 with
    | mk s' b =>
      cases b with
      | false => rfl
      | true => exact ih s'

/-- On an open transaction `forEachRootEntry` with a callback that does not throw is the walk of
that transaction. -/
theorem rootCursorWalk_entries (h : Opens sys probe path)
    (visit : σ → Bytes → Bytes → σ × Bool) (s : σ) :
    (rootCursorWalk sys probe path (rootWalk sys path (quiet visit))) s =
      ((Dart.forEachRootEntry ⟨sys, sys.txn (cstr path)⟩ visit s).2.mapError .lmdbException,
        (Dart.forEachRootEntry ⟨sys, sys.txn (cstr path)⟩ visit s).1) := by
  rw [rootCursorWalk_of_opens h, Dart.forEachRootEntry]
  by_cases hc : (sys.txn (cstr path)).cursorOpen = 0
  · rw [if_neg (not_not.mpr hc), (check_eq_ok _ _).mpr hc]
    show (rootWalk sys path _ : Plain σ Thrown Unit) s = _
    rw [rootWalk, Traced.bind_apply, walkEntries_pure]
    simp only [checkCursorGet]
    split_ifs with hrc
    · rw [check, if_pos hrc.1]
      rfl
    · rfl
  · rw [if_pos hc, check, if_pos hc]
    rfl

end

end ObDump.Dart.LmdbRootWalk
