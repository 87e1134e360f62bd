import ObDump.Reader.Keys
import ObDump.Schema.Model

/-!
# The LMDB reader

Library `Reader`. `src/lmdb_reader.cpp:23–176`: opening a store, the walk over its object
records and the search for the links of a relation. A callback threads a state through the
walk, so that what it has done is known also when it throws.
-/

namespace ObDump

open Base

/-! ### Opening -/

/-- `src/lmdb_reader.cpp:32–36`. -/
def check (sys : System) (rc : Int) (what : Bytes) : Except Exc Unit :=
  if rc ≠ 0 then throw (.runtimeError (what ++ lit ": " ++ sys.strerror rc)) else pure ()

/-- `src/lmdb_reader.cpp:23–30`. -/
def isRegularFile (sys : System) (path : Bytes) : Except Exc Bool :=
  match sys.isRegularFile path with
  | .ok result => pure result
  | .error message =>
    throw (.runtimeError (lit "cannot stat path: " ++ path ++ lit ": " ++ message))

/-- An open store. -/
structure LmdbReader where
  sys : System
  txn : Txn

/-- The constructor, `src/lmdb_reader.cpp:52–92`. -/
def LmdbReader.ofPath (sys : System) (path : Bytes) : Except Exc LmdbReader := do
  check sys sys.envCreate (lit "mdb_env_create")
  check sys sys.setMaxdbs (lit "mdb_env_set_maxdbs")
  check sys sys.setMapsize (lit "mdb_env_set_mapsize")
  let nosubdir ← isRegularFile sys path
  check sys (sys.envOpen (cstr path) nosubdir) (lit "mdb_env_open(" ++ path ++ lit ")")
  check sys (sys.txnBegin (cstr path)) (lit "mdb_txn_begin")
  check sys (sys.dbiOpen (cstr path)) (lit "mdb_dbi_open")
  pure { sys, txn := sys.txn (cstr path) }

/-- The reader of a store whose calls all succeed. -/
def Store.reader (store : Store) : LmdbReader := ⟨store.system, store.txn⟩

namespace LmdbReader

variable {σ : Type}

/-! ### The walk over the records -/

/-- The loop of `src/lmdb_reader.cpp:110–125`, with the code it leaves: 0 after an early stop. -/
def walkRecords (cb : σ → ObjectRecord → σ × Except Exc Bool) (rc : Int) :
    List Entry → σ → σ × Except Exc Int
  | [], s => (s, .ok rc)
  | e :: es, s =>
    match objectRecord e with
    | none => walkRecords cb rc es s
    | some rec =>
      match cb s rec with
      | (s', .error err) => (s', .error err)
      | (s', .ok false) => (s', .ok 0)
      | (s', .ok true) => walkRecords cb rc es s'

/-- `LmdbReader::forEachObject`, `src/lmdb_reader.cpp:103–131`. -/
def forEachObject (reader : LmdbReader) (cb : σ → ObjectRecord → σ × Except Exc Bool) (s : σ) :
    σ × Except Exc Unit :=
  match check reader.sys reader.txn.cursorOpen (lit "mdb_cursor_open") with
  | .error err => (s, .error err)
  | .ok () =>
    match walkRecords cb reader.txn.fromFirst.rc reader.txn.fromFirst.entries s with
    | (s', .error err) => (s', .error err)
    | (s', .ok rc) =>
      (s', if rc ≠ MDB_NOTFOUND then check reader.sys rc (lit "mdb_cursor_get") else .ok ())

/-! ### The links of a relation -/

/-- `static_cast<uint8_t>((relationId << 2) | kRelationDirectionForward)`;
`src/lmdb_reader.cpp:145`. -/
def relationByte (relationId : Int) : UInt8 :=
  UInt8.ofInt (relationId <<< (2 : Nat)) ||| kRelationDirectionForward

/-- The search prefix of a relation and source; `src/lmdb_reader.cpp:141–146`. -/
def searchPrefix (relationId : Int) (sourceObjectId : UInt32) : Bytes :=
  [kKeyTypeRelation, 0x00, 0x00, relationByte relationId] ++ writeUint32BE sourceObjectId

/-- The loop of `src/lmdb_reader.cpp:160–167`: the targets pushed, and whether it broke off. -/
def walkTargets (pre : Bytes) : List Entry → List UInt32 × Bool
  | [] => ([], false)
  | e :: es =>
    if e.1.length ≠ 12 ∨ e.1.take 8 ≠ pre then ([], true)
    else
      let (targets, stopped) := walkTargets pre es
      (readUint32BE (e.1.drop 8) :: targets, stopped)

/-- `LmdbReader::toManyTargets`, `src/lmdb_reader.cpp:133–176`. -/
def toManyTargets (reader : LmdbReader) (relationId : Int) (sourceObjectId : UInt32) :
    Except Exc (List UInt32) := do
  let pre := searchPrefix relationId sourceObjectId
  let searchKey := pre ++ writeUint32BE 0
  check reader.sys reader.txn.cursorOpen (lit "mdb_cursor_open")
  let walk := reader.txn.fromRange searchKey
  let (targets, stopped) := walkTargets pre walk.entries
  let rc := if stopped then 0 else walk.rc
  if rc ≠ 0 ∧ rc ≠ MDB_NOTFOUND then check reader.sys rc (lit "mdb_cursor_get")
  pure targets

end LmdbReader

end ObDump
