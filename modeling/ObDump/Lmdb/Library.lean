import ObDump.Base.Bytes

/-!
# The LMDB library

Library `Lmdb`. What the calls of LMDB return is a parameter of the readers. A
cursor walk is the entries it delivers and the code that ends it. `Serves` is the
documented behaviour on a store: all entries in byte-lexicographic key order, and a
range search that starts at the first key not below the given one.
-/

namespace ObDump

open Base

/-- A key with its value. -/
abbrev Entry := Bytes × Bytes

/-- The contents of a database: keys in strictly increasing byte order, a prefix first. -/
structure Store where
  entries : List Entry
  sorted : entries.Pairwise (fun a b ↦ a.1 < b.1)

/-- `MDB_NOTFOUND`. -/
def MDB_NOTFOUND : Int := -30798

/-- The results of `mdb_cursor_get` from a start position on: the entries delivered with
code 0, then the first other code. -/
structure CursorWalk where
  entries : List Entry
  rc : Int
  rc_ne_zero : rc ≠ 0

/-- A read transaction: what opening a cursor returns, and the walks from `MDB_FIRST` and
from `MDB_SET_RANGE` with `MDB_NEXT`. -/
structure Txn where
  cursorOpen : Int
  fromFirst : CursorWalk
  fromRange : Bytes → CursorWalk

/-- Every call succeeds, and the walks run over the store. -/
structure Txn.Serves (txn : Txn) (store : Store) : Prop where
  cursorOpen : txn.cursorOpen = 0
  first_entries : txn.fromFirst.entries = store.entries
  first_rc : txn.fromFirst.rc = MDB_NOTFOUND
  range_entries : ∀ key, (txn.fromRange key).entries =
    store.entries.dropWhile (fun e ↦ decide (e.1 < key))
  range_rc : ∀ key, (txn.fromRange key).rc = MDB_NOTFOUND

/-- The transaction of a store whose calls all succeed. -/
def Store.txn (store : Store) : Txn where
  cursorOpen := 0
  fromFirst := ⟨store.entries, MDB_NOTFOUND, by decide⟩
  fromRange key := ⟨store.entries.dropWhile (fun e ↦ decide (e.1 < key)), MDB_NOTFOUND, by decide⟩

/-- Such a transaction serves its store. -/
theorem Store.txn_serves (store : Store) : store.txn.Serves store :=
  ⟨rfl, rfl, rfl, fun _ ↦ rfl, fun _ ↦ rfl⟩

/-- The file system and the environment calls: their codes, the transaction they lead to and
the texts of the codes. `envOpen` takes the path and whether `MDB_NOSUBDIR` is set. -/
structure System where
  isRegularFile : Bytes → Except Bytes Bool
  envCreate : Int
  setMaxdbs : Int
  setMapsize : Int
  envOpen : Bytes → Bool → Int
  txnBegin : Bytes → Int
  dbiOpen : Bytes → Int
  txn : Bytes → Txn
  strerror : Int → Bytes

/-- A system where every path opens as the given store. -/
def Store.system (store : Store) : System where
  isRegularFile _ := .ok false
  envCreate := 0
  setMaxdbs := 0
  setMapsize := 0
  envOpen _ _ := 0
  txnBegin _ := 0
  dbiOpen _ := 0
  txn _ := store.txn
  strerror _ := lit "MDB_NOTFOUND: No matching key/data pair found"

end ObDump
