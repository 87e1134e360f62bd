import ObDump.Bindings.Relations
import ObDump.Cli.Main
import ObDump.Lmdb.Served

/-!
# Dumps of database pages

Library `Dump`. The readers and the dumps over the pages of a database, read by the library's
own cursor, against the same over the sorted entries the pages hold.
-/

namespace ObDump

open Base Lmdb

/-! ### A transaction over pages -/

/-- What a reader's loops see of the pages: each loop walks with a fresh cursor. -/
structure Txn.Reads (t : Txn) (txn : MDB_txn) : Prop where
  cursorOpen : t.cursorOpen = 0
  first : Forward txn .MDB_FIRST [] mdb_cursor_init t.fromFirst.entries t.fromFirst.rc
  range : ∀ key, Forward txn .MDB_SET_RANGE key mdb_cursor_init (t.fromRange key).entries
    (t.fromRange key).rc

/-- The transaction over pages that hold a store; the empty key is not searched for. -/
def Store.pages (store : Store) : Txn :=
  { store.txn with
    fromRange := fun key ↦
      if key = [] then ⟨[], MDB_BAD_VALSIZE, by decide⟩ else store.txn.fromRange key }

section

variable {txn : MDB_txn} {store : Store} {reader : LmdbReader} {σ : Type}

private theorem reads_pages (hs : txn.Stores store) : store.pages.Reads txn where
  cursorOpen := rfl
  first := forward_first hs (placed_mdb_cursor_init txn store.entries)
  range key := by
    by_cases hk : key = []
    · subst hk
      exact .stop rfl
    · simp only [Store.pages, if_neg hk]
      exact forward_range hs (placed_mdb_cursor_init txn store.entries) hk

/-- Walks are unique, so there is one such transaction. -/
theorem Txn.Reads.eq {t : Txn} (h : t.Reads txn) (hs : txn.Stores store) : t = store.pages := by
  have hp := reads_pages hs
  have hwalk : ∀ {w w' : CursorWalk}, w.entries = w'.entries ∧ w.rc = w'.rc → w = w' := by
    rintro ⟨es, rc, _⟩ ⟨es', rc', _⟩ ⟨he, hr⟩
    cases he
    cases hr
    rfl
  have hfirst : t.fromFirst = store.pages.fromFirst := hwalk (h.first.unique hp.first)
  have hrange : t.fromRange = store.pages.fromRange :=
    funext fun key ↦ hwalk ((h.range key).unique (hp.range key))
  obtain ⟨o, f, r⟩ := t
  obtain rfl : o = 0 := h.cursorOpen
  obtain rfl : f = _ := hfirst
  obtain rfl : r = _ := hrange
  rfl

/-! ### The readers -/

/-- No loop searches for the empty key, so a reader over pages does what it does over the store
itself. -/
theorem forEachObject_pages (hs : txn.Stores store) (hr : reader.txn.Reads txn)
    (cb : σ → ObjectRecord → σ × Except Exc Bool) (s : σ) :
    reader.forEachObject cb s = store.reader.forEachObject cb s := by
  have hserved : reader.forEachObject cb s =
      LmdbReader.forEachObject ⟨reader.sys, store.txn⟩ cb s := by
    unfold LmdbReader.forEachObject
    rw [hr.eq hs]
    rfl
  rw [hserved, LmdbReader.forEachObject_eq store.txn_serves,
    LmdbReader.forEachObject_eq store.txn_serves]

private theorem toManyTargets_pages (hs : txn.Stores store) (hr : reader.txn.Reads txn)
    (relationId : Int) (sourceId : UInt32) :
    reader.toManyTargets relationId sourceId = store.reader.toManyTargets relationId sourceId := by
  have hserved : reader.toManyTargets relationId sourceId =
      LmdbReader.toManyTargets ⟨reader.sys, store.txn⟩ relationId sourceId := by
    unfold LmdbReader.toManyTargets
    rw [hr.eq hs]
    rfl
  rw [hserved, LmdbReader.toManyTargets_eq store.txn_serves,
    LmdbReader.toManyTargets_eq store.txn_serves]

private theorem Dart.readObjectBoxRecords_pages (hs : txn.Stores store) (hr : reader.txn.Reads txn)
    (onRecord : σ → ObRecord → σ) (s : σ) :
    Dart.readObjectBoxRecords reader onRecord s =
      Dart.readObjectBoxRecords store.reader onRecord s := by
  have hserved : Dart.readObjectBoxRecords reader onRecord s =
      Dart.readObjectBoxRecords ⟨reader.sys, store.txn⟩ onRecord s := by
    unfold Dart.readObjectBoxRecords Dart.forEachRootEntry
    rw [hr.eq hs]
    rfl
  rw [hserved, Dart.readObjectBoxRecords_eq store.txn_serves,
    Dart.readObjectBoxRecords_eq store.txn_serves]

private theorem Dart.readRelationTargets_pages (hs : txn.Stores store) (hr : reader.txn.Reads txn)
    {relationId : Nat} (hid : relationId ≤ 63) {sourceId : UInt32} {targets : List UInt32}
    (ht : reader.toManyTargets relationId sourceId = .ok targets) :
    Dart.readRelationTargets reader relationId sourceId =
      .ok (targets.map fun t ↦ (t.toNat : Int)) := by
  have hserved : Dart.readRelationTargets reader relationId sourceId =
      Dart.readRelationTargets ⟨reader.sys, store.txn⟩ relationId sourceId := by
    unfold Dart.readRelationTargets
    rw [hr.eq hs]
    rfl
  rw [toManyTargets_pages hs hr, LmdbReader.toManyTargets_eq store.txn_serves] at ht
  rw [hserved]
  apply Dart.readRelationTargets_eq store.txn_serves hid
  rw [LmdbReader.toManyTargets_eq store.txn_serves]
  exact ht

/-! ### The dumps -/

private theorem setRelations_pages (hs : txn.Stores store) (hr : reader.txn.Reads txn)
    (objectId : UInt32) (relations : List RelationDef) (obj : Json) :
    setRelations reader objectId relations obj =
      setRelations store.reader objectId relations obj := by
  unfold setRelations
  simp only [toManyTargets_pages hs hr]

private theorem dumpStreaming_pages {lib : Libraries} {sys : System} {mdbPath : Bytes}
    (hs : txn.Stores store) (hopen : LmdbReader.ofPath sys mdbPath = .ok reader)
    (hr : reader.txn.Reads txn) (modelJson : Bytes) (callback : RecordCallback σ) (s : σ) :
    dumpStreaming lib sys mdbPath modelJson callback s =
      dumpStreaming lib store.system mdbPath modelJson callback s := by
  have hopen' : LmdbReader.ofPath store.system mdbPath = .ok store.reader := rfl
  unfold dumpStreaming
  cases Schema.parse lib.json modelJson with
  | error err => rfl
  | ok schema =>
    have hcb : dumpStreamingRecord lib schema reader callback =
        dumpStreamingRecord lib schema store.reader callback := by
      funext s rec
      unfold dumpStreamingRecord
      simp only [setRelations_pages hs hr]
    simp only [hopen, hopen', hcb]
    exact forEachObject_pages hs hr _ s

private theorem dumpToJson_pages {lib : Libraries} {sys : System} {mdbPath : Bytes}
    (hs : txn.Stores store) (hopen : LmdbReader.ofPath sys mdbPath = .ok reader)
    (hr : reader.txn.Reads txn) (modelJson : Bytes) :
    dumpToJson lib sys mdbPath modelJson = dumpToJson lib store.system mdbPath modelJson := by
  have hopen' : LmdbReader.ofPath store.system mdbPath = .ok store.reader := rfl
  unfold dumpToJson
  cases Schema.parse lib.json modelJson with
  | error err => rfl
  | ok schema =>
    have hcb : dumpToJsonRecord lib schema reader = dumpToJsonRecord lib schema store.reader := by
      funext result rec
      unfold dumpToJsonRecord
      simp only [setRelations_pages hs hr]
    simp only [ok_bind, hopen, hopen', hcb, forEachObject_pages hs hr]

/-- The command sees no difference between the pages and the store they hold. -/
theorem run_json_pages {lib : Libraries} {sys : System} {argv : List Bytes}
    (hs : txn.Stores store)
    (hopen : LmdbReader.ofPath sys (cstr (argv.getD 2 [])) = .ok reader)
    (hr : reader.txn.Reads txn) (files : Files) :
    run_json lib sys files argv = run_json lib store.system files argv := by
  unfold run_json ob_dump_stream
  simp only [dumpStreaming_pages hs hopen hr]

/-! ### From pages to the output -/

/-- What readers and dumps make of a transaction is what they make of a store. -/
structure DumpsPages (lib : Libraries) (sys : System) (mdbPath : Bytes) (reader : LmdbReader)
    (store : Store) : Prop where
  records : ∀ (σ : Type) (onRecord : σ → ObRecord → σ) (s : σ),
    let seen := (store.records.map ObjectRecord.toObRecord).foldl onRecord s
    reader.forEachObject (fun s rec ↦ (onRecord s rec.toObRecord, .ok true)) s = (seen, .ok ()) ∧
      Dart.readObjectBoxRecords reader onRecord s = (seen, .ok ())
  links : ∀ relationId ≤ 63, ∀ sourceId : UInt32, ∃ targets,
    store.reader.toManyTargets (relationId : Nat) sourceId = .ok targets ∧
      reader.toManyTargets relationId sourceId = .ok targets ∧
      Dart.readRelationTargets reader relationId sourceId =
        .ok (targets.map fun t ↦ (t.toNat : Int))
  dump : ∀ modelJson,
    dumpToJson lib sys (cstr mdbPath) modelJson =
      dumpToJson lib store.system (cstr mdbPath) modelJson
  stream : ∀ (σ : Type) modelJson (callback : ObDumpRecordCallback σ) (s : σ),
    ob_dump_stream lib sys (some ⟨.path, some mdbPath⟩) modelJson (some callback) s =
      ob_dump_stream lib store.system (some ⟨.path, some mdbPath⟩) modelJson (some callback) s
  command : ∀ files argv, argv.getD 2 [] = mdbPath →
    run_json lib sys files argv = run_json lib store.system files argv

/-- Over pages of any shape that hold a store, read by the library's cursor, the C++ and the Dart
readers hand out exactly the store's records and links, and the dump, the entry point and the
command do what they do over the sorted entries. -/
theorem dumps_pages (lib : Libraries) (sys : System) (mdbPath : Bytes) (hs : txn.Stores store)
    (hopen : LmdbReader.ofPath sys (cstr mdbPath) = .ok reader) (hr : reader.txn.Reads txn) :
    DumpsPages lib sys mdbPath reader store where
  records σ onRecord s := by
    rw [forEachObject_pages hs hr, LmdbReader.forEachObject_eq store.txn_serves,
      Dart.readObjectBoxRecords_pages hs hr, Dart.readObjectBoxRecords_eq store.txn_serves]
    simp only [List.foldl_map]
    exact ⟨deliver_continue (fun s rec ↦ onRecord s rec.toObRecord) store.records s, trivial⟩
  links relationId hid sourceId := by
    obtain ⟨targets, ht⟩ :
        ∃ targets, store.reader.toManyTargets relationId sourceId = .ok targets :=
      LmdbReader.toManyTargets_ok store.txn_serves relationId sourceId
    have ht' := (toManyTargets_pages hs hr relationId sourceId).trans ht
    exact ⟨targets, ht, ht', Dart.readRelationTargets_pages hs hr hid ht'⟩
  dump modelJson := dumpToJson_pages hs hopen hr modelJson
  stream σ modelJson callback s := by
    cases modelJson with
    | none => rfl
    | some model =>
      unfold ob_dump_stream
      simp only [dumpStreaming_pages hs hopen hr]
  command files argv hargv := run_json_pages hs (hargv ▸ hopen) hr files

end

/-- The three pages of the sample, opened. -/
theorem dumps_pages_sample :
    DumpsPages .reference { sampleStore.system with txn := fun _ ↦ sampleStore.pages }
      (lit "data.mdb") ⟨{ sampleStore.system with txn := fun _ ↦ sampleStore.pages },
        sampleStore.pages⟩ sampleStore :=
  dumps_pages .reference _ (lit "data.mdb") sampleTxn_stores rfl (reads_pages sampleTxn_stores)

end ObDump
