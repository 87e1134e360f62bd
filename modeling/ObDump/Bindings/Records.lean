import ObDump.Reader.Records

/-!
# The record walks of the language bindings

Library `Bindings`. The record walks of `dart/lib/ob_dump_reader.dart`,
`py/src/ob_dump_reader/__init__.py` and `js/src/index.ts`. Each reads the key with its own
language's arithmetic: 64-bit shifts in Dart, unbounded ones in Python, signed 32-bit
ones in JavaScript. All of them see the records of the C++ reader.
-/

namespace ObDump

open Base

/-- `ObRecord` of the bindings. -/
structure ObRecord where
  entityId : Int
  objectId : Int
  data : Bytes
  deriving DecidableEq, Repr

/-- The C++ reader's record, as a binding has it. -/
def ObjectRecord.toObRecord (rec : ObjectRecord) : ObRecord :=
  ⟨rec.entityId, rec.objectId.toNat, rec.data⟩

section

variable {σ : Type}

/-! ### Dart -/

namespace Dart

/-- A signed 64-bit integer. -/
def toInt64 (n : Int) : Int := (BitVec.ofInt 64 n).toInt

/-- `_readUint32BE`, `dart/lib/ob_dump_reader.dart:95–100`. -/
def readUint32BE (bytes : Bytes) (offset : Nat) : Int :=
  toInt64 ((bytes.getD offset 0).toNat <<< 24 ||| (bytes.getD (offset + 1) 0).toNat <<< 16 |||
    (bytes.getD (offset + 2) 0).toNat <<< 8 ||| (bytes.getD (offset + 3) 0).toNat : Nat)

/-- The loop of `dart/lib/src/lmdb_root_walk.dart:111–117`, with the code it leaves. -/
def walkEntries (onEntry : σ → Bytes → Bytes → σ × Bool) (rc : Int) :
    List Entry → σ → σ × Int
  | [], s => (s, rc)
  | e :: es, s =>
    match onEntry s e.1 e.2 with
    | (s', false) => (s', 0)
    | (s', true) => walkEntries onEntry rc es s'

/-- `forEachRootEntry` on an open transaction, `dart/lib/src/lmdb_root_walk.dart:105–120`; the
error is the exception's text. -/
def forEachRootEntry (reader : LmdbReader) (onEntry : σ → Bytes → Bytes → σ × Bool) (s : σ) :
    σ × Except Bytes Unit :=
  if reader.txn.cursorOpen ≠ 0 then
    (s, .error (lit "mdb_cursor_open: " ++ reader.sys.strerror reader.txn.cursorOpen))
  else
    let (s', rc) := walkEntries onEntry reader.txn.fromFirst.rc reader.txn.fromFirst.entries s
    if rc ≠ 0 ∧ rc ≠ MDB_NOTFOUND then
      (s', .error (lit "mdb_cursor_get: " ++ reader.sys.strerror rc))
    else (s', .ok ())

/-- The closure of `dart/lib/ob_dump_reader.dart:85–92`. -/
def visit (onRecord : σ → ObRecord → σ) (s : σ) (key value : Bytes) : σ × Bool :=
  if key.length = 8 ∧ key.getD 0 0 = 0x18 then
    (onRecord s ⟨((key.getD 3 0).toNat / 4 : Nat), readUint32BE key 4, value⟩, true)
  else (s, true)

/-- `readObjectBoxRecords`, `dart/lib/ob_dump_reader.dart:81–93`. -/
def readObjectBoxRecords (reader : LmdbReader) (onRecord : σ → ObRecord → σ) (s : σ) :
    σ × Except Bytes Unit :=
  forEachRootEntry reader (visit onRecord) s

end Dart

/-! ### Python -/

namespace Py

/-- `read_uint32be`, `py/src/ob_dump_reader/decode_helpers.py:30–36`. -/
def read_uint32be (buf : Bytes) (offset : Nat) : Int :=
  ((buf.getD offset 0).toNat <<< 24 ||| (buf.getD (offset + 1) 0).toNat <<< 16 |||
    (buf.getD (offset + 2) 0).toNat <<< 8 ||| (buf.getD (offset + 3) 0).toNat : Nat)

/-- The body of the loop, `py/src/ob_dump_reader/__init__.py:42–52`. -/
def visit (onRecord : σ → ObRecord → σ) (s : σ) (e : Entry) : σ :=
  if e.1 ≠ [] ∧ e.1.length = 8 ∧ e.1.getD 0 0 = 0x18 then
    onRecord s ⟨((e.1.getD 3 0).toNat / 4 : Nat), read_uint32be e.1 4, e.2⟩
  else s

/-- `read_objectbox_records`, `py/src/ob_dump_reader/__init__.py:28–52`, on the entries the
cursor iterates over. -/
def read_objectbox_records (cursor : List Entry) (onRecord : σ → ObRecord → σ) (s : σ) : σ :=
  cursor.foldl (visit onRecord) s

end Py

/-! ### JavaScript -/

namespace Js

/-- `a << n` on signed 32-bit integers. -/
def shl (a : Int) (n : Nat) : Int := (BitVec.ofInt 32 a <<< n).toInt

/-- `a | b` on signed 32-bit integers. -/
def or (a b : Int) : Int := (BitVec.ofInt 32 a ||| BitVec.ofInt 32 b).toInt

/-- `readUint32be`, `js/src/decodeHelpers.ts:15–20`. -/
def readUint32be (buf : Bytes) (offset : Nat) : Int :=
  (buf.getD offset 0).toNat * 0x1000000 +
    or (or (shl (buf.getD (offset + 1) 0).toNat 16) (shl (buf.getD (offset + 2) 0).toNat 8))
      (buf.getD (offset + 3) 0).toNat

/-- The body of the loop, `js/src/index.ts:42–49`; the quotient is rounded down. -/
def visit (onRecord : σ → ObRecord → σ) (s : σ) (e : Entry) : σ :=
  if e.1.length = 8 ∧ e.1.getD 0 0 = 0x18 then
    onRecord s ⟨((e.1.getD 3 0).toNat : Int) / 4, readUint32be e.1 4, e.2⟩
  else s

/-- `readObjectboxRecords`, `js/src/index.ts:35–54`, on the entries of `getRange`. -/
def readObjectboxRecords (range : List Entry) (onRecord : σ → ObRecord → σ) (s : σ) : σ :=
  range.foldl (visit onRecord) s

end Js

end

/-! ### Their integers -/

private theorem getD_of_drop_eq {key rest : Bytes} {offset : Nat} (h : key.drop offset = rest)
    (i : Nat) : key.getD (offset + i) 0 = rest.getD i 0 := by
  rw [← h, List.getD_eq_getElem?_getD, List.getD_eq_getElem?_getD, List.getElem?_drop]

private theorem exists_last_four {key : Bytes} {offset : Nat} (h : key.length = offset + 4) :
    ∃ a b c d : UInt8, key.drop offset = [a, b, c, d] := by
  apply eq_four_of_length
  rw [List.length_drop]
  omega

private theorem shifts_eq {key : Bytes} {offset : Nat} (h : key.length = offset + 4) :
    (key.getD offset 0).toNat <<< 24 ||| (key.getD (offset + 1) 0).toNat <<< 16 |||
      (key.getD (offset + 2) 0).toNat <<< 8 ||| (key.getD (offset + 3) 0).toNat =
        (readUint32BE (key.drop offset)).toNat := by
  obtain ⟨a, b, c, d, hk⟩ := exists_last_four h
  have h0 := getD_of_drop_eq hk 0
  have hb : b.toNat < 256 := b.toNat_lt
  have hc : c.toNat < 256 := c.toNat_lt
  have hd : d.toNat < 256 := d.toNat_lt
  rw [Nat.add_zero] at h0
  rw [h0, getD_of_drop_eq hk, getD_of_drop_eq hk, getD_of_drop_eq hk, hk]
  simp only [List.getD_cons_zero, List.getD_cons_succ]
  rw [or_shift_eq _ hb hc hd, toNat_readUint32BE rfl, ofBE_four]

private theorem Dart.readUint32BE_eq {key : Bytes} (h : key.length = 8) :
    Dart.readUint32BE key 4 = (ObDump.readUint32BE (key.drop 4)).toNat := by
  have hlt : (ObDump.readUint32BE (key.drop 4)).toNat < 2 ^ 32 := UInt32.toNat_lt _
  rw [Dart.readUint32BE, shifts_eq h, Dart.toInt64, BitVec.toInt_ofInt]
  exact Int.bmod_eq_of_le (by omega) (by omega)

/-- Python reads the last four bytes of a key as the C++ reader does. -/
theorem Py.read_uint32be_eq {key : Bytes} {offset : Nat} (h : key.length = offset + 4) :
    Py.read_uint32be key offset = (readUint32BE (key.drop offset)).toNat := by
  rw [Py.read_uint32be, shifts_eq h]

private theorem Js.toInt_ofNat {n : Nat} (h : n < 2 ^ 31) : (BitVec.ofNat 32 n).toInt = n := by
  rw [BitVec.toInt_eq_toNat_of_lt] <;> rw [BitVec.toNat_ofNat, Nat.mod_eq_of_lt (by omega)]
  omega

private theorem Js.shl_eq {a n : Nat} (h : a <<< n < 2 ^ 31) : Js.shl a n = (a <<< n : Nat) := by
  have hs : BitVec.ofNat 32 a <<< n = BitVec.ofNat 32 (a <<< n) := by
    apply BitVec.eq_of_toNat_eq
    rw [BitVec.toNat_shiftLeft, BitVec.toNat_ofNat, BitVec.toNat_ofNat, Nat.shiftLeft_eq,
      Nat.shiftLeft_eq, Nat.mod_mul_mod]
  rw [Js.shl, BitVec.ofInt_natCast, hs]
  exact Js.toInt_ofNat h

private theorem Js.or_eq {a b : Nat} (h : a ||| b < 2 ^ 31) : Js.or a b = (a ||| b : Nat) := by
  rw [Js.or, BitVec.ofInt_natCast, BitVec.ofInt_natCast, ← BitVec.ofNat_or]
  exact Js.toInt_ofNat h

/-- So does JavaScript. -/
theorem Js.readUint32be_eq {key : Bytes} {offset : Nat} (h : key.length = offset + 4) :
    Js.readUint32be key offset = (readUint32BE (key.drop offset)).toNat := by
  obtain ⟨a, b, c, d, hk⟩ := exists_last_four h
  have h0 := getD_of_drop_eq hk 0
  have hb : b.toNat < 256 := b.toNat_lt
  have hc : c.toNat < 256 := c.toNat_lt
  have hd : d.toNat < 256 := d.toNat_lt
  have hsum := or_shift_eq 0 hb hc hd
  have hpart := or_shift_eq 0 hb hc (show 0 < 256 by decide)
  rw [Nat.zero_shiftLeft, Nat.zero_or] at hsum hpart
  rw [Nat.or_zero] at hpart
  rw [Nat.add_zero] at h0
  rw [← shifts_eq h, Js.readUint32be, h0, getD_of_drop_eq hk, getD_of_drop_eq hk,
    getD_of_drop_eq hk]
  simp only [List.getD_cons_zero, List.getD_cons_succ]
  rw [Js.shl_eq (by rw [Nat.shiftLeft_eq]; omega), Js.shl_eq (by rw [Nat.shiftLeft_eq]; omega),
    Js.or_eq (by omega), Js.or_eq (by omega), hsum, or_shift_eq _ hb hc hd]
  push_cast
  omega

/-! ### The four walks -/

section

variable {σ : Type}

private theorem Dart.visit_eq (onRecord : σ → ObRecord → σ) (s : σ) (e : Entry) :
    Dart.visit onRecord s e.1 e.2 =
      ((objectRecord e).elim s fun rec ↦ onRecord s rec.toObRecord, true) := by
  unfold Dart.visit objectRecord
  by_cases h : e.1.length = 8 ∧ e.1.getD 0 0 = kKeyTypeData
  · have h' : e.1.length = 8 ∧ e.1.getD 0 0 = 0x18 := h
    rw [if_pos h', if_pos h, Dart.readUint32BE_eq h.1]
    rfl
  · have h' : ¬ (e.1.length = 8 ∧ e.1.getD 0 0 = 0x18) := h
    rw [if_neg h', if_neg h]
    rfl

private theorem Py.visit_eq (onRecord : σ → ObRecord → σ) (s : σ) (e : Entry) :
    Py.visit onRecord s e = (objectRecord e).elim s fun rec ↦ onRecord s rec.toObRecord := by
  unfold Py.visit objectRecord
  by_cases h : e.1.length = 8 ∧ e.1.getD 0 0 = kKeyTypeData
  · have hne : e.1 ≠ [] := fun he ↦ by simp [he] at h
    rw [if_pos ⟨hne, h⟩, if_pos h, Py.read_uint32be_eq h.1]
    rfl
  · rw [if_neg fun hc ↦ h hc.2, if_neg h]
    rfl

private theorem Js.visit_eq (onRecord : σ → ObRecord → σ) (s : σ) (e : Entry) :
    Js.visit onRecord s e = (objectRecord e).elim s fun rec ↦ onRecord s rec.toObRecord := by
  unfold Js.visit objectRecord
  by_cases h : e.1.length = 8 ∧ e.1.getD 0 0 = kKeyTypeData
  · have h' : e.1.length = 8 ∧ e.1.getD 0 0 = 0x18 := h
    rw [if_pos h', if_pos h, Js.readUint32be_eq h.1]
    rfl
  · have h' : ¬ (e.1.length = 8 ∧ e.1.getD 0 0 = 0x18) := h
    rw [if_neg h', if_neg h]
    rfl

private theorem foldl_records {visit : σ → Entry → σ} {act : σ → ObjectRecord → σ}
    (h : ∀ s e, visit s e = (objectRecord e).elim s (act s)) (store : Store) (s : σ) :
    store.entries.foldl visit s = store.records.foldl act s := by
  rw [Store.records, List.foldl_filterMap]
  congr 1
  funext s e
  rw [h]
  cases objectRecord e <;> rfl

private theorem Dart.walkEntries_eq {onEntry : σ → Bytes → Bytes → σ × Bool}
    {visit : σ → Entry → σ} (h : ∀ s e, onEntry s e.1 e.2 = (visit s e, true)) (rc : Int)
    (es : List Entry) (s : σ) : Dart.walkEntries onEntry rc es s = (es.foldl visit s, rc) := by
  induction es generalizing s with
  | nil => rfl
  | cons e es ih =>
    rw [Dart.walkEntries, h]
    exact ih (visit s e)

/-- The walk in Dart makes one call a record, in the order of the store. -/
theorem Dart.readObjectBoxRecords_eq {reader : LmdbReader} {store : Store}
    (hs : reader.txn.Serves store) (onRecord : σ → ObRecord → σ) (s : σ) :
    Dart.readObjectBoxRecords reader onRecord s =
      (store.records.foldl (fun s rec ↦ onRecord s rec.toObRecord) s, .ok ()) := by
  have hw := Dart.walkEntries_eq (Dart.visit_eq onRecord) reader.txn.fromFirst.rc store.entries s
  rw [Dart.readObjectBoxRecords, Dart.forEachRootEntry, if_neg (by rw [hs.cursorOpen]; decide),
    hs.first_entries, hw, foldl_records (fun _ _ ↦ rfl) store s]
  simp [hs.first_rc]

end

/-- All four implementations call back on the store's records, in their order. -/
def RecordWalksAgree (reader : LmdbReader) (store : Store) : Prop :=
  ∀ (σ : Type) (onRecord : σ → ObRecord → σ) (s : σ),
    let seen := (store.records.map ObjectRecord.toObRecord).foldl onRecord s
    reader.forEachObject (fun s rec ↦ (onRecord s rec.toObRecord, .ok true)) s = (seen, .ok ()) ∧
      Dart.readObjectBoxRecords reader onRecord s = (seen, .ok ()) ∧
      Py.read_objectbox_records store.entries onRecord s = seen ∧
      Js.readObjectboxRecords store.entries onRecord s = seen

/-- On a store of the documented form, the four implementations call back on the same
records in the same order: each stored object once, with the ids its key was built from,
in strictly increasing order of the ids, and nothing for any other key. -/
theorem record_walks_agree (reader : LmdbReader) (store : Store)
    (hs : reader.txn.Serves store) (hd : store.Documented) :
    RecordWalksAgree reader store ∧ store.records.Pairwise ObjectRecord.Before ∧
      ∀ rec, rec ∈ store.records ↔ ∃ n ≤ 63, ∃ objectId value,
        (dataKey n objectId, value) ∈ store.entries ∧ rec = ⟨n, objectId, value⟩ := by
  refine ⟨fun σ onRecord s ↦ ?_, Store.records_sorted hd, Store.mem_records_iff hd⟩
  simp only [List.foldl_map]
  refine ⟨?_, Dart.readObjectBoxRecords_eq hs onRecord s,
    foldl_records (Py.visit_eq onRecord) store s, foldl_records (Js.visit_eq onRecord) store s⟩
  rw [LmdbReader.forEachObject_eq hs]
  exact deliver_continue (fun s rec ↦ onRecord s rec.toObRecord) store.records s

/-- Two entities, a schema entry, a link and a short key. -/
private def recordStore : Store where
  entries :=
    [([0x00, 0, 0, 4, 0, 0, 0, 1], [9]), ([0x08, 0, 0, 4, 0, 0, 0, 1, 0, 0, 0, 2], []),
      (dataKey 1 2, [1]), (dataKey 1 0x80000001, [2]), (dataKey 63 5, [3]), ([0x18, 7], [8])]
  sorted := by decide

/-- One store. -/
theorem record_walks_agree_sample :
    RecordWalksAgree recordStore.reader recordStore ∧
      recordStore.records.Pairwise ObjectRecord.Before ∧
      ∀ rec, rec ∈ recordStore.records ↔ ∃ n ≤ 63, ∃ objectId value,
        (dataKey n objectId, value) ∈ recordStore.entries ∧ rec = ⟨n, objectId, value⟩ := by
  refine record_walks_agree recordStore.reader recordStore recordStore.txn_serves ?_
  unfold Store.Documented IsDataKey DocumentedKey
  decide

end ObDump
