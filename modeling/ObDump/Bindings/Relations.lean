import ObDump.Base.Except
import ObDump.Bindings.Records
import ObDump.Reader.Relations

/-!
# The link searches of the language bindings

Library `Bindings`. `readRelationTargets` of `dart/lib/src/lmdb_root_walk.dart`,
`read_objectbox_to_many_targets` of `py/src/ob_dump_reader/__init__.py` and
`readObjectboxToManyTargets` of `js/src/index.ts`. Dart seeks and stops as the C++ reader does.
Python and JavaScript seek the bare prefix and test nothing but the prefix, so a key with it
that is no link of twelve bytes is read as one.
-/

namespace ObDump

open Base

/-! ### Dart -/

namespace Dart

/-- `((relationId << 2) | 0) & 0xFF`; `dart/lib/src/lmdb_root_walk.dart:201`. -/
def relationByte (relationId : Int) : UInt8 := UInt8.ofInt (toInt64 (relationId <<< (2 : Nat)))

/-- `dart/lib/src/lmdb_root_walk.dart:199–204`. -/
def searchPrefix (relationId : Int) (sourceObjectId : UInt32) : Bytes :=
  [0x08, 0x00, 0x00, relationByte relationId] ++ writeUint32BE sourceObjectId

/-- The loop of `dart/lib/src/lmdb_root_walk.dart:217–226`, with the code it leaves. -/
def walkTargets (pre : Bytes) (rc : Int) : List Entry → List Int × Int
  | [] => ([], rc)
  | e :: es =>
    if e.1.length ≠ 12 ∨ !pre.isPrefixOf e.1 then ([], 0)
    else
      let (targets, rc') := walkTargets pre rc es
      (((ObDump.readUint32BE (e.1.drop 8)).toNat : Int) :: targets, rc')

/-- `readRelationTargets` on an open transaction, `dart/lib/src/lmdb_root_walk.dart:191–229`. -/
def readRelationTargets (reader : LmdbReader) (relationId : Int) (sourceObjectId : UInt32) :
    Except Bytes (List Int) :=
  if reader.txn.cursorOpen ≠ 0 then
    .error (lit "mdb_cursor_open: " ++ reader.sys.strerror reader.txn.cursorOpen)
  else
    let pre := searchPrefix relationId sourceObjectId
    let walk := reader.txn.fromRange (pre ++ [0, 0, 0, 0])
    let (targets, rc) := walkTargets pre walk.rc walk.entries
    if rc ≠ 0 ∧ rc ≠ MDB_NOTFOUND then
      .error (lit "mdb_cursor_get: " ++ reader.sys.strerror rc)
    else .ok targets

end Dart

/-! ### Python -/

/-- The built-in exceptions the Python code can raise. -/
inductive PyError where
  | indexError
  | valueError
  | unicodeDecodeError
  deriving DecidableEq, Repr

namespace Py

/-- `bytes([…, (relation_id << 2) | 0])` and `to_bytes`; an element outside 0 to 255 is a
`ValueError`. `py/src/ob_dump_reader/__init__.py:67–74`. -/
def searchPrefix (relation_id : Int) (source_object_id : UInt32) : Except PyError Bytes :=
  let byte := relation_id <<< (2 : Nat)
  if 0 ≤ byte ∧ byte ≤ 255 then
    .ok ([0x08, 0x00, 0x00, UInt8.ofInt byte] ++ writeUint32BE source_object_id)
  else .error .valueError

/-- `read_uint32be(key, 8)`: an index past the end is an `IndexError`. -/
def readTarget (key : Bytes) : Except PyError Int :=
  if key.length < 12 then .error .indexError else .ok (read_uint32be key 8)

/-- The loop of `py/src/ob_dump_reader/__init__.py:84–87`. -/
def walkTargets (pre : Bytes) : List Entry → Except PyError (List Int)
  | [] => .ok []
  | e :: es =>
    if e.1.take 8 ≠ pre then .ok []
    else do
      let target ← readTarget e.1
      let targets ← walkTargets pre es
      pure (target :: targets)

/-- `read_objectbox_to_many_targets`, `py/src/ob_dump_reader/__init__.py:55–88`. `setRange` is
what the cursor iterates over after `set_range`, nothing if that finds no key. -/
def read_objectbox_to_many_targets (setRange : Bytes → List Entry) (relation_id : Int)
    (source_object_id : UInt32) : Except PyError (List Int) := do
  let pre ← searchPrefix relation_id source_object_id
  walkTargets pre (setRange pre)

end Py

/-! ### JavaScript -/

namespace Js

/-- The assignments of `js/src/index.ts:71–74`; an element keeps its low eight bits. -/
def searchPrefix (relationId : Int) (sourceObjectId : UInt32) : Bytes :=
  [0x08, 0x00, 0x00, UInt8.ofInt (or (shl relationId 2) 0)] ++ writeUint32BE sourceObjectId

/-- `readUint32be(k, 8)`: an element past the end is `undefined`, which makes the product
`NaN`, given as `none`, and counts as 0 in a shift. -/
def readTarget (k : Bytes) : Option Int :=
  if k.length ≤ 8 then none else some (readUint32be k 8)

/-- The loop of `js/src/index.ts:79–83`. -/
def walkTargets (pre : Bytes) : List Entry → List (Option Int)
  | [] => []
  | e :: es => if e.1.take 8 ≠ pre then [] else readTarget e.1 :: walkTargets pre es

/-- `readObjectboxToManyTargets`, `js/src/index.ts:66–88`; `getRange` is what the store yields
from a start key on. -/
def readObjectboxToManyTargets (getRange : Bytes → List Entry) (relationId : Int)
    (sourceObjectId : UInt32) : List (Option Int) :=
  let pre := searchPrefix relationId sourceObjectId
  walkTargets pre (getRange pre)

end Js

/-- The entries from the first key that is not below the given one. -/
def Store.range (store : Store) (key : Bytes) : List Entry :=
  store.entries.dropWhile fun e ↦ decide (e.1 < key)

/-- The four searches return one list of 32-bit integers. -/
def LookupsAgree (reader : LmdbReader) (store : Store) (relationId : Int) (sourceId : UInt32) :
    Prop :=
  ∃ targets : List UInt32,
    reader.toManyTargets relationId sourceId = .ok targets ∧
      Dart.readRelationTargets reader relationId sourceId =
        .ok (targets.map fun t ↦ (t.toNat : Int)) ∧
      Py.read_objectbox_to_many_targets store.range relationId sourceId =
        .ok (targets.map fun t ↦ (t.toNat : Int)) ∧
      Js.readObjectboxToManyTargets store.range relationId sourceId =
        targets.map fun t ↦ some (t.toNat : Int)

/-! ### One prefix -/

private theorem searchPrefixes_eq {relationId : Nat} (h : relationId ≤ 63) (sourceId : UInt32) :
    Dart.searchPrefix relationId sourceId = LmdbReader.searchPrefix relationId sourceId ∧
      Py.searchPrefix relationId sourceId = .ok (LmdbReader.searchPrefix relationId sourceId) ∧
      Js.searchPrefix relationId sourceId = LmdbReader.searchPrefix relationId sourceId := by
  have hbytes : ∀ r : Fin 64, Dart.relationByte (r.val : Int) = LmdbReader.relationByte r.val ∧
      0 ≤ (r.val : Int) <<< (2 : Nat) ∧ (r.val : Int) <<< (2 : Nat) ≤ 255 ∧
      UInt8.ofInt ((r.val : Int) <<< (2 : Nat)) = LmdbReader.relationByte r.val ∧
      UInt8.ofInt (Js.or (Js.shl r.val 2) 0) = LmdbReader.relationByte r.val := by
    decide
  obtain ⟨hdart, hlow, hhigh, hpy, hjs⟩ := hbytes ⟨relationId, by omega⟩
  refine ⟨?_, ?_, ?_⟩
  · rw [Dart.searchPrefix, hdart]
    rfl
  · rw [Py.searchPrefix, if_pos ⟨hlow, hhigh⟩, hpy]
    rfl
  · rw [Js.searchPrefix, hjs]
    rfl

/-! ### Dart searches as the C++ reader does -/

private theorem isPrefixOf_eq_take {pre : Bytes} (hpre : pre.length = 8) (key : Bytes) :
    pre.isPrefixOf key = decide (key.take 8 = pre) := by
  rw [Bool.eq_iff_iff, List.isPrefixOf_iff_prefix, decide_eq_true_iff, List.prefix_iff_eq_take,
    hpre, eq_comm]

private theorem Dart.walkTargets_eq {pre : Bytes} (hpre : pre.length = 8) (rc : Int)
    (es : List Entry) :
    Dart.walkTargets pre rc es =
      ((LmdbReader.walkTargets pre es).1.map fun t ↦ (t.toNat : Int),
        if (LmdbReader.walkTargets pre es).2 then 0 else rc) := by
  induction es with
  | nil => rfl
  | cons e es ih =>
    rw [Dart.walkTargets, LmdbReader.walkTargets, isPrefixOf_eq_take hpre]
    by_cases h : e.1.length ≠ 12 ∨ e.1.take 8 ≠ pre
    · have h' : e.1.length ≠ 12 ∨ !decide (e.1.take 8 = pre) := by simpa using h
      rw [if_pos h, if_pos h']
      rfl
    · have h' : ¬ (e.1.length ≠ 12 ∨ !decide (e.1.take 8 = pre)) := by simpa using h
      rw [if_neg h, if_neg h', ih]
      rfl

variable {reader : LmdbReader} {store : Store}

/-- The lookup in Dart returns the targets of the native one. -/
theorem Dart.readRelationTargets_eq (hs : reader.txn.Serves store) {relationId : Nat}
    (h : relationId ≤ 63) {sourceId : UInt32} {targets : List UInt32}
    (ht : reader.toManyTargets relationId sourceId = .ok targets) :
    Dart.readRelationTargets reader relationId sourceId =
      .ok (targets.map fun t ↦ (t.toNat : Int)) := by
  have hzero : ([0, 0, 0, 0] : Bytes) = writeUint32BE 0 := rfl
  have hopen : ¬ reader.txn.cursorOpen ≠ 0 := not_not.mpr hs.cursorOpen
  rw [LmdbReader.toManyTargets_walk hs] at ht
  rw [Dart.readRelationTargets, if_neg hopen, (searchPrefixes_eq h sourceId).1, hzero]
  simp only [Dart.walkTargets_eq (LmdbReader.length_searchPrefix _ _), hs.range_rc]
  rw [if_neg (LmdbReader.code_of_search _)]
  cases ht
  rfl

/-! ### Python and JavaScript read every key with the prefix -/

/-- The entries whose keys have the search prefix. -/
private def Store.withPrefix (store : Store) (pre : Bytes) : List Entry :=
  store.entries.filter fun e ↦ pre.isPrefixOf e.1

private theorem takeWhile_range (store : Store) {pre : Bytes} (hpre : pre.length = 8) :
    (store.range pre).takeWhile (fun e ↦ decide (e.1.take 8 = pre)) = store.withPrefix pre := by
  have hseek := seek_walk_eq_filter (t := fun _ ↦ true) store.sorted List.prefix_rfl
    (fun _ _ _ ↦ rfl) (p := pre) fun e _ hp ↦ ?_
  · simp only [isPrefixOf_eq_take hpre, Bool.true_and] at hseek
    rw [Store.withPrefix, Store.range, hseek]
    simp only [isPrefixOf_eq_take hpre]
  · obtain ⟨x, hx⟩ := hp
    rw [← hx]
    exact List.le_append_left

private theorem Py.walkTargets_eq (pre : Bytes) (es : List Entry) :
    Py.walkTargets pre es =
      (es.takeWhile fun e ↦ decide (e.1.take 8 = pre)).mapM fun e ↦ Py.readTarget e.1 := by
  induction es with
  | nil => rfl
  | cons e es ih =>
    rw [Py.walkTargets, List.takeWhile_cons]
    by_cases h : e.1.take 8 = pre
    · rw [if_neg (not_not.mpr h), decide_eq_true h, if_pos rfl, List.mapM_cons, ih]
    · rw [if_pos h, decide_eq_false h]
      rfl

private theorem Js.walkTargets_eq (pre : Bytes) (es : List Entry) :
    Js.walkTargets pre es =
      (es.takeWhile fun e ↦ decide (e.1.take 8 = pre)).map fun e ↦ Js.readTarget e.1 := by
  induction es with
  | nil => rfl
  | cons e es ih =>
    rw [Js.walkTargets, List.takeWhile_cons]
    by_cases h : e.1.take 8 = pre
    · rw [if_neg (not_not.mpr h), decide_eq_true h, if_pos rfl, List.map_cons, ih]
    · rw [if_pos h, decide_eq_false h]
      rfl

private theorem Py.lookup_eq {relationId : Nat} (h : relationId ≤ 63) (store : Store)
    (sourceId : UInt32) :
    Py.read_objectbox_to_many_targets store.range relationId sourceId =
      (store.withPrefix (LmdbReader.searchPrefix relationId sourceId)).mapM
        fun e ↦ Py.readTarget e.1 := by
  rw [Py.read_objectbox_to_many_targets, (searchPrefixes_eq h sourceId).2.1, ok_bind,
    Py.walkTargets_eq, takeWhile_range store (LmdbReader.length_searchPrefix _ _)]

private theorem Js.lookup_eq {relationId : Nat} (h : relationId ≤ 63) (store : Store)
    (sourceId : UInt32) :
    Js.readObjectboxToManyTargets store.range relationId sourceId =
      (store.withPrefix (LmdbReader.searchPrefix relationId sourceId)).map
        fun e ↦ Js.readTarget e.1 := by
  rw [Js.readObjectboxToManyTargets, (searchPrefixes_eq h sourceId).2.2, Js.walkTargets_eq,
    takeWhile_range store (LmdbReader.length_searchPrefix _ _)]

private theorem readTarget_of_link {key : Bytes} (h : key.length = 12) :
    Py.readTarget key = .ok ((readUint32BE (key.drop 8)).toNat : Int) ∧
      Js.readTarget key = some ((readUint32BE (key.drop 8)).toNat : Int) := by
  have h8 : key.length = 8 + 4 := h
  constructor
  · rw [Py.readTarget, if_neg (by omega), Py.read_uint32be_eq h8]
  · rw [Js.readTarget, if_neg (by omega), Js.readUint32be_eq h8]

private theorem length_toManyTargets (hs : reader.txn.Serves store) {relationId : Int}
    {sourceId : UInt32} {targets : List UInt32}
    (ht : reader.toManyTargets relationId sourceId = .ok targets) :
    targets.length ≤ ((store.withPrefix (LmdbReader.searchPrefix relationId sourceId)).filter
      fun e ↦ decide (e.1.length = 12)).length := by
  rw [LmdbReader.toManyTargets_eq hs] at ht
  cases ht
  rw [List.length_map, Store.withPrefix, List.filter_filter]
  have hwalk (l : List Entry) (p q : Entry → Bool) :
      ((l.dropWhile q).takeWhile p).length ≤ (l.filter p).length := by
    have hsub := (List.takeWhile_sublist (l := l.dropWhile q) p).trans (List.dropWhile_sublist q)
    have hall := hsub.filter p
    rw [List.filter_eq_self.mpr fun e he ↦ List.mem_takeWhile_imp he] at hall
    exact hall.length_le
  exact hwalk store.entries _ _

/-- For every store, relation id and source, the four searches agree exactly when every key
with their prefix is a link of twelve bytes. -/
theorem lookups_agree_iff (reader : LmdbReader) (store : Store) (hs : reader.txn.Serves store)
    (relationId : Nat) (h : relationId ≤ 63) (sourceId : UInt32) :
    LookupsAgree reader store relationId sourceId ↔
      ∀ e ∈ store.entries, LmdbReader.searchPrefix relationId sourceId <+: e.1 →
        e.1.length = 12 := by
  constructor
  · rintro ⟨targets, hcpp, -, hpy, -⟩ e he hp
    rw [Py.lookup_eq h, mapM_eq_ok] at hpy
    have hle := length_toManyTargets hs hcpp
    have hpylen := hpy.length_eq
    rw [List.length_map] at hpylen
    have hlen : ((store.withPrefix (LmdbReader.searchPrefix relationId sourceId)).filter
        fun e ↦ decide (e.1.length = 12)).length =
          (store.withPrefix (LmdbReader.searchPrefix relationId sourceId)).length :=
      Nat.le_antisymm (List.length_filter_le _ _) (hpylen ▸ hle)
    have hmem : e ∈ store.withPrefix (LmdbReader.searchPrefix relationId sourceId) :=
      List.mem_filter.mpr ⟨he, List.isPrefixOf_iff_prefix.mpr hp⟩
    exact of_decide_eq_true (List.length_filter_eq_length_iff.mp hlen e hmem)
  · intro hlink
    have hmem : ∀ e ∈ store.withPrefix (LmdbReader.searchPrefix relationId sourceId),
        e.1.length = 12 := by
      intro e he
      obtain ⟨hm, hp⟩ := List.mem_filter.mp he
      exact hlink e hm (List.isPrefixOf_iff_prefix.mp hp)
    have hcpp := LmdbReader.toManyTargets_of_links hs hlink
    refine ⟨_, hcpp, Dart.readRelationTargets_eq hs h hcpp, ?_, ?_⟩
    · rw [Py.lookup_eq h, mapM_eq_ok, List.map_map]
      apply List.forall₂_map_right_iff.mpr
      apply List.forall₂_same.mpr
      intro e he
      exact (readTarget_of_link (hmem e he)).1
    · rw [Js.lookup_eq h, List.map_map]
      apply List.map_congr_left
      intro e he
      exact (readTarget_of_link (hmem e he)).2

/-- Two links of one source and one of another. -/
private def twoLinkStore : Store where
  entries := [(linkKey 1 0 7 3, []), (linkKey 1 0 7 9, []), (linkKey 1 0 8 4, [])]
  sorted := by decide

/-- One store. -/
theorem lookups_agree_iff_sample :
    LookupsAgree twoLinkStore.reader twoLinkStore 1 7 ↔
      ∀ e ∈ twoLinkStore.entries, LmdbReader.searchPrefix 1 7 <+: e.1 → e.1.length = 12 :=
  lookups_agree_iff twoLinkStore.reader twoLinkStore twoLinkStore.txn_serves 1 (by decide) 7

/-- A store whose one key is the bare prefix of relation 1 and source 7. -/
private def bareStore : Store := ⟨[(LmdbReader.searchPrefix 1 7, [])], by decide⟩

/-- There the C++ reader finds no target, Python raises and JavaScript returns no number. -/
theorem lookups_disagree :
    bareStore.reader.toManyTargets 1 7 = .ok [] ∧
      Py.read_objectbox_to_many_targets bareStore.range 1 7 = .error .indexError ∧
      Js.readObjectboxToManyTargets bareStore.range 1 7 = [none] ∧
      ¬ LookupsAgree bareStore.reader bareStore 1 7 := by
  have hpy : Py.read_objectbox_to_many_targets bareStore.range 1 7 = .error .indexError := by
    decide
  refine ⟨rfl, hpy, by decide, ?_⟩
  rintro ⟨targets, -, -, h, -⟩
  rw [hpy] at h
  cases h

end ObDump
