import ObDump.Base.SortedWalk
import ObDump.Reader.Walks

/-!
# The links of a relation

Library `Reader`. `LmdbReader::toManyTargets` visits one contiguous range of a sorted store.
Over a store whose relation keys are well-formed the range is exactly the forward links
of the relation and source.
-/

namespace ObDump

open Base

/-- The documented key of a link; `include/internal/lmdb_reader.hpp:37–40`. -/
def linkKey (relationId direction : Nat) (sourceId targetId : UInt32) : Bytes :=
  [kKeyTypeRelation, 0x00, 0x00, UInt8.ofNat (relationId <<< 2 ||| direction)] ++
    writeUint32BE sourceId ++ writeUint32BE targetId

/-- Only the low six bits of a relation id reach the key. -/
theorem LmdbReader.toNat_relationByte (relationId : Int) :
    (relationByte relationId).toNat = (relationId % 64).toNat * 4 := by
  rw [relationByte, kRelationDirectionForward, UInt8.or_zero, Int.shiftLeft_eq, UInt8.ofInt,
    UInt8.toNat_ofNat']
  omega

/-- The prefix of a search has eight bytes. -/
@[simp] theorem LmdbReader.length_searchPrefix (relationId : Int) (sourceObjectId : UInt32) :
    (searchPrefix relationId sourceObjectId).length = 8 := rfl

/-- A forward link's key is the search prefix and the target. -/
theorem linkKey_forward (relationId : Nat) (sourceId targetId : UInt32) :
    linkKey relationId 0 sourceId targetId =
      LmdbReader.searchPrefix relationId sourceId ++ writeUint32BE targetId := by
  have hb : UInt8.ofNat (relationId <<< 2 ||| 0) = LmdbReader.relationByte relationId := by
    rw [← UInt8.toNat_inj, LmdbReader.toNat_relationByte, UInt8.toNat_ofNat', Nat.or_zero,
      Nat.shiftLeft_eq]
    omega
  rw [linkKey, hb, LmdbReader.searchPrefix]

namespace LmdbReader

private theorem walkTargets_fst (pre : Bytes) (es : List Entry) (hpre : pre.length = 8) :
    (walkTargets pre es).1 =
      (es.takeWhile fun e ↦ decide (e.1.length = 12) && pre.isPrefixOf e.1).map
        fun e ↦ readUint32BE (e.1.drop 8) := by
  induction es with
  | nil => rfl
  | cons e es ih =>
    have hp : pre.isPrefixOf e.1 = decide (e.1.take 8 = pre) := by
      rw [Bool.eq_iff_iff, List.isPrefixOf_iff_prefix, decide_eq_true_iff,
        List.prefix_iff_eq_take, hpre, eq_comm]
    rw [walkTargets, List.takeWhile_cons, hp]
    by_cases h : e.1.length = 12 ∧ e.1.take 8 = pre
    · rw [if_neg (by tauto)]
      simp only [h.1, h.2, decide_true, Bool.and_self, if_true, List.map_cons, ih]
    · have hf : (decide (e.1.length = 12) && decide (e.1.take 8 = pre)) = false := by
        rw [Bool.eq_false_iff, ne_eq, Bool.and_eq_true, decide_eq_true_iff, decide_eq_true_iff]
        exact h
      rw [if_pos (by tauto), hf]
      rfl

variable {reader : LmdbReader} {store : Store}

/-- The code a search leaves, whether it broke off or not, is no failure. -/
theorem code_of_search (stopped : Bool) : ¬ ((if stopped = true then 0 else MDB_NOTFOUND) ≠ 0 ∧
    (if stopped = true then 0 else MDB_NOTFOUND) ≠ MDB_NOTFOUND) := by
  cases stopped <;> decide

/-- On a store whose calls succeed the search returns what its loop pushes. -/
theorem toManyTargets_walk (hs : reader.txn.Serves store) (relationId : Int)
    (sourceId : UInt32) :
    reader.toManyTargets relationId sourceId =
      .ok (walkTargets (searchPrefix relationId sourceId)
        (reader.txn.fromRange
          (searchPrefix relationId sourceId ++ writeUint32BE 0)).entries).1 := by
  simp only [toManyTargets, check, hs.cursorOpen, hs.range_rc, ne_eq, not_true_eq_false, if_false]
  rw [if_neg (code_of_search _)]
  rfl

/-- On a store whose calls succeed the search returns the targets of the links in the range. -/
theorem toManyTargets_eq (hs : reader.txn.Serves store) (relationId : Int)
    (sourceId : UInt32) :
    reader.toManyTargets relationId sourceId =
      .ok (((store.entries.dropWhile fun e ↦
        decide (e.1 < searchPrefix relationId sourceId ++ writeUint32BE 0)).takeWhile fun e ↦
          decide (e.1.length = 12) && (searchPrefix relationId sourceId).isPrefixOf e.1).map
            fun e ↦ readUint32BE (e.1.drop 8)) := by
  rw [toManyTargets_walk hs, hs.range_entries, walkTargets_fst _ _ (length_searchPrefix _ _)]

/-- On a store whose calls succeed the search succeeds. -/
theorem toManyTargets_ok (hs : reader.txn.Serves store) (relationId : Int) (sourceId : UInt32) :
    ∃ targets, reader.toManyTargets relationId sourceId = .ok targets :=
  ⟨_, toManyTargets_eq hs relationId sourceId⟩

private theorem ofBE_append (a b : Bytes) : ofBE (a ++ b) = ofBE a * 256 ^ b.length + ofBE b := by
  induction a with
  | nil => simp [ofBE]
  | cons x xs ih =>
    simp only [List.cons_append, ofBE, List.length_append, ih, Nat.add_mul, Nat.pow_add,
      Nat.mul_assoc, Nat.add_assoc]

private theorem append_lt_iff {p x y : Bytes} (h : x.length = y.length) :
    p ++ x < p ++ y ↔ x < y := by
  have hl : (p ++ x).length = (p ++ y).length := by simp [h]
  rw [lt_iff_ofBE_lt hl, lt_iff_ofBE_lt h, ofBE_append, ofBE_append, h]
  omega

private theorem drop_searchPrefix (relationId : Int) (sourceId : UInt32) (x : Bytes) :
    (searchPrefix relationId sourceId ++ x).drop 8 = x := rfl

private theorem exists_target {relationId : Int} {sourceId : UInt32} {key : Bytes}
    (hp : searchPrefix relationId sourceId <+: key) (hl : key.length = 12) :
    ∃ x, key = searchPrefix relationId sourceId ++ x ∧ x.length = 4 := by
  obtain ⟨x, hx⟩ := hp
  rw [← hx, List.length_append, length_searchPrefix] at hl
  exact ⟨x, hx.symm, by omega⟩

/-- Where all keys with the search prefix have twelve bytes, the search returns the targets of
all of them. -/
theorem toManyTargets_of_links (hs : reader.txn.Serves store) {relationId : Int}
    {sourceId : UInt32}
    (hlink : ∀ e ∈ store.entries, searchPrefix relationId sourceId <+: e.1 → e.1.length = 12) :
    reader.toManyTargets relationId sourceId =
      .ok ((store.entries.filter fun e ↦ (searchPrefix relationId sourceId).isPrefixOf e.1).map
        fun e ↦ readUint32BE (e.1.drop 8)) := by
  rw [toManyTargets_eq hs, seek_walk_eq_filter (t := fun k ↦ decide (k.length = 12)) store.sorted
    (List.prefix_append (searchPrefix relationId sourceId) (writeUint32BE 0))]
  · intro e he hp
    exact decide_eq_true (hlink e he hp)
  · intro e he hp
    obtain ⟨x, hx, hl⟩ := exists_target hp (hlink e he hp)
    rw [hx, ← List.not_lt, append_lt_iff (by rw [hl]; rfl), lt_iff_ofBE_lt (by rw [hl]; rfl),
      ofBE_writeUint32BE]
    exact Nat.not_lt_zero _

/-- In a store whose keys starting with byte 0x08 all have twelve bytes, the search returns
exactly the targets of the forward links of the relation and source, each once and in
strictly increasing order. -/
theorem toManyTargets_exact (reader : LmdbReader) (store : Store)
    (hs : reader.txn.Serves store)
    (hlink : ∀ e ∈ store.entries, e.1.head? = some kKeyTypeRelation → e.1.length = 12)
    (relationId : Nat) (sourceId : UInt32) :
    ∃ targets, reader.toManyTargets relationId sourceId = .ok targets ∧
      targets.Pairwise (· < ·) ∧
      ∀ t, t ∈ targets ↔ linkKey relationId 0 sourceId t ∈ store.entries.map Prod.fst := by
  have hpre : ∀ e ∈ store.entries, searchPrefix relationId sourceId <+: e.1 →
      e.1.length = 12 := by
    rintro e he ⟨x, hx⟩
    exact hlink e he (by rw [← hx]; rfl)
  have hlen : ∀ e ∈ store.entries, searchPrefix relationId sourceId <+: e.1 →
      ∃ x, e.1 = searchPrefix relationId sourceId ++ x ∧ x.length = 4 :=
    fun e he hp ↦ exists_target hp (hpre e he hp)
  refine ⟨_, toManyTargets_of_links hs hpre, ?_, fun t ↦ ?_⟩
  · refine List.pairwise_map.mpr ((store.sorted.filter _).imp_of_mem fun {a b} ha hb hab ↦ ?_)
    obtain ⟨hae, hap⟩ := List.mem_filter.mp ha
    obtain ⟨hbe, hbp⟩ := List.mem_filter.mp hb
    obtain ⟨x, hx, hxl⟩ := hlen a hae (List.isPrefixOf_iff_prefix.mp hap)
    obtain ⟨y, hy, hyl⟩ := hlen b hbe (List.isPrefixOf_iff_prefix.mp hbp)
    rw [hx, hy, append_lt_iff (by rw [hxl, hyl]), lt_iff_ofBE_lt (by rw [hxl, hyl])] at hab
    rw [hx, hy, drop_searchPrefix, drop_searchPrefix, UInt32.lt_iff_toNat_lt,
      toNat_readUint32BE hxl, toNat_readUint32BE hyl]
    exact hab
  · rw [linkKey_forward, List.mem_map, List.mem_map]
    constructor
    · rintro ⟨e, he, rfl⟩
      obtain ⟨hm, hp⟩ := List.mem_filter.mp he
      obtain ⟨x, hx, hl⟩ := hlen e hm (List.isPrefixOf_iff_prefix.mp hp)
      refine ⟨e, hm, ?_⟩
      rw [hx, drop_searchPrefix, writeUint32BE_readUint32BE hl]
    · rintro ⟨e, he, hk⟩
      refine ⟨e, List.mem_filter.mpr ⟨he, ?_⟩, ?_⟩
      · rw [List.isPrefixOf_iff_prefix, hk]
        exact List.prefix_append _ _
      · rw [hk, drop_searchPrefix, readUint32BE_writeUint32BE]

/-- Forward and backward links of two relations, and a record. -/
private def linkStore : Store where
  entries :=
    [(linkKey 1 0 7 3, []), (linkKey 1 0 7 9, []), (linkKey 1 0 8 4, []), (linkKey 1 2 3 7, []),
      (linkKey 2 0 7 5, []), (dataKey 1 7, [1, 2])]
  sorted := by decide

/-- One search. -/
theorem toManyTargets_exact_sample :
    ∃ targets, linkStore.reader.toManyTargets 1 7 = .ok targets ∧ targets.Pairwise (· < ·) ∧
      ∀ t, t ∈ targets ↔ linkKey 1 0 7 t ∈ linkStore.entries.map Prod.fst :=
  toManyTargets_exact linkStore.reader linkStore linkStore.txn_serves (by decide) 1 7

end LmdbReader

end ObDump
