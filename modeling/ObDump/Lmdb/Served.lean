import ObDump.Lmdb.Runs

/-!
# What a database serves

Library `Lmdb`. The consequences of the runs for a caller: walks in both directions, range
searches and single lookups return what the store holds, whatever the cursor was used for
before.
-/

namespace ObDump.Lmdb

open Base

/-! ### A database of three pages -/

/-- A leaf page with the data on it. -/
def leafOf (pgno : Nat) (es : List Entry) : MDB_page where
  mp_pgno := pgno
  mp_flags := P_LEAF
  mp_nodes := es.map fun e ↦ ⟨e.2.length, 0, 0, e.1, e.2⟩
  mp_data := []

/-- The entries of the left leaf, a link and an object. -/
def leftEntries : List Entry :=
  [([0x08, 0, 0, 4, 0, 0, 0, 1, 0, 0, 0, 2], []), ([0x18, 0, 0, 4, 0, 0, 0, 1], [7, 8])]

/-- The entries of the right leaf, two objects. -/
def rightEntries : List Entry :=
  [([0x18, 0, 0, 4, 0, 0, 0, 2], [9]), ([0x18, 0, 0, 8, 0, 0, 0, 5], [1, 2, 3])]

/-- A root over two leaves; the data of the last node is on an overflow page. -/
def sampleTxn : MDB_txn where
  mt_next_pgno := 6
  md_root := 4
  me_map pgno :=
    if pgno = 2 then leafOf 2 leftEntries
    else if pgno = 3 then
      { leafOf 3 [] with
        mp_nodes :=
          [⟨1, 0, 0, [0x18, 0, 0, 4, 0, 0, 0, 2], [9]⟩,
            ⟨3, 0, F_BIGDATA, [0x18, 0, 0, 8, 0, 0, 0, 5], [5, 0, 0, 0, 0, 0, 0, 0]⟩] }
    else if pgno = 4 then
      ⟨4, P_BRANCH, [⟨2, 0, 0, [], []⟩, ⟨3, 0, 0, [0x18, 0, 0, 4, 0, 0, 0, 2], []⟩], []⟩
    else ⟨pgno, 0, [], [1, 2, 3, 4]⟩

/-- What it holds. -/
def sampleStore : Store where
  entries := leftEntries ++ rightEntries
  sorted := by decide

private theorem left_page : LeafPage sampleTxn (sampleTxn.me_map 2) leftEntries where
  branch := rfl
  leaf := rfl
  leaf2 := rfl
  ne_nil := by decide
  nodes := .cons ⟨rfl, rfl, rfl, .inl ⟨rfl, rfl⟩⟩ (.cons ⟨rfl, rfl, rfl, .inl ⟨rfl, rfl⟩⟩ .nil)

private theorem right_page : LeafPage sampleTxn (sampleTxn.me_map 3) rightEntries where
  branch := rfl
  leaf := rfl
  leaf2 := rfl
  ne_nil := by decide
  nodes := .cons ⟨rfl, rfl, rfl, .inl ⟨rfl, rfl⟩⟩
    (.cons ⟨rfl, rfl, rfl, .inr ⟨rfl, by decide, rfl⟩⟩ .nil)

private theorem root_page :
    Children sampleTxn (Subtree sampleTxn 0) (sampleTxn.me_map 4) [leftEntries, rightEntries] where
  branch := rfl
  leaf := rfl
  leaf2 := rfl
  many := by decide
  length := rfl
  child := by
    rintro (_ | _ | i) node es hn he
    · obtain rfl : _ = node := Option.some_inj.mp hn
      obtain rfl : _ = es := Option.some_inj.mp he
      exact ⟨by decide, left_page⟩
    · obtain rfl : _ = node := Option.some_inj.mp hn
      obtain rfl : _ = es := Option.some_inj.mp he
      exact ⟨by decide, right_page⟩
    · simp at he
  before := by
    rintro (_ | _ | i) (_ | _ | j) node es hn hij he
    all_goals first | omega | skip
    · obtain rfl : _ = node := Option.some_inj.mp hn
      obtain rfl : _ = es := Option.some_inj.mp he
      decide
    all_goals simp [sampleTxn, MDB_page.NODEPTR] at hn
  from_on := by
    rintro (_ | _ | i) (_ | _ | j) node es hpos hn hij he
    all_goals first | omega | skip
    · obtain rfl : _ = node := Option.some_inj.mp hn
      obtain rfl : _ = es := Option.some_inj.mp he
      decide
    all_goals simp at he

/-- The pages hold the entries. -/
theorem sampleTxn_stores : sampleTxn.Stores sampleStore where
  empty := by decide
  tree := fun _ ↦ ⟨by decide, by decide, by decide, 1, by decide,
    [leftEntries, rightEntries], rfl, root_page⟩

/-! ### Runs from a fresh cursor -/

section

variable {txn : MDB_txn} {store : Store}

/-- Every sequence of calls on a fresh cursor runs through, and is answered as by a cursor over
the sorted entries; the transaction stays usable. -/
theorem cursor_runs_answered (hs : txn.Stores store) (calls : List (MDB_cursor_op × Bytes)) :
    ∃ rs mc p, runCalls txn calls mdb_cursor_init = some (rs, mc) ∧
      Run store.entries calls .unset rs p ∧ mc.mt_error = false := by
  obtain ⟨rs, mc, p, hr, hrun, hp⟩ :=
    runCalls_answered calls hs (placed_mdb_cursor_init txn store.entries)
  exact ⟨rs, mc, p, hr, hrun, hp.valid⟩

/-- Back and forth over the sample. -/
theorem cursor_runs_answered_sample :
    ∃ rs mc p, runCalls sampleTxn
        [(.MDB_LAST, []), (.MDB_PREV, []), (.MDB_SET_RANGE, [0x18]), (.MDB_NEXT, []),
          (.MDB_LAST, [])] mdb_cursor_init = some (rs, mc) ∧
      Run sampleStore.entries
        [(.MDB_LAST, []), (.MDB_PREV, []), (.MDB_SET_RANGE, [0x18]), (.MDB_NEXT, []),
          (.MDB_LAST, [])] .unset rs p ∧ mc.mt_error = false :=
  cursor_runs_answered sampleTxn_stores _

/-- A cursor that earlier calls may have left. -/
def Reachable (txn : MDB_txn) (mc : MDB_cursor) : Prop :=
  ∃ calls rs, runCalls txn calls mdb_cursor_init = some (rs, mc)

/-- A reachable cursor has a position. -/
theorem Reachable.placed {mc : MDB_cursor} (h : Reachable txn mc) (hs : txn.Stores store) :
    ∃ p, Placed txn store.entries mc p := by
  obtain ⟨calls, rs, hr⟩ := h
  obtain ⟨rs', mc', p, hr', -, hp⟩ :=
    runCalls_answered calls hs (placed_mdb_cursor_init txn store.entries)
  rw [hr, Option.some.injEq, Prod.mk.injEq] at hr'
  exact ⟨p, hr'.2 ▸ hp⟩

/-! ### Walks -/

variable {mc : MDB_cursor} {p : Position}

private theorem next_follows (hs : txn.Stores store) (mc : MDB_cursor) (p : Position)
    (h : Placed txn store.entries mc p) :
    Follows store.entries (Placed txn store.entries) MDB_NOTFOUND
      (mdb_cursor_get txn .MDB_NEXT [] mc) p p.next := by
  unfold mdb_cursor_get
  rw [if_neg (by rw [h.valid]; simp)]
  exact mdb_cursor_next_follows hs h

private theorem prev_follows (hs : txn.Stores store) (mc : MDB_cursor) (p : Position)
    (h : Placed txn store.entries mc p) :
    Follows store.entries (Placed txn store.entries) MDB_NOTFOUND
      (mdb_cursor_get txn .MDB_PREV [] mc) p (p.prev store.entries.length) := by
  unfold mdb_cursor_get
  rw [if_neg (by rw [h.valid]; simp)]
  exact mdb_cursor_prev_follows hs h

private theorem first_follows (key : Bytes) (hs : txn.Stores store)
    (h : Placed txn store.entries mc p) :
    Follows store.entries (Placed txn store.entries) MDB_NOTFOUND
      (mdb_cursor_get txn .MDB_FIRST key mc) p 0 := by
  unfold mdb_cursor_get
  rw [if_neg (by rw [h.valid]; simp)]
  exact mdb_cursor_first_follows hs h

private theorem last_follows (key : Bytes) (hs : txn.Stores store)
    (h : Placed txn store.entries mc p) :
    Follows store.entries (Placed txn store.entries) MDB_NOTFOUND
      (mdb_cursor_get txn .MDB_LAST key mc) p (store.entries.length - 1) := by
  unfold mdb_cursor_get
  rw [if_neg (by rw [h.valid]; simp)]
  exact mdb_cursor_last_follows hs h

private theorem range_follows {key : Bytes} (hs : txn.Stores store)
    (h : Placed txn store.entries mc p) (hk : key ≠ []) :
    Follows store.entries (Placed txn store.entries) MDB_NOTFOUND
      (mdb_cursor_get txn .MDB_SET_RANGE key mc)
      (if store.entries = [] then p else .gap (seekIndex store.entries key))
      (seekIndex store.entries key) := by
  unfold mdb_cursor_get
  rw [if_neg (by rw [h.valid]; simp)]
  exact mdb_cursor_set_range_follows hs h hk

/-- The entries from the first key that is not below the given one. -/
theorem drop_seekIndex (entries : List Entry) (key : Bytes) :
    entries.drop (seekIndex entries key) = entries.dropWhile fun e ↦ decide (e.1 < key) :=
  drop_countWhile _ _

/-- A walk forwards, with the entries and the code of a caller's loop. -/
abbrev Forward (txn : MDB_txn) (op : MDB_cursor_op) (key : Bytes) :
    MDB_cursor → List Entry → Int → Prop :=
  Walk (mdb_cursor_get txn op key) (mdb_cursor_get txn .MDB_NEXT [])

/-- A walk backwards. -/
abbrev Backward (txn : MDB_txn) (op : MDB_cursor_op) (key : Bytes) :
    MDB_cursor → List Entry → Int → Prop :=
  Walk (mdb_cursor_get txn op key) (mdb_cursor_get txn .MDB_PREV [])

/-- A walk from `MDB_FIRST` delivers all entries. -/
theorem forward_first (hs : txn.Stores store) (h : Placed txn store.entries mc p) :
    Forward txn .MDB_FIRST [] mc store.entries MDB_NOTFOUND := by
  have := walk_next (first_follows [] hs h) (next_follows hs)
  rwa [List.drop_zero] at this

/-- A walk from `MDB_SET_RANGE` delivers the entries from the key on. -/
theorem forward_range {key : Bytes} (hs : txn.Stores store) (h : Placed txn store.entries mc p)
    (hk : key ≠ []) :
    Forward txn .MDB_SET_RANGE key mc
      (store.entries.dropWhile fun e ↦ decide (e.1 < key)) MDB_NOTFOUND := by
  rw [← drop_seekIndex]
  exact walk_next (range_follows hs h hk) (next_follows hs)

/-- Whatever a cursor was used for, a walk from the first entry delivers the store in order, one
from the last entry delivers it backwards, and a range search starts at the first key not below
the given one; each ends with `MDB_NOTFOUND`. -/
theorem cursor_walks (hs : txn.Stores store) (h : Reachable txn mc) :
    Forward txn .MDB_FIRST [] mc store.entries MDB_NOTFOUND ∧
      Backward txn .MDB_LAST [] mc store.entries.reverse MDB_NOTFOUND ∧
      ∀ key, key ≠ [] → Forward txn .MDB_SET_RANGE key mc
        (store.entries.dropWhile fun e ↦ decide (e.1 < key)) MDB_NOTFOUND := by
  obtain ⟨p, hp⟩ := h.placed hs
  refine ⟨forward_first hs hp, ?_, fun key hk ↦ forward_range hs hp hk⟩
  exact walk_prev (last_follows [] hs hp) (prev_follows hs) (fun _ _ h ↦ h.ahead_le)

/-- From a cursor that a range search has left at the end. -/
theorem cursor_walks_sample :
    ∃ rs mc, runCalls sampleTxn [(.MDB_SET_RANGE, [0x19])] mdb_cursor_init = some (rs, mc) ∧
      Forward sampleTxn .MDB_FIRST [] mc sampleStore.entries MDB_NOTFOUND ∧
      Backward sampleTxn .MDB_LAST [] mc sampleStore.entries.reverse MDB_NOTFOUND ∧
      ∀ key, key ≠ [] → Forward sampleTxn .MDB_SET_RANGE key mc
        (sampleStore.entries.dropWhile fun e ↦ decide (e.1 < key)) MDB_NOTFOUND := by
  obtain ⟨rs, mc, -, hr, -, -⟩ := runCalls_answered [(.MDB_SET_RANGE, [0x19])]
    sampleTxn_stores (placed_mdb_cursor_init sampleTxn sampleStore.entries)
  exact ⟨rs, mc, hr, cursor_walks sampleTxn_stores ⟨_, rs, hr⟩⟩

/-! ### Searches do not depend on the past -/

/-- What a walk delivers that starts with an operation that sets the position. -/
def positioned (entries : List Entry) (key : Bytes) : MDB_cursor_op → List Entry × Int
  | .MDB_FIRST => (entries, MDB_NOTFOUND)
  | .MDB_LAST => (entries.drop (entries.length - 1), MDB_NOTFOUND)
  | .MDB_SET_RANGE =>
    if key = [] then ([], MDB_BAD_VALSIZE)
    else (entries.drop (seekIndex entries key), MDB_NOTFOUND)
  | _ =>
    if key = [] then ([], MDB_BAD_VALSIZE)
    else if (entries[seekIndex entries key]?).map Prod.fst = some key then
      (entries.drop (seekIndex entries key), MDB_NOTFOUND)
    else ([], MDB_NOTFOUND)

/-- The operations that set the position. -/
def MDB_cursor_op.Positions (op : MDB_cursor_op) : Prop :=
  op = .MDB_FIRST ∨ op = .MDB_LAST ∨ op = .MDB_SET ∨ op = .MDB_SET_KEY ∨ op = .MDB_SET_RANGE

private theorem set_positioned {key : Bytes} (op : MDB_cursor_op) (hs : txn.Stores store)
    (h : Placed txn store.entries mc p) (hk : key ≠ []) (hop : op.exact = true)
    (hget : mdb_cursor_get txn op key mc = mdb_cursor_set txn op key mc) :
    Forward txn op key mc
      (if (store.entries[seekIndex store.entries key]?).map Prod.fst = some key then
        store.entries.drop (seekIndex store.entries key) else []) MDB_NOTFOUND := by
  cases mdb_cursor_set_sought op hs h hk with
  | found hr he hkey hp =>
    have hlt := (List.getElem?_eq_some_iff.mp he).1
    rw [if_pos (by rw [he, Option.map_some, hkey hop]), List.drop_eq_getElem_cons hlt,
      (List.getElem?_eq_some_iff.mp he).2]
    exact .more (hget.trans hr) (delivers_next (next_follows hs) hp)
  | missing hr hnone _ _ =>
    rw [if_neg]
    · exact .stop (hget.trans hr)
    · intro hc
      obtain ⟨e, he, hek⟩ := Option.map_eq_some_iff.mp hc
      exact (hnone e he).2 hek

private theorem bad_key_positioned {op : MDB_cursor_op}
    (hget : mdb_cursor_get txn op [] mc = mdb_cursor_set txn op [] mc) :
    Forward txn op [] mc [] MDB_BAD_VALSIZE := .stop (hget.trans (if_pos rfl))

private theorem forward_positioned {op : MDB_cursor_op} (key : Bytes) (hs : txn.Stores store)
    (h : Placed txn store.entries mc p) (hop : op.Positions) :
    Forward txn op key mc (positioned store.entries key op).1
      (positioned store.entries key op).2 := by
  have hset : ∀ {op : MDB_cursor_op}, op = .MDB_SET ∨ op = .MDB_SET_KEY ∨ op = .MDB_SET_RANGE →
      mdb_cursor_get txn op key mc = mdb_cursor_set txn op key mc := by
    rintro _ (rfl | rfl | rfl) <;> exact if_neg (by rw [h.valid]; simp)
  by_cases hk : key = []
  · subst hk
    obtain rfl | rfl | rfl | rfl | rfl := hop
    · exact forward_first hs h
    · exact walk_next (last_follows [] hs h) (next_follows hs)
    · exact bad_key_positioned (hset (.inl rfl))
    · exact bad_key_positioned (hset (.inr (.inl rfl)))
    · exact bad_key_positioned (hset (.inr (.inr rfl)))
  · obtain rfl | rfl | rfl | rfl | rfl := hop
    · exact walk_next (first_follows key hs h) (next_follows hs)
    · exact walk_next (last_follows key hs h) (next_follows hs)
    · have := set_positioned .MDB_SET hs h hk rfl (hset (.inl rfl))
      simp only [positioned, hk, if_false]
      split <;> simp_all
    · have := set_positioned .MDB_SET_KEY hs h hk rfl (hset (.inr (.inl rfl)))
      simp only [positioned, hk, if_false]
      split <;> simp_all
    · simp only [positioned, hk, if_false]
      exact walk_next (range_follows hs h hk) (next_follows hs)

/-- A search on a cursor left by any earlier calls, with the pages it may have kept, returns
what it returns on a fresh cursor, and so does every call of `MDB_NEXT` after it. -/
theorem search_independent_of_past {op : MDB_cursor_op} (key : Bytes) (hs : txn.Stores store)
    (h : Reachable txn mc) (hop : op.Positions) (es : List Entry) (rc : Int) :
    Forward txn op key mc es rc ↔ Forward txn op key mdb_cursor_init es rc := by
  obtain ⟨p, hp⟩ := h.placed hs
  have hpast := forward_positioned key hs hp hop
  have hfresh := forward_positioned key hs (placed_mdb_cursor_init txn store.entries) hop
  constructor
  · intro hw
    obtain ⟨rfl, rfl⟩ := hw.unique hpast
    exact hfresh
  · intro hw
    obtain ⟨rfl, rfl⟩ := hw.unique hfresh
    exact hpast

/-- `MDB_LAST` on a cursor whose stack still holds the path to the last leaf. -/
theorem search_independent_of_past_sample :
    ∃ rs mc, runCalls sampleTxn [(.MDB_LAST, []), (.MDB_PREV, [])] mdb_cursor_init =
        some (rs, mc) ∧
      ∀ es rc, Forward sampleTxn .MDB_LAST [] mc es rc ↔
        Forward sampleTxn .MDB_LAST [] mdb_cursor_init es rc := by
  obtain ⟨rs, mc, -, hr, -, -⟩ := runCalls_answered [(.MDB_LAST, []), (.MDB_PREV, [])]
    sampleTxn_stores (placed_mdb_cursor_init sampleTxn sampleStore.entries)
  exact ⟨rs, mc, hr, search_independent_of_past [] sampleTxn_stores ⟨_, rs, hr⟩ (.inr (.inl rfl))⟩

/-! ### Single lookups -/

private theorem find?_eq_of_key {entries : List Entry} {key : Bytes} {i : Nat} {e : Entry}
    (hs : entries.Pairwise (fun a b ↦ a.1 < b.1)) (he : entries[i]? = some e) (hk : e.1 = key) :
    entries.find? (fun e ↦ decide (e.1 = key)) = some e := by
  cases hf : entries.find? (fun e ↦ decide (e.1 = key)) with
  | none =>
    have := List.find?_eq_none.mp hf e (List.mem_of_getElem? he)
    simp [hk] at this
  | some e' =>
    have hk' : e'.1 = key := by
      have := List.find?_some hf
      simpa using this
    obtain ⟨j, hj, hget⟩ := List.getElem_of_mem (List.mem_of_find?_eq_some hf)
    have he' : entries[j]? = some e' := by rw [List.getElem?_eq_getElem hj, hget]
    have hij := (seekIndex_of_eq hs he hk).symm.trans (seekIndex_of_eq hs he' hk')
    subst hij
    exact he'.symm.trans he

/-- `mdb_get` returns the value stored under the key, `MDB_NOTFOUND` when there is none, and
`MDB_BAD_VALSIZE` for an empty key. -/
theorem mdb_get_eq (hs : txn.Stores store) (key : Bytes) :
    mdb_get txn key = some (if key = [] then .error MDB_BAD_VALSIZE else
      ((store.entries.find? fun e ↦ decide (e.1 = key)).map Prod.snd).elim
        (.error MDB_NOTFOUND) .ok) := by
  by_cases hk : key = []
  · rw [if_pos hk, mdb_get, mdb_cursor_set, if_pos (by rw [hk]; rfl)]
    rfl
  · rw [if_neg hk, mdb_get]
    cases mdb_cursor_set_sought .MDB_SET hs (placed_mdb_cursor_init txn store.entries) hk
      with
    | found hr he hkey _ =>
      rw [hr, find?_eq_of_key store.sorted he (hkey rfl)]
      rfl
    | missing hr hnone _ _ =>
      have hf : store.entries.find? (fun e ↦ decide (e.1 = key)) = none := by
        apply List.find?_eq_none.mpr
        intro e he
        obtain ⟨i, hi, hget⟩ := List.getElem_of_mem he
        rw [decide_eq_true_eq]
        intro hek
        have hat : store.entries[i]? = some e := by rw [List.getElem?_eq_getElem hi, hget]
        have hidx := seekIndex_of_eq store.sorted hat hek
        exact (hnone e (by rw [hidx]; exact hat)).2 hek
      rw [hr, hf]
      rfl

/-- A value on an overflow page. -/
theorem mdb_get_eq_sample :
    mdb_get sampleTxn [0x18, 0, 0, 8, 0, 0, 0, 5] = some (.ok [1, 2, 3]) :=
  mdb_get_eq sampleTxn_stores _

end

end ObDump.Lmdb
