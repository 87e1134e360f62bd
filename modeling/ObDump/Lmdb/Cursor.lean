import ObDump.Lmdb.Pages

/-!
# The cursor of LMDB

Library `Lmdb`. The read path of the vendored library, `dart/src/lmdb/mdb.c:5421–6541`: the
descent from the root, the step to a sibling page, and the operations of `mdb_cursor_get`.
`C_DEL` is set by deletions only and `DB_STALE` for named databases only; both are left out,
and so are null `key` and `data` pointers.
-/

namespace ObDump.Lmdb

open Base

/-! ### The stack -/

/-- `mdb_cursor_pop`, `dart/src/lmdb/mdb.c:5421–5435`. -/
def mdb_cursor_pop (mc : MDB_cursor) : MDB_cursor :=
  if mc.mc_snum ≠ 0 then
    if mc.mc_snum - 1 ≠ 0 then { mc with mc_snum := mc.mc_snum - 1, mc_top := mc.mc_top - 1 }
    else { mc with mc_snum := 0, c_initialized := false }
  else mc

/-- `mdb_cursor_push`, `dart/src/lmdb/mdb.c:5440–5456`. -/
def mdb_cursor_push (mc : MDB_cursor) (mp : MDB_page) : Result Unit :=
  if mc.mc_snum ≥ CURSOR_STACK then failure { mc with mt_error := true } MDB_CURSOR_FULL
  else
    success
      { mc with
        mc_top := mc.mc_snum
        mc_snum := mc.mc_snum + 1
        mc_pg := Function.update mc.mc_pg mc.mc_snum (some mp)
        mc_ki := Function.update mc.mc_ki mc.mc_snum 0 } ()

/-! ### The descent -/

/-- The key and the flags of a search: `MDB_PS_FIRST`, `MDB_PS_LAST`, or the page of a key. -/
inductive Search
  | first
  | last
  | key (key : Bytes)
  deriving DecidableEq, Repr

/-- The page of node `i` goes onto the stack; `dart/src/lmdb/mdb.c:5571–5579`. -/
def pushChild (txn : MDB_txn) (mc : MDB_cursor) (mp : MDB_page) (i : Nat) : Result Unit :=
  match mp.NODEPTR i with
  | none => none
  | some node =>
    (mdb_page_get txn mc node.NODEPGNO).bind fun mc child ↦ mdb_cursor_push (mc.setKi i) child

/-- One turn of the loop over branch pages, `dart/src/lmdb/mdb.c:5531–5587`. -/
def searchBranch (txn : MDB_txn) (how : Search) (mc : MDB_cursor) (mp : MDB_page) : Result Unit :=
  -- `mdb_cassert(mc, !mc->mc_dbi || NUMKEYS(mp) > 1)`
  if mp.NUMKEYS ≤ 1 then none
  else
    match how with
    | .first => pushChild txn mc mp 0
    | .last =>
      let i := mp.NUMKEYS - 1
      -- the stack may still hold the page of the last node
      if mc.c_initialized ∧ mc.ki = i then
        success { mc with mc_top := mc.mc_snum, mc_snum := mc.mc_snum + 1 } ()
      else pushChild txn mc mp i
    | .key key =>
      match mdb_node_search mc key with
      | none => none
      | some (mc, _, none) => pushChild txn mc mp (mp.NUMKEYS - 1)
      | some (mc, exact, some _) =>
        if exact then pushChild txn mc mp mc.ki
        -- `mdb_cassert(mc, i > 0)`
        else if mc.ki = 0 then none
        else pushChild txn mc mp (mc.ki - 1)

/-- `mdb_page_search_root`, `dart/src/lmdb/mdb.c:5523–5602`. Each turn adds a page to the stack,
which has `CURSOR_STACK` slots. -/
def mdb_page_search_root (txn : MDB_txn) (how : Search) : Nat → MDB_cursor → Result Unit
  | 0, _ => none
  | turns + 1, mc =>
    match mc.page with
    | none => none
    | some mp =>
      if mp.IS_BRANCH then
        (searchBranch txn how mc mp).bind fun mc _ ↦ mdb_page_search_root txn how turns mc
      else if !mp.IS_LEAF then failure { mc with mt_error := true } MDB_CORRUPTED
      else success { mc with c_initialized := true, c_eof := false } ()

/-- The root page, unless the stack starts with it; `dart/src/lmdb/mdb.c:5689–5691`. -/
def getRoot (txn : MDB_txn) (mc : MDB_cursor) : Result Unit :=
  if (mc.mc_pg 0).map MDB_page.mp_pgno = some txn.md_root then success mc ()
  else
    (mdb_page_get txn mc txn.md_root).bind fun mc mp ↦
      success { mc with mc_pg := Function.update mc.mc_pg 0 (some mp) } ()

/-- `mdb_page_search` of the main database, `dart/src/lmdb/mdb.c:5636–5710`. -/
def mdb_page_search (txn : MDB_txn) (how : Search) (mc : MDB_cursor) : Result Unit :=
  if mc.mt_error then failure mc MDB_BAD_TXN
  else if txn.md_root = P_INVALID then failure mc MDB_NOTFOUND
  -- `mdb_cassert(mc, root > 1)`
  else if txn.md_root ≤ 1 then none
  else
    (getRoot txn mc).bind fun mc _ ↦
      mdb_page_search_root txn how (CURSOR_STACK + 1) { mc with mc_snum := 1, mc_top := 0 }

/-! ### Siblings -/

/-- The page below the top of the stack; `dart/src/lmdb/mdb.c:5881–5896`. -/
def pushSibling (txn : MDB_txn) (move_right : Bool) (mc : MDB_cursor) : Result Unit :=
  match mc.page with
  | none => none
  | some mp =>
    -- `mdb_cassert(mc, IS_BRANCH(mc->mc_pg[mc->mc_top]))`
    if !mp.IS_BRANCH then none
    else
      match mp.NODEPTR mc.ki with
      | none => none
      | some indx =>
        match mdb_page_get txn mc indx.NODEPGNO with
        | none => none
        | some (mc, .error rc) => failure { mc with c_initialized := false, c_eof := false } rc
        | some (mc, .ok child) =>
          -- the code of the push is not looked at
          match mdb_cursor_push mc child with
          | none => none
          | some (mc, _) => success (if move_right then mc else mc.setKi child.lastKey) ()

/-- No node left on the page in the direction; `dart/src/lmdb/mdb.c:5863–5864`. -/
def atEdge (move_right : Bool) (mc : MDB_cursor) (mp : MDB_page) : Bool :=
  if move_right then decide (mp.NUMKEYS ≤ mc.ki + 1) else decide (mc.ki = 0)

/-- A pop leaves fewer pages on the stack. -/
theorem mc_snum_mdb_cursor_pop {mc : MDB_cursor} (h : ¬ mc.mc_snum < 2) :
    (mdb_cursor_pop mc).mc_snum = mc.mc_snum - 1 := by
  unfold mdb_cursor_pop
  rw [if_pos (by omega), if_pos (by omega)]

/-- `mdb_cursor_sibling`, `dart/src/lmdb/mdb.c:5849–5897`. -/
def mdb_cursor_sibling (txn : MDB_txn) (move_right : Bool) (mc : MDB_cursor) : Result Unit :=
  if _h : mc.mc_snum < 2 then failure mc MDB_NOTFOUND
  else
    match (mdb_cursor_pop mc).page with
    | none => none
    | some mp =>
      if atEdge move_right (mdb_cursor_pop mc) mp then
        match mdb_cursor_sibling txn move_right (mdb_cursor_pop mc) with
        | none => none
        | some (mc, .error rc) =>
          -- undo cursor_pop before returning
          failure { mc with mc_top := mc.mc_top + 1, mc_snum := mc.mc_snum + 1 } rc
        | some (mc, .ok _) => pushSibling txn move_right mc
      else
        let mc := mdb_cursor_pop mc
        pushSibling txn move_right (mc.setKi (if move_right then mc.ki + 1 else mc.ki - 1))
termination_by mc.mc_snum
decreasing_by
  rw [mc_snum_mdb_cursor_pop _h]
  omega

/-! ### Entries -/

/-- `mdb_node_read` with `MDB_GET_KEY`. -/
def readNode (txn : MDB_txn) (mc : MDB_cursor) (leaf : MDB_node) : Result Entry :=
  if F_ISSET leaf.mn_flags F_DUPDATA then none
  else (mdb_node_read txn mc leaf).bind fun mc data ↦ success mc (leaf.mn_key, data)

/-- The entry at index `i` of a leaf page. -/
def readLeaf (txn : MDB_txn) (mc : MDB_cursor) (mp : MDB_page) (i : Nat) : Result Entry :=
  if mp.IS_LEAF2 then none
  else
    match mp.NODEPTR i with
    | none => none
    | some leaf => readNode txn mc leaf

/-- The entry under the cursor, asserting that the top page is a leaf. -/
def readTop (txn : MDB_txn) (mc : MDB_cursor) : Result Entry :=
  match mc.page with
  | none => none
  | some mp => if !mp.IS_LEAF then none else readLeaf txn mc mp mc.ki

/-! ### First and last -/

/-- The search of `mdb_cursor_first` and `mdb_cursor_last`, not made when the stack holds the
root alone. -/
def searchUnlessRoot (txn : MDB_txn) (how : Search) (mc : MDB_cursor) : Result Unit :=
  if !mc.c_initialized ∨ mc.mc_top ≠ 0 then mdb_page_search txn how mc else success mc ()

/-- `mdb_cursor_first`, `dart/src/lmdb/mdb.c:6264–6306`. -/
def mdb_cursor_first (txn : MDB_txn) (mc : MDB_cursor) : Result Entry :=
  (searchUnlessRoot txn .first mc).bind fun mc _ ↦
    readTop txn ({ mc with c_initialized := true, c_eof := false }.setKi 0)

/-- `mdb_cursor_last`, `dart/src/lmdb/mdb.c:6309–6349`. -/
def mdb_cursor_last (txn : MDB_txn) (mc : MDB_cursor) : Result Entry :=
  (searchUnlessRoot txn .last mc).bind fun mc _ ↦
    match mc.page with
    | none => none
    | some mp =>
      readTop txn ({ mc with c_initialized := true, c_eof := true }.setKi mp.lastKey)

/-! ### Next and previous -/

/-- `mdb_cursor_next`, `dart/src/lmdb/mdb.c:5899–5981`. -/
def mdb_cursor_next (txn : MDB_txn) (mc : MDB_cursor) : Result Entry :=
  if !mc.c_initialized then mdb_cursor_first txn mc
  else
    match mc.page with
    | none => none
    | some mp =>
      if mc.c_eof ∧ mp.lastKey ≤ mc.ki then failure mc MDB_NOTFOUND
      else
        let mc := { mc with c_eof := false }
        if mp.NUMKEYS ≤ mc.ki + 1 then
          match mdb_cursor_sibling txn true mc with
          | none => none
          | some (mc, .error rc) => failure { mc with c_eof := true } rc
          | some (mc, .ok _) => readTop txn mc
        else readTop txn (mc.setKi (mc.ki + 1))

/-- The entry under the cursor, or `MDB_CORRUPTED`; `dart/src/lmdb/mdb.c:6037–6059`. -/
def readPrev (txn : MDB_txn) (mc : MDB_cursor) : Result Entry :=
  match mc.page with
  | none => none
  | some mp => if !mp.IS_LEAF then failure mc MDB_CORRUPTED else readLeaf txn mc mp mc.ki

/-- The move of `mdb_cursor_prev`, `dart/src/lmdb/mdb.c:6021–6035`. -/
def stepBack (txn : MDB_txn) (mc : MDB_cursor) : Result Entry :=
  let mc := { mc with c_eof := false }
  if mc.ki = 0 then
    (mdb_cursor_sibling txn false mc).bind fun mc _ ↦
      match mc.page with
      | none => none
      | some mp => readPrev txn (mc.setKi mp.lastKey)
  else readPrev txn (mc.setKi (mc.ki - 1))

/-- `mdb_cursor_prev`, `dart/src/lmdb/mdb.c:5984–6060`. -/
def mdb_cursor_prev (txn : MDB_txn) (mc : MDB_cursor) : Result Entry :=
  if !mc.c_initialized then
    (mdb_cursor_last txn mc).bind fun mc _ ↦ stepBack txn (mc.setKi (mc.ki + 1))
  else stepBack txn mc

/-! ### Positioning on a key -/

/-- The operations of a cursor. -/
inductive MDB_cursor_op
  | MDB_FIRST
  | MDB_FIRST_DUP
  | MDB_GET_BOTH
  | MDB_GET_BOTH_RANGE
  | MDB_GET_CURRENT
  | MDB_GET_MULTIPLE
  | MDB_LAST
  | MDB_LAST_DUP
  | MDB_NEXT
  | MDB_NEXT_DUP
  | MDB_NEXT_MULTIPLE
  | MDB_NEXT_NODUP
  | MDB_PREV
  | MDB_PREV_DUP
  | MDB_PREV_NODUP
  | MDB_SET
  | MDB_SET_KEY
  | MDB_SET_RANGE
  | MDB_PREV_MULTIPLE
  deriving DecidableEq, Repr

/-- `set1`, `dart/src/lmdb/mdb.c:6206–6261`; `MDB_SET` leaves the caller's key in place. -/
def set1 (txn : MDB_txn) (op : MDB_cursor_op) (key : Bytes) (mc : MDB_cursor) (mp : MDB_page)
    (leaf : MDB_node) : Result Entry :=
  let mc := { mc with c_initialized := true, c_eof := false }
  if mp.IS_LEAF2 then none
  else
    (readNode txn mc leaf).bind fun mc e ↦
      success mc (if op = .MDB_SET_RANGE ∨ op = .MDB_SET_KEY then e else (key, e.2))

/-- `set2`, `dart/src/lmdb/mdb.c:6187–6204`; every operation but `MDB_SET_RANGE` asks for an
exact match. -/
def set2 (txn : MDB_txn) (op : MDB_cursor_op) (key : Bytes) (mc : MDB_cursor) : Result Entry :=
  match mc.page, mdb_node_search mc key with
  | some mp, some (mc, exact, leaf) =>
    if op ≠ .MDB_SET_RANGE ∧ !exact then failure mc MDB_NOTFOUND
    else
      match leaf with
      | some leaf => set1 txn op key mc mp leaf
      | none =>
        match mdb_cursor_sibling txn true mc with
        | none => none
        | some (mc, .error rc) => failure { mc with c_eof := true } rc
        | some (mc, .ok _) =>
          match mc.page with
          | none => none
          | some mp =>
            -- `mdb_cassert(mc, IS_LEAF(mp))`
            if !mp.IS_LEAF then none
            else
              match mp.NODEPTR 0 with
              | none => none
              | some leaf => set1 txn op key mc mp leaf
  | _, _ => none

/-- The search from the root, `dart/src/lmdb/mdb.c:6180–6185`. -/
def setFromRoot (txn : MDB_txn) (op : MDB_cursor_op) (key : Bytes) (mc : MDB_cursor) :
    Result Entry :=
  (mdb_page_search txn (.key key) mc).bind fun mc _ ↦
    match mc.page with
    | none => none
    -- `mdb_cassert(mc, IS_LEAF(mp))`
    | some mp => if !mp.IS_LEAF then none else set2 txn op key mc

/-- The key lies before the page, or behind it with a page to the right;
`dart/src/lmdb/mdb.c:6166–6175`. -/
def setElsewhere (txn : MDB_txn) (op : MDB_cursor_op) (key : Bytes) (mc : MDB_cursor)
    (mp : MDB_page) (leaf : MDB_node) : Result Entry :=
  if mc.mc_top = 0 then
    let mc := mc.setKi 0
    if op = .MDB_SET_RANGE then set1 txn op key mc mp leaf else failure mc MDB_NOTFOUND
  else setFromRoot txn op key mc

/-- Some parent page has a node to the right of the path; `dart/src/lmdb/mdb.c:6155–6159`. -/
def hasRightSibling (mc : MDB_cursor) : Bool :=
  (List.range mc.mc_top).any fun i ↦
    match mc.mc_pg i with
    | none => false
    | some mp => decide (mc.mc_ki i < mp.lastKey)

/-- The key lies between the first and the last of the page; `dart/src/lmdb/mdb.c:6129–6149`. -/
def setWithin (txn : MDB_txn) (op : MDB_cursor_op) (key : Bytes) (mc : MDB_cursor)
    (mp : MDB_page) : Result Entry :=
  match mp.NODEPTR mc.ki with
  | some leaf =>
    if mdb_cmp_memn key leaf.mn_key = 0 then set1 txn op key mc mp leaf
    else set2 txn op key { mc with c_eof := false }
  | none => set2 txn op key { mc with c_eof := false }

/-- The key is above the first of the page; `dart/src/lmdb/mdb.c:6106–6165`. -/
def setAbove (txn : MDB_txn) (op : MDB_cursor_op) (key : Bytes) (mc : MDB_cursor)
    (mp : MDB_page) (first : MDB_node) : Result Entry :=
  let nkeys := mp.NUMKEYS
  let behind (leaf : MDB_node) : Result Entry :=
    if !hasRightSibling mc then failure (mc.setKi nkeys) MDB_NOTFOUND
    else setElsewhere txn op key mc mp leaf
  if 1 < nkeys then
    match mp.NODEPTR (nkeys - 1) with
    | none => none
    | some leaf =>
      let rc := mdb_cmp_memn key leaf.mn_key
      if rc = 0 then set1 txn op key (mc.setKi (nkeys - 1)) mp leaf
      else if rc < 0 then setWithin txn op key mc mp
      else behind leaf
  else behind first

/-- The page under the cursor is tried first; `dart/src/lmdb/mdb.c:6083–6175`. -/
def setNearby (txn : MDB_txn) (op : MDB_cursor_op) (key : Bytes) (mc : MDB_cursor) :
    Result Entry :=
  match mc.page with
  | none => none
  | some mp =>
    if mp.NUMKEYS = 0 then failure (mc.setKi 0) MDB_NOTFOUND
    else if mp.IS_LEAF2 then none
    else
      match mp.NODEPTR 0 with
      | none => none
      | some leaf =>
        let rc := mdb_cmp_memn key leaf.mn_key
        if rc = 0 then set1 txn op key (mc.setKi 0) mp leaf
        else if 0 < rc then setAbove txn op key mc mp leaf
        else setElsewhere txn op key mc mp leaf

/-- `mdb_cursor_set` for `MDB_SET`, `MDB_SET_KEY` and `MDB_SET_RANGE`,
`dart/src/lmdb/mdb.c:6066–6261`. -/
def mdb_cursor_set (txn : MDB_txn) (op : MDB_cursor_op) (key : Bytes) (mc : MDB_cursor) :
    Result Entry :=
  if key.length = 0 then failure mc MDB_BAD_VALSIZE
  else if mc.c_initialized then setNearby txn op key mc
  else setFromRoot txn op key { mc with mc_pg := Function.update mc.mc_pg 0 none }

/-! ### The entry points -/

/-- `MDB_GET_CURRENT`, `dart/src/lmdb/mdb.c:6367–6394`. -/
def getCurrent (txn : MDB_txn) (mc : MDB_cursor) : Result Entry :=
  if !mc.c_initialized then failure mc EINVAL
  else
    match mc.page with
    | none => none
    | some mp =>
      if mp.NUMKEYS = 0 ∨ mp.NUMKEYS ≤ mc.ki then failure (mc.setKi mp.NUMKEYS) MDB_NOTFOUND
      else readLeaf txn mc mp mc.ki

/-- `mdb_cursor_get`, `dart/src/lmdb/mdb.c:6351–6541`. Without `MDB_DUPSORT` there is no
`mc_xcursor`, and without `MDB_DUPFIXED` there are no multiple values. -/
def mdb_cursor_get (txn : MDB_txn) (op : MDB_cursor_op) (key : Bytes) (mc : MDB_cursor) :
    Result Entry :=
  if mc.mt_error then failure mc MDB_BAD_TXN
  else
    match op with
    | .MDB_GET_CURRENT => getCurrent txn mc
    | .MDB_GET_BOTH | .MDB_GET_BOTH_RANGE => failure mc MDB_INCOMPATIBLE
    | .MDB_SET | .MDB_SET_KEY | .MDB_SET_RANGE => mdb_cursor_set txn op key mc
    | .MDB_GET_MULTIPLE => failure mc (if !mc.c_initialized then EINVAL else MDB_INCOMPATIBLE)
    | .MDB_NEXT_MULTIPLE | .MDB_PREV_MULTIPLE => failure mc MDB_INCOMPATIBLE
    | .MDB_NEXT | .MDB_NEXT_DUP | .MDB_NEXT_NODUP => mdb_cursor_next txn mc
    | .MDB_PREV | .MDB_PREV_DUP | .MDB_PREV_NODUP => mdb_cursor_prev txn mc
    | .MDB_FIRST => mdb_cursor_first txn mc
    | .MDB_FIRST_DUP | .MDB_LAST_DUP =>
      failure mc (if !mc.c_initialized then EINVAL else MDB_INCOMPATIBLE)
    | .MDB_LAST => mdb_cursor_last txn mc

/-- `mdb_get`, `dart/src/lmdb/mdb.c:5820–5841`: a search with a cursor of its own. -/
def mdb_get (txn : MDB_txn) (key : Bytes) : Option (Except Int Bytes) :=
  (mdb_cursor_set txn .MDB_SET key mdb_cursor_init).map fun r ↦ r.2.map Prod.snd

end ObDump.Lmdb
