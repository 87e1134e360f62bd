import ObDump.Base.Memory

/-!
# ID lists

Library `Lmdb`. Lists of page numbers in memory: the number of elements, then the elements in
descending order, and before them what there is room for; `dart/src/lmdb/midl.c`. A computation
gives nothing when it leaves the memory of its list, its stack, or the range of `int`.
-/

namespace ObDump.Lmdb

open Base

/-! ### Room -/

/-- `mdb_midl_alloc`; `dart/src/lmdb/midl.c:104–112`. -/
def mdb_midl_alloc (m : Mem) (num : Nat) (data : Nat → Nat) : Option (Mem × Ptr) := do
  let (m, ids) := m.malloc (num + 2) data
  let m ← m.store ids 0 num
  let m ← m.store ids 1 0
  return (m, ids.add 1)

/-- The word before a list, its `MDB_IDL_ALLOCLEN`. -/
def roomPtr (ids : Ptr) : Ptr := ⟨ids.blk, ids.off - 1⟩

/-- What `mdb_midl_need` asks for in all, on `unsigned`. -/
def needed (num : Nat) : Nat :=
  (num + num / 4 + (256 + 2)) % 2 ^ 32 / 256 * 256

/-- `mdb_midl_need`; `dart/src/lmdb/midl.c:143–155`. -/
def mdb_midl_need (m : Mem) (ids : Ptr) (num : Nat) (data : Nat → Nat) : Option (Mem × Ptr) := do
  let len ← m.load ids 0
  let room ← m.load (roomPtr ids) 0
  let num := (num + len) % 2 ^ 32
  if room < num then
    let (m, ids) := m.realloc (roomPtr ids) (needed num) data
    let m ← m.store ids 0 (needed num - 2)
    return (m, ids.add 1)
  else return (m, ids)

/-! ### Merging -/

/-- `(MDB_ID)-1`. -/
def maxId : Nat := 2 ^ 64 - 1

/-- The inner loop of `mdb_midl_xmerge`: elements below `merge_id` are moved up. -/
def moveUp (idl : Ptr) (merge_id : Nat) :
    Nat → Nat → Nat → Mem → Option (Nat × Nat × Nat × Mem)
  | 0, k, old_id, m => if old_id < merge_id then none else some (0, k, old_id, m)
  | j + 1, k, old_id, m =>
    if old_id < merge_id then do
      let m ← m.store idl k old_id
      let old_id ← m.load idl j
      moveUp idl merge_id j (k - 1) old_id m
    else some (j + 1, k, old_id, m)

/-- The loop of `mdb_midl_xmerge`. -/
def mergeDown (idl merge : Ptr) : Nat → Nat → Nat → Nat → Mem → Option Mem
  | 0, _, _, _, m => some m
  | i + 1, j, k, old_id, m => do
    let merge_id ← m.load merge (i + 1)
    let (j, k, old_id, m) ← moveUp idl merge_id j k old_id m
    let m ← m.store idl k merge_id
    mergeDown idl merge i j (k - 1) old_id m

/-- `mdb_midl_xmerge`; `dart/src/lmdb/midl.c:201–213`. -/
def mdb_midl_xmerge (m : Mem) (idl merge : Ptr) : Option Mem := do
  let i ← m.load merge 0
  let j ← m.load idl 0
  let m ← m.store idl 0 maxId
  let old_id ← m.load idl j
  let m ← mergeDown idl merge i j (i + j) old_id m
  m.store idl 0 (i + j)

/-! ### Sorting -/

/-- `SMALL`; `dart/src/lmdb/midl.c:217`. -/
def SMALL : Nat := 8

/-- The slots of `istack`; `dart/src/lmdb/midl.c:224`. -/
def ISTACK : Nat := 64

/-- `MIDL_SWAP`. -/
def MIDL_SWAP (m : Mem) (ids : Ptr) (x y : Nat) : Option Mem := do
  let itmp ← m.load ids x
  let b ← m.load ids y
  let m ← m.store ids x b
  m.store ids y itmp

/-- `if (ids[x] < ids[y]) MIDL_SWAP(ids[x], ids[y])`. -/
def swapLess (m : Mem) (ids : Ptr) (x y : Nat) : Option Mem := do
  let a ← m.load ids x
  let b ← m.load ids y
  if a < b then MIDL_SWAP m ids x y else return m

/-- The inner loop of the insertion sort, with the index where it ends;
`dart/src/lmdb/midl.c:235–238`. -/
def shift (ids : Ptr) (a : Nat) : Nat → Mem → Option (Nat × Mem)
  | 0, m => some (0, m)
  | i + 1, m => do
    let x ← m.load ids (i + 1)
    if a ≤ x then return (i + 1, m)
    let m ← m.store ids (i + 2) x
    shift ids a i m

/-- The insertion sort up to `ir`; `dart/src/lmdb/midl.c:233–240`. -/
def insertion (ids : Ptr) (ir j : Nat) (m : Mem) : Option Mem :=
  if j ≤ ir then do
    let a ← m.load ids j
    let (i, m) ← shift ids a (j - 1) m
    let m ← m.store ids (i + 1) a
    insertion ids ir (j + 1) m
  else some m
termination_by ir + 1 - j

/-- `do i++; while(ids[i] > a)`. -/
def scanUp (m : Mem) (ids : Ptr) (a i : Nat) : Option Nat :=
  if ids.off + (i + 1) < m.size ids.blk then
    if a < m.view ids (i + 1) then scanUp m ids a (i + 1) else some (i + 1)
  else none
termination_by m.size ids.blk - (ids.off + i)

/-- `do j--; while(ids[j] < a)`. -/
def scanDown (m : Mem) (ids : Ptr) (a : Nat) : Nat → Option Nat
  | 0 => none
  | j + 1 => do
    let x ← m.load ids j
    if x < a then scanDown m ids a j else return j

private theorem scanDown_lt {m : Mem} {ids : Ptr} {a j j' : Nat}
    (h : scanDown m ids a j = some j') :
    j' < j := by
  induction j with
  | zero => exact absurd h (Option.some_ne_none _).symm
  | succ j ih =>
    unfold scanDown at h
    obtain ⟨x, -, hx⟩ := Option.bind_eq_some_iff.mp h
    by_cases hlt : x < a
    · rw [if_pos hlt] at hx
      exact Nat.lt_succ_of_lt (ih hx)
    · rw [if_neg hlt] at hx
      exact Nat.lt_succ_of_le (Nat.le_of_eq (Option.some.inj hx).symm)

/-- The partitioning loop; `dart/src/lmdb/midl.c:259–264`. -/
def partitionLoop (ids : Ptr) (a i j : Nat) (m : Mem) : Option (Nat × Nat × Mem) :=
  match scanUp m ids a i, _h : scanDown m ids a j with
  | some i', some j' =>
    if j' < i' then some (i', j', m)
    else
      match MIDL_SWAP m ids i' j' with
      | some m => partitionLoop ids a i' j' m
      | none => none
  | _, _ => none
termination_by j
decreasing_by exact scanDown_lt _h

/-- One partitioning step: the median of three first, then the loop, and the pivot goes to its
place; `dart/src/lmdb/midl.c:245–266`. -/
def partitionStep (ids : Ptr) (l ir : Nat) (m : Mem) : Option (Nat × Nat × Mem) := do
  -- `l + ir` on `int`
  if 2 ^ 31 ≤ l + ir then failure
  let m ← MIDL_SWAP m ids ((l + ir) / 2) (l + 1)
  let m ← swapLess m ids l ir
  let m ← swapLess m ids (l + 1) ir
  let m ← swapLess m ids l (l + 1)
  let a ← m.load ids (l + 1)
  let (i, j, m) ← partitionLoop ids a (l + 1) ir m
  let x ← m.load ids j
  let m ← m.store ids (l + 1) x
  let m ← m.store ids j a
  return (i, j, m)

/-- The loop of `mdb_midl_sort`, in so many rounds at most; `istack` holds two numbers for each
stretch put off, from its slot 1 on; `dart/src/lmdb/midl.c:231–278`. -/
def sortLoop (ids : Ptr) : Nat → Nat → Nat → List (Nat × Nat) → Mem → Option Mem
  | 0, _, _, _, _ => none
  | fuel + 1, l, ir, istack, m =>
    if ir < l + SMALL then do
      let m ← insertion ids ir (l + 1) m
      match istack with
      | [] => return m
      | s :: istack => sortLoop ids fuel s.1 s.2 istack m
    else do
      let (i, j, m) ← partitionStep ids l ir m
      if ISTACK ≤ 2 * istack.length + 2 then failure
      if j - l ≤ ir - i + 1 then sortLoop ids fuel l (j - 1) ((i, ir) :: istack) m
      else sortLoop ids fuel i ir ((l, j - 1) :: istack) m

/-- `mdb_midl_sort`; `dart/src/lmdb/midl.c:220–279`. -/
def mdb_midl_sort (m : Mem) (ids : Ptr) : Option Mem := do
  let n ← m.load ids 0
  if 2 ^ 31 ≤ n then failure
  sortLoop ids (2 * n + 1) 1 n [] m

end ObDump.Lmdb
