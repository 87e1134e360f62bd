import ObDump.Base.Bisect
import ObDump.Base.SortedWalk
import ObDump.Lmdb.Compare
import ObDump.Lmdb.Library

/-!
# Pages, nodes and cursors

Library `Lmdb`. What the vendored library reads of the map: a page with the nodes its
`mp_ptrs` refer to, and the stack of pages that is a cursor. The model is that of a
read-only transaction on a database without `MDB_DUPSORT`, so `P_LEAF2` pages and
`F_DUPDATA` nodes are left out: on them it stops, as it does where an assertion fails or a
read leaves the page.
-/

namespace ObDump.Lmdb

open Base

/-! ### The map -/

/-- Page and node flags; `dart/src/lmdb/mdb.c:820–825`, `931–933`. -/
def P_BRANCH : Nat := 0x01
def P_LEAF : Nat := 0x02
def P_LEAF2 : Nat := 0x20
def F_BIGDATA : Nat := 0x01
def F_DUPDATA : Nat := 0x04

/-- `F_ISSET`. -/
def F_ISSET (w f : Nat) : Bool := w &&& f == f

/-- `MDB_node`; the key is the `mn_ksize` bytes of `mn_data`, followed by the rest. -/
structure MDB_node where
  mn_lo : Nat
  mn_hi : Nat
  mn_flags : Nat
  mn_key : Bytes
  mn_rest : Bytes
  deriving DecidableEq, Repr

/-- `NODEDSZ`. -/
def MDB_node.NODEDSZ (node : MDB_node) : Nat := node.mn_lo ||| node.mn_hi <<< 16

/-- `NODEPGNO`. -/
def MDB_node.NODEPGNO (node : MDB_node) : Nat :=
  node.mn_lo ||| node.mn_hi <<< 16 ||| node.mn_flags <<< 32

/-- `MDB_page`: its number, its flags, its nodes in the order of `mp_ptrs`, and the bytes from
`METADATA` on. -/
structure MDB_page where
  mp_pgno : Nat
  mp_flags : Nat
  mp_nodes : List MDB_node
  mp_data : Bytes

/-- `NUMKEYS`. -/
def MDB_page.NUMKEYS (mp : MDB_page) : Nat := mp.mp_nodes.length

/-- `NUMKEYS(mp) - 1`, an unsigned difference of 32 bits. -/
def MDB_page.lastKey (mp : MDB_page) : Nat := if mp.NUMKEYS = 0 then 0xffffffff else mp.NUMKEYS - 1

/-- `NODEPTR`, for an index on the page. -/
def MDB_page.NODEPTR (mp : MDB_page) (i : Nat) : Option MDB_node := mp.mp_nodes[i]?

def MDB_page.IS_BRANCH (mp : MDB_page) : Bool := F_ISSET mp.mp_flags P_BRANCH
def MDB_page.IS_LEAF (mp : MDB_page) : Bool := F_ISSET mp.mp_flags P_LEAF
def MDB_page.IS_LEAF2 (mp : MDB_page) : Bool := F_ISSET mp.mp_flags P_LEAF2

/-- A read-only transaction: the first page number not in use, the map, and the root page of
the main database. -/
structure MDB_txn where
  mt_next_pgno : Nat
  me_map : Nat → MDB_page
  md_root : Nat

/-- `P_INVALID`, `dart/src/lmdb/mdb.c:605`. -/
def P_INVALID : Nat := 2 ^ 64 - 1

/-! ### Cursors -/

/-- `dart/src/lmdb/lmdb.h:403–448` and `errno.h`. -/
def MDB_PAGE_NOTFOUND : Int := -30797
def MDB_CORRUPTED : Int := -30796
def MDB_CURSOR_FULL : Int := -30787
def MDB_INCOMPATIBLE : Int := -30784
def MDB_BAD_TXN : Int := -30782
def MDB_BAD_VALSIZE : Int := -30781
def EINVAL : Int := 22

/-- `dart/src/lmdb/mdb.c:1193`. -/
def CURSOR_STACK : Nat := 32

/-- `MDB_cursor`: the stack of pages with the index on each, the flags `C_INITIALIZED` and
`C_EOF`, and whether `MDB_TXN_ERROR` is set on its transaction. A slot of `mc_pg` never
written holds no page. -/
structure MDB_cursor where
  mc_snum : Nat
  mc_top : Nat
  mc_pg : Nat → Option MDB_page
  mc_ki : Nat → Nat
  c_initialized : Bool
  c_eof : Bool
  mt_error : Bool

/-- `mdb_cursor_init`, `dart/src/lmdb/mdb.c:7645–7670`. -/
def mdb_cursor_init : MDB_cursor where
  mc_snum := 0
  mc_top := 0
  mc_pg _ := none
  mc_ki _ := 0
  c_initialized := false
  c_eof := false
  mt_error := false

/-- What a call leaves: the cursor, with a code other than `MDB_SUCCESS` or the value of a call
that succeeds; nothing when an assertion fails. -/
abbrev Result (α : Type) := Option (MDB_cursor × Except Int α)

/-- `MDB_SUCCESS` with a value. -/
def success {α : Type} (mc : MDB_cursor) (a : α) : Result α := some (mc, .ok a)

/-- Another code. -/
def failure {α : Type} (mc : MDB_cursor) (rc : Int) : Result α := some (mc, .error rc)

/-- `if ((rc = …) != MDB_SUCCESS) return rc;` before the rest. -/
def Result.bind {α β : Type} (r : Result α) (rest : MDB_cursor → α → Result β) : Result β :=
  match r with
  | none => none
  | some (mc, .error rc) => failure mc rc
  | some (mc, .ok a) => rest mc a

/-- The rest runs after a call that succeeds. -/
@[simp] theorem Result.bind_success {α β : Type} (mc : MDB_cursor) (a : α)
    (rest : MDB_cursor → α → Result β) : Result.bind (success mc a) rest = rest mc a := rfl

/-- A code other than `MDB_SUCCESS` is returned. -/
@[simp] theorem Result.bind_failure {α β : Type} (mc : MDB_cursor) (rc : Int)
    (rest : MDB_cursor → α → Result β) : Result.bind (failure mc rc) rest = failure mc rc := rfl

/-- `mc->mc_pg[mc->mc_top]`. -/
def MDB_cursor.page (mc : MDB_cursor) : Option MDB_page := mc.mc_pg mc.mc_top

/-- `mc->mc_ki[mc->mc_top]`. -/
def MDB_cursor.ki (mc : MDB_cursor) : Nat := mc.mc_ki mc.mc_top

/-- `mc->mc_ki[mc->mc_top] = i`. -/
def MDB_cursor.setKi (mc : MDB_cursor) (i : Nat) : MDB_cursor :=
  { mc with mc_ki := Function.update mc.mc_ki mc.mc_top i }

section

variable (mc : MDB_cursor) (i : Nat)

/-- Setting the index leaves `mc_snum`. -/
@[simp] theorem MDB_cursor.mc_snum_setKi : (mc.setKi i).mc_snum = mc.mc_snum := rfl

/-- Setting the index leaves `mc_top`. -/
@[simp] theorem MDB_cursor.mc_top_setKi : (mc.setKi i).mc_top = mc.mc_top := rfl

/-- Setting the index leaves the pages. -/
@[simp] theorem MDB_cursor.mc_pg_setKi : (mc.setKi i).mc_pg = mc.mc_pg := rfl

/-- Setting the index leaves `C_INITIALIZED`. -/
@[simp] theorem MDB_cursor.c_initialized_setKi :
    (mc.setKi i).c_initialized = mc.c_initialized := rfl

/-- Setting the index leaves `C_EOF`. -/
@[simp] theorem MDB_cursor.c_eof_setKi : (mc.setKi i).c_eof = mc.c_eof := rfl

/-- Setting the index leaves `MDB_TXN_ERROR`. -/
@[simp] theorem MDB_cursor.mt_error_setKi : (mc.setKi i).mt_error = mc.mt_error := rfl

/-- Setting the index leaves the page at the top. -/
@[simp] theorem MDB_cursor.page_setKi : (mc.setKi i).page = mc.page := rfl

/-- The index set is read. -/
@[simp] theorem MDB_cursor.ki_setKi : (mc.setKi i).ki = i := Function.update_self _ _ _

/-- The index is set at the top. -/
@[simp] theorem MDB_cursor.mc_ki_setKi :
    (mc.setKi i).mc_ki = Function.update mc.mc_ki mc.mc_top i := rfl

/-- Setting the index to what it is changes nothing. -/
@[simp] theorem MDB_cursor.setKi_ki : mc.setKi mc.ki = mc := by
  rw [MDB_cursor.setKi, MDB_cursor.ki, Function.update_eq_self]

end

/-- `mdb_page_get` of a read-only transaction, `dart/src/lmdb/mdb.c:5466–5517`. -/
def mdb_page_get (txn : MDB_txn) (mc : MDB_cursor) (pgno : Nat) : Result MDB_page :=
  if pgno < txn.mt_next_pgno then success mc (txn.me_map pgno)
  else failure { mc with mt_error := true } MDB_PAGE_NOTFOUND

/-- `mdb_node_read`, `dart/src/lmdb/mdb.c:5794–5818`. -/
def mdb_node_read (txn : MDB_txn) (mc : MDB_cursor) (leaf : MDB_node) : Result Bytes :=
  if !F_ISSET leaf.mn_flags F_BIGDATA then success mc (leaf.mn_rest.take leaf.NODEDSZ)
  else
    (mdb_page_get txn mc (ofLE (leaf.mn_rest.take 8))).bind fun mc omp ↦
      success mc (omp.mp_data.take leaf.NODEDSZ)

/-- `mdb_node_search`, `dart/src/lmdb/mdb.c:5309–5403`, with whether the match is exact and the
node found. The index goes to the cursor. -/
def mdb_node_search (mc : MDB_cursor) (key : Bytes) :
    Option (MDB_cursor × Bool × Option MDB_node) :=
  match mc.page with
  | none => none
  | some mp =>
    if mp.IS_LEAF2 then none
    else
      let nkeys := mp.NUMKEYS
      let low := if mp.IS_LEAF then 0 else 1
      let high : Int := nkeys - 1
      let cmp i := (mp.NODEPTR i).map fun node ↦ mdb_cmp_memn key node.mn_key
      match bisect cmp low high (0, 0) with
      | none => none
      | some (i, rc) =>
        let i := if 0 < rc then i + 1 else i
        -- no comparison leaves `node` null
        some (mc.setKi i, decide (rc = 0 ∧ 0 < nkeys), if low ≤ high then mp.NODEPTR i else none)

/-! ### The search on a page -/

/-- A node's key is below the key searched. -/
def belowKey (key : Bytes) (node : MDB_node) : Bool := decide (node.mn_key < key)

/-- The first index from `low` on whose key is not below the one searched. -/
def MDB_page.lowerBound (mp : MDB_page) (low : Nat) (key : Bytes) : Nat :=
  low + countWhile (belowKey key) (mp.mp_nodes.drop low)

private theorem belowKey_mono (key : Bytes) {a b : MDB_node} (h : a.mn_key < b.mn_key)
    (hb : belowKey key b) : belowKey key a := by
  simp only [belowKey, decide_eq_true_eq] at hb ⊢
  exact List.lt_trans h hb

section

variable {mp : MDB_page} {low i : Nat} {node : MDB_node} {key : Bytes}

/-- An index with a node is below the number of keys. -/
theorem MDB_page.lt_NUMKEYS (h : mp.NODEPTR i = some node) : i < mp.NUMKEYS :=
  (List.getElem?_eq_some_iff.mp h).1

/-- Every index below the number of keys has a node. -/
theorem MDB_page.exists_NODEPTR (mp : MDB_page) (h : i < mp.NUMKEYS) :
    ∃ node, mp.NODEPTR i = some node :=
  ⟨_, List.getElem?_eq_getElem h⟩

/-- Keys that increase from `low` on: two nodes there, in their order. -/
theorem MDB_page.key_lt_key {j : Nat} {node' : MDB_node}
    (hs : (mp.mp_nodes.drop low).Pairwise (fun a b ↦ a.mn_key < b.mn_key)) (hl : low ≤ i)
    (hij : i < j) (hi : mp.NODEPTR i = some node) (hj : mp.NODEPTR j = some node') :
    node.mn_key < node'.mn_key := by
  have hi' : (mp.mp_nodes.drop low)[i - low]? = some node := by
    rw [List.getElem?_drop, show low + (i - low) = i by omega]
    exact hi
  have hj' : (mp.mp_nodes.drop low)[j - low]? = some node' := by
    rw [List.getElem?_drop, show low + (j - low) = j by omega]
    exact hj
  obtain ⟨h1, rfl⟩ := List.getElem?_eq_some_iff.mp hi'
  obtain ⟨h2, rfl⟩ := List.getElem?_eq_some_iff.mp hj'
  exact List.pairwise_iff_getElem.mp hs _ _ h1 h2 (by omega)

/-- The keys below the one searched are those before the bound. -/
theorem MDB_page.key_lt_iff (key : Bytes)
    (hs : (mp.mp_nodes.drop low).Pairwise (fun a b ↦ a.mn_key < b.mn_key)) (hl : low ≤ i)
    (hi : mp.NODEPTR i = some node) : node.mn_key < key ↔ i < mp.lowerBound low key := by
  have hget : (mp.mp_nodes.drop low)[i - low]? = some node := by
    rw [List.getElem?_drop, show low + (i - low) = i by omega]
    exact hi
  have := pos_iff_lt_countWhile hs (fun _ _ ↦ belowKey_mono key) hget
  rw [belowKey, decide_eq_true_eq] at this
  rw [this, MDB_page.lowerBound]
  omega

/-- The bound is at most the number of keys. -/
theorem MDB_page.lowerBound_le (hl : low ≤ mp.NUMKEYS) (key : Bytes) :
    mp.lowerBound low key ≤ mp.NUMKEYS := by
  have := countWhile_le (belowKey key) (mp.mp_nodes.drop low)
  rw [List.length_drop] at this
  unfold MDB_page.lowerBound MDB_page.NUMKEYS at *
  omega

private theorem signChange_lowerBound (key : Bytes)
    (hs : (mp.mp_nodes.drop low).Pairwise (fun a b ↦ a.mn_key < b.mn_key)) :
    SignChange (fun j ↦ (mp.NODEPTR j).map fun node ↦ mdb_cmp_memn key node.mn_key) low
      (mp.NUMKEYS - 1 : Int) (mp.lowerBound low key) := by
  intro j hj hjh
  obtain ⟨node, hnode⟩ := mp.exists_NODEPTR (i := j) (by omega)
  have hat := MDB_page.key_lt_iff key hs hj hnode
  refine ⟨mdb_cmp_memn key node.mn_key, by simp only [hnode, Option.map_some], ?_, ?_, ?_⟩
  · intro hlt
    exact (mdb_cmp_memn_pos _ _).mpr (hat.mpr hlt)
  · intro heq
    have := (mdb_cmp_memn_pos key node.mn_key).not.mpr (hat.not.mpr (by omega))
    omega
  · intro hgt
    obtain ⟨least, hleast⟩ := mp.exists_NODEPTR (i := mp.lowerBound low key)
      (by omega)
    have hlow : low ≤ mp.lowerBound low key := Nat.le_add_right _ _
    have hge := (MDB_page.key_lt_iff key hs hlow hleast).not.mpr (Nat.lt_irrefl _)
    have hlt := MDB_page.key_lt_key hs hlow hgt hleast hnode
    exact (mdb_cmp_memn_neg _ _).mpr (List.lt_of_le_of_lt (List.not_lt.mp hge) hlt)

private theorem cmp_eq_zero_iff :
    (mp.NODEPTR i).map (fun node ↦ mdb_cmp_memn key node.mn_key) = some 0 ↔
      (mp.NODEPTR i).map MDB_node.mn_key = some key := by
  cases mp.NODEPTR i with
  | none => simp
  | some node =>
    simp only [Option.map_some, Option.some.injEq, mdb_cmp_memn_zero]
    exact eq_comm

end

/-- On a page whose keys increase from `low` on, the search lands on the first node there whose
key is not below the one searched. -/
theorem mdb_node_search_eq {mc : MDB_cursor} {mp : MDB_page} (low : Nat) (key : Bytes)
    (hp : mc.page = some mp) (h2 : mp.IS_LEAF2 = false) (hl : (if mp.IS_LEAF then 0 else 1) = low)
    (hlt : low < mp.NUMKEYS)
    (hs : (mp.mp_nodes.drop low).Pairwise (fun a b ↦ a.mn_key < b.mn_key)) :
    mdb_node_search mc key =
      some (mc.setKi (mp.lowerBound low key),
        decide ((mp.NODEPTR (mp.lowerBound low key)).map MDB_node.mn_key = some key),
        mp.NODEPTR (mp.lowerBound low key)) := by
  have hle : mp.lowerBound low key ≤ mp.NUMKEYS := MDB_page.lowerBound_le (by omega) key
  obtain ⟨j, c, hb, hj, hz⟩ := bisect_spec (0, 0) (by omega)
    (signChange_lowerBound key hs) (Nat.le_add_right _ _) (by omega)
  have hexact : (c = 0 ∧ 0 < mp.NUMKEYS) ↔
      (mp.NODEPTR (mp.lowerBound low key)).map MDB_node.mn_key = some key := by
    rw [hz, cmp_eq_zero_iff]
    constructor
    · exact fun h ↦ h.1.2
    · intro h
      obtain ⟨node, hnode, -⟩ := Option.map_eq_some_iff.mp h
      have := MDB_page.lt_NUMKEYS hnode
      exact ⟨⟨by omega, h⟩, by omega⟩
  unfold mdb_node_search
  simp only [hp, h2, hl, hb, hj, Bool.false_eq_true, if_false]
  rw [if_pos (by omega)]
  simp only [hexact]

end ObDump.Lmdb
