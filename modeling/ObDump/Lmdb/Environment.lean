import ObDump.Lmdb.Snapshot
import Mathlib.Logic.Relation

/-!
# A shared environment

Library `Lmdb`. Processes write, one at a time, while threads of theirs and of others read: the
file with its two meta pages, the lock file with its reader table, the write transaction and the
read transactions. A step is what one of them does between two accesses to what they share. What
a write transaction puts into its pages is left open; `Step.commit` says what its trees may lie
in.
-/

namespace ObDump.Lmdb

open Base

/-! ### The file -/

/-- `MDB_meta`, with the records of `mm_dbs[FREE_DBI]` by transaction id;
`dart/src/lmdb/mdb.c:1057`. -/
structure MDB_meta where
  mm_txnid : Nat
  mm_last_pg : Nat
  free_root : Nat
  main_root : Nat
  free : List (Nat × List Nat)

/-- The pages of the trees of a meta page. -/
def MDB_meta.Pages (psize : Nat) (map : Nat → MDB_page) (page : MDB_meta) (p : Nat) : Prop :=
  page.free_root ≠ P_INVALID ∧ Occupies psize map page.free_root p ∨
    page.main_root ≠ P_INVALID ∧ Occupies psize map page.main_root p

/-- A version lies in the same pages of a map that has them. -/
theorem MDB_meta.pages_congr {psize : Nat} {map map' : Nat → MDB_page} {page : MDB_meta} {p : Nat}
    (hmap : ∀ p, page.Pages psize map p → map' p = map p) :
    page.Pages psize map' p ↔ page.Pages psize map p := by
  apply or_congr
  · apply and_congr_right
    exact fun hr ↦ occupies_congr fun q hq ↦ hmap q (.inl ⟨hr, hq⟩)
  · apply and_congr_right
    exact fun hr ↦ occupies_congr fun q hq ↦ hmap q (.inr ⟨hr, hq⟩)

/-! ### Readers -/

/-- `MDB_reader`; no transaction id is `(txnid_t)-1`; `dart/src/lmdb/mdb.c:688–714`. -/
structure MDB_reader where
  mr_pid : Nat
  mr_txnid : Option Nat

/-- Where a read transaction is: over, in `mdb_txn_renew0`, or begun. -/
inductive ReadTxn
  | finished
  | load
  | store (mti_txnid : Nat)
  | check
  | dbs (mt_txnid : Nat)
  | last (mt_txnid md_root : Nat)
  | active (mt_txnid md_root mt_next_pgno : Nat)

/-! ### The writer -/

/-- An entry of the dirty list: `num` pages from `mid` on, and what they hold. -/
structure Dirty where
  mid : Nat
  num : Nat
  data : Nat → MDB_page

/-- The entry has the page. -/
def Dirty.Covers (d : Dirty) (p : Nat) : Prop := d.mid ≤ p ∧ p < d.mid + d.num

instance (d : Dirty) (p : Nat) : Decidable (d.Covers p) :=
  inferInstanceAs (Decidable (_ ∧ _))

/-- Where a write transaction is: between calls, in `mdb_page_alloc` or the
`mdb_find_oldest` it calls, failed, or in `mdb_page_flush`. -/
inductive WritePc
  | work
  | search (num retry : Nat) (found_old : Bool)
  | fetch (num retry : Nat) (found_old : Bool)
  | pid (num retry i oldest : Nat)
  | txnid (num retry i oldest : Nat)
  | error
  | flush (rest : List Dirty)

/-- A write transaction of a process; `free` are the records it sees in `FREE_DBI`. -/
structure WriteTxn where
  proc : Nat
  mt_txnid : Nat
  mt_next_pgno : Nat
  free_root : Nat
  main_root : Nat
  free : List (Nat × List Nat)
  mt_free_pgs : List Nat
  mt_loose_pgs : List Nat
  dirty_list : List Dirty
  pc : WritePc

/-- What holds the writer's mutex: nothing, a transaction, or one whose meta page is written
and whose number the lock file has not got yet. -/
inductive Writer
  | idle
  | active (txn : WriteTxn)
  | written

/-- The page is in the dirty list. -/
def WriteTxn.IsDirty (txn : WriteTxn) (p : Nat) : Prop := ∃ d ∈ txn.dirty_list, d.Covers p

/-- What the transaction sees of the map: its dirty pages, and the file elsewhere. -/
def WriteTxn.view (txn : WriteTxn) (map : Nat → MDB_page) (p : Nat) : MDB_page :=
  match txn.dirty_list.find? fun d ↦ d.Covers p with
  | some d => d.data (p - d.mid)
  | none => map p

/-- The meta page the transaction writes. -/
def WriteTxn.meta_page (txn : WriteTxn) : MDB_meta where
  mm_txnid := txn.mt_txnid
  mm_last_pg := txn.mt_next_pgno - 1
  free_root := txn.free_root
  main_root := txn.main_root
  free := txn.free

/-- `mdb_txn_renew0` of a write transaction; `dart/src/lmdb/mdb.c:2775–2808`. -/
def WriteTxn.renew (proc mti_txnid : Nat) (page : MDB_meta) : WriteTxn where
  proc := proc
  mt_txnid := mti_txnid + 1
  mt_next_pgno := page.mm_last_pg + 1
  free_root := page.free_root
  main_root := page.main_root
  free := page.free
  mt_free_pgs := []
  mt_loose_pgs := []
  dirty_list := []
  pc := .work

/-! ### The environment -/

/-- The file, the lock file, the writer, what each process knows, and the read transaction of the
thread that owns each slot. -/
structure MDB_env where
  me_psize : Nat
  me_map : Nat → MDB_page
  me_metas : Nat → MDB_meta
  mti_txnid : Nat
  mti_numreaders : Nat
  mti_readers : Nat → MDB_reader
  me_maxreaders : Nat
  me_pghead : Option (List Nat)
  me_pglast : Nat
  me_txn : Writer
  me_maxpg : Nat → Nat
  me_pgoldest : Nat → Nat
  txns : Nat → ReadTxn

/-- The number of the last version whose meta page is written. -/
def MDB_env.now (env : MDB_env) : Nat := max (env.me_metas 0).mm_txnid (env.me_metas 1).mm_txnid

/-- The meta page of the last version. -/
def MDB_env.last (env : MDB_env) : MDB_meta := env.me_metas (env.now % 2)

/-- The free pages the transaction has read. -/
def MDB_env.pghead (env : MDB_env) : List Nat := env.me_pghead.getD []

/-- The write transaction goes on. -/
def MDB_env.setTxn (env : MDB_env) (txn : WriteTxn) : MDB_env := { env with me_txn := .active txn }

/-! ### What readers do -/

/-- The next access of `mdb_txn_renew0` for a read transaction on the slot `r`, in a process
with `me_maxpg` pages mapped; `dart/src/lmdb/mdb.c:2718–2722`, `2767–2831`. -/
def ReadTxn.renew (env : MDB_env) (me_maxpg : Nat) (r : MDB_reader) :
    ReadTxn → MDB_reader × ReadTxn
  | .finished => (r, if r.mr_pid ≠ 0 ∧ r.mr_txnid = none then .load else .finished)
  | .load => (r, .store env.mti_txnid)
  | .store t => ({ r with mr_txnid := some t }, .check)
  | .check => (r, if r.mr_txnid = some env.mti_txnid then .dbs env.mti_txnid else .load)
  | .dbs t => (r, .last t (env.me_metas (t % 2)).main_root)
  | .last t root =>
    let next := (env.me_metas (t % 2)).mm_last_pg + 1
    -- `MDB_MAP_RESIZED`
    if me_maxpg < next then ({ r with mr_txnid := none }, .finished)
    else (r, .active t root next)
  | .active t root next => (r, .active t root next)

/-- A slot of the reader table and the transaction on it are set. -/
def MDB_env.setReader (env : MDB_env) (i : Nat) (r : MDB_reader × ReadTxn) : MDB_env :=
  { env with
    mti_readers := Function.update env.mti_readers i r.1
    txns := Function.update env.txns i r.2 }

/-- The transaction on a slot makes its next access. -/
def MDB_env.renew (env : MDB_env) (i me_maxpg : Nat) : MDB_env :=
  env.setReader i ((env.txns i).renew env me_maxpg (env.mti_readers i))

/-- The first free slot; `dart/src/lmdb/mdb.c:2737–2740`. -/
def MDB_env.freeSlot (env : MDB_env) : Nat :=
  ((List.range env.mti_numreaders).find? fun i ↦ (env.mti_readers i).mr_pid = 0).getD
    env.mti_numreaders

/-- A slot is claimed under the readers' mutex; `dart/src/lmdb/mdb.c:2735–2759`. -/
def MDB_env.claim (env : MDB_env) (pid : Nat) : MDB_env :=
  { env.setReader env.freeSlot ({ mr_pid := pid, mr_txnid := none }, .finished) with
    mti_numreaders := max env.mti_numreaders (env.freeSlot + 1) }

/-- `mdb_txn_end` of a read transaction; `dart/src/lmdb/mdb.c:3016–3027`. -/
def MDB_env.endRead (env : MDB_env) (i : Nat) : MDB_env :=
  env.setReader i ({ env.mti_readers i with mr_txnid := none }, .finished)

/-- The thread or its process is gone: `mdb_env_reader_dest`, `mdb_env_close0`,
`mdb_reader_check0`. -/
def MDB_env.leave (env : MDB_env) (i : Nat) : MDB_env :=
  env.setReader i ({ env.mti_readers i with mr_pid := 0 }, .finished)

/-! ### What the writer does -/

/-- The first place with `num` pages in a row; page numbers ascend here, as they do from the
tail of the source's list; `dart/src/lmdb/mdb.c:2224–2233`. -/
def searchRange (num : Nat) (mop : List Nat) : Option Nat :=
  (List.range (mop.length + 1 - num)).find? fun i ↦
    decide (mop[i + (num - 1)]? = mop[i]?.map (· + (num - 1)))

/-- Pages past the last used one; `dart/src/lmdb/mdb.c:2310–2340`. -/
def MDB_env.grow (env : MDB_env) (txn : WriteTxn) (num : Nat) (data : Nat → MDB_page) : MDB_env :=
  if env.me_maxpg txn.proc ≤ txn.mt_next_pgno + num then env.setTxn { txn with pc := .error }
  else env.setTxn
    { txn with
      mt_next_pgno := txn.mt_next_pgno + num
      dirty_list := ⟨txn.mt_next_pgno, num, data⟩ :: txn.dirty_list
      pc := .work }

/-- The pages of `me_pghead` from place `i` on; `dart/src/lmdb/mdb.c:2319–2340`. -/
def MDB_env.takePages (env : MDB_env) (txn : WriteTxn) (num i : Nat) (data : Nat → MDB_page) :
    MDB_env :=
  { env with
    me_pghead := some (env.pghead.take i ++ env.pghead.drop (i + num))
    me_txn := .active
      { txn with
        dirty_list := ⟨env.pghead.getD i 0, num, data⟩ :: txn.dirty_list
        pc := .work } }

/-- A record is too recent, or the one that would be next: the readers are looked at once;
`dart/src/lmdb/mdb.c:2256–2264`, `2272–2280`. -/
def MDB_env.tooRecent (env : MDB_env) (txn : WriteTxn) (num retry : Nat) (found_old : Bool)
    (data : Nat → MDB_page) : MDB_env :=
  if found_old then env.grow txn num data
  else env.setTxn { txn with pc := .pid num retry env.mti_numreaders (txn.mt_txnid - 1) }

/-- The next step of `mdb_page_alloc`, where `data` is what new memory holds;
`dart/src/lmdb/mdb.c:2176–2345`, with `mdb_find_oldest`, `2124–2140`. -/
def MDB_env.mdb_page_alloc (env : MDB_env) (txn : WriteTxn) (data : Nat → MDB_page) : MDB_env :=
  match txn.pc with
  | .search num retry found_old =>
    match searchRange num env.pghead with
    | some i => env.takePages txn num i data
    | none =>
      if num ≤ env.pghead.length then
        if retry = 0 then env.grow txn num data
        else env.setTxn { txn with pc := .fetch num (retry - 1) found_old }
      else env.setTxn { txn with pc := .fetch num retry found_old }
  | .fetch num retry found_old =>
    if env.me_pgoldest txn.proc ≤ env.me_pglast + 1 then env.tooRecent txn num retry found_old data
    else
      match txn.free.find? fun r ↦ env.me_pglast < r.1 with
      | none => env.grow txn num data
      | some r =>
        if env.me_pgoldest txn.proc ≤ r.1 then env.tooRecent txn num retry found_old data
        else
          { env with
            me_pghead := some (env.pghead.merge r.2)
            me_pglast := r.1
            me_txn := .active { txn with pc := .search num retry found_old } }
  | .pid num retry (i + 1) oldest =>
    if (env.mti_readers i).mr_pid ≠ 0 then env.setTxn { txn with pc := .txnid num retry i oldest }
    else env.setTxn { txn with pc := .pid num retry i oldest }
  | .pid num retry 0 oldest =>
    { env with
      me_pgoldest := Function.update env.me_pgoldest txn.proc oldest
      me_txn := .active { txn with pc := .fetch num retry true } }
  | .txnid num retry i oldest =>
    let oldest' := match (env.mti_readers i).mr_txnid with
      | some mr => min oldest mr
      | none => oldest
    env.setTxn { txn with pc := .pid num retry i oldest' }
  | _ => env

/-- Dirty pages are filled and linked. -/
def WriteTxn.edit (txn : WriteTxn) (data : Nat → Nat → MDB_page) (free_root main_root : Nat) :
    WriteTxn :=
  { txn with
    dirty_list := txn.dirty_list.map fun d ↦ { d with data := data d.mid }
    free_root := free_root
    main_root := main_root }

/-- Page numbers put into the list; `dart/src/lmdb/mdb.c:5771–5778`. -/
def insertRange (mop : List Nat) (pg num : Nat) : List Nat :=
  mop.takeWhile (· < pg) ++ List.range' pg num ++ mop.dropWhile (· < pg)

/-- `mdb_ovpage_free` of a dirty page, when there is a list to give it back to;
`dart/src/lmdb/mdb.c:5736–5778`. -/
def MDB_env.giveBack (env : MDB_env) (txn : WriteTxn) (d : Dirty) : MDB_env :=
  { env with
    me_pghead := some (insertRange env.pghead d.mid d.num)
    me_txn := .active { txn with dirty_list := txn.dirty_list.filter (·.mid ≠ d.mid) } }

/-- The loose pages leave the dirty list. -/
def WriteTxn.unloosened (txn : WriteTxn) : List Dirty :=
  txn.dirty_list.filter (·.mid ∉ txn.mt_loose_pgs)

/-- Without `me_pghead` the loose pages are freed; `dart/src/lmdb/mdb.c:3121–3163`. -/
def WriteTxn.freeLoose (txn : WriteTxn) : WriteTxn :=
  { txn with
    mt_free_pgs := txn.mt_loose_pgs ++ txn.mt_free_pgs
    mt_loose_pgs := []
    dirty_list := txn.unloosened }

/-- The pages of `me_pghead` go into the records reserved for them, given by key and size;
`dart/src/lmdb/mdb.c:3288–3314`. -/
def fillReserved : List Nat → List (Nat × Nat) → List (Nat × List Nat)
  | _, [] => []
  | mop, r :: room => (r.1, mop.take r.2) :: fillReserved (mop.drop r.2) room

/-- The record of the pages the transaction freed; `dart/src/lmdb/mdb.c:3190–3223`. -/
def WriteTxn.freeRecord (txn : WriteTxn) : List (Nat × List Nat) :=
  if txn.mt_free_pgs = [] then [] else [(txn.mt_txnid, txn.mt_free_pgs.mergeSort)]

/-- `mdb_freelist_save` as it ends, with the records it has reserved. The loose pages stay in
the source's dirty list, and are not flushed; `dart/src/lmdb/mdb.c:3099–3316`. -/
def MDB_env.mdb_freelist_save (env : MDB_env) (txn : WriteTxn) (room : List (Nat × Nat)) :
    MDB_env :=
  let mop := env.pghead.merge txn.mt_loose_pgs.mergeSort
  { env with
    me_pghead := env.me_pghead.map fun _ ↦ mop
    me_txn := .active
      { txn with
        free := fillReserved mop room ++ txn.free.filter (env.me_pglast < ·.1) ++ txn.freeRecord
        mt_loose_pgs := []
        dirty_list := txn.unloosened
        pc := .flush txn.unloosened } }

/-- The records reserved have keys up to `me_pglast`, and room for all pages. -/
structure MDB_env.Reserves (env : MDB_env) (txn : WriteTxn) (room : List (Nat × Nat)) : Prop where
  keys : ∀ r ∈ room, 1 ≤ r.1 ∧ r.1 ≤ env.me_pglast
  sorted : room.Pairwise (·.1 < ·.1)
  enough : env.pghead.length + txn.mt_loose_pgs.length ≤ (room.map Prod.snd).sum

/-- `mdb_page_flush`, one entry; `dart/src/lmdb/mdb.c:3324–3470`. -/
def MDB_env.flushEntry (env : MDB_env) (txn : WriteTxn) (d : Dirty) (rest : List Dirty) :
    MDB_env :=
  { env with
    me_map := fun p ↦ if d.Covers p then d.data (p - d.mid) else env.me_map p
    me_txn := .active { txn with pc := .flush rest } }

/-- `mdb_env_write_meta` up to the write; the list of free pages is given up, as it is when
the transaction ends; `dart/src/lmdb/mdb.c:3837–3948`. -/
def MDB_env.mdb_env_write_meta (env : MDB_env) (txn : WriteTxn) : MDB_env :=
  { env with
    me_metas := Function.update env.me_metas (txn.mt_txnid % 2) txn.meta_page
    me_pghead := none
    me_pglast := 0
    me_txn := .written }

/-- `mdb_txn_end` of a write transaction that is given up. -/
def MDB_env.abort (env : MDB_env) : MDB_env :=
  { env with
    me_pghead := none
    me_pglast := 0
    me_txn := .idle }

/-- The trees of the transaction lie in pages it has taken, or had and not freed. -/
def MDB_env.Confined (env : MDB_env) (txn : WriteTxn) : Prop :=
  ∀ p, txn.meta_page.Pages env.me_psize (txn.view env.me_map) p →
    (env.last.Pages env.me_psize env.me_map p ∨ txn.IsDirty p) ∧ p ∉ txn.mt_free_pgs

/-! ### Runs -/

/-- A step of a reader or of the writer. -/
inductive Step (env : MDB_env) : MDB_env → Prop
  | claim {pid : Nat} : pid ≠ 0 → env.freeSlot < env.me_maxreaders → Step env (env.claim pid)
  | renew (i me_maxpg : Nat) : Step env (env.renew i me_maxpg)
  | endRead (i : Nat) : (∃ t root next, env.txns i = .active t root next) →
      Step env (env.endRead i)
  | leave (i : Nat) : Step env (env.leave i)
  | begin (proc : Nat) : env.me_txn = .idle →
      (env.me_metas (env.mti_txnid % 2)).mm_last_pg < env.me_maxpg proc →
      Step env (env.setTxn (.renew proc env.mti_txnid (env.me_metas (env.mti_txnid % 2))))
  /-- `mdb_page_alloc` is called. -/
  | alloc {txn : WriteTxn} (num : Nat) : env.me_txn = .active txn → txn.pc = .work → 0 < num →
      Step env (env.setTxn { txn with pc := .search num (num * 60) false })
  | page_alloc {txn : WriteTxn} (data : Nat → MDB_page) : env.me_txn = .active txn →
      Step env (env.mdb_page_alloc txn data)
  /-- A loose page is used again; `dart/src/lmdb/mdb.c:2200–2209`. -/
  | reuse {txn : WriteTxn} {p : Nat} {loose : List Nat} : env.me_txn = .active txn →
      txn.pc = .work → txn.mt_loose_pgs = p :: loose →
      Step env (env.setTxn { txn with mt_loose_pgs := loose })
  | edit {txn : WriteTxn} (data : Nat → Nat → MDB_page) (free_root main_root : Nat) :
      env.me_txn = .active txn → txn.pc = .work →
      Step env (env.setTxn (txn.edit data free_root main_root))
  /-- `mt_free_pgs` grows by a page of the trees or a dirty one: `mdb_page_touch`,
  `mdb_page_loose`, `mdb_ovpage_free`. -/
  | free {txn : WriteTxn} {p : Nat} : env.me_txn = .active txn → txn.pc = .work →
      env.last.Pages env.me_psize env.me_map p ∨ txn.IsDirty p → p ∉ txn.mt_free_pgs →
      p ∉ txn.mt_loose_pgs → Step env (env.setTxn { txn with mt_free_pgs := p :: txn.mt_free_pgs })
  /-- `mdb_page_loose` of a dirty page; `dart/src/lmdb/mdb.c:1908–1914`. -/
  | loosen {txn : WriteTxn} {d : Dirty} : env.me_txn = .active txn → txn.pc = .work →
      d ∈ txn.dirty_list → d.num = 1 → d.mid ∉ txn.mt_free_pgs → d.mid ∉ txn.mt_loose_pgs →
      Step env (env.setTxn { txn with mt_loose_pgs := d.mid :: txn.mt_loose_pgs })
  | giveBack {txn : WriteTxn} {d : Dirty} : env.me_txn = .active txn → txn.pc = .work →
      env.me_pghead ≠ none → d ∈ txn.dirty_list →
      (∀ p, d.Covers p → p ∉ txn.mt_free_pgs ∧ p ∉ txn.mt_loose_pgs) →
      Step env (env.giveBack txn d)
  | freeLoose {txn : WriteTxn} : env.me_txn = .active txn → txn.pc = .work →
      env.me_pghead = none → Step env (env.setTxn txn.freeLoose)
  | freelist_save {txn : WriteTxn} {room : List (Nat × Nat)} : env.me_txn = .active txn →
      txn.pc = .work → (env.me_pghead = none → txn.mt_loose_pgs = []) → env.Reserves txn room →
      Step env (env.mdb_freelist_save txn room)
  | flush {txn : WriteTxn} {d : Dirty} {rest : List Dirty} : env.me_txn = .active txn →
      txn.pc = .flush (d :: rest) → Step env (env.flushEntry txn d rest)
  | commit {txn : WriteTxn} : env.me_txn = .active txn → txn.pc = .flush [] →
      env.Confined txn → Step env (env.mdb_env_write_meta txn)
  /-- `mti_txnid` is set and the mutex released; `dart/src/lmdb/mdb.c:3956`. Where the writer has
  died the next one does it in `mdb_mutex_failed`. -/
  | publish : env.me_txn = .written →
      Step env { env with mti_txnid := env.mti_txnid + 1, me_txn := .idle }
  | abort {txn : WriteTxn} : env.me_txn = .active txn → Step env env.abort

/-- Any number of steps, in any order. -/
abbrev Steps : MDB_env → MDB_env → Prop := Relation.ReflTransGen Step

/-- A version: its meta page, and the file when that was written. -/
structure Version where
  page : MDB_meta
  map : Nat → MDB_page

/-- The version as a read transaction sees it. -/
def Version.txn (v : Version) : MDB_txn where
  me_map := v.map
  md_root := v.page.main_root
  mt_next_pgno := v.page.mm_last_pg + 1

/-- The version the file holds. -/
def MDB_env.version (env : MDB_env) : Version := ⟨env.last, env.me_map⟩

/-- The versions so far, after a step. -/
def MDB_env.record (env env' : MDB_env) (versions : List Version) : List Version :=
  if env'.now = env.now then versions else versions ++ [env'.version]

/-- A run, with the versions of the database from its start on. -/
inductive History (env₀ : MDB_env) : List Version → MDB_env → Prop
  | start : History env₀ [env₀.version] env₀
  | step {versions : List Version} {env env' : MDB_env} : History env₀ versions env →
      Step env env' → History env₀ (env.record env' versions) env'

/-! ### Where runs start -/

/-- The trees and the free pages of a version are apart, and all of them before `mm_last_pg`. -/
structure MDB_meta.Sound (psize : Nat) (map : Nat → MDB_page) (now : Nat) (page : MDB_meta) :
    Prop where
  pages_le : ∀ p, page.Pages psize map p → p ≤ page.mm_last_pg
  free_le : ∀ r ∈ page.free, ∀ p ∈ r.2, p ≤ page.mm_last_pg
  keys : ∀ r ∈ page.free, 1 ≤ r.1 ∧ r.1 ≤ now
  sorted : page.free.Pairwise (·.1 < ·.1)
  ascending : ∀ r ∈ page.free, r.2.Pairwise (· < ·)
  once : ∀ r ∈ page.free, ∀ r' ∈ page.free, ∀ p, p ∈ r.2 → p ∈ r'.2 → r.1 = r'.1
  apart : ∀ r ∈ page.free, ∀ p ∈ r.2, ¬ page.Pages psize map p

/-- An environment nobody uses yet. -/
structure MDB_env.Opened (env : MDB_env) : Prop where
  now : env.now = env.mti_txnid
  idle : env.me_txn = .idle
  pghead : env.me_pghead = none
  pglast : env.me_pglast = 0
  pgoldest : ∀ proc, env.me_pgoldest proc ≤ env.mti_txnid
  readers : ∀ i, (env.mti_readers i).mr_pid = 0 ∧ env.txns i = .finished
  sound : env.last.Sound env.me_psize env.me_map env.now

end ObDump.Lmdb
