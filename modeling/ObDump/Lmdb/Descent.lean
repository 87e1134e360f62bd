import ObDump.Lmdb.Tree

/-!
# The descent from the root

Library `Lmdb`. `mdb_page_search` on a tree of any depth the stack has room for: it ends on the
first leaf, on the last one, or on the one where a key belongs, with the stack a path to it.
The search for the last leaf may find pages of an earlier path on the stack and keep them.
-/

namespace ObDump.Lmdb

open Base

/-! ### The page on top of the stack -/

/-- The top of the stack is a page of the tree, with its path below. -/
structure OnPage (txn : MDB_txn) (entries : List Entry) (depth : Nat) (mc : MDB_cursor)
    (l d pgno : Nat) (before sub after : List Entry) : Prop where
  snum : mc.mc_snum = l + 1
  top : mc.mc_top = l
  valid : mc.mt_error = false
  spine : Spine txn entries depth mc.mc_pg mc.mc_ki l d pgno before sub after

namespace OnPage

variable {txn : MDB_txn} {entries : List Entry} {depth : Nat} {mc : MDB_cursor}
  {l d pgno : Nat} {before sub after : List Entry}

/-- The page at the top of the stack. -/
theorem page (h : OnPage txn entries depth mc l d pgno before sub after) :
    mc.page = some (txn.me_map pgno) := by
  rw [MDB_cursor.page, h.top]
  exact h.spine.page

/-- The index on the top page is not part of the path. -/
theorem setKi (h : OnPage txn entries depth mc l d pgno before sub after) (i : Nat) :
    OnPage txn entries depth (mc.setKi i) l d pgno before sub after where
  snum := h.snum
  top := h.top
  valid := h.valid
  spine := by
    apply h.spine.congr _ _ (fun j _ ↦ rfl)
    intro j hj
    rw [MDB_cursor.mc_ki_setKi, h.top, Function.update_of_ne (by omega)]

/-- Neither are the flags. -/
theorem flags (h : OnPage txn entries depth mc l d pgno before sub after) (i e : Bool) :
    OnPage txn entries depth { mc with c_initialized := i, c_eof := e } l d pgno before sub after :=
  ⟨h.snum, h.top, h.valid, h.spine⟩

/-- The path does not depend on `C_EOF`. -/
theorem flag_eof (h : OnPage txn entries depth mc l d pgno before sub after) (e : Bool) :
    OnPage txn entries depth { mc with c_eof := e } l d pgno before sub after :=
  ⟨h.snum, h.top, h.valid, h.spine⟩

/-- The page of a child goes onto the stack. -/
theorem push {ess : List (List Entry)} {i : Nat} {node : MDB_node} {s : List Entry}
    (h : OnPage txn entries depth mc l (d + 1) pgno before ess.flatten after)
    (hc : Children txn (Subtree txn d) (txn.me_map pgno) ess) (hd : depth < CURSOR_STACK)
    (hn : (txn.me_map pgno).NODEPTR i = some node) (hs : ess[i]? = some s) :
    ∃ mc', mdb_cursor_push (mc.setKi i) (txn.me_map node.NODEPGNO) = success mc' () ∧
      OnPage txn entries depth mc' (l + 1) d node.NODEPGNO (before ++ (ess.take i).flatten) s
        ((ess.drop (i + 1)).flatten ++ after) ∧
      mc'.ki = 0 ∧ mc'.c_initialized = mc.c_initialized ∧ mc'.c_eof = mc.c_eof := by
  have hlev := h.spine.level
  have hsnum := h.snum
  refine ⟨_, if_neg (by rw [MDB_cursor.mc_snum_setKi]; omega), ⟨?_, ?_, h.valid, ?_⟩, ?_, rfl, rfl⟩
  · simp only [MDB_cursor.mc_snum_setKi]
    omega
  · exact hsnum
  · simp only [MDB_cursor.mc_snum_setKi, MDB_cursor.mc_pg_setKi, MDB_cursor.mc_ki_setKi, h.top,
      hsnum]
    have hpar := (h.setKi i).spine.congr
      (Function.update mc.mc_pg (l + 1) (some (txn.me_map node.NODEPGNO)))
      (Function.update (Function.update mc.mc_ki l i) (l + 1) 0)
      (fun j hj ↦ Function.update_of_ne (by omega) _ _)
      (fun j hj ↦ by
        rw [Function.update_of_ne (by omega), MDB_cursor.mc_ki_setKi, h.top])
    have hki : Function.update (Function.update mc.mc_ki l i) (l + 1) 0 l = i := by
      rw [Function.update_of_ne (by omega), Function.update_self]
    have := Spine.child hpar hc (hki.symm ▸ hn) (hki.symm ▸ hs) (Function.update_self _ _ _)
    rwa [hki] at this
  · exact Function.update_self _ _ _

end OnPage

/-! ### One level down -/

section

variable {txn : MDB_txn} {entries : List Entry} {depth : Nat} {mc : MDB_cursor}
  {l d pgno : Nat} {before after : List Entry} {ess : List (List Entry)}

/-- The child of a node follows its parent on the stack. -/
theorem pushChild_eq {i : Nat}
    (h : OnPage txn entries depth mc l (d + 1) pgno before ess.flatten after)
    (hc : Children txn (Subtree txn d) (txn.me_map pgno) ess) (hd : depth < CURSOR_STACK)
    (hi : i < ess.length) :
    ∃ (mc' : MDB_cursor) (node : MDB_node) (s : List Entry),
      pushChild txn mc (txn.me_map pgno) i = success mc' () ∧ ess[i]? = some s ∧
      OnPage txn entries depth mc' (l + 1) d node.NODEPGNO (before ++ (ess.take i).flatten) s
        ((ess.drop (i + 1)).flatten ++ after) ∧
      mc'.ki = 0 ∧ mc'.c_initialized = mc.c_initialized := by
  obtain ⟨node, hn⟩ := (txn.me_map pgno).exists_NODEPTR (i := i)
    (by rw [← hc.length]; exact hi)
  have hs : ess[i]? = some ess[i] := List.getElem?_eq_getElem hi
  obtain ⟨mc', hpush, hon, hki, hinit, -⟩ := h.push hc hd hn hs
  refine ⟨mc', node, ess[i], ?_, hs, hon, hki, hinit⟩
  simp only [pushChild, hn]
  rw [mdb_page_get, if_pos (hc.child i node _ hn hs).1, Result.bind_success, hpush]

/-- On a leaf the descent is over. -/
theorem mdb_page_search_root_leaf {how : Search} {turns : Nat} {sub : List Entry}
    (h : OnPage txn entries depth mc l 0 pgno before sub after) :
    mdb_page_search_root txn how (turns + 1) mc =
      success { mc with c_initialized := true, c_eof := false } () := by
  have hleaf : LeafPage txn (txn.me_map pgno) sub := h.spine.subtree
  simp [mdb_page_search_root, h.page, hleaf.branch, hleaf.leaf]

/-- On a branch page it takes one turn of the loop. -/
theorem mdb_page_search_root_branch {how : Search} {turns : Nat}
    (h : OnPage txn entries depth mc l (d + 1) pgno before ess.flatten after)
    (hc : Children txn (Subtree txn d) (txn.me_map pgno) ess) :
    mdb_page_search_root txn how (turns + 1) mc =
      (searchBranch txn how mc (txn.me_map pgno)).bind fun mc _ ↦
        mdb_page_search_root txn how turns mc := by
  simp only [mdb_page_search_root, h.page, hc.branch, if_true]

end

/-! ### Whole descents -/

section

variable {txn : MDB_txn} {entries : List Entry} {depth : Nat}

/-- The path ends on a leaf, and the flags are those of a cursor in use. -/
structure OnLeaf (txn : MDB_txn) (entries : List Entry) (depth : Nat) (mc : MDB_cursor)
    (pgno : Nat) (before sub after : List Entry) : Prop where
  on : OnPage txn entries depth mc depth 0 pgno before sub after
  initialized : mc.c_initialized = true
  eof : mc.c_eof = true → after = []

/-- A search that takes one turn a level, and keeps a property of the cursor and of the cut, ends
on a leaf with that property. -/
theorem mdb_page_search_root_eq {how : Search}
    {P : MDB_cursor → List Entry → List Entry → Prop}
    (hstep : ∀ mc l d pgno before after ess,
      OnPage txn entries depth mc l (d + 1) pgno before ess.flatten after →
      Children txn (Subtree txn d) (txn.me_map pgno) ess → P mc before after →
      ∃ mc' pgno' before' sub' after',
        searchBranch txn how mc (txn.me_map pgno) = success mc' () ∧
        OnPage txn entries depth mc' (l + 1) d pgno' before' sub' after' ∧
        P mc' before' after')
    {d turns : Nat} {mc : MDB_cursor} {l pgno : Nat} {before sub after : List Entry}
    (h : OnPage txn entries depth mc l d pgno before sub after) (hP : P mc before after)
    (ht : d < turns) :
    ∃ mc' pgno' before' sub' after',
      mdb_page_search_root txn how turns mc =
        success { mc' with c_initialized := true, c_eof := false } () ∧
      OnPage txn entries depth mc' depth 0 pgno' before' sub' after' ∧ P mc' before' after' := by
  obtain ⟨turns, rfl⟩ : ∃ n, turns = n + 1 := ⟨turns - 1, by omega⟩
  induction d generalizing turns mc l pgno before sub after with
  | zero =>
    obtain rfl : l = depth := h.spine.level
    exact ⟨mc, pgno, before, sub, after, mdb_page_search_root_leaf h, h, hP⟩
  | succ d ih =>
    obtain ⟨ess, rfl, hc⟩ := h.spine.subtree
    obtain ⟨mc', pgno', before', sub', after', hs, hon, hP'⟩ :=
      hstep mc l d pgno before after ess h hc hP
    obtain ⟨turns, rfl⟩ : ∃ n, turns = n + 1 := ⟨turns - 1, by omega⟩
    rw [mdb_page_search_root_branch h hc, hs, Result.bind_success]
    exact ih hon hP' turns (by omega)

/-! ### The first leaf -/

private theorem searchBranch_first {mc : MDB_cursor} {l d pgno : Nat} {before after : List Entry}
    {ess : List (List Entry)} (hd : depth < CURSOR_STACK)
    (h : OnPage txn entries depth mc l (d + 1) pgno before ess.flatten after)
    (hc : Children txn (Subtree txn d) (txn.me_map pgno) ess) (hb : before = []) :
    ∃ mc' pgno' before' sub' after',
      searchBranch txn .first mc (txn.me_map pgno) = success mc' () ∧
      OnPage txn entries depth mc' (l + 1) d pgno' before' sub' after' ∧ before' = [] := by
  have hmany := hc.many
  obtain ⟨mc', node, s, hp, -, hon, -⟩ := pushChild_eq (i := 0) h hc hd (by rw [hc.length]; omega)
  refine ⟨mc', _, _, s, _, ?_, hon, by rw [hb, List.take_zero]; rfl⟩
  rw [searchBranch, if_neg (by omega)]
  exact hp

/-! ### The last leaf -/

/-- Past the top, an initialized cursor holds index 0 or the rest of an earlier path. -/
def Kept (txn : MDB_txn) (entries : List Entry) (depth : Nat) (mc : MDB_cursor) : Prop :=
  mc.c_initialized = true → mc.ki = 0 ∨ ∃ pgno before sub after,
    Spine txn entries depth mc.mc_pg mc.mc_ki depth 0 pgno before sub after

private theorem Spine.next_page {pg : Nat → Option MDB_page} {ki : Nat → Nat}
    {l d pgno pgno' : Nat} {before sub after before' sub' after' : List Entry}
    (h : Spine txn entries depth pg ki l (d + 1) pgno before sub after)
    (hold : Spine txn entries depth pg ki depth 0 pgno' before' sub' after') :
    ∃ node, (txn.me_map pgno).NODEPTR (ki l) = some node ∧
      pg (l + 1) = some (txn.me_map node.NODEPGNO) := by
  have hlev := h.level
  obtain ⟨d', pgno'', before'', sub'', after'', hs⟩ := hold.ancestor (l + 1) (by omega)
  cases hs with
  | child hpar _ hn _ hp =>
    have heq := Option.some_inj.mp (hpar.page.symm.trans h.page)
    exact ⟨_, heq ▸ hn, hp⟩

private theorem searchBranch_last {mc : MDB_cursor} {l d pgno : Nat} {before after : List Entry}
    {ess : List (List Entry)} (hd : depth < CURSOR_STACK)
    (h : OnPage txn entries depth mc l (d + 1) pgno before ess.flatten after)
    (hc : Children txn (Subtree txn d) (txn.me_map pgno) ess)
    (hP : after = [] ∧ Kept txn entries depth mc) :
    ∃ mc' pgno' before' sub' after',
      searchBranch txn .last mc (txn.me_map pgno) = success mc' () ∧
      OnPage txn entries depth mc' (l + 1) d pgno' before' sub' after' ∧
      after' = [] ∧ Kept txn entries depth mc' := by
  obtain ⟨hafter, hkept⟩ := hP
  have hmany := hc.many
  have hlen := hc.length
  have hlast : (ess.drop ((txn.me_map pgno).NUMKEYS - 1 + 1)).flatten ++ after = [] := by
    rw [hafter, List.drop_eq_nil_of_le (by omega)]
    rfl
  rw [searchBranch, if_neg (by omega)]
  by_cases hin : mc.c_initialized ∧ mc.ki = (txn.me_map pgno).NUMKEYS - 1
  · obtain ⟨hinit, hki⟩ := hin
    obtain h0 | ⟨pgno', before', sub', after', hold⟩ := hkept hinit
    · omega
    have hkl : mc.mc_ki l = (txn.me_map pgno).NUMKEYS - 1 := by
      rw [← hki, MDB_cursor.ki, h.top]
    obtain ⟨node, hn, hp⟩ := h.spine.next_page hold
    have hs : ess[mc.mc_ki l]? = some ess[mc.mc_ki l] := List.getElem?_eq_getElem (by omega)
    refine ⟨{ mc with mc_top := mc.mc_snum, mc_snum := mc.mc_snum + 1 }, _, _, _, _,
      by simp only [if_pos (And.intro hinit hki)],
      ⟨?_, h.snum, h.valid, .child h.spine hc hn hs hp⟩, ?_, ?_⟩
    · exact congrArg (· + 1) h.snum
    · rw [hkl]
      exact hlast
    · exact fun _ ↦ .inr ⟨pgno', before', sub', after', hold⟩
  · obtain ⟨mc', node, s, hp, -, hon, hki, -⟩ :=
      pushChild_eq (i := (txn.me_map pgno).NUMKEYS - 1) h hc hd (by omega)
    refine ⟨mc', _, _, s, _, ?_, hon, hlast, fun _ ↦ .inl hki⟩
    simp only [if_neg hin]
    exact hp

/-! ### The leaf of a key -/

/-- Every entry of the list is below the key. -/
def AllBelow (key : Bytes) (es : List Entry) : Prop := ∀ e ∈ es, e.1 < key

/-- Every entry of the list is above the key. -/
def AllAbove (key : Bytes) (es : List Entry) : Prop := ∀ e ∈ es, key < e.1

private theorem AllBelow.append {key : Bytes} {es es' : List Entry} (h : AllBelow key es)
    (h' : AllBelow key es') : AllBelow key (es ++ es') := fun e he ↦
  (List.mem_append.mp he).elim (h e) (h' e)

private theorem AllAbove.append {key : Bytes} {es es' : List Entry} (h : AllAbove key es)
    (h' : AllAbove key es') : AllAbove key (es ++ es') := fun e he ↦
  (List.mem_append.mp he).elim (h e) (h' e)

private theorem Children.allBelow {mp : MDB_page} {ess : List (List Entry)} {d i : Nat}
    {key : Bytes} {node : MDB_node} (h : Children txn (Subtree txn d) mp ess)
    (hn : mp.NODEPTR i = some node) (hk : 0 < i → ¬ key < node.mn_key) :
    AllBelow key (ess.take i).flatten := by
  intro e he
  obtain ⟨es, hes, hm⟩ := List.mem_flatten.mp he
  obtain ⟨j, hj, hget⟩ := List.getElem_of_mem hes
  rw [List.length_take] at hj
  rw [List.getElem_take] at hget
  have hlt := h.before i j node es hn (by omega)
    (by rw [List.getElem?_eq_getElem (by omega), hget]) e hm
  exact Std.lt_of_lt_of_le hlt (List.not_lt.mp (hk (by omega)))

private theorem Children.allAbove {mp : MDB_page} {ess : List (List Entry)} {d i : Nat}
    {key : Bytes} (h : Children txn (Subtree txn d) mp ess)
    (hk : ∀ node, mp.NODEPTR (i + 1) = some node → key < node.mn_key) :
    AllAbove key (ess.drop (i + 1)).flatten := by
  intro e he
  obtain ⟨es, hes, hm⟩ := List.mem_flatten.mp he
  obtain ⟨j, hj, hget⟩ := List.getElem_of_mem hes
  rw [List.length_drop] at hj
  rw [List.getElem_drop] at hget
  obtain ⟨node, hn⟩ := mp.exists_NODEPTR (i := i + 1)
    (by rw [← h.length]; omega)
  have hle := h.from_on (i + 1) (i + 1 + j) node es (by omega) hn (by omega)
    (by rw [List.getElem?_eq_getElem (by omega), hget]) e hm
  exact Std.lt_of_lt_of_le (hk node hn) hle

private theorem searchBranch_key_node {mc : MDB_cursor} {l d pgno : Nat} (key : Bytes)
    {before after : List Entry} {ess : List (List Entry)}
    (h : OnPage txn entries depth mc l (d + 1) pgno before ess.flatten after)
    (hc : Children txn (Subtree txn d) (txn.me_map pgno) ess) :
    ∃ i j, i < ess.length ∧
      searchBranch txn (.key key) mc (txn.me_map pgno) =
        pushChild txn (mc.setKi j) (txn.me_map pgno) i ∧
      (∀ node, (txn.me_map pgno).NODEPTR i = some node → 0 < i → ¬ key < node.mn_key) ∧
      ∀ node, (txn.me_map pgno).NODEPTR (i + 1) = some node → key < node.mn_key := by
  -- No key up to the node followed is above the one searched, and the next one is.
  obtain ⟨m, hm⟩ : ∃ m, m = (txn.me_map pgno).lowerBound 1 key := ⟨_, rfl⟩
  have hmany := hc.many
  have hlen := hc.length
  have hlow : 1 ≤ m := hm ▸ Nat.le_add_right _ _
  have hle : m ≤ (txn.me_map pgno).NUMKEYS :=
    hm ▸ MDB_page.lowerBound_le (by omega) key
  have hlt : ∀ j node, 1 ≤ j → (txn.me_map pgno).NODEPTR j = some node →
      (node.mn_key < key ↔ j < m) := fun j node hj hn ↦
    hm ▸ MDB_page.key_lt_iff key hc.sorted hj hn
  have hsearch := mdb_node_search_eq 1 key h.page hc.leaf2 (by simp [hc.leaf]) hmany
    hc.sorted
  rw [← hm] at hsearch
  rw [searchBranch, if_neg (by omega)]
  simp only [hsearch]
  -- the node before the bound is below the key
  have hprev : ∀ node, (txn.me_map pgno).NODEPTR (m - 1) = some node → 0 < m - 1 →
      ¬ key < node.mn_key := fun node hn hpos ↦
    List.not_lt.mpr (List.le_of_lt ((hlt (m - 1) node (by omega) hn).mpr (by omega)))
  cases hn : (txn.me_map pgno).NODEPTR m with
  | none =>
    have hmn : m = (txn.me_map pgno).NUMKEYS := by
      have := List.getElem?_eq_none_iff.mp hn
      unfold MDB_page.NUMKEYS at hle ⊢
      omega
    refine ⟨m - 1, m, by omega, by rw [hmn], hprev, ?_⟩
    intro node hnode
    rw [show m - 1 + 1 = m by omega, hn] at hnode
    simp at hnode
  | some node =>
    have hmlt := MDB_page.lt_NUMKEYS hn
    by_cases hex : node.mn_key = key
    · refine ⟨m, m, by omega, by simp [hex], ?_, ?_⟩
      · intro node' hn' _
        obtain rfl : node = node' := Option.some_inj.mp (hn.symm.trans hn')
        rw [hex]
        exact List.lt_irrefl key
      · intro node' hn'
        rw [← hex]
        exact MDB_page.key_lt_key hc.sorted hlow (Nat.lt_succ_self m) hn hn'
    · refine ⟨m - 1, m, by omega, by simp [hex, show m ≠ 0 by omega], hprev, ?_⟩
      intro node' hn'
      rw [show m - 1 + 1 = m by omega] at hn'
      obtain rfl : node = node' := Option.some_inj.mp (hn.symm.trans hn')
      have hge := (hlt m node hlow hn).not.mpr (Nat.lt_irrefl m)
      by_contra hnot
      exact hex (List.le_antisymm (List.not_lt.mp hnot) (List.not_lt.mp hge))

private theorem searchBranch_key {mc : MDB_cursor} {l d pgno : Nat} {key : Bytes}
    {before after : List Entry} {ess : List (List Entry)} (hd : depth < CURSOR_STACK)
    (h : OnPage txn entries depth mc l (d + 1) pgno before ess.flatten after)
    (hc : Children txn (Subtree txn d) (txn.me_map pgno) ess)
    (hP : AllBelow key before ∧ AllAbove key after) :
    ∃ mc' pgno' before' sub' after',
      searchBranch txn (.key key) mc (txn.me_map pgno) = success mc' () ∧
      OnPage txn entries depth mc' (l + 1) d pgno' before' sub' after' ∧
      AllBelow key before' ∧ AllAbove key after' := by
  obtain ⟨i, j, hi, hs, hle, hgt⟩ := searchBranch_key_node key h hc
  obtain ⟨mc', node, s, hp, -, hon, -⟩ := pushChild_eq (i := i) (h.setKi j) hc hd hi
  obtain ⟨node', hn⟩ := (txn.me_map pgno).exists_NODEPTR (i := i)
    (by rw [← hc.length]; exact hi)
  refine ⟨mc', _, _, s, _, hs.trans hp, hon, ?_, ?_⟩
  · exact hP.1.append (hc.allBelow hn (hle node' hn))
  · exact (hc.allAbove hgt).append hP.2

/-! ### From the root -/

/-- The main database is a tree that holds the entries, of a depth the stack has room for. -/
structure HasTree (txn : MDB_txn) (entries : List Entry) (depth : Nat) : Prop where
  root_gt : 1 < txn.md_root
  root_ne : txn.md_root ≠ P_INVALID
  root_lt : txn.md_root < txn.mt_next_pgno
  stack : depth < CURSOR_STACK
  subtree : Subtree txn depth txn.md_root entries

/-- Before its first search a cursor holds no root page; afterwards it is on a leaf. -/
def Ready (txn : MDB_txn) (entries : List Entry) (depth : Nat) (mc : MDB_cursor) : Prop :=
  mc.mt_error = false ∧
    (mc.c_initialized = false ∧ mc.mc_pg 0 = none ∨
      ∃ pgno before sub after, OnLeaf txn entries depth mc pgno before sub after)

/-- A cursor on a leaf is ready for a search. -/
theorem OnLeaf.ready {mc : MDB_cursor} {pgno : Nat} {before sub after : List Entry}
    (h : OnLeaf txn entries depth mc pgno before sub after) : Ready txn entries depth mc :=
  ⟨h.on.valid, .inr ⟨pgno, before, sub, after, h⟩⟩

/-- The cursor at the start of a descent. -/
def MDB_cursor.atRoot (txn : MDB_txn) (mc : MDB_cursor) : MDB_cursor :=
  { mc with
    mc_pg := Function.update mc.mc_pg 0 (some (txn.me_map txn.md_root)), mc_snum := 1, mc_top := 0 }

/-- A path starts with the root page. -/
theorem Spine.root_page {pg : Nat → Option MDB_page} {ki : Nat → Nat} {l d pgno : Nat}
    {before sub after : List Entry}
    (h : Spine txn entries depth pg ki l d pgno before sub after) :
    pg 0 = some (txn.me_map txn.md_root) := by
  induction h with
  | root hp _ => exact hp
  | child _ _ _ _ _ ih => exact ih

private theorem getRoot_eq {mc : MDB_cursor} (ht : HasTree txn entries depth)
    (h : Ready txn entries depth mc) :
    getRoot txn mc =
      success
        { mc with mc_pg := Function.update mc.mc_pg 0 (some (txn.me_map txn.md_root)) } () := by
  have hget : mdb_page_get txn mc txn.md_root = success mc (txn.me_map txn.md_root) :=
    if_pos ht.root_lt
  obtain ⟨-, ⟨-, hnone⟩ | ⟨pgno, before, sub, after, hleaf⟩⟩ := h
  · rw [getRoot, hnone, if_neg (by simp), hget, Result.bind_success]
  · have hself : Function.update mc.mc_pg 0 (some (txn.me_map txn.md_root)) = mc.mc_pg := by
      rw [← hleaf.on.spine.root_page, Function.update_eq_self]
    rw [getRoot, hget, Result.bind_success, hself]
    exact ite_self _

private theorem mdb_page_search_eq {how : Search} {mc : MDB_cursor}
    {P : MDB_cursor → List Entry → List Entry → Prop} (ht : HasTree txn entries depth)
    (hstep : ∀ mc l d pgno before after ess,
      OnPage txn entries depth mc l (d + 1) pgno before ess.flatten after →
      Children txn (Subtree txn d) (txn.me_map pgno) ess → P mc before after →
      ∃ mc' pgno' before' sub' after',
        searchBranch txn how mc (txn.me_map pgno) = success mc' () ∧
        OnPage txn entries depth mc' (l + 1) d pgno' before' sub' after' ∧
        P mc' before' after')
    (h : Ready txn entries depth mc) (hP : P (mc.atRoot txn) [] []) :
    ∃ mc' pgno before sub after,
      mdb_page_search txn how mc =
        success { mc' with c_initialized := true, c_eof := false } () ∧
      OnPage txn entries depth mc' depth 0 pgno before sub after ∧ P mc' before after := by
  have hroot : (mc.atRoot txn).mc_pg 0 = some (txn.me_map txn.md_root) :=
    Function.update_self 0 _ mc.mc_pg
  have hon : OnPage txn entries depth (mc.atRoot txn) 0 depth txn.md_root [] entries [] :=
    ⟨rfl, rfl, h.1, .root hroot ht.subtree⟩
  obtain ⟨mc', pgno, before, sub, after, hs, hleaf, hP'⟩ :=
    mdb_page_search_root_eq hstep hon hP (Nat.lt_succ_of_lt ht.stack)
  refine ⟨mc', pgno, before, sub, after, ?_, hleaf, hP'⟩
  have hgt := ht.root_gt
  rw [mdb_page_search, if_neg (by rw [h.1]; simp), if_neg ht.root_ne, if_neg (by omega),
    getRoot_eq ht h, Result.bind_success]
  exact hs

private theorem OnPage.leaf {mc : MDB_cursor} {pgno : Nat} {before sub after : List Entry}
    (h : OnPage txn entries depth mc depth 0 pgno before sub after) :
    OnLeaf txn entries depth { mc with c_initialized := true, c_eof := false } pgno before sub
      after :=
  ⟨h.flags true false, rfl, fun hf ↦ by simp at hf⟩

/-- `MDB_PS_FIRST` finds the leaf with no entry before it. -/
theorem mdb_page_search_first {mc : MDB_cursor} (ht : HasTree txn entries depth)
    (h : Ready txn entries depth mc) :
    ∃ mc' pgno sub after, mdb_page_search txn .first mc = success mc' () ∧
      OnLeaf txn entries depth mc' pgno [] sub after := by
  obtain ⟨mc', pgno, before, sub, after, hs, hon, rfl⟩ :=
    mdb_page_search_eq (P := fun _ before _ ↦ before = []) ht
      (fun _ _ _ _ _ _ _ h hc hb ↦ searchBranch_first ht.stack h hc hb) h rfl
  exact ⟨_, pgno, sub, after, hs, hon.leaf⟩

/-- `MDB_PS_LAST` finds the leaf with no entry after it, with or without an earlier path on the
stack. -/
theorem mdb_page_search_last {mc : MDB_cursor} (ht : HasTree txn entries depth)
    (h : Ready txn entries depth mc) :
    ∃ mc' pgno before sub, mdb_page_search txn .last mc = success mc' () ∧
      OnLeaf txn entries depth mc' pgno before sub [] := by
  have hkept : Kept txn entries depth (mc.atRoot txn) := by
    intro hinit
    obtain ⟨-, ⟨hno, -⟩ | ⟨pgno, before, sub, after, hleaf⟩⟩ := h
    · rw [show (mc.atRoot txn).c_initialized = mc.c_initialized from rfl, hno] at hinit
      simp at hinit
    · have hself : (mc.atRoot txn).mc_pg = mc.mc_pg := by
        change Function.update mc.mc_pg 0 (some (txn.me_map txn.md_root)) = mc.mc_pg
        rw [← hleaf.on.spine.root_page, Function.update_eq_self]
      rw [hself]
      exact .inr ⟨pgno, before, sub, after, hleaf.on.spine⟩
  obtain ⟨mc', pgno, before, sub, after, hs, hon, rfl, -⟩ :=
    mdb_page_search_eq (P := fun mc _ after ↦ after = [] ∧ Kept txn entries depth mc) ht
      (fun _ _ _ _ _ _ _ h hc hP ↦ searchBranch_last ht.stack h hc hP) h ⟨rfl, hkept⟩
  exact ⟨_, pgno, before, sub, hs, hon.leaf⟩

/-- The search for a key finds the leaf that cuts the entries where the key belongs. -/
theorem mdb_page_search_key {mc : MDB_cursor} (key : Bytes) (ht : HasTree txn entries depth)
    (h : Ready txn entries depth mc) :
    ∃ mc' pgno before sub after, mdb_page_search txn (.key key) mc = success mc' () ∧
      OnLeaf txn entries depth mc' pgno before sub after ∧ mc'.c_eof = false ∧
      AllBelow key before ∧ AllAbove key after := by
  obtain ⟨mc', pgno, before, sub, after, hs, hon, hcut⟩ :=
    mdb_page_search_eq (P := fun _ before after ↦ AllBelow key before ∧ AllAbove key after) ht
      (fun _ _ _ _ _ _ _ h hc hP ↦ searchBranch_key ht.stack h hc hP) h
      ⟨fun _ he ↦ absurd he List.not_mem_nil, fun _ he ↦ absurd he List.not_mem_nil⟩
  exact ⟨_, pgno, before, sub, after, hs, hon.leaf, rfl, hcut⟩

/-- An empty tree has nothing to search. -/
theorem mdb_page_search_empty {mc : MDB_cursor} {how : Search} (hr : txn.md_root = P_INVALID)
    (hv : mc.mt_error = false) : mdb_page_search txn how mc = failure mc MDB_NOTFOUND := by
  rw [mdb_page_search, if_neg (by rw [hv]; simp), if_pos hr]

end

end ObDump.Lmdb
