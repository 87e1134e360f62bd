import ObDump.Lmdb.Moves

/-!
# Positioning on a key

Library `Lmdb`. `mdb_cursor_set` first tries the page under the cursor: its first key, its
last key, the key under the cursor, and whether any page lies to the right. Only then does it
search from the root. Whichever way it goes, it ends on the first entry whose key is not below
the one given.
-/

namespace ObDump.Lmdb

open Base

/-- The index of the first entry whose key is not below the one given. -/
def seekIndex (entries : List Entry) (key : Bytes) : Nat :=
  countWhile (fun e ↦ decide (e.1 < key)) entries

section

variable {txn : MDB_txn} {entries : List Entry} {depth : Nat} {mc : MDB_cursor} {pgno : Nat}
  {before sub after : List Entry} {key : Bytes}

/-! ### The index of a key -/

/-- The search lands at the end of the entries at most. -/
theorem seekIndex_le (entries : List Entry) (key : Bytes) :
    seekIndex entries key ≤ entries.length := countWhile_le _ _

private theorem below_mono (key : Bytes) (a b : Entry) (h : a.1 < b.1)
    (hb : decide (b.1 < key) = true) : decide (a.1 < key) = true := by
  rw [decide_eq_true_eq] at hb ⊢
  exact List.lt_trans h hb

/-- The entries below a key are those before its index. -/
theorem lt_seekIndex_iff (key : Bytes) {i : Nat} {e : Entry}
    (hs : entries.Pairwise (fun a b ↦ a.1 < b.1)) (he : entries[i]? = some e) :
    e.1 < key ↔ i < seekIndex entries key := by
  rw [seekIndex, ← pos_iff_lt_countWhile hs (below_mono key) he, decide_eq_true_eq]

/-- An entry with the key is at its index. -/
theorem seekIndex_of_eq {i : Nat} {e : Entry} (hs : entries.Pairwise (fun a b ↦ a.1 < b.1))
    (he : entries[i]? = some e) (hk : e.1 = key) : seekIndex entries key = i := by
  have hge : ¬ i < seekIndex entries key := fun hc ↦ by
    have := (lt_seekIndex_iff key hs he).mpr hc
    rw [hk] at this
    exact List.lt_irrefl key this
  have hi := (List.getElem?_eq_some_iff.mp he).1
  by_contra hne
  have hlt : seekIndex entries key < entries.length := by omega
  have he' : entries[seekIndex entries key]? = some entries[seekIndex entries key] :=
    List.getElem?_eq_getElem hlt
  have hnb := (lt_seekIndex_iff key hs he').not.mpr (Nat.lt_irrefl _)
  have hab := List.pairwise_iff_getElem.mp hs _ _ hlt hi (by omega)
  obtain ⟨_, hget⟩ := List.getElem?_eq_some_iff.mp he
  rw [hget, hk] at hab
  exact hnb hab

/-- Where a leaf covers a key, the index lies on it or right behind it. -/
theorem OnLeaf.seekIndex (h : OnLeaf txn entries depth mc pgno before sub after)
    (hb : AllBelow key before) (ha : AllAbove key after) :
    seekIndex entries key = before.length + seekIndex sub key := by
  rw [Lmdb.seekIndex, ← h.on.spine.entries_eq]
  apply countWhile_append
  · intro e he
    rw [decide_eq_true_eq]
    exact hb e he
  · intro e he
    rw [decide_eq_true_eq]
    exact List.lt_asymm (ha e he)

private theorem LeafPage.lowerBound_eq {mp : MDB_page} (h : LeafPage txn mp sub) :
    mp.lowerBound 0 key = Lmdb.seekIndex sub key := by
  have hk := map_key_of_holds h.nodes
  have h1 := countWhile_map MDB_node.mn_key (fun k ↦ decide (k < key)) mp.mp_nodes
  have h2 := countWhile_map Prod.fst (fun k ↦ decide (k < key)) sub
  rw [hk] at h1
  rw [MDB_page.lowerBound, Nat.zero_add, List.drop_zero]
  exact h1.symm.trans h2

/-! ### What a call may do -/

/-- A search for a key succeeds on the entry at its index, which has the key itself when the
match is to be exact. It fails when there is no such entry; the cursor then stays, on an empty
database, or is left at the index. -/
inductive Sought (txn : MDB_txn) (entries : List Entry) (exact : Bool) (key : Bytes)
    (p : Position) (r : Result Entry) : Prop
  | found {mc : MDB_cursor} {e : Entry} : r = success mc e →
      entries[seekIndex entries key]? = some e → (exact = true → e.1 = key) →
      Placed txn entries mc (.on (seekIndex entries key)) → Sought txn entries exact key p r
  | missing {mc : MDB_cursor} {p' : Position} : r = failure mc MDB_NOTFOUND →
      (∀ e, entries[seekIndex entries key]? = some e → exact = true ∧ e.1 ≠ key) →
      Placed txn entries mc p' →
      (entries = [] ∧ p' = p ∨ p' = .on (seekIndex entries key) ∨
        p' = .gap (seekIndex entries key)) → Sought txn entries exact key p r

/-- Every operation but `MDB_SET_RANGE` asks for the key itself. -/
def MDB_cursor_op.exact (op : MDB_cursor_op) : Bool := decide (op ≠ .MDB_SET_RANGE)

variable {op : MDB_cursor_op} {p : Position}

private theorem set1_sought (op : MDB_cursor_op) {mp : MDB_page} {leaf : MDB_node} {e : Entry}
    (ht : HasTree txn entries depth) (h : OnLeaf txn entries depth mc pgno before sub after)
    (hmp : mp = txn.me_map pgno) (hn : mp.NODEPTR mc.ki = some leaf)
    (he : sub[mc.ki]? = some e) (hseek : seekIndex entries key = before.length + mc.ki)
    (hexact : op.exact = true → e.1 = key) :
    Sought txn entries op.exact key p (set1 txn op key mc mp leaf) := by
  subst hmp
  obtain ⟨e', he', hh⟩ := h.leafPage.entry hn
  obtain rfl : e' = e := Option.some_inj.mp (he'.symm.trans he)
  have hk := (List.getElem?_eq_some_iff.mp he).1
  have hout : (if op = .MDB_SET_RANGE ∨ op = .MDB_SET_KEY then e' else (key, e'.2)) = e' := by
    by_cases hop : op = .MDB_SET_RANGE ∨ op = .MDB_SET_KEY
    · exact if_pos hop
    · have hex : op.exact = true := by
        rw [MDB_cursor_op.exact, decide_eq_true_eq]
        exact fun hc ↦ hop (.inl hc)
      rw [if_neg hop, ← hexact hex]
  have hl := h.in_use
  have hon : Placed txn entries { mc with c_initialized := true, c_eof := false }
      (.on (seekIndex entries key)) := by
    rw [hseek]
    exact .on ht hl hk
  refine .found ?_ (by rw [hseek]; exact h.getElem? he) hexact hon
  rw [set1, if_neg (by rw [h.leafPage.leaf2]; simp), readNode_eq hh, Result.bind_success, hout]

/-! ### The search on the right page -/

private theorem OnLeaf.keys_sorted (h : OnLeaf txn entries depth mc pgno before sub after)
    (hs : entries.Pairwise (fun a b ↦ a.1 < b.1)) :
    sub.Pairwise (fun a b ↦ a.1 < b.1) ∧
      (txn.me_map pgno).mp_nodes.Pairwise (fun a b ↦ a.mn_key < b.mn_key) := by
  rw [← h.on.spine.entries_eq] at hs
  have hsub := (List.pairwise_append.mp (List.pairwise_append.mp hs).1).2.1
  refine ⟨hsub, ?_⟩
  have hmap : (sub.map Prod.fst).Pairwise (· < ·) := List.pairwise_map.mpr hsub
  rw [← map_key_of_holds h.leafPage.nodes] at hmap
  exact List.pairwise_map.mp hmap

section

variable (ht : HasTree txn entries depth) (h : OnLeaf txn entries depth mc pgno before sub after)
variable (hseek : Lmdb.seekIndex entries key = before.length + mc.ki)
include ht h hseek

private theorem sought_other_key {e : Entry} (he : sub[mc.ki]? = some e)
    (hop : op ≠ .MDB_SET_RANGE) (hne : e.1 ≠ key) :
    Sought txn entries op.exact key p (failure mc MDB_NOTFOUND) := by
  have hat : entries[Lmdb.seekIndex entries key]? = some e := by
    rw [hseek]
    exact h.getElem? he
  have hlt := (List.getElem?_eq_some_iff.mp he).1
  refine .missing rfl ?_ (.on ht h hlt) (.inr (.inl (by rw [hseek])))
  intro e' he'
  obtain rfl : e = e' := Option.some_inj.mp (hat.symm.trans he')
  exact ⟨by rw [MDB_cursor_op.exact, decide_eq_true_eq]; exact hop, hne⟩

variable (hk : mc.ki = sub.length)
include hk

private theorem sought_behind_page (ha : AllAbove key after) (hop : op ≠ .MDB_SET_RANGE) :
    Sought txn entries op.exact key p (failure mc MDB_NOTFOUND) := by
  refine .missing rfl ?_ (.gap ht h hk) (.inr (.inr (by rw [hseek])))
  intro e he
  refine ⟨by rw [MDB_cursor_op.exact, decide_eq_true_eq]; exact hop, ?_⟩
  -- The entry is the first one behind the page.
  rw [hseek, hk, ← h.on.spine.entries_eq, List.getElem?_append_right
    (by rw [List.length_append])] at he
  intro hkey
  have habove := ha e (List.mem_of_getElem? he)
  rw [hkey] at habove
  exact List.lt_irrefl key habove

private theorem sought_end (hafter : after = []) :
    Sought txn entries op.exact key p (failure { mc with c_eof := true } MDB_NOTFOUND) := by
  have hend : OnLeaf txn entries depth { mc with c_eof := true } pgno before sub after :=
    ⟨h.on.flag_eof true, h.initialized, fun _ ↦ hafter⟩
  refine .missing rfl ?_ (.gap ht hend hk) (.inr (.inr (by rw [hseek]; rfl)))
  intro e he
  have hlen := h.length_entries
  rw [hafter, List.length_nil] at hlen
  have hlt := (List.getElem?_eq_some_iff.mp he).1
  omega

private theorem sought_next_page (hafter : after ≠ []) :
    ∃ mc' pgno' leaf, mdb_cursor_sibling txn true mc = success mc' () ∧
      mc'.page = some (txn.me_map pgno') ∧ (txn.me_map pgno').IS_LEAF = true ∧
        (txn.me_map pgno').NODEPTR 0 = some leaf ∧
          Sought txn entries (MDB_cursor_op.exact .MDB_SET_RANGE) key p
            (set1 txn .MDB_SET_RANGE key mc' (txn.me_map pgno') leaf) := by
  obtain ⟨mc', pgno', sub', after', hsib, hon, hk0, hi, heof⟩ :=
    mdb_cursor_sibling_right h.on ht.stack hafter
  have hl' : OnLeaf txn entries depth mc' pgno' (before ++ sub) sub' after' :=
    ⟨hon, hi.trans h.initialized, fun hf ↦ (h.eof (heof ▸ hf) ▸ hafter).elim rfl⟩
  have hpos := List.length_pos_iff.mpr hl'.leafPage.ne_nil
  have he : sub'[0]? = some sub'[0] := List.getElem?_eq_getElem hpos
  obtain ⟨leaf, hn, -⟩ := hl'.leafPage.holds he
  refine ⟨mc', pgno', leaf, hsib, hl'.on.page, hl'.leafPage.leaf, hn, ?_⟩
  exact set1_sought .MDB_SET_RANGE ht hl' rfl (by rw [hk0]; exact hn) (by rw [hk0]; exact he)
    (by rw [hseek, hk, hk0, List.length_append, Nat.add_zero])
    (fun hc ↦ by simp [MDB_cursor_op.exact] at hc)

end

private theorem set2_sought (ht : HasTree txn entries depth)
    (hs : entries.Pairwise (fun a b ↦ a.1 < b.1))
    (h : OnLeaf txn entries depth mc pgno before sub after) (hb : AllBelow key before)
    (ha : AllAbove key after) : Sought txn entries op.exact key p (set2 txn op key mc) := by
  have hsearch := mdb_node_search_eq 0 key h.on.page h.leafPage.leaf2
    (by simp [h.leafPage.leaf]) h.leafPage.pos (h.keys_sorted hs).2
  rw [h.leafPage.lowerBound_eq] at hsearch
  have hl := h.setKi (Lmdb.seekIndex sub key)
  have hki : (mc.setKi (Lmdb.seekIndex sub key)).ki = Lmdb.seekIndex sub key :=
    MDB_cursor.ki_setKi _ _
  have hseek : Lmdb.seekIndex entries key =
      before.length + (mc.setKi (Lmdb.seekIndex sub key)).ki := by
    rw [hki]
    exact h.seekIndex hb ha
  unfold set2
  simp only [h.on.page, hsearch]
  cases hn : (txn.me_map pgno).NODEPTR (Lmdb.seekIndex sub key) with
  | some leaf =>
    obtain ⟨e, he, hh⟩ := h.leafPage.entry hn
    have hkey : leaf.mn_key = key ↔ e.1 = key := by rw [hh.key]
    simp only [Option.map_some, Option.some.injEq, Bool.not_eq_true', decide_eq_false_iff_not,
      hkey]
    by_cases hfail : op ≠ .MDB_SET_RANGE ∧ e.1 ≠ key
    · rw [if_pos hfail]
      exact sought_other_key ht hl hseek (by rw [hki]; exact he) hfail.1 hfail.2
    · rw [if_neg hfail]
      refine set1_sought op ht hl rfl (by rw [hki]; exact hn) (by rw [hki]; exact he) hseek ?_
      intro hex
      rw [MDB_cursor_op.exact, decide_eq_true_eq] at hex
      by_contra hne
      exact hfail ⟨hex, hne⟩
  | none =>
    -- Every key of the page is below: the next page starts with the entry.
    have hend : (mc.setKi (Lmdb.seekIndex sub key)).ki = sub.length := by
      have hout := List.getElem?_eq_none_iff.mp hn
      have hlen := h.leafPage.length
      have hle := seekIndex_le sub key
      unfold MDB_page.NUMKEYS at hlen
      omega
    by_cases hop : op = .MDB_SET_RANGE
    · subst hop
      simp only [ne_eq, not_true_eq_false, false_and, if_false]
      by_cases hafter : after = []
      · rw [mdb_cursor_sibling_right_none hl.on hafter]
        exact sought_end ht hl hseek hend hafter
      · obtain ⟨mc', pgno', leaf, hsib, hpage, hleaf, hn', hsought⟩ :=
          sought_next_page ht hl hseek hend hafter
        rw [hsib]
        simp only [success, hpage, hleaf, Bool.not_true, Bool.false_eq_true, if_false, hn']
        exact hsought
    · simp only [Option.map_none, ne_eq, hop, not_false_eq_true, reduceCtorEq, decide_false,
        Bool.not_false, and_self, if_true]
      exact sought_behind_page ht hl hseek hend ha hop

/-! ### The search from the root -/

private theorem setFromRoot_sought (ht : HasTree txn entries depth)
    (hs : entries.Pairwise (fun a b ↦ a.1 < b.1)) (h : Ready txn entries depth mc) :
    Sought txn entries op.exact key p (setFromRoot txn op key mc) := by
  obtain ⟨mc', pgno, before, sub, after, hsearch, hl, -, hb, ha⟩ := mdb_page_search_key key ht h
  rw [setFromRoot, hsearch, Result.bind_success]
  simp only [hl.on.page, hl.leafPage.leaf, Bool.not_true, Bool.false_eq_true, if_false]
  exact set2_sought ht hs hl hb ha

private theorem setFromRoot_empty (hr : txn.md_root = P_INVALID) (hv : mc.mt_error = false) :
    setFromRoot txn op key mc = failure mc MDB_NOTFOUND := by
  rw [setFromRoot, mdb_page_search_empty hr hv, Result.bind_failure]

/-! ### The page under the cursor -/

private theorem Spine.many {pg : Nat → Option MDB_page} {ki : Nat → Nat} {l d j : Nat}
    (h : Spine txn entries depth pg ki l d pgno before sub after) (hj : j < l) :
    ∃ mp, pg j = some mp ∧ 1 < mp.NUMKEYS := by
  obtain ⟨d', pgno', before', sub', after', hs⟩ := h.ancestor j (Nat.le_of_lt hj)
  have h1 := h.level
  have h2 := hs.level
  obtain ⟨d'', rfl⟩ : ∃ n, d' = n + 1 := ⟨d' - 1, by omega⟩
  obtain ⟨ess, -, hc⟩ := hs.subtree
  exact ⟨_, hs.page, hc.many⟩

private theorem hasRightSibling_iff (h : OnLeaf txn entries depth mc pgno before sub after) :
    hasRightSibling mc = true ↔ after ≠ [] := by
  rw [hasRightSibling, List.any_eq_true, ne_eq, h.on.spine.after_eq_nil_iff]
  constructor
  · rintro ⟨j, hj, hlt⟩ hall
    rw [List.mem_range, h.on.top] at hj
    obtain ⟨mp, hp, hmany⟩ := h.on.spine.many hj
    have hle := hall j hj mp hp
    simp only [hp, decide_eq_true_eq, MDB_page.lastKey, if_neg (show mp.NUMKEYS ≠ 0 by omega)]
      at hlt
    omega
  · intro hnot
    by_contra hnone
    apply hnot
    intro j hj mp hp
    by_contra hlt
    apply hnone
    refine ⟨j, List.mem_range.mpr (by rw [h.on.top]; exact hj), ?_⟩
    have hlast : mp.lastKey = mp.NUMKEYS - 1 := by
      rw [MDB_page.lastKey, if_neg (by omega)]
    simp only [hp, hlast, decide_eq_true_eq]
    omega

private theorem OnLeaf.cut_sorted (h : OnLeaf txn entries depth mc pgno before sub after)
    (hs : entries.Pairwise (fun a b ↦ a.1 < b.1)) {e : Entry} (he : e ∈ sub) :
    AllBelow e.1 before ∧ AllAbove e.1 after := by
  rw [← h.on.spine.entries_eq] at hs
  obtain ⟨hbs, -, hcross⟩ := List.pairwise_append.mp hs
  refine ⟨fun a ha ↦ (List.pairwise_append.mp hbs).2.2 a ha e he, fun a ha ↦ ?_⟩
  exact hcross e (List.mem_append_right before he) a ha

private theorem AllBelow.trans {key key' : Bytes} {es : List Entry} (h : AllBelow key es)
    (hk : key < key') : AllBelow key' es := fun e he ↦ List.lt_trans (h e he) hk

private theorem AllAbove.trans {key key' : Bytes} {es : List Entry} (h : AllAbove key es)
    (hk : key' < key) : AllAbove key' es := fun e he ↦ List.lt_trans hk (h e he)

private theorem set1_at (op : MDB_cursor_op) {i : Nat} {leaf : MDB_node}
    (ht : HasTree txn entries depth) (hs : entries.Pairwise (fun a b ↦ a.1 < b.1))
    (h : OnLeaf txn entries depth mc pgno before sub after)
    (hn : (txn.me_map pgno).NODEPTR i = some leaf) (hk : leaf.mn_key = key) :
    Sought txn entries op.exact key p
      (set1 txn op key (mc.setKi i) (txn.me_map pgno) leaf) := by
  -- The search ends at an entry of the page.
  obtain ⟨e, he, hh⟩ := h.leafPage.entry hn
  have hek : e.1 = key := hh.key.symm.trans hk
  exact set1_sought op ht (h.setKi i) rfl (by rw [MDB_cursor.ki_setKi]; exact hn)
    (by rw [MDB_cursor.ki_setKi]; exact he)
    (by rw [MDB_cursor.ki_setKi]; exact seekIndex_of_eq hs (h.getElem? he) hek) (fun _ ↦ hek)

private theorem setElsewhere_sought {leaf : MDB_node} (ht : HasTree txn entries depth)
    (hs : entries.Pairwise (fun a b ↦ a.1 < b.1))
    (h : OnLeaf txn entries depth mc pgno before sub after)
    (hn : (txn.me_map pgno).NODEPTR 0 = some leaf) (hk : mc.mc_top = 0 → key < leaf.mn_key)
    {leaf' : MDB_node} (hleaf : mc.mc_top = 0 → leaf' = leaf) :
    Sought txn entries op.exact key p
      (setElsewhere txn op key mc (txn.me_map pgno) leaf') := by
  -- The key is below the page, or above it with a page to the right.
  unfold setElsewhere
  by_cases h0 : mc.mc_top = 0
  · obtain ⟨e, he, hh⟩ := h.leafPage.entry hn
    obtain ⟨rfl, rfl⟩ := h.at_root h0
    have hkey : key < e.1 := by
      rw [← hh.key]
      exact hk h0
    have hat : entries[0]? = some e := h.getElem? he
    have hseek : seekIndex entries key = 0 := by
      by_contra hne
      have := (lt_seekIndex_iff key hs hat).mpr (by omega)
      exact List.lt_asymm hkey this
    have hl := h.setKi 0
    rw [if_pos h0, hleaf h0]
    by_cases hop : op = .MDB_SET_RANGE
    · rw [if_pos hop]
      refine set1_sought op ht hl rfl (by rw [MDB_cursor.ki_setKi]; exact hn)
        (by rw [MDB_cursor.ki_setKi]; exact he) (by rw [MDB_cursor.ki_setKi, hseek]; rfl) ?_
      intro hc
      rw [MDB_cursor_op.exact, decide_eq_true_eq] at hc
      exact absurd hop hc
    · rw [if_neg hop]
      refine .missing rfl ?_ (.on ht hl ?_) (.inr (.inl ?_))
      · intro e' he'
        rw [hseek] at he'
        obtain rfl : e = e' := Option.some_inj.mp (hat.symm.trans he')
        refine ⟨by rw [MDB_cursor_op.exact, decide_eq_true_eq]; exact hop, ?_⟩
        rintro rfl
        exact List.lt_irrefl _ hkey
      · rw [MDB_cursor.ki_setKi]
        exact (List.getElem?_eq_some_iff.mp he).1
      · rw [MDB_cursor.ki_setKi, hseek]
        rfl
  · rw [if_neg h0]
    exact setFromRoot_sought ht hs h.ready

private theorem setWithin_sought (ht : HasTree txn entries depth)
    (hs : entries.Pairwise (fun a b ↦ a.1 < b.1))
    (h : OnLeaf txn entries depth mc pgno before sub after) (hb : AllBelow key before)
    (ha : AllAbove key after) :
    Sought txn entries op.exact key p (setWithin txn op key mc (txn.me_map pgno)) := by
  -- The key is between the first and the last of the page.
  unfold setWithin
  cases hn : (txn.me_map pgno).NODEPTR mc.ki with
  | none => exact set2_sought ht hs h.clear_eof hb ha
  | some leaf =>
    by_cases hk : mdb_cmp_memn key leaf.mn_key = 0
    · have := set1_at op (p := p) ht hs h hn ((mdb_cmp_memn_zero _ _).mp hk).symm
      rw [MDB_cursor.setKi_ki] at this
      simp only [hk, if_true]
      exact this
    · simp only [hk, if_false]
      exact set2_sought ht hs h.clear_eof hb ha

private theorem behind_sought {leaf leaf' first : MDB_node} (ht : HasTree txn entries depth)
    (hs : entries.Pairwise (fun a b ↦ a.1 < b.1))
    (h : OnLeaf txn entries depth mc pgno before sub after)
    (hf : (txn.me_map pgno).NODEPTR 0 = some first)
    (hn : (txn.me_map pgno).NODEPTR ((txn.me_map pgno).NUMKEYS - 1) = some leaf)
    (hk : leaf.mn_key < key) :
    Sought txn entries op.exact key p
      (if !hasRightSibling mc then failure (mc.setKi (txn.me_map pgno).NUMKEYS) MDB_NOTFOUND
      else setElsewhere txn op key mc (txn.me_map pgno) leaf') := by
  -- The key is above the last of the page.
  have hnum := h.leafPage.length
  have hlen := h.length_entries
  by_cases hr : hasRightSibling mc = true
  · rw [if_neg (by rw [hr]; simp)]
    -- entries follow the page, so the page is not the root
    have htop : mc.mc_top ≠ 0 := by
      intro h0
      exact (hasRightSibling_iff h).mp hr (h.at_root h0).2
    exact setElsewhere_sought ht hs h hf (fun h0 ↦ absurd h0 htop) (fun h0 ↦ absurd h0 htop)
  · have hafter : after = [] := by
      by_contra hne
      exact hr ((hasRightSibling_iff h).mpr hne)
    rw [if_pos (by simpa using hr)]
    obtain ⟨e, he, hh⟩ := h.leafPage.entry hn
    have hseek : seekIndex entries key = before.length + sub.length := by
      have hle := seekIndex_le entries key
      have hlt := (lt_seekIndex_iff key hs (h.getElem? he)).mp (by rw [← hh.key]; exact hk)
      rw [hafter, List.length_nil] at hlen
      omega
    have hgap : Placed txn entries (mc.setKi (txn.me_map pgno).NUMKEYS)
        (.gap (before.length + (mc.setKi (txn.me_map pgno).NUMKEYS).ki)) :=
      .gap ht (h.setKi _) (by rw [MDB_cursor.ki_setKi, hnum])
    refine .missing rfl ?_ hgap (.inr (.inr (by rw [MDB_cursor.ki_setKi, hnum, hseek])))
    intro e' he'
    have := (List.getElem?_eq_some_iff.mp he').1
    rw [hafter, List.length_nil] at hlen
    omega

private theorem setNearby_sought (ht : HasTree txn entries depth)
    (hs : entries.Pairwise (fun a b ↦ a.1 < b.1))
    (h : OnLeaf txn entries depth mc pgno before sub after) :
    Sought txn entries op.exact key p (setNearby txn op key mc) := by
  have hpos := h.leafPage.pos
  obtain ⟨first, hf⟩ := (txn.me_map pgno).exists_NODEPTR (i := 0) hpos
  obtain ⟨last, hn⟩ := (txn.me_map pgno).exists_NODEPTR
    (i := (txn.me_map pgno).NUMKEYS - 1) (by omega)
  obtain ⟨e, he, hh⟩ := h.leafPage.entry hf
  obtain ⟨e', he', hh'⟩ := h.leafPage.entry hn
  obtain ⟨hbelow, -⟩ := h.cut_sorted hs (List.mem_of_getElem? he)
  obtain ⟨-, habove⟩ := h.cut_sorted hs (List.mem_of_getElem? he')
  rw [← hh.key] at hbelow
  rw [← hh'.key] at habove
  unfold setNearby
  simp only [h.on.page, h.leafPage.leaf2, hf, if_neg (show (txn.me_map pgno).NUMKEYS ≠ 0 by omega),
    Bool.false_eq_true, if_false]
  by_cases hz : mdb_cmp_memn key first.mn_key = 0
  · rw [if_pos hz]
    exact set1_at op ht hs h hf ((mdb_cmp_memn_zero _ _).mp hz).symm
  rw [if_neg hz]
  by_cases hgt : 0 < mdb_cmp_memn key first.mn_key
  · rw [if_pos hgt]
    have hfk := (mdb_cmp_memn_pos _ _).mp hgt
    unfold setAbove
    by_cases hmany : 1 < (txn.me_map pgno).NUMKEYS
    · simp only [hmany, if_true, hn]
      by_cases hz' : mdb_cmp_memn key last.mn_key = 0
      · rw [if_pos hz']
        exact set1_at op ht hs h hn ((mdb_cmp_memn_zero _ _).mp hz').symm
      rw [if_neg hz']
      by_cases hlt' : mdb_cmp_memn key last.mn_key < 0
      · rw [if_pos hlt']
        exact setWithin_sought ht hs h (hbelow.trans hfk)
          (habove.trans ((mdb_cmp_memn_neg _ _).mp hlt'))
      · rw [if_neg hlt']
        exact behind_sought ht hs h hf hn ((mdb_cmp_memn_pos _ _).mp (by omega))
    · simp only [hmany, if_false]
      have hone : (txn.me_map pgno).NUMKEYS - 1 = 0 := by omega
      rw [hone] at hn
      exact behind_sought ht hs h hf (by rw [hone]; exact hf) hfk
  · rw [if_neg hgt]
    have hlt : key < first.mn_key := (mdb_cmp_memn_neg _ _).mp (by omega)
    exact setElsewhere_sought ht hs h hf (fun _ ↦ hlt) (fun _ ↦ rfl)

/-! ### Whole searches -/

variable {store : Store}

/-- From any state of the cursor, a search for a key that is not empty ends where it should. -/
theorem mdb_cursor_set_sought (op : MDB_cursor_op) (hs : txn.Stores store)
    (h : Placed txn store.entries mc p) (hk : key ≠ []) :
    Sought txn store.entries op.exact key p (mdb_cursor_set txn op key mc) := by
  have hsort := store.sorted
  rw [mdb_cursor_set, if_neg (by rw [List.length_eq_zero_iff]; exact hk)]
  have hp := h
  cases h with
  | unset hv hi hpg =>
    rw [if_neg (by rw [hi]; simp)]
    have hself : { mc with mc_pg := Function.update mc.mc_pg 0 none } = mc := by
      rw [← hpg, Function.update_eq_self]
    rw [hself]
    by_cases hne : store.entries = []
    · refine .missing (setFromRoot_empty (hs.empty hne) hv) ?_ hp (.inl ⟨hne, rfl⟩)
      intro e he
      rw [hne] at he
      simp at he
    · obtain ⟨depth, ht, hr⟩ := hp.ready hs hne
      exact setFromRoot_sought ht hsort hr
  | on ht hl _ =>
    rw [if_pos hl.initialized]
    exact setNearby_sought ht hsort hl
  | gap ht hl _ =>
    rw [if_pos hl.initialized]
    exact setNearby_sought ht hsort hl

end

end ObDump.Lmdb
