import ObDump.Base.ListCursor
import ObDump.Lmdb.Siblings

/-!
# First, last, next and previous

Library `Lmdb`. The cursor of the code follows a cursor over the list of entries: from any
state it can be in, the first, last, next and previous operations deliver the entry there, or
`MDB_NOTFOUND` and stay.
-/

namespace ObDump.Lmdb

open Base

section

variable {txn : MDB_txn} {entries : List Entry} {depth : Nat} {mc : MDB_cursor} {pgno : Nat}
  {before sub after : List Entry}

/-! ### Positions -/

/-- Where the cursor is in the list of entries. In the gap its index is past the end of a
page. -/
inductive Placed (txn : MDB_txn) (entries : List Entry) : MDB_cursor → Position → Prop
  | unset {mc : MDB_cursor} : mc.mt_error = false → mc.c_initialized = false →
      mc.mc_pg 0 = none → Placed txn entries mc .unset
  | on {mc : MDB_cursor} {depth pgno : Nat} {before sub after : List Entry} :
      HasTree txn entries depth → OnLeaf txn entries depth mc pgno before sub after →
      mc.ki < sub.length → Placed txn entries mc (.on (before.length + mc.ki))
  | gap {mc : MDB_cursor} {depth pgno : Nat} {before sub after : List Entry} :
      HasTree txn entries depth → OnLeaf txn entries depth mc pgno before sub after →
      mc.ki = sub.length → Placed txn entries mc (.gap (before.length + mc.ki))

/-- The cursor before any call. -/
theorem placed_mdb_cursor_init (txn : MDB_txn) (entries : List Entry) :
    Placed txn entries mdb_cursor_init .unset := .unset rfl rfl rfl

/-- The transaction of a placed cursor is usable. -/
theorem Placed.valid {p : Position} (h : Placed txn entries mc p) : mc.mt_error = false := by
  cases h with
  | unset hv _ _ => exact hv
  | on _ hl _ => exact hl.on.valid
  | gap _ hl _ => exact hl.on.valid

/-- What the cuts of a leaf add up to. -/
theorem OnLeaf.length_entries (h : OnLeaf txn entries depth mc pgno before sub after) :
    before.length + sub.length + after.length = entries.length := by
  rw [← h.on.spine.entries_eq, List.length_append, List.length_append]

/-- The page a cursor is on is a leaf. -/
theorem OnLeaf.leafPage (h : OnLeaf txn entries depth mc pgno before sub after) :
    LeafPage txn (txn.me_map pgno) sub := h.on.spine.subtree

/-- A cursor has at most all entries before it. -/
theorem Placed.ahead_le {p : Position} (h : Placed txn entries mc p) :
    p.ahead entries.length ≤ entries.length := by
  cases h with
  | unset _ _ _ => exact Nat.le_refl _
  | on _ hl hk =>
    have := hl.length_entries
    simp only [Position.ahead_on]
    omega
  | gap _ hl hk =>
    have := hl.length_entries
    simp only [Position.ahead_gap]
    omega

/-- The index may be set at will. -/
theorem OnLeaf.setKi (h : OnLeaf txn entries depth mc pgno before sub after) (i : Nat) :
    OnLeaf txn entries depth (mc.setKi i) pgno before sub after :=
  ⟨h.on.setKi i, h.initialized, h.eof⟩

/-- Clearing `C_EOF`. -/
theorem OnLeaf.clear_eof (h : OnLeaf txn entries depth mc pgno before sub after) :
    OnLeaf txn entries depth { mc with c_eof := false } pgno before sub after :=
  ⟨h.on.flag_eof false, h.initialized, fun hf ↦ by simp at hf⟩

/-- Setting both flags of a cursor that moves on. -/
theorem OnLeaf.in_use (h : OnLeaf txn entries depth mc pgno before sub after) :
    OnLeaf txn entries depth { mc with c_initialized := true, c_eof := false } pgno before sub
      after :=
  ⟨h.on.flags true false, rfl, fun hf ↦ by simp at hf⟩

/-- Before the first call there may be no tree; afterwards there is one. -/
theorem Placed.ready {p : Position} {store : Store} (h : Placed txn store.entries mc p)
    (hs : txn.Stores store) (hne : store.entries ≠ []) :
    ∃ depth, HasTree txn store.entries depth ∧ Ready txn store.entries depth mc := by
  cases h with
  | unset hv hi hp =>
    obtain ⟨hgt, hinv, hlt, d, hd, hsub⟩ := hs.tree hne
    exact ⟨d, ⟨hgt, hinv, hlt, hd, hsub⟩, hv, .inl ⟨hi, hp⟩⟩
  | on ht hl _ => exact ⟨_, ht, hl.ready⟩
  | gap ht hl _ => exact ⟨_, ht, hl.ready⟩

/-- On an empty database the cursor never leaves its first state. -/
theorem Placed.of_empty {p : Position} (h : Placed txn [] mc p) :
    p = .unset ∧ mc.c_initialized = false := by
  cases h with
  | unset _ hi _ => exact ⟨rfl, hi⟩
  | on ht _ _ => exact absurd rfl ht.subtree.ne_nil
  | gap ht _ _ => exact absurd rfl ht.subtree.ne_nil

/-! ### Entries read -/

/-- The data of an entry, wherever they are kept. -/
theorem mdb_node_read_eq {leaf : MDB_node} {e : Entry} (h : Holds txn leaf e) :
    mdb_node_read txn mc leaf = success mc e.2 := by
  obtain ⟨hf, hd⟩ | ⟨hf, hlt, hd⟩ := h.data
  · rw [mdb_node_read, hf, hd]
    rfl
  · rw [mdb_node_read, hf, mdb_page_get, if_pos hlt, Result.bind_success, hd]
    rfl

/-- A node is read as the entry it holds. -/
theorem readNode_eq {leaf : MDB_node} {e : Entry} (h : Holds txn leaf e) :
    readNode txn mc leaf = success mc e := by
  rw [readNode, if_neg (by rw [h.single]; simp), mdb_node_read_eq h, Result.bind_success, h.key]

/-- A node of a leaf is read as the entry there. -/
theorem readLeaf_eq {mp : MDB_page} {i : Nat} {e : Entry} (h : LeafPage txn mp sub)
    (he : sub[i]? = some e) : readLeaf txn mc mp i = success mc e := by
  obtain ⟨leaf, hn, hh⟩ := h.holds he
  rw [readLeaf, if_neg (by rw [h.leaf2]; simp)]
  simp only [hn]
  exact readNode_eq hh

private theorem readTop_eq {e : Entry} (h : OnLeaf txn entries depth mc pgno before sub after)
    (he : sub[mc.ki]? = some e) : readTop txn mc = success mc e := by
  simp only [readTop, h.on.page, h.leafPage.leaf, Bool.not_true, Bool.false_eq_true, if_false]
  exact readLeaf_eq h.leafPage he

private theorem readPrev_eq {e : Entry} (h : OnLeaf txn entries depth mc pgno before sub after)
    (he : sub[mc.ki]? = some e) : readPrev txn mc = success mc e := by
  simp only [readPrev, h.on.page, h.leafPage.leaf, Bool.not_true, Bool.false_eq_true, if_false]
  exact readLeaf_eq h.leafPage he

/-- The entry of the list at the index of an entry of the leaf. -/
theorem OnLeaf.getElem? {i : Nat} {e : Entry}
    (h : OnLeaf txn entries depth mc pgno before sub after) (he : sub[i]? = some e) :
    entries[before.length + i]? = some e := by
  have hi := (List.getElem?_eq_some_iff.mp he).1
  rw [← h.on.spine.entries_eq, List.append_assoc, List.getElem?_append_right (by omega),
    Nat.add_sub_cancel_left, List.getElem?_append_left hi, he]

/-- A call that ends on an entry of a leaf follows the move there. -/
theorem follows_of_onLeaf {r : Result Entry} {p : Position} {target : Nat}
    (ht : HasTree txn entries depth) (h : OnLeaf txn entries depth mc pgno before sub after)
    (hk : mc.ki < sub.length) (hr : ∀ e, sub[mc.ki]? = some e → r = success mc e)
    (htarget : before.length + mc.ki = target) :
    Follows entries (Placed txn entries) MDB_NOTFOUND r p target := by
  have he : sub[mc.ki]? = some sub[mc.ki] := List.getElem?_eq_getElem hk
  rw [← htarget]
  exact .of_lt (h.getElem? he) (hr _ he) (.on ht h hk)

/-! ### First and last -/

/-- Where the root is a leaf it holds all entries. -/
theorem OnLeaf.at_root (h : OnLeaf txn entries depth mc pgno before sub after)
    (h0 : mc.mc_top = 0) : before = [] ∧ after = [] := by
  have hd : depth = 0 := by rw [← h.on.top, h0]
  subst hd
  exact h.on.spine.at_root

private theorem searchUnlessRoot_first (ht : HasTree txn entries depth)
    (h : Ready txn entries depth mc) :
    ∃ mc' pgno sub after, searchUnlessRoot txn .first mc = success mc' () ∧
      OnLeaf txn entries depth mc' pgno [] sub after := by
  unfold searchUnlessRoot
  by_cases hc : (!mc.c_initialized) = true ∨ mc.mc_top ≠ 0
  · rw [if_pos hc]
    exact mdb_page_search_first ht h
  · rw [if_neg hc]
    obtain ⟨-, ⟨hi, -⟩ | ⟨pgno, before, sub, after, hl⟩⟩ := h
    · exact absurd (.inl (by simp [hi])) hc
    · obtain ⟨rfl, rfl⟩ := hl.at_root (by by_contra h0; exact hc (.inr h0))
      exact ⟨mc, pgno, sub, _, rfl, hl⟩

private theorem searchUnlessRoot_last (ht : HasTree txn entries depth)
    (h : Ready txn entries depth mc) :
    ∃ mc' pgno before sub, searchUnlessRoot txn .last mc = success mc' () ∧
      OnLeaf txn entries depth mc' pgno before sub [] := by
  unfold searchUnlessRoot
  by_cases hc : (!mc.c_initialized) = true ∨ mc.mc_top ≠ 0
  · rw [if_pos hc]
    exact mdb_page_search_last ht h
  · rw [if_neg hc]
    obtain ⟨-, ⟨hi, -⟩ | ⟨pgno, before, sub, after, hl⟩⟩ := h
    · exact absurd (.inl (by simp [hi])) hc
    · obtain ⟨rfl, rfl⟩ := hl.at_root (by by_contra h0; exact hc (.inr h0))
      exact ⟨mc, pgno, _, sub, rfl, hl⟩

private theorem searchUnlessRoot_empty {how : Search} {p : Position}
    (hr : txn.md_root = P_INVALID) (h : Placed txn [] mc p) :
    searchUnlessRoot txn how mc = failure mc MDB_NOTFOUND := by
  rw [searchUnlessRoot, if_pos (.inl (by simp [h.of_empty.2])),
    mdb_page_search_empty hr h.valid]

variable {store : Store} {p : Position}

/-- `MDB_FIRST` goes to index 0. -/
theorem mdb_cursor_first_follows (hs : txn.Stores store) (h : Placed txn store.entries mc p) :
    Follows store.entries (Placed txn store.entries) MDB_NOTFOUND (mdb_cursor_first txn mc) p
      0 := by
  by_cases hne : store.entries = []
  · refine .of_le (by rw [hne]; exact Nat.le_refl _) ?_ h
    rw [mdb_cursor_first, searchUnlessRoot_empty (hs.empty hne) (hne ▸ h)]
    rfl
  · obtain ⟨depth, ht, hr⟩ := h.ready hs hne
    obtain ⟨mc', pgno, sub, after, hsearch, hl⟩ := searchUnlessRoot_first ht hr
    have hl' := hl.in_use.setKi 0
    rw [mdb_cursor_first, hsearch, Result.bind_success]
    apply follows_of_onLeaf ht hl' _ (fun e he ↦ readTop_eq hl' he)
    · rw [MDB_cursor.ki_setKi]
      rfl
    · rw [MDB_cursor.ki_setKi]
      exact List.length_pos_iff.mpr hl.leafPage.ne_nil

/-- `MDB_LAST` goes to the last index. -/
theorem mdb_cursor_last_follows (hs : txn.Stores store) (h : Placed txn store.entries mc p) :
    Follows store.entries (Placed txn store.entries) MDB_NOTFOUND (mdb_cursor_last txn mc) p
      (store.entries.length - 1) := by
  by_cases hne : store.entries = []
  · refine .of_le (by rw [hne]; exact Nat.zero_le _) ?_ h
    rw [mdb_cursor_last, searchUnlessRoot_empty (hs.empty hne) (hne ▸ h)]
    rfl
  · obtain ⟨depth, ht, hr⟩ := h.ready hs hne
    obtain ⟨mc', pgno, before, sub, hsearch, hl⟩ := searchUnlessRoot_last ht hr
    have hl' : OnLeaf txn store.entries depth
        ({ mc' with c_initialized := true, c_eof := true }.setKi (txn.me_map pgno).lastKey) pgno
        before sub [] := ⟨(hl.on.flags true true).setKi _, rfl, fun _ ↦ rfl⟩
    have hpos := hl.leafPage.pos
    have hlast : (txn.me_map pgno).lastKey = sub.length - 1 := by
      rw [MDB_page.lastKey, if_neg (by omega), hl.leafPage.length]
    have hlen := hl.length_entries
    rw [hl.leafPage.length] at hpos
    rw [List.length_nil] at hlen
    rw [mdb_cursor_last, hsearch, Result.bind_success]
    simp only [hl.on.page]
    apply follows_of_onLeaf ht hl' _ (fun e he ↦ readTop_eq hl' he)
    · rw [MDB_cursor.ki_setKi, hlast]
      omega
    · rw [MDB_cursor.ki_setKi, hlast]
      omega

/-! ### Next -/

private theorem next_onLeaf (ht : HasTree txn entries depth)
    (h : OnLeaf txn entries depth mc pgno before sub after) (hk : mc.ki ≤ sub.length)
    (hp : Placed txn entries mc p) (hnext : p.next = before.length + min (mc.ki + 1) sub.length)
    (hplace : ∀ mc' : MDB_cursor, mc'.ki = mc.ki →
      OnLeaf txn entries depth mc' pgno before sub after → Placed txn entries mc' p) :
    Follows entries (Placed txn entries) MDB_NOTFOUND (mdb_cursor_next txn mc) p p.next := by
  -- A step on the page, or to the next page.
  have hlen := h.length_entries
  have hnum := h.leafPage.length
  have hpos := h.leafPage.pos
  have hlast : (txn.me_map pgno).lastKey = sub.length - 1 := by
    rw [MDB_page.lastKey, if_neg (by omega), hnum]
  rw [mdb_cursor_next, if_neg (by rw [h.initialized]; simp)]
  simp only [h.on.page]
  by_cases heof : mc.c_eof = true ∧ (txn.me_map pgno).lastKey ≤ mc.ki
  · have hnil := h.eof heof.1
    rw [hnil, List.length_nil] at hlen
    rw [if_pos heof]
    exact .of_le (by omega) rfl hp
  rw [if_neg heof]
  have h' := h.clear_eof
  by_cases hend : (txn.me_map pgno).NUMKEYS ≤ mc.ki + 1
  · rw [if_pos (by exact hend)]
    by_cases hafter : after = []
    · rw [mdb_cursor_sibling_right_none h'.on hafter]
      rw [hafter, List.length_nil] at hlen
      exact .of_le (by omega) rfl
        (hplace { mc with c_eof := true } rfl ⟨h.on.flag_eof true, h.initialized, fun _ ↦ hafter⟩)
    · obtain ⟨mc', pgno', sub', after', hsib, hon, hki, hi, he⟩ :=
        mdb_cursor_sibling_right h'.on ht.stack hafter
      have hl : OnLeaf txn entries depth mc' pgno' (before ++ sub) sub' after' :=
        ⟨hon, hi.trans h.initialized, fun hf ↦ by rw [he] at hf; simp at hf⟩
      rw [hsib]
      apply follows_of_onLeaf ht hl _ (fun e he ↦ readTop_eq hl he)
      · rw [hki, List.length_append]
        omega
      · rw [hki]
        exact List.length_pos_iff.mpr hl.leafPage.ne_nil
  · have hl := h'.setKi (mc.ki + 1)
    rw [if_neg (by exact hend)]
    apply follows_of_onLeaf ht hl _ (fun e he ↦ readTop_eq hl he)
    · rw [MDB_cursor.ki_setKi]
      omega
    · rw [MDB_cursor.ki_setKi]
      omega

/-- `MDB_NEXT` goes to the index behind the position. -/
theorem mdb_cursor_next_follows (hs : txn.Stores store) (h : Placed txn store.entries mc p) :
    Follows store.entries (Placed txn store.entries) MDB_NOTFOUND (mdb_cursor_next txn mc) p
      p.next := by
  have hp := h
  cases h with
  | unset hv hi hpg =>
    rw [mdb_cursor_next, if_pos (by rw [hi]; rfl)]
    exact mdb_cursor_first_follows hs hp
  | on ht hl hk =>
    apply next_onLeaf ht hl (Nat.le_of_lt hk) hp
    · simp only [Position.next_on]
      omega
    · intro mc' hki hl'
      have := Placed.on ht hl' (by rw [hki]; exact hk)
      rwa [hki] at this
  | gap ht hl hk =>
    apply next_onLeaf ht hl (Nat.le_of_eq hk) hp
    · simp only [Position.next_gap]
      omega
    · intro mc' hki hl'
      have := Placed.gap ht hl' (hki.trans hk)
      rwa [hki] at this

/-! ### Previous -/

private theorem stepBack_onLeaf (ht : HasTree txn entries depth)
    (h : OnLeaf txn entries depth mc pgno before sub after) (hk : mc.ki ≤ sub.length)
    (hplace : before.length + mc.ki = 0 → ∀ mc' : MDB_cursor, mc'.ki = mc.ki →
      OnLeaf txn entries depth mc' pgno before sub after → Placed txn entries mc' p) :
    Follows entries (Placed txn entries) MDB_NOTFOUND (stepBack txn mc) p
      (if before.length + mc.ki = 0 then entries.length else before.length + mc.ki - 1) := by
  -- A step back on the page, or to the page before.
  have h' := h.clear_eof
  unfold stepBack
  by_cases hzero : mc.ki = 0
  · rw [if_pos (by exact hzero)]
    by_cases hbefore : before = []
    · have hfirst : before.length + mc.ki = 0 := by rw [hbefore, hzero, List.length_nil]
      rw [mdb_cursor_sibling_left_none h'.on hbefore, Result.bind_failure, if_pos hfirst]
      exact .of_le (Nat.le_refl _) rfl (hplace hfirst _ rfl h')
    · obtain ⟨mc', pgno', before', sub', hsib, hon, hki, hi, he⟩ :=
        mdb_cursor_sibling_left h'.on ht.stack hbefore
      have hl : OnLeaf txn entries depth mc' pgno' before' sub' (sub ++ after) :=
        ⟨hon, hi.trans h.initialized, fun hf ↦ by rw [he] at hf; simp at hf⟩
      have hpos := hl.leafPage.pos
      have hlast : (txn.me_map pgno').lastKey = sub'.length - 1 := by
        rw [MDB_page.lastKey, if_neg (by omega), hl.leafPage.length]
      rw [hl.leafPage.length] at hpos
      have hlen := h.length_entries
      have hlen' := hl.length_entries
      rw [List.length_append] at hlen'
      have hblen := List.length_pos_iff.mpr hbefore
      rw [hsib, Result.bind_success, if_neg (by omega)]
      simp only [hl.on.page]
      rw [← hki, MDB_cursor.setKi_ki]
      apply follows_of_onLeaf ht hl _ (fun e he ↦ readPrev_eq hl he)
      · rw [hki, hlast]
        omega
      · rw [hki, hlast]
        omega
  · have hl := h'.setKi (mc.ki - 1)
    rw [if_neg (by exact hzero), if_neg (by omega)]
    apply follows_of_onLeaf ht hl _ (fun e he ↦ readPrev_eq hl he)
    · rw [MDB_cursor.ki_setKi]
      omega
    · rw [MDB_cursor.ki_setKi]
      omega

/-- `MDB_PREV` goes to the index before the position. -/
theorem mdb_cursor_prev_follows (hs : txn.Stores store) (h : Placed txn store.entries mc p) :
    Follows store.entries (Placed txn store.entries) MDB_NOTFOUND (mdb_cursor_prev txn mc) p
      (p.prev store.entries.length) := by
  have hp := h
  cases h with
  | unset hv hi hpg =>
    rw [mdb_cursor_prev, if_pos (by rw [hi]; rfl)]
    obtain ⟨mc', hlast, hplaced⟩ := mdb_cursor_last_follows hs hp
    by_cases hne : store.entries = []
    · rw [List.getElem?_eq_none (by rw [hne]; exact Nat.zero_le _)] at hlast
      rw [landing_of_le _ (by rw [hne]; exact Nat.zero_le _)] at hplaced
      rw [hlast]
      exact .of_le (by rw [hne]; exact Nat.zero_le _) rfl hplaced
    · -- the index past the last entry, from which the step back starts
      have hpos := List.length_pos_iff.mpr hne
      rw [List.getElem?_eq_getElem (by omega)] at hlast
      rw [landing_of_lt _ (by omega)] at hplaced
      generalize hpos' : Position.on (store.entries.length - 1) = q at hplaced
      cases hplaced with
      | unset _ _ _ => simp at hpos'
      | gap _ _ _ => simp at hpos'
      | @on _ _ before sub after ht hl hk =>
        rw [Position.on.injEq] at hpos'
        have hback := stepBack_onLeaf (p := .unset) ht (hl.setKi (mc'.ki + 1))
          (by rw [MDB_cursor.ki_setKi]; omega)
          (fun h0 ↦ by rw [MDB_cursor.ki_setKi] at h0; omega)
        rw [MDB_cursor.ki_setKi, ← Nat.add_assoc, ← hpos', Nat.sub_add_cancel hpos] at hback
        rw [hlast]
        exact hback
  | on ht hl hk =>
    rw [mdb_cursor_prev, if_neg (by rw [hl.initialized]; simp)]
    apply stepBack_onLeaf ht hl (Nat.le_of_lt hk)
    intro _ mc' hki hl'
    have := Placed.on ht hl' (by rw [hki]; exact hk)
    rwa [hki] at this
  | gap ht hl hk =>
    rw [mdb_cursor_prev, if_neg (by rw [hl.initialized]; simp)]
    apply stepBack_onLeaf ht hl (Nat.le_of_eq hk)
    intro _ mc' hki hl'
    have := Placed.gap ht hl' (hki.trans hk)
    rwa [hki] at this

end

end ObDump.Lmdb
