import ObDump.Lmdb.Descent

/-!
# Sibling pages

Library `Lmdb`. `mdb_cursor_sibling` moves the top of the stack to the next page of its level,
climbing as far as the path is at the edge of its pages. With no page in the direction it
leaves the cursor as it was.
-/

namespace ObDump.Lmdb

open Base

section

variable {txn : MDB_txn} {entries : List Entry} {depth : Nat} {mc : MDB_cursor}
  {l d pgno : Nat} {before sub after : List Entry}

/-- The root has nothing beside it. -/
theorem Spine.at_root {pg : Nat → Option MDB_page} {ki : Nat → Nat}
    (h : Spine txn entries depth pg ki 0 d pgno before sub after) : before = [] ∧ after = [] := by
  generalize hl : 0 = l at h
  cases h with
  | root _ _ => exact ⟨rfl, rfl⟩
  | child _ _ _ _ _ => omega

private theorem OnPage.pop (h : OnPage txn entries depth mc (l + 1) d pgno before sub after) :
    ∃ pgno' before' ess after',
      OnPage txn entries depth (mdb_cursor_pop mc) l (d + 1) pgno' before' ess.flatten after' ∧
      Children txn (Subtree txn d) (txn.me_map pgno') ess ∧
      ess[(mdb_cursor_pop mc).ki]? = some sub ∧
      before = before' ++ (ess.take (mdb_cursor_pop mc).ki).flatten ∧
      after = (ess.drop ((mdb_cursor_pop mc).ki + 1)).flatten ++ after' := by
  have hsnum := h.snum
  have htop := h.top
  have hpop : mdb_cursor_pop mc = { mc with mc_snum := l + 1, mc_top := l } := by
    rw [mdb_cursor_pop, if_pos (by omega), if_pos (by omega), hsnum, htop]
    rfl
  have hki : (mdb_cursor_pop mc).ki = mc.mc_ki l := by
    rw [hpop]
    rfl
  have hs := h.spine
  generalize hl : l + 1 = l' at hs
  cases hs with
  | root _ _ => omega
  | @child l'' _ pgno' before' after' _ ess node hpar hc hn hs hp =>
    obtain rfl : l = l'' := by omega
    refine ⟨pgno', before', ess, after', ⟨by rw [hpop], by rw [hpop], by rw [hpop]; exact h.valid,
      by rw [hpop]; exact hpar⟩, hc, by rw [hki]; exact hs, by rw [hki], by rw [hki]⟩

private theorem OnPage.pop_flags
    (h : OnPage txn entries depth mc (l + 1) d pgno before sub after) :
    (mdb_cursor_pop mc).c_initialized = mc.c_initialized ∧
      (mdb_cursor_pop mc).c_eof = mc.c_eof := by
  have hsnum := h.snum
  rw [mdb_cursor_pop, if_pos (by omega), if_pos (by omega)]
  exact ⟨rfl, rfl⟩

private theorem OnPage.undo_pop (h : OnPage txn entries depth mc (l + 1) d pgno before sub after) :
    { mdb_cursor_pop mc with
      mc_top := (mdb_cursor_pop mc).mc_top + 1
      mc_snum := (mdb_cursor_pop mc).mc_snum + 1 } = mc := by
  have hsnum := h.snum
  have htop := h.top
  rw [mdb_cursor_pop, if_pos (by omega), if_pos (by omega)]
  cases mc
  simp only at hsnum htop
  subst hsnum htop
  rfl

private theorem pushSibling_eq {ess : List (List Entry)} (move_right : Bool)
    (h : OnPage txn entries depth mc l (d + 1) pgno before ess.flatten after)
    (hc : Children txn (Subtree txn d) (txn.me_map pgno) ess) (hd : depth < CURSOR_STACK)
    (hi : mc.ki < ess.length) :
    ∃ mc' pgno' s, pushSibling txn move_right mc = success mc' () ∧ ess[mc.ki]? = some s ∧
      OnPage txn entries depth mc' (l + 1) d pgno' (before ++ (ess.take mc.ki).flatten) s
        ((ess.drop (mc.ki + 1)).flatten ++ after) ∧
      mc'.ki = (if move_right then 0 else (txn.me_map pgno').lastKey) ∧
      mc'.c_initialized = mc.c_initialized ∧ mc'.c_eof = mc.c_eof := by
  obtain ⟨node, hn⟩ := (txn.me_map pgno).exists_NODEPTR (i := mc.ki)
    (by rw [← hc.length]; exact hi)
  have hs : ess[mc.ki]? = some ess[mc.ki] := List.getElem?_eq_getElem hi
  obtain ⟨mc', hpush, hon, hki, hinit, heof⟩ := h.push hc hd hn hs
  rw [MDB_cursor.setKi_ki] at hpush
  have hget : mdb_page_get txn mc node.NODEPGNO = success mc (txn.me_map node.NODEPGNO) :=
    if_pos (hc.child _ _ _ hn hs).1
  refine ⟨if move_right then mc' else mc'.setKi (txn.me_map node.NODEPGNO).lastKey,
    node.NODEPGNO, ess[mc.ki], ?_, hs, ?_, ?_, ?_, ?_⟩
  · simp only [pushSibling, h.page, hc.branch, hn, hget, hpush, success, Bool.not_true,
      Bool.false_eq_true, if_false]
  · cases move_right with
    | false => exact hon.setKi _
    | true => exact hon
  · cases move_right with
    | false => exact MDB_cursor.ki_setKi _ _
    | true => exact hki
  · cases move_right <;> exact hinit
  · cases move_right <;> exact heof

/-! One step, given what it does one level up. -/

section

variable {move_right : Bool} {mp : MDB_page}
  (h : OnPage txn entries depth mc (l + 1) d pgno before sub after)
  (hp : (mdb_cursor_pop mc).page = some mp)

include h hp

private theorem sibling_of_inner (he : ¬ atEdge move_right (mdb_cursor_pop mc) mp = true) :
    mdb_cursor_sibling txn move_right mc =
      pushSibling txn move_right ((mdb_cursor_pop mc).setKi
        (if move_right then (mdb_cursor_pop mc).ki + 1 else (mdb_cursor_pop mc).ki - 1)) := by
  rw [mdb_cursor_sibling, dif_neg (by rw [h.snum]; omega)]
  simp only [hp]
  rw [if_neg he]

private theorem sibling_of_failure {rc : Int}
    (he : atEdge move_right (mdb_cursor_pop mc) mp = true)
    (hup : mdb_cursor_sibling txn move_right (mdb_cursor_pop mc) =
      failure (mdb_cursor_pop mc) rc) :
    mdb_cursor_sibling txn move_right mc = failure mc rc := by
  rw [mdb_cursor_sibling, dif_neg (by rw [h.snum]; omega)]
  simp only [hp]
  rw [if_pos he, hup]
  simp only [failure]
  rw [h.undo_pop]

private theorem sibling_of_success {mc' : MDB_cursor}
    (he : atEdge move_right (mdb_cursor_pop mc) mp = true)
    (hup : mdb_cursor_sibling txn move_right (mdb_cursor_pop mc) = success mc' ()) :
    mdb_cursor_sibling txn move_right mc = pushSibling txn move_right mc' := by
  rw [mdb_cursor_sibling, dif_neg (by rw [h.snum]; omega)]
  simp only [hp]
  rw [if_pos he, hup]
  rfl

end

/-- With no entry after the page there is no page to the right. -/
theorem mdb_cursor_sibling_right_none
    (h : OnPage txn entries depth mc l d pgno before sub after) (ha : after = []) :
    mdb_cursor_sibling txn true mc = failure mc MDB_NOTFOUND := by
  induction l generalizing d mc pgno before sub after with
  | zero =>
    rw [mdb_cursor_sibling, dif_pos (by rw [h.snum]; omega)]
  | succ l ih =>
    obtain ⟨pgno', before', ess, after', hpop, hc, hs, -, hafter⟩ := h.pop
    rw [ha] at hafter
    obtain ⟨hdrop, hnil⟩ := List.append_eq_nil_iff.mp hafter.symm
    have hedge : atEdge true (mdb_cursor_pop mc) (txn.me_map pgno') = true := by
      rw [atEdge, if_pos rfl, decide_eq_true_eq, ← hc.length]
      by_contra hlt
      have hlt' : (mdb_cursor_pop mc).ki + 1 < ess.length := by omega
      rw [List.drop_eq_getElem_cons hlt', List.flatten_cons] at hdrop
      exact hc.ne_nil ((List.append_eq_nil_iff.mp hdrop).1 ▸ List.getElem_mem hlt')
    exact sibling_of_failure h hpop.page hedge (ih hpop hnil)

/-- With entries after the page, the step ends on the next page of its level, at its start. -/
theorem mdb_cursor_sibling_right
    (h : OnPage txn entries depth mc l d pgno before sub after) (hd : depth < CURSOR_STACK)
    (ha : after ≠ []) :
    ∃ mc' pgno' sub' after', mdb_cursor_sibling txn true mc = success mc' () ∧
      OnPage txn entries depth mc' l d pgno' (before ++ sub) sub' after' ∧ mc'.ki = 0 ∧
      mc'.c_initialized = mc.c_initialized ∧ mc'.c_eof = mc.c_eof := by
  induction l generalizing d mc pgno before sub after with
  | zero => exact absurd (Spine.at_root h.spine).2 ha
  | succ l ih =>
    obtain ⟨pgno', before', ess, after', hpop, hc, hs, rfl, rfl⟩ := h.pop
    have hinit : (mdb_cursor_pop mc).c_initialized = mc.c_initialized := h.pop_flags.1
    have heof : (mdb_cursor_pop mc).c_eof = mc.c_eof := h.pop_flags.2
    obtain ⟨hki, hget⟩ := List.getElem?_eq_some_iff.mp hs
    by_cases hlast : ess.length ≤ (mdb_cursor_pop mc).ki + 1
    · -- the parent is at its last node: its own sibling follows
      have hdrop : ess.drop ((mdb_cursor_pop mc).ki + 1) = [] := List.drop_eq_nil_of_le hlast
      have hedge : atEdge true (mdb_cursor_pop mc) (txn.me_map pgno') = true := by
        rw [atEdge, if_pos rfl, decide_eq_true_eq, ← hc.length]
        exact hlast
      rw [hdrop, List.flatten_nil, List.nil_append] at ha
      obtain ⟨mc', q, sub', rest, hsib, hon, hk, hi', he'⟩ := ih hpop ha
      obtain ⟨ess', rfl, hc'⟩ := hon.spine.subtree
      have hpos : mc'.ki < ess'.length := by
        have := hc'.many
        rw [hk, hc'.length]
        omega
      obtain ⟨mc'', q', s, hp, -, hon', hk', hi'', he''⟩ :=
        pushSibling_eq true hon hc' hd hpos
      have hcut : before' ++ ess.flatten ++ (ess'.take mc'.ki).flatten =
          before' ++ (ess.take (mdb_cursor_pop mc).ki).flatten ++ sub := by
        rw [hk, List.take_zero, List.flatten_nil, List.append_nil, flatten_split hs, hdrop,
          List.flatten_nil, List.append_nil, List.append_assoc]
      rw [hcut] at hon'
      refine ⟨mc'', q', s, _, ?_, hon', hk', ?_, ?_⟩
      · exact (sibling_of_success h hpop.page hedge hsib).trans hp
      · rw [hi'', hi', hinit]
      · rw [he'', he', heof]
    · have hlt : (mdb_cursor_pop mc).ki + 1 < ess.length := by omega
      have hedge : ¬ atEdge true (mdb_cursor_pop mc) (txn.me_map pgno') = true := by
        rw [atEdge, if_pos rfl, decide_eq_true_eq, ← hc.length]
        exact hlast
      obtain ⟨mc', q, s, hp, -, hon, hk, hi', he'⟩ :=
        pushSibling_eq true (hpop.setKi ((mdb_cursor_pop mc).ki + 1)) hc hd
          (by rw [MDB_cursor.ki_setKi]; exact hlt)
      rw [MDB_cursor.ki_setKi] at hon
      have hcut : before' ++ (ess.take ((mdb_cursor_pop mc).ki + 1)).flatten =
          before' ++ (ess.take (mdb_cursor_pop mc).ki).flatten ++ sub := by
        rw [List.take_succ_eq_append_getElem hki, hget, List.flatten_append, List.flatten_cons,
          List.flatten_nil, List.append_nil, List.append_assoc]
      rw [hcut] at hon
      refine ⟨mc', q, s, _, ?_, hon, hk, ?_, ?_⟩
      · exact (sibling_of_inner h hpop.page hedge).trans hp
      · rw [hi', ← hinit]
        rfl
      · rw [he', ← heof]
        rfl

/-- With no entry before the page there is no page to the left. -/
theorem mdb_cursor_sibling_left_none
    (h : OnPage txn entries depth mc l d pgno before sub after) (hb : before = []) :
    mdb_cursor_sibling txn false mc = failure mc MDB_NOTFOUND := by
  induction l generalizing d mc pgno before sub after with
  | zero =>
    rw [mdb_cursor_sibling, dif_pos (by rw [h.snum]; omega)]
  | succ l ih =>
    obtain ⟨pgno', before', ess, after', hpop, hc, hs, hbefore, -⟩ := h.pop
    rw [hb] at hbefore
    obtain ⟨hnil, htake⟩ := List.append_eq_nil_iff.mp hbefore.symm
    obtain ⟨hki, -⟩ := List.getElem?_eq_some_iff.mp hs
    have hedge : atEdge false (mdb_cursor_pop mc) (txn.me_map pgno') = true := by
      rw [atEdge, if_neg (by simp), decide_eq_true_eq]
      by_contra hpos
      have hm : ess[0] ∈ ess.take (mdb_cursor_pop mc).ki :=
        List.mem_take_iff_getElem.mpr ⟨0, by omega, rfl⟩
      have := List.flatten_eq_nil_iff.mp htake _ hm
      exact hc.ne_nil (this ▸ List.getElem_mem (by omega))
    exact sibling_of_failure h hpop.page hedge (ih hpop hnil)

/-- With entries before the page, the step ends on the previous page of its level, at its last
node. -/
theorem mdb_cursor_sibling_left
    (h : OnPage txn entries depth mc l d pgno before sub after) (hd : depth < CURSOR_STACK)
    (hb : before ≠ []) :
    ∃ mc' pgno' before' sub', mdb_cursor_sibling txn false mc = success mc' () ∧
      OnPage txn entries depth mc' l d pgno' before' sub' (sub ++ after) ∧
      mc'.ki = (txn.me_map pgno').lastKey ∧
      mc'.c_initialized = mc.c_initialized ∧ mc'.c_eof = mc.c_eof := by
  induction l generalizing d mc pgno before sub after with
  | zero => exact absurd (Spine.at_root h.spine).1 hb
  | succ l ih =>
    obtain ⟨pgno', before', ess, after', hpop, hc, hs, rfl, rfl⟩ := h.pop
    have hinit : (mdb_cursor_pop mc).c_initialized = mc.c_initialized := h.pop_flags.1
    have heof : (mdb_cursor_pop mc).c_eof = mc.c_eof := h.pop_flags.2
    obtain ⟨hki, hget⟩ := List.getElem?_eq_some_iff.mp hs
    by_cases hfirst : (mdb_cursor_pop mc).ki = 0
    · -- the parent is at its first node: its own sibling comes before
      have hedge : atEdge false (mdb_cursor_pop mc) (txn.me_map pgno') = true := by
        rw [atEdge, if_neg (by simp), decide_eq_true_eq]
        exact hfirst
      rw [hfirst, List.take_zero, List.flatten_nil, List.append_nil] at hb
      obtain ⟨mc', q, rest, sub', hsib, hon, hk, hi', he'⟩ := ih hpop hb
      obtain ⟨ess', rfl, hc'⟩ := hon.spine.subtree
      have hlast : mc'.ki + 1 = ess'.length := by
        have := hc'.many
        rw [hk, hc'.length, MDB_page.lastKey, if_neg (by omega)]
        omega
      obtain ⟨mc'', q', s, hp, -, hon', hk', hi'', he''⟩ :=
        pushSibling_eq false hon hc' hd (by omega)
      have hcut : (ess'.drop (mc'.ki + 1)).flatten ++ (ess.flatten ++ after') =
          sub ++ ((ess.drop ((mdb_cursor_pop mc).ki + 1)).flatten ++ after') := by
        rw [hlast, List.drop_length, List.flatten_nil, List.nil_append, flatten_split hs, hfirst,
          List.take_zero, List.flatten_nil, List.nil_append, List.append_assoc]
      rw [hcut] at hon'
      refine ⟨mc'', q', _, s, ?_, hon', hk', ?_, ?_⟩
      · exact (sibling_of_success h hpop.page hedge hsib).trans hp
      · rw [hi'', hi', hinit]
      · rw [he'', he', heof]
    · have hlt : (mdb_cursor_pop mc).ki - 1 < ess.length := by omega
      have hedge : ¬ atEdge false (mdb_cursor_pop mc) (txn.me_map pgno') = true := by
        rw [atEdge, if_neg (by simp), decide_eq_true_eq]
        exact hfirst
      obtain ⟨mc', q, s, hp, -, hon, hk, hi', he'⟩ :=
        pushSibling_eq false (hpop.setKi ((mdb_cursor_pop mc).ki - 1)) hc hd
          (by rw [MDB_cursor.ki_setKi]; exact hlt)
      rw [MDB_cursor.ki_setKi] at hon
      have hcut : (ess.drop ((mdb_cursor_pop mc).ki - 1 + 1)).flatten ++ after' =
          sub ++ ((ess.drop ((mdb_cursor_pop mc).ki + 1)).flatten ++ after') := by
        rw [Nat.sub_add_cancel (by omega), List.drop_eq_getElem_cons hki, hget,
          List.flatten_cons, List.append_assoc]
      rw [hcut] at hon
      refine ⟨mc', q, _, s, ?_, hon, hk, ?_, ?_⟩
      · exact (sibling_of_inner h hpop.page hedge).trans hp
      · rw [hi', ← hinit]
        rfl
      · rw [he', ← heof]
        rfl

end

end ObDump.Lmdb
