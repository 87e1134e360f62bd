import ObDump.Lmdb.Seek

/-!
# Runs of a cursor

Library `Lmdb`. What `mdb_cursor_get` answers over a sorted list of entries, for every
operation, and that the code answers so in every run: whatever was called before, on a tree of
any depth. No assertion fails, no page is read past its nodes, and the transaction stays
usable.
-/

namespace ObDump.Lmdb

open Base

/-! ### The cursor as documented -/

/-- The entry at an index, or `MDB_NOTFOUND`. -/
def answer (entries : List Entry) (target : Nat) : Except Int Entry :=
  (entries[target]?).elim (.error MDB_NOTFOUND) .ok

/-- What a call answers at a position, and where it leaves the cursor. A search for an exact
match that fails may leave it on either side of the place where the key belongs. -/
inductive Answers (entries : List Entry) (key : Bytes) :
    MDB_cursor_op → Position → Except Int Entry → Position → Prop
  | first (p : Position) :
      Answers entries key .MDB_FIRST p (answer entries 0) (landing entries p 0)
  | last (p : Position) :
      Answers entries key .MDB_LAST p (answer entries (entries.length - 1))
        (landing entries p (entries.length - 1))
  | next {op : MDB_cursor_op} (p : Position) :
      op = .MDB_NEXT ∨ op = .MDB_NEXT_DUP ∨ op = .MDB_NEXT_NODUP →
      Answers entries key op p (answer entries p.next) (landing entries p p.next)
  | prev {op : MDB_cursor_op} (p : Position) :
      op = .MDB_PREV ∨ op = .MDB_PREV_DUP ∨ op = .MDB_PREV_NODUP →
      Answers entries key op p (answer entries (p.prev entries.length))
        (landing entries p (p.prev entries.length))
  | current_unset : Answers entries key .MDB_GET_CURRENT .unset (.error EINVAL) .unset
  | current_on (i : Nat) : Answers entries key .MDB_GET_CURRENT (.on i) (answer entries i) (.on i)
  | current_gap (i : Nat) :
      Answers entries key .MDB_GET_CURRENT (.gap i) (.error MDB_NOTFOUND) (.gap i)
  | bad_key {op : MDB_cursor_op} (p : Position) : key = [] →
      op = .MDB_SET ∨ op = .MDB_SET_KEY ∨ op = .MDB_SET_RANGE →
      Answers entries key op p (.error MDB_BAD_VALSIZE) p
  | range (p : Position) : key ≠ [] →
      Answers entries key .MDB_SET_RANGE p (answer entries (seekIndex entries key))
        (landing entries (if entries = [] then p else .gap (seekIndex entries key))
          (seekIndex entries key))
  | exact {op : MDB_cursor_op} {e : Entry} (p : Position) : key ≠ [] →
      op = .MDB_SET ∨ op = .MDB_SET_KEY → entries[seekIndex entries key]? = some e →
      e.1 = key → Answers entries key op p (.ok e) (.on (seekIndex entries key))
  | absent {op : MDB_cursor_op} {p p' : Position} : key ≠ [] →
      op = .MDB_SET ∨ op = .MDB_SET_KEY →
      (∀ e, entries[seekIndex entries key]? = some e → e.1 ≠ key) →
      (entries = [] ∧ p' = p ∨ p' = .on (seekIndex entries key) ∨
        p' = .gap (seekIndex entries key)) →
      Answers entries key op p (.error MDB_NOTFOUND) p'
  | no_pairs {op : MDB_cursor_op} (p : Position) :
      op = .MDB_GET_BOTH ∨ op = .MDB_GET_BOTH_RANGE ∨ op = .MDB_NEXT_MULTIPLE ∨
        op = .MDB_PREV_MULTIPLE →
      Answers entries key op p (.error MDB_INCOMPATIBLE) p
  | no_dups {op : MDB_cursor_op} (p : Position) :
      op = .MDB_GET_MULTIPLE ∨ op = .MDB_FIRST_DUP ∨ op = .MDB_LAST_DUP →
      Answers entries key op p (.error (if p = .unset then EINVAL else MDB_INCOMPATIBLE)) p

/-- A sequence of calls, with what each answers. -/
inductive Run (entries : List Entry) :
    List (MDB_cursor_op × Bytes) → Position → List (Except Int Entry) → Position → Prop
  | done (p : Position) : Run entries [] p [] p
  | call {op : MDB_cursor_op} {key : Bytes} {calls : List (MDB_cursor_op × Bytes)}
      {p p' p'' : Position} {r : Except Int Entry} {rs : List (Except Int Entry)} :
      Answers entries key op p r p' → Run entries calls p' rs p'' →
      Run entries ((op, key) :: calls) p (r :: rs) p''

/-- The calls made on the code's cursor, with what they return. -/
def runCalls (txn : MDB_txn) :
    List (MDB_cursor_op × Bytes) → MDB_cursor → Option (List (Except Int Entry) × MDB_cursor)
  | [], mc => some ([], mc)
  | (op, key) :: calls, mc =>
    match mdb_cursor_get txn op key mc with
    | none => none
    | some (mc, r) => (runCalls txn calls mc).map fun rest ↦ (r :: rest.1, rest.2)

/-! ### One call -/

section

variable {txn : MDB_txn} {store : Store} {mc : MDB_cursor} {p : Position}

/-- The code answers a call as documented. -/
def Answered (txn : MDB_txn) (entries : List Entry) (key : Bytes) (op : MDB_cursor_op)
    (p : Position) (r : Result Entry) : Prop :=
  ∃ mc' a p', r = some (mc', a) ∧ Answers entries key op p a p' ∧ Placed txn entries mc' p'

private theorem answered_of_follows {key : Bytes} {op : MDB_cursor_op} {r : Result Entry}
    {q : Position} {target : Nat}
    (h : Follows store.entries (Placed txn store.entries) MDB_NOTFOUND r q target)
    (ha : Answers store.entries key op p (answer store.entries target)
      (landing store.entries q target)) : Answered txn store.entries key op p r := by
  obtain ⟨mc', hr, hp⟩ := h
  exact ⟨mc', _, _, hr, ha, hp⟩

private theorem getCurrent_answered (key : Bytes) (h : Placed txn store.entries mc p) :
    Answered txn store.entries key .MDB_GET_CURRENT p (getCurrent txn mc) := by
  have hp := h
  cases h with
  | unset hv hi hpg =>
    exact ⟨mc, _, _, by rw [getCurrent, if_pos (by rw [hi]; rfl)]; rfl, .current_unset, hp⟩
  | @on _ _ before sub after ht hl hk =>
    have hnum := hl.leafPage.length
    have he := List.getElem?_eq_getElem hk
    refine ⟨mc, answer store.entries (before.length + mc.ki), _, ?_, .current_on _, hp⟩
    rw [getCurrent, if_neg (by rw [hl.initialized]; simp)]
    simp only [hl.on.page]
    rw [if_neg (by omega), readLeaf_eq hl.leafPage he, answer, hl.getElem? he]
    rfl
  | @gap _ _ before sub after ht hl hk =>
    have hnum := hl.leafPage.length
    refine ⟨mc, _, _, ?_, .current_gap _, hp⟩
    rw [getCurrent, if_neg (by rw [hl.initialized]; simp)]
    simp only [hl.on.page]
    rw [if_pos (.inr (by omega)), hnum, ← hk, MDB_cursor.setKi_ki]
    rfl

/-- `MDB_SET_RANGE` goes to the index of the key, or to the end. -/
theorem mdb_cursor_set_range_follows {key : Bytes} (hs : txn.Stores store)
    (h : Placed txn store.entries mc p) (hk : key ≠ []) :
    Follows store.entries (Placed txn store.entries) MDB_NOTFOUND
      (mdb_cursor_set txn .MDB_SET_RANGE key mc)
      (if store.entries = [] then p else .gap (seekIndex store.entries key))
      (seekIndex store.entries key) := by
  have hle := seekIndex_le store.entries key
  cases mdb_cursor_set_sought .MDB_SET_RANGE hs h hk with
  | found hr he _ hp => exact .of_lt he hr hp
  | missing hr hnone hp hp' =>
    have hend : store.entries.length ≤ seekIndex store.entries key := by
      by_contra hlt
      have := (hnone _ (List.getElem?_eq_getElem (Nat.lt_of_not_le hlt))).1
      simp [MDB_cursor_op.exact] at this
    refine .of_le hend hr ?_
    obtain ⟨he, rfl⟩ | rfl | rfl := hp'
    · rw [if_pos he]
      exact hp
    · -- the index of an entry is below the length
      generalize hq : Position.on (seekIndex store.entries key) = q at hp
      cases hp with
      | unset _ _ _ => simp at hq
      | gap _ _ _ => simp at hq
      | on _ hl hki =>
        have := hl.length_entries
        rw [Position.on.injEq] at hq
        omega
    · by_cases he : store.entries = []
      · rw [he] at hp
        have := hp.of_empty.1
        simp at this
      · rw [if_neg he]
        exact hp

private theorem set_answered {key : Bytes} {op : MDB_cursor_op} (hs : txn.Stores store)
    (h : Placed txn store.entries mc p) (hk : key ≠ []) (hop : op = .MDB_SET ∨ op = .MDB_SET_KEY) :
    Answered txn store.entries key op p (mdb_cursor_set txn op key mc) := by
  have hex : op.exact = true := by
    obtain rfl | rfl := hop <;> rfl
  cases mdb_cursor_set_sought op hs h hk with
  | found hr he hkey hp => exact ⟨_, _, _, hr, .exact p hk hop he (hkey hex), hp⟩
  | missing hr hnone hp hp' =>
    exact ⟨_, _, _, hr, .absent hk hop (fun e he ↦ (hnone e he).2) hp', hp⟩

private theorem mdb_cursor_set_answered {key : Bytes} {op : MDB_cursor_op} (hs : txn.Stores store)
    (h : Placed txn store.entries mc p)
    (hop : op = .MDB_SET ∨ op = .MDB_SET_KEY ∨ op = .MDB_SET_RANGE) :
    Answered txn store.entries key op p (mdb_cursor_set txn op key mc) := by
  by_cases hk : key = []
  · refine ⟨mc, _, p, ?_, .bad_key p hk hop, h⟩
    rw [mdb_cursor_set, if_pos (by rw [hk]; rfl)]
    rfl
  · obtain rfl | rfl | rfl := hop
    · exact set_answered hs h hk (.inl rfl)
    · exact set_answered hs h hk (.inr rfl)
    · exact answered_of_follows (mdb_cursor_set_range_follows hs h hk) (.range p hk)

private theorem no_dups_answered {key : Bytes} {op : MDB_cursor_op}
    (h : Placed txn store.entries mc p)
    (hop : op = .MDB_GET_MULTIPLE ∨ op = .MDB_FIRST_DUP ∨ op = .MDB_LAST_DUP) :
    Answered txn store.entries key op p
      (failure mc (if !mc.c_initialized then EINVAL else MDB_INCOMPATIBLE)) := by
  refine ⟨mc, _, p, ?_, .no_dups p hop, h⟩
  cases h with
  | unset _ hi _ => rw [hi]; rfl
  | on _ hl _ => rw [hl.initialized]; rfl
  | gap _ hl _ => rw [hl.initialized]; rfl

/-- Every call on a cursor in a possible state is answered as documented, and leaves it in one. -/
theorem mdb_cursor_get_answered (op : MDB_cursor_op) (key : Bytes) (hs : txn.Stores store)
    (h : Placed txn store.entries mc p) :
    Answered txn store.entries key op p (mdb_cursor_get txn op key mc) := by
  have hfail : ∀ {op : MDB_cursor_op},
      op = .MDB_GET_BOTH ∨ op = .MDB_GET_BOTH_RANGE ∨ op = .MDB_NEXT_MULTIPLE ∨
        op = .MDB_PREV_MULTIPLE →
      Answered txn store.entries key op p (failure mc MDB_INCOMPATIBLE) := fun hop ↦
    ⟨mc, _, p, rfl, .no_pairs p hop, h⟩
  have hnext := mdb_cursor_next_follows hs h
  have hprev := mdb_cursor_prev_follows hs h
  unfold mdb_cursor_get
  rw [if_neg (by rw [h.valid]; simp)]
  cases op with
  | MDB_FIRST => exact answered_of_follows (mdb_cursor_first_follows hs h) (.first p)
  | MDB_LAST => exact answered_of_follows (mdb_cursor_last_follows hs h) (.last p)
  | MDB_NEXT => exact answered_of_follows hnext (.next p (.inl rfl))
  | MDB_NEXT_DUP => exact answered_of_follows hnext (.next p (.inr (.inl rfl)))
  | MDB_NEXT_NODUP => exact answered_of_follows hnext (.next p (.inr (.inr rfl)))
  | MDB_PREV => exact answered_of_follows hprev (.prev p (.inl rfl))
  | MDB_PREV_DUP => exact answered_of_follows hprev (.prev p (.inr (.inl rfl)))
  | MDB_PREV_NODUP => exact answered_of_follows hprev (.prev p (.inr (.inr rfl)))
  | MDB_GET_CURRENT => exact getCurrent_answered key h
  | MDB_SET => exact mdb_cursor_set_answered hs h (.inl rfl)
  | MDB_SET_KEY => exact mdb_cursor_set_answered hs h (.inr (.inl rfl))
  | MDB_SET_RANGE => exact mdb_cursor_set_answered hs h (.inr (.inr rfl))
  | MDB_GET_BOTH => exact hfail (.inl rfl)
  | MDB_GET_BOTH_RANGE => exact hfail (.inr (.inl rfl))
  | MDB_NEXT_MULTIPLE => exact hfail (.inr (.inr (.inl rfl)))
  | MDB_PREV_MULTIPLE => exact hfail (.inr (.inr (.inr rfl)))
  | MDB_GET_MULTIPLE => exact no_dups_answered h (.inl rfl)
  | MDB_FIRST_DUP => exact no_dups_answered h (.inr (.inl rfl))
  | MDB_LAST_DUP => exact no_dups_answered h (.inr (.inr rfl))

/-! ### Whole runs -/

/-- Every sequence of calls from a possible state is answered as documented. -/
theorem runCalls_answered (calls : List (MDB_cursor_op × Bytes)) (hs : txn.Stores store)
    (h : Placed txn store.entries mc p) :
    ∃ rs mc' p', runCalls txn calls mc = some (rs, mc') ∧ Run store.entries calls p rs p' ∧
      Placed txn store.entries mc' p' := by
  induction calls generalizing mc p with
  | nil => exact ⟨[], mc, p, rfl, .done p, h⟩
  | cons c calls ih =>
    obtain ⟨mc', a, p', hr, ha, hp⟩ := mdb_cursor_get_answered c.1 c.2 hs h
    obtain ⟨rs, mc'', p'', hrs, hrun, hp''⟩ := ih hp
    refine ⟨a :: rs, mc'', p'', ?_, .call ha hrun, hp''⟩
    simp only [runCalls, hr, hrs, Option.map_some]

end

end ObDump.Lmdb
