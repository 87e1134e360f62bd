import ObDump.Base.Except
import ObDump.Lmdb.FreeList
import ObDump.Lmdb.MidlMerge

/-!
# The list of free pages in memory

Library `Lmdb`. `me_pghead` as `mdb.c` keeps it: the range of pages looked for from the end and
cut out, pages put back, records of the file and loose pages merged in, and the pages written
into the records reserved for them. Each does to the array what the shared environment does to
its ascending list.
-/

namespace ObDump.Lmdb

open Base

/-! ### The loops of `mdb.c` -/

/-- The search from the end of the list; `dart/src/lmdb/mdb.c:2224–2233`. -/
def seekRange (m : Mem) (mop : Ptr) (n2 : Nat) : Nat → Option (Option (Nat × Nat))
  | 0 => some none
  | i + 1 =>
    if n2 < i + 1 then do
      let pgno ← m.load mop (i + 1)
      let last ← m.load mop (i + 1 - n2)
      if last = pgno + n2 then return some (i + 1, pgno)
      seekRange m mop n2 i
    else some none

/-- `for (j = …; j < mop_len; ) mop[++j] = mop[++i]`. -/
def moveDown (mop : Ptr) (mop_len j i : Nat) (m : Mem) : Option Mem :=
  if j < mop_len then do
    let x ← m.load mop (i + 1)
    let m ← m.store mop (j + 1) x
    moveDown mop mop_len (j + 1) (i + 1) m
  else some m
termination_by mop_len - j

/-- The range found is cut out; `dart/src/lmdb/mdb.c:2328–2332`. -/
def cutRange (m : Mem) (mop : Ptr) (mop_len num i : Nat) : Option Mem := do
  let m ← m.store mop 0 (mop_len - num)
  moveDown mop (mop_len - num) (i - num) i m

/-- `for (i = …; i && mop[i] < pg; i--) mop[j--] = mop[i]`. -/
def moveSmaller (mop : Ptr) (pg : Nat) : Nat → Nat → Mem → Option (Nat × Nat × Mem)
  | 0, j, m => some (0, j, m)
  | i + 1, j, m => do
    let x ← m.load mop (i + 1)
    if x < pg then
      let m ← m.store mop j x
      moveSmaller mop pg i (j - 1) m
    else return (i + 1, j, m)

/-- `while (j>i) mop[j--] = pg++`. -/
def putRange (mop : Ptr) (i : Nat) : Nat → Nat → Mem → Option Mem
  | 0, _, m => some m
  | j + 1, pg, m =>
    if i < j + 1 then do
      let m ← m.store mop (j + 1) pg
      putRange mop i j (pg + 1) m
    else some m

/-- `mdb_ovpage_free`, where the pages go back into the list;
`dart/src/lmdb/mdb.c:5739`, `5771–5778`. -/
def giveRange (m : Mem) (mop : Ptr) (pg ovpages : Nat) (data : Nat → Nat) :
    Option (Mem × Ptr) := do
  let (m, mop) ← mdb_midl_need m mop ovpages data
  let len ← m.load mop 0
  let (i, j, m) ← moveSmaller mop pg len (len + ovpages) m
  let m ← putRange mop i j pg m
  let len ← m.load mop 0
  let m ← m.store mop 0 (len + ovpages)
  return (m, mop)

/-- A record of the file is merged in; `dart/src/lmdb/mdb.c:2287–2307`. -/
def fetchRecord (m : Mem) (pghead : Option Ptr) (idl : Ptr) (data : Nat → Nat) :
    Option (Mem × Ptr) := do
  let i ← m.load idl 0
  let (m, mop) ← match pghead with
    | none => mdb_midl_alloc m i data
    | some mop => mdb_midl_need m mop i data
  let m ← mdb_midl_xmerge m mop idl
  return (m, mop)

/-- `for (; mp; …) loose[++count] = mp->mp_pgno`. -/
def storeLoose (loose : Ptr) : Nat → List Nat → Mem → Option (Nat × Mem)
  | count, [], m => some (count, m)
  | count, p :: pages, m => do
    let m ← m.store loose (count + 1) p
    storeLoose loose (count + 1) pages m

/-- Loose pages are merged in, by way of a list in the space behind;
`dart/src/lmdb/mdb.c:3272–3282`. -/
def mergeLoose (m : Mem) (pghead : Ptr) (pages : List Nat) (data : Nat → Nat) :
    Option (Mem × Ptr) := do
  let (m, mop) ← mdb_midl_need m pghead (2 * pages.length + 1) data
  let room ← m.load (roomPtr mop) 0
  let loose := mop.add (room - pages.length)
  let (count, m) ← storeLoose loose 0 pages m
  let m ← m.store loose 0 count
  let m ← mdb_midl_sort m loose
  let m ← mdb_midl_xmerge m mop loose
  return (m, mop)

/-- The words of a list, with their number. -/
def readIdl (m : Mem) (p : Ptr) (len : Nat) : Option (List Nat) :=
  (List.range (len + 1)).mapM (m.load p)

/-- The records reserved, given by key and size, are filled from the end of the list on; those not
reached hold no page; `dart/src/lmdb/mdb.c:3290–3314`. -/
def fillRecords (mop : Ptr) : Nat → List (Nat × Nat) → Mem →
    Option (List (Nat × List Nat) × Mem)
  | _, [], m => some ([], m)
  | mop_len, r :: room, m =>
    if mop_len = 0 then some ((r :: room).map fun r ↦ (r.1, [0]), m)
    else do
      let len := min r.2 mop_len
      let p := mop.add (mop_len - len)
      let save ← m.load p 0
      let m ← m.store p 0 len
      let words ← readIdl m p len
      let m ← m.store p 0 save
      let (records, m) ← fillRecords mop (mop_len - len) room m
      return ((r.1, words) :: records, m)

/-! ### Stretches of a list -/

section

variable {f g : Nat → Nat} {m : Mem} {mop : Ptr} {l : List Nat} {n i j k num pg : Nat}

/-- The list has `n` elements. -/
@[simp] theorem length_ascending : (ascending f n).length = n := by
  induction n with
  | zero => rfl
  | succ n ih => rw [ascending, List.length_cons, ih]

/-- The list runs from the end of the array. -/
theorem getElem?_ascending (hi : i < n) : (ascending f n)[i]? = some (f (n - i)) := by
  induction n generalizing i with
  | zero => omega
  | succ n ih =>
    cases i with
    | zero => rfl
    | succ i =>
      rw [ascending, List.getElem?_cons_succ, ih (by omega), Nat.add_sub_add_right]

/-- The last elements come first. -/
theorem ascending_add :
    ascending f (n + k) = ascending (fun i ↦ f (n + i)) k ++ ascending f n := by
  induction k with
  | zero => rfl
  | succ k ih => exact congrArg (f (n + (k + 1)) :: ·) ih

/-- The end of the list is the front of the array. -/
theorem drop_ascending : (ascending f (n + k)).drop k = ascending f n := by
  rw [ascending_add, List.drop_left' length_ascending]

/-! ### The range looked for -/

/-- From an index on, the search finds what the search in the ascending list finds from the place
it corresponds to. -/
theorem seekRange_from (h : m.Holds mop n) (hi : i ≤ n) (hnum : 0 < num) :
    seekRange m mop (num - 1) i =
      some (((List.range' (n - i) (i + 1 - num)).find? fun t ↦
        decide ((ascending (m.view mop) n)[t + (num - 1)]? =
          (ascending (m.view mop) n)[t]?.map (· + (num - 1)))).map
            fun t ↦ (n - t, m.view mop (n - t))) := by
  induction i with
  | zero =>
    rw [show 0 + 1 - num = 0 by omega]
    rfl
  | succ i ih =>
    by_cases hlt : num - 1 < i + 1
    · rw [seekRange, if_pos hlt, show i + 1 + 1 - num = i + 1 - num + 1 by omega,
        List.range'_succ, List.find?_cons]
      rw [getElem?_ascending (show n - (i + 1) + (num - 1) < n by omega),
        getElem?_ascending (show n - (i + 1) < n by omega)]
      have hfirst : n - (n - (i + 1)) = i + 1 := by omega
      have hlast : n - (n - (i + 1) + (num - 1)) = i + 1 - (num - 1) := by omega
      simp only [hfirst, hlast, Option.map_some, Option.some.injEq,
        Mem.load_eq h (show i + 1 ≤ n by omega),
        Mem.load_eq h (show i + 1 - (num - 1) ≤ n by omega), Option.bind_eq_bind,
        Option.bind_some]
      by_cases hrun : m.view mop (i + 1 - (num - 1)) = m.view mop (i + 1) + (num - 1)
      · rw [if_pos hrun, decide_eq_true hrun]
        rw [Option.map_some, hfirst]
        rfl
      · rw [if_neg hrun, decide_eq_false hrun]
        simp only [show n - (i + 1) + 1 = n - i by omega]
        exact ih (by omega)
    · rw [seekRange, if_neg hlt, show i + 1 + 1 - num = 0 by omega]
      rfl

/-- The search in the array is the search in the list. -/
theorem seekRange_eq (h : m.Holds mop n) (hnum : 0 < num) :
    seekRange m mop (num - 1) n =
      some ((searchRange num (ascending (m.view mop) n)).map
        fun t ↦ (n - t, m.view mop (n - t))) := by
  rw [seekRange_from h (Nat.le_refl n) hnum, Nat.sub_self, searchRange, length_ascending,
    List.range_eq_range']

/-! ### The range cut out -/

private theorem moveDown_spec (h : m.Holds mop n) (hji : j < i) (hn : k + (i - j) ≤ n) :
    ∃ f', moveDown mop k j i (m.write mop f) = some (m.write mop f') ∧
      (∀ x, x ≤ j ∨ k < x → f' x = f x) ∧ ∀ x, j < x → x ≤ k → f' x = f (x + (i - j)) := by
  induction hd : k - j generalizing f j i with
  | zero =>
    rw [moveDown, if_neg (by omega)]
    refine ⟨f, rfl, fun _ _ ↦ rfl, fun x hx hxk ↦ ?_⟩
    omega
  | succ d ih =>
    obtain ⟨f₁, hf₁⟩ : ∃ f₁, f₁ = Function.update f (j + 1) (f (i + 1)) := ⟨_, rfl⟩
    have hsame : ∀ x, x ≠ j + 1 → f₁ x = f x := by
      intro x hx
      rw [hf₁, Function.update_of_ne hx]
    obtain ⟨f', hrun, hkeep, hmoved⟩ := ih (f := f₁) (j := j + 1) (i := i + 1) (by omega)
      (by omega) (by omega)
    refine ⟨f', ?_, ?_, ?_⟩
    · rw [moveDown, if_pos (by omega)]
      simp only [Mem.load_write h (show i + 1 ≤ n by omega),
        Mem.store_write h (show j + 1 ≤ n by omega), ← hf₁, Option.bind_eq_bind,
        Option.bind_some, hrun]
    · intro x hx
      rw [hkeep x (by omega), hsame x (by omega)]
    · intro x hx hxk
      by_cases hx1 : x = j + 1
      · rw [hx1, hkeep (j + 1) (.inl (Nat.le_refl _)), hf₁, Function.update_self]
        apply congrArg
        omega
      · rw [hmoved x (by omega) hxk, hsame _ (by omega)]
        apply congrArg
        omega

/-- The range found is cut out of the array. -/
theorem cutRange_spec (h : m.Holds mop n) (hnum : 0 < num) (hi : num ≤ i) (hin : i ≤ n) :
    ∃ f', cutRange (m.write mop f) mop n num i = some (m.write mop f') ∧ f' 0 = n - num ∧
      ascending f' (n - num) =
        (ascending f n).take (n - i) ++ (ascending f n).drop (n - i + num) := by
  obtain ⟨f₁, hf₁⟩ : ∃ f₁, f₁ = Function.update f 0 (n - num) := ⟨_, rfl⟩
  have hsame : ∀ x, x ≠ 0 → f₁ x = f x := by
    intro x hx
    rw [hf₁, Function.update_of_ne hx]
  obtain ⟨f', hrun, hkeep, hmoved⟩ := moveDown_spec (f := f₁) (k := n - num) (j := i - num)
    (i := i) h (by omega) (by omega)
  refine ⟨f', ?_, ?_, ?_⟩
  · simp only [cutRange, Mem.store_write h (Nat.zero_le _), ← hf₁, Option.bind_eq_bind,
      Option.bind_some, hrun]
  · rw [hkeep 0 (.inl (Nat.zero_le _)), hf₁, Function.update_self]
  · have hlow : ascending f' (i - num) = ascending f (i - num) := by
      apply ascending_congr
      intro x hx hxi
      rw [hkeep x (.inl hxi), hsame x (by omega)]
    have hhigh : ascending (fun x ↦ f' (i - num + x)) (n - i) =
        ascending (fun x ↦ f (i + x)) (n - i) := by
      apply ascending_congr
      intro x hx hxi
      rw [hmoved (i - num + x) (by omega) (by omega), hsame _ (by omega)]
      apply congrArg
      omega
    have hwhole : ascending f n =
        ascending (fun x ↦ f (i + x)) (n - i) ++ ascending f i := by
      rw [← ascending_add, Nat.add_sub_cancel' hin]
    rw [show n - num = i - num + (n - i) by omega, ascending_add, hlow, hhigh, hwhole,
      List.take_left' length_ascending, ← List.drop_drop, List.drop_left' length_ascending]
    apply congrArg
    have hcut := drop_ascending (f := f) (n := i - num) (k := num)
    rw [Nat.sub_add_cancel hi] at hcut
    exact hcut.symm

/-! ### Pages put back -/

private theorem moveSmaller_spec (pg : Nat) (h : m.Holds mop n) (hn : i + num ≤ n)
    (hnum : 0 < num) :
    ∃ i' f', moveSmaller mop pg i (i + num) (m.write mop f) =
        some (i', i' + num, m.write mop f') ∧ i' ≤ i ∧ (i' ≠ 0 → pg ≤ f i') ∧
      (∀ x, i' < x → x ≤ i → f x < pg) ∧ (∀ x, x ≤ i' ∨ i + num < x → f' x = f x) ∧
      ∀ x, i' < x → x ≤ i → f' (x + num) = f x := by
  induction i generalizing f with
  | zero =>
    refine ⟨0, f, rfl, Nat.le_refl 0, fun h0 ↦ absurd rfl h0, ?_, fun _ _ ↦ rfl, ?_⟩
    · intro x hx hx0
      omega
    · intro x hx hx0
      omega
  | succ i ih =>
    simp only [moveSmaller, Mem.load_write h (show i + 1 ≤ n by omega), Option.bind_eq_bind,
      Option.bind_some]
    by_cases hlt : f (i + 1) < pg
    · obtain ⟨f₁, hf₁⟩ : ∃ f₁, f₁ = Function.update f (i + 1 + num) (f (i + 1)) := ⟨_, rfl⟩
      have hsame : ∀ x, x ≠ i + 1 + num → f₁ x = f x := by
        intro x hx
        rw [hf₁, Function.update_of_ne hx]
      obtain ⟨i', f', hrun, hle, hge, hbelow, hkeep, hmoved⟩ := ih (f := f₁) (by omega)
      refine ⟨i', f', ?_, by omega, ?_, ?_, ?_, ?_⟩
      · rw [if_pos hlt]
        simp only [Mem.store_write h hn, ← hf₁, Option.bind_some]
        rw [show i + 1 + num - 1 = i + num by omega]
        exact hrun
      · intro h0
        rw [← hsame i' (by omega)]
        exact hge h0
      · intro x hx hxi
        by_cases hx1 : x = i + 1
        · rw [hx1]
          exact hlt
        · rw [← hsame x (by omega)]
          exact hbelow x hx (by omega)
      · intro x hx
        rw [hkeep x (by omega), hsame x (by omega)]
      · intro x hx hxi
        by_cases hx1 : x = i + 1
        · rw [hx1, hkeep (i + 1 + num) (.inr (by omega)), hf₁, Function.update_self]
        · rw [hmoved x hx (by omega), hsame x (by omega)]
    · rw [if_neg hlt]
      refine ⟨i + 1, f, rfl, Nat.le_refl _, fun _ ↦ by omega, ?_, fun _ _ ↦ rfl, ?_⟩
      · intro x hx hxi
        omega
      · intro x hx hxi
        omega

private theorem putRange_spec (pg : Nat) (h : m.Holds mop n) (hj : j ≤ n) (hij : i ≤ j) :
    ∃ f', putRange mop i j pg (m.write mop f) = some (m.write mop f') ∧
      (∀ x, x ≤ i ∨ j < x → f' x = f x) ∧ ∀ x, i < x → x ≤ j → f' x = pg + (j - x) := by
  induction j generalizing f pg with
  | zero =>
    refine ⟨f, rfl, fun _ _ ↦ rfl, fun x hx hx0 ↦ ?_⟩
    omega
  | succ j ih =>
    by_cases hlt : i < j + 1
    · obtain ⟨f₁, hf₁⟩ : ∃ f₁, f₁ = Function.update f (j + 1) pg := ⟨_, rfl⟩
      have hsame : ∀ x, x ≠ j + 1 → f₁ x = f x := by
        intro x hx
        rw [hf₁, Function.update_of_ne hx]
      obtain ⟨f', hrun, hkeep, hput⟩ := ih (f := f₁) (pg + 1) (by omega) (by omega)
      refine ⟨f', ?_, ?_, ?_⟩
      · rw [putRange, if_pos hlt]
        simp only [Mem.store_write h hj, ← hf₁, Option.bind_eq_bind, Option.bind_some, hrun]
      · intro x hx
        rw [hkeep x (by omega), hsame x (by omega)]
      · intro x hx hxj
        by_cases hx1 : x = j + 1
        · rw [hx1, hkeep (j + 1) (.inr (Nat.lt_succ_self j)), hf₁, Function.update_self,
            Nat.sub_self, Nat.add_zero]
        · rw [hput x hx (by omega)]
          omega
    · rw [putRange, if_neg hlt]
      refine ⟨f, rfl, fun _ _ ↦ rfl, fun x hx hxj ↦ ?_⟩
      omega

/-- Consecutive numbers, the greatest one first. -/
theorem ascending_range : ascending (fun x ↦ pg + (num - x)) num = List.range' pg num := by
  apply List.ext_getElem?
  intro t
  by_cases ht : t < num
  · rw [getElem?_ascending ht, List.getElem?_range' ht]
    apply congrArg some
    omega
  · rw [List.getElem?_eq_none (by simpa using ht), List.getElem?_eq_none (by simpa using ht)]

/-- The smaller pages of an ascending list come first. -/
theorem insertRange_append {front back : List Nat} (hf : ∀ p ∈ front, p < pg)
    (hb : ∀ p ∈ back.head?, pg ≤ p) :
    insertRange (front ++ back) pg num = front ++ List.range' pg num ++ back := by
  have hpos : ∀ p ∈ front, decide (p < pg) = true := fun p hp ↦ decide_eq_true (hf p hp)
  have hback : back.takeWhile (· < pg) = [] ∧ back.dropWhile (· < pg) = back := by
    cases back with
    | nil => exact ⟨rfl, rfl⟩
    | cons p back =>
      have hp : ¬ p < pg := Nat.not_lt.mpr (hb p rfl)
      rw [List.takeWhile_cons, List.dropWhile_cons, if_neg (by simpa using hp),
        if_neg (by simpa using hp)]
      exact ⟨rfl, rfl⟩
  rw [insertRange, List.takeWhile_append_of_pos hpos, List.dropWhile_append_of_pos hpos,
    hback.1, hback.2, List.append_nil]

/-- The pages given back are put into the array. -/
theorem giveRange_write (pg : Nat) (h : m.Holds mop (n + num)) (hf : f 0 = n) (hnum : 0 < num) :
    ∃ f₁ f' i' , moveSmaller mop pg n (n + num) (m.write mop f) =
        some (i', i' + num, m.write mop f₁) ∧
      putRange mop i' (i' + num) pg (m.write mop f₁) = some (m.write mop f') ∧ f' 0 = n ∧
      ascending f' (n + num) = insertRange (ascending f n) pg num := by
  obtain ⟨i', f₁, hmove, hle, hge, hbelow, hkeep, hmoved⟩ :=
    moveSmaller_spec (f := f) pg h (Nat.le_refl _) hnum
  obtain ⟨f', hput, hkeep', hrange⟩ :=
    putRange_spec (f := f₁) pg (i := i') (j := i' + num) h (by omega) (by omega)
  refine ⟨f₁, f', i', hmove, hput, ?_, ?_⟩
  · rw [hkeep' 0 (.inl (Nat.zero_le _)), hkeep 0 (.inl (Nat.zero_le _)), hf]
  · have hlow : ascending f' i' = ascending f i' := by
      apply ascending_congr
      intro x hx hxi
      rw [hkeep' x (.inl hxi), hkeep x (.inl hxi)]
    have hnew : ascending (fun x ↦ f' (i' + x)) num = List.range' pg num := by
      rw [← ascending_range]
      apply ascending_congr
      intro x hx hxn
      rw [hrange (i' + x) (by omega) (by omega)]
      omega
    have hhigh : ascending (fun x ↦ f' (i' + num + x)) (n - i') =
        ascending (fun x ↦ f (i' + x)) (n - i') := by
      apply ascending_congr
      intro x hx hxn
      rw [hkeep' _ (.inr (by omega)), show i' + num + x = i' + x + num by omega,
        hmoved (i' + x) (by omega) (by omega)]
    have hwhole : ascending f n =
        ascending (fun x ↦ f (i' + x)) (n - i') ++ ascending f i' := by
      rw [← ascending_add, Nat.add_sub_cancel' hle]
    rw [hwhole, insertRange_append, show n + num = i' + num + (n - i') by omega, ascending_add,
      ascending_add, hlow, hnew, hhigh, List.append_assoc]
    · intro p hp
      obtain ⟨t, ht, rfl⟩ := List.mem_iff_getElem.mp hp
      rw [length_ascending] at ht
      have hget := getElem?_ascending (f := fun x ↦ f (i' + x)) ht
      rw [List.getElem?_eq_getElem (by simpa using ht)] at hget
      rw [Option.some.inj hget]
      exact hbelow _ (by omega) (by omega)
    · intro p hp
      cases i' with
      | zero => exact absurd hp (Option.not_mem_none p)
      | succ i' =>
        obtain rfl := Option.some.inj hp
        exact hge (Nat.succ_ne_zero _)

end

end ObDump.Lmdb
