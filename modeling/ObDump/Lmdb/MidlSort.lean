import ObDump.Base.InPlace
import ObDump.Lmdb.Midl

/-!
# Sorting ID lists

Library `Lmdb`. The non-recursive quicksort of `midl.c` on a list in memory: the scans stop at
the elements the median of three leaves at both ends, the insertion sort stops where an earlier
partition ends, the stretches put off fit into `istack`.
-/

namespace ObDump.Lmdb

open Base

/-- The elements of a list, from the last one on. -/
def ascending (f : Nat → Nat) : Nat → List Nat
  | 0 => []
  | n + 1 => f (n + 1) :: ascending f n

section

variable {f g : Nat → Nat} {m : Mem} {ids : Ptr} {n a i j k l ir x y : Nat}

/-- The array read from its end, as a list. -/
theorem ascending_eq : ascending f n = ((List.range' 1 n).map f).reverse := by
  induction n with
  | zero => rfl
  | succ n ih =>
    rw [List.range'_1_concat, List.map_append, List.reverse_append, ascending, ih, Nat.add_comm 1 n]
    rfl

/-- The list depends on the places `1` to `n` only. -/
theorem ascending_congr (h : ∀ i, 1 ≤ i → i ≤ n → f i = g i) : ascending f n = ascending g n := by
  rw [ascending_eq, ascending_eq]
  apply congrArg
  apply List.map_congr_left
  intro i hi
  rw [List.mem_range'_1] at hi
  exact h i hi.1 (by omega)

/-! ### Swaps -/

private theorem MIDL_SWAP_eq (h : m.Holds ids n) (hx : x ≤ n) (hy : y ≤ n) :
    MIDL_SWAP (m.write ids f) ids x y = some (m.write ids (f ∘ Equiv.swap x y)) := by
  have hswap : f ∘ Equiv.swap x y = Function.update (Function.update f x (f y)) y (f x) := by
    rw [Equiv.swap_comm]
    exact Equiv.comp_swap_eq_update y x f
  simp only [MIDL_SWAP, Mem.load_write h hx, Mem.load_write h hy, Mem.store_write h hx,
    Mem.store_write h hy, Option.bind_eq_bind, Option.bind_some, hswap]

/-- The greater of two elements is brought to the first place. -/
def greaterFirst (x y : Nat) (f : Nat → Nat) : Nat → Nat :=
  if f x < f y then f ∘ Equiv.swap x y else f

private theorem swapLess_eq (h : m.Holds ids n) (hx : x ≤ n) (hy : y ≤ n) :
    swapLess (m.write ids f) ids x y = some (m.write ids (greaterFirst x y f)) := by
  simp only [swapLess, Mem.load_write h hx, Mem.load_write h hy, Option.bind_eq_bind,
    Option.bind_some, greaterFirst]
  by_cases hlt : f x < f y
  · rw [if_pos hlt, if_pos hlt, MIDL_SWAP_eq h hx hy]
  · rw [if_neg hlt, if_neg hlt]
    rfl

private theorem greaterFirst_left : greaterFirst x y f x = max (f x) (f y) := by
  unfold greaterFirst
  by_cases hlt : f x < f y
  · rw [if_pos hlt, Function.comp_apply, Equiv.swap_apply_left]
    omega
  · rw [if_neg hlt]
    omega

private theorem greaterFirst_right : greaterFirst x y f y = min (f x) (f y) := by
  unfold greaterFirst
  by_cases hlt : f x < f y
  · rw [if_pos hlt, Function.comp_apply, Equiv.swap_apply_right]
    omega
  · rw [if_neg hlt]
    omega

private theorem greaterFirst_of_ne (hx : i ≠ x) (hy : i ≠ y) : greaterFirst x y f i = f i := by
  unfold greaterFirst
  by_cases hlt : f x < f y
  · rw [if_pos hlt, Function.comp_apply, Equiv.swap_apply_of_ne_of_ne hx hy]
  · rw [if_neg hlt]

private theorem rearranged_greaterFirst (hx : l ≤ x) (hx' : x ≤ ir) (hy : l ≤ y) (hy' : y ≤ ir) :
    Rearranged l ir f (greaterFirst x y f) := by
  unfold greaterFirst
  by_cases hlt : f x < f y
  · rw [if_pos hlt]
    exact .swap hx hx' hy hy'
  · rw [if_neg hlt]
    exact .refl l ir f

/-! ### Insertion -/

/-- Elements below `a` are moved up by one place, up to the first that is not. -/
theorem shift_spec (h : m.Holds ids n) (hi : i + 1 ≤ n) :
    ∃ k f', shift ids a i (m.write ids f) = some (k, m.write ids f') ∧ k ≤ i ∧
      Rearranged (k + 1) (i + 1) (Function.update f (i + 1) a) (Function.update f' (k + 1) a) ∧
      (∀ x, k < x → x ≤ i → f x < a) ∧ (k ≠ 0 → a ≤ f k) ∧
      (∀ x, x ≤ k → f' x = f x) ∧ ∀ x, k < x → x ≤ i → f' (x + 1) = f x := by
  induction i generalizing f with
  | zero =>
    refine ⟨0, f, rfl, Nat.le_refl 0, .refl _ _ _, ?_, fun hk ↦ absurd rfl hk, fun x _ ↦ rfl, ?_⟩
    · intro x hx hx0
      omega
    · intro x hx hx0
      omega
  | succ i ih =>
    simp only [shift, Mem.load_write h (show i + 1 ≤ n by omega), Option.bind_eq_bind,
      Option.bind_some]
    by_cases hle : a ≤ f (i + 1)
    · rw [if_pos hle]
      refine ⟨i + 1, f, rfl, Nat.le_refl _, .refl _ _ _, ?_, fun _ ↦ hle, fun x _ ↦ rfl, ?_⟩
      · intro x hx hxi
        omega
      · intro x hx hxi
        omega
    · rw [if_neg hle, Mem.store_write h (show i + 2 ≤ n by omega), Option.bind_some]
      obtain ⟨k, f', hrun, hki, hre, hlt, hge, hsame, hup⟩ :=
        ih (f := Function.update f (i + 2) (f (i + 1))) (by omega)
      refine ⟨k, f', hrun, by omega, ?_, ?_, ?_, ?_, ?_⟩
      · -- the hole moves down: the element below it and `a` change places
        apply Rearranged.trans _ (hre.mono (Nat.le_refl _) (by omega))
        exact .move (by omega) (by omega) (by omega) (by omega) (by omega) a
      · intro x hkx hxi
        by_cases hx : x = i + 1
        · rw [hx]
          omega
        · have hx' := hlt x hkx (by omega)
          rwa [Function.update_of_ne (show x ≠ i + 2 by omega)] at hx'
      · intro hk
        have hk' := hge hk
        rwa [Function.update_of_ne (show k ≠ i + 2 by omega)] at hk'
      · intro x hx
        rw [hsame x hx, Function.update_of_ne (show x ≠ i + 2 by omega)]
      · intro x hkx hxi
        by_cases hx : x = i + 1
        · have htop := hre.eq_outside (i := i + 2) (.inr (Nat.lt_succ_self _))
          rw [Function.update_of_ne (show i + 2 ≠ k + 1 by omega),
            Function.update_of_ne (show i + 2 ≠ i + 1 by omega), Function.update_self] at htop
          rw [hx]
          exact htop
        · rw [hup x hkx (by omega), Function.update_of_ne (show x ≠ i + 2 by omega)]

/-- An element finds its place behind those that are not less: before `l`, nothing is. -/
theorem inserted (h : m.Holds ids n) (hlj : l < j) (hj : j ≤ ir) (hn : ir ≤ n) (hl : 0 < l)
    (hcut : Cut (· ≥ ·) f 1 ir l) (hs : ∀ x y, l ≤ x → x < y → y ≤ j - 1 → f y ≤ f x) :
    ∃ k f', shift ids (f j) (j - 1) (m.write ids f) = some (k, m.write ids f') ∧ k + 1 ≤ n ∧
      Rearranged l ir f (Function.update f' (k + 1) (f j)) ∧
      ∀ x y, l ≤ x → x < y → y ≤ j →
        Function.update f' (k + 1) (f j) y ≤ Function.update f' (k + 1) (f j) x := by
  obtain ⟨i, rfl⟩ : ∃ i, j = i + 1 := ⟨j - 1, by omega⟩
  rw [Nat.add_sub_cancel] at hs ⊢
  obtain ⟨k, f', hrun, hki, hre, hlt, hge, hsame, hup⟩ :=
    shift_spec (a := f (i + 1)) h (show i + 1 ≤ n by omega)
  rw [Function.update_eq_self] at hre
  have hlk : l ≤ k + 1 := by
    by_contra hlow
    have habove : f (i + 1) ≤ f (l - 1) :=
      hcut (l - 1) (i + 1) (by omega) (by omega) (by omega) hj
    have hbelow := hlt (l - 1) (by omega) (by omega)
    omega
  refine ⟨k, f', hrun, by omega, hre.mono hlk (by omega), ?_⟩
  intro x y hx hxy hy
  have hval : ∀ z, Function.update f' (k + 1) (f (i + 1)) z =
      if z = k + 1 then f (i + 1) else f' z := fun z ↦ Function.update_apply _ _ _ _
  have hmoved : ∀ z, k + 1 < z → z ≤ i + 1 → f' z = f (z - 1) := by
    intro z hz hzi
    obtain ⟨z, rfl⟩ : ∃ w, z = w + 1 := ⟨z - 1, by omega⟩
    exact hup z (by omega) (by omega)
  rw [hval, hval]
  by_cases hyk : y = k + 1
  · rw [if_pos hyk, if_neg (by omega), hsame x (by omega)]
    have hk : f (i + 1) ≤ f k := hge (by omega)
    by_cases hxk : x = k
    · rwa [hxk]
    · exact hk.trans (hs x k hx (by omega) (by omega))
  · rw [if_neg hyk]
    by_cases hyl : y ≤ k
    · rw [if_neg (by omega), hsame x (by omega), hsame y hyl]
      exact hs x y hx hxy (by omega)
    · rw [hmoved y (by omega) hy]
      by_cases hxk : x = k + 1
      · rw [if_pos hxk]
        exact Nat.le_of_lt (hlt (y - 1) (by omega) (by omega))
      · rw [if_neg hxk]
        by_cases hxl : x ≤ k
        · rw [hsame x hxl]
          exact hs x (y - 1) hx (by omega) (by omega)
        · rw [hmoved x (by omega) (by omega)]
          exact hs (x - 1) (y - 1) (by omega) (by omega) (by omega)

private theorem insertion_spec (h : m.Holds ids n) (hlj : l < j) (hn : ir ≤ n) (hl : 0 < l)
    (hj : j ≤ ir + 1 ∨ ir < l) (hcut : Cut (· ≥ ·) f 1 ir l)
    (hs : ∀ x y, l ≤ x → x < y → y ≤ j - 1 → f y ≤ f x) :
    ∃ g, insertion ids ir j (m.write ids f) = some (m.write ids g) ∧ Rearranged l ir f g ∧
      ∀ x y, l ≤ x → x < y → y ≤ ir → g y ≤ g x := by
  induction hd : ir + 1 - j generalizing j f with
  | zero =>
    rw [insertion, if_neg (by omega)]
    exact ⟨f, rfl, .refl l ir f, fun x y hx hxy hy ↦ hs x y hx hxy (by omega)⟩
  | succ d ih =>
    have hjr : j ≤ ir := by omega
    rw [insertion, if_pos hjr]
    obtain ⟨k, f', hrun, hk, hre, hs'⟩ := inserted h hlj hjr hn hl hcut hs
    obtain ⟨g, hg, hre', hsg⟩ := ih (j := j + 1) (by omega) (by omega)
      (hcut.rearranged hre (by omega) (Nat.le_refl ir) (.inl (Nat.le_refl l)))
      (by simpa using hs') (by omega)
    refine ⟨g, ?_, hre.trans hre', hsg⟩
    simp only [Mem.load_write h (show j ≤ n by omega), hrun, Mem.store_write h hk,
      Option.bind_eq_bind, Option.bind_some, hg]

/-! ### Partitioning -/

private theorem scanUp_spec (h : m.Holds ids n) {s : Nat} (his : i < s) (hs : s ≤ n)
    (ha : f s ≤ a) :
    ∃ i', scanUp (m.write ids f) ids a i = some i' ∧ i < i' ∧ i' ≤ s ∧ f i' ≤ a ∧
      ∀ x, i < x → x < i' → a < f x := by
  induction hd : s - i generalizing i with
  | zero => omega
  | succ d ih =>
    have hin : ids.off + (i + 1) < (m.write ids f).size ids.blk := h.mono (by omega)
    rw [scanUp, if_pos hin, Mem.view_write]
    by_cases hlt : a < f (i + 1)
    · rw [if_pos hlt]
      have hne : i + 1 ≠ s := by
        rintro rfl
        omega
      obtain ⟨i', hrun, hi, his', hle, hbelow⟩ := ih (i := i + 1) (by omega) (by omega)
      refine ⟨i', hrun, by omega, his', hle, fun x hx hxi ↦ ?_⟩
      by_cases hx1 : x = i + 1
      · rwa [hx1]
      · exact hbelow x (by omega) hxi
    · rw [if_neg hlt]
      refine ⟨i + 1, rfl, by omega, by omega, by omega, fun x hx hxi ↦ ?_⟩
      omega

private theorem scanDown_spec (h : m.Holds ids n) {s : Nat} (hsj : s < j) (hj : j ≤ n + 1)
    (ha : a ≤ f s) :
    ∃ j', scanDown (m.write ids f) ids a j = some j' ∧ j' < j ∧ s ≤ j' ∧ a ≤ f j' ∧
      ∀ x, j' < x → x < j → f x < a := by
  induction j with
  | zero => omega
  | succ j ih =>
    simp only [scanDown, Mem.load_write h (show j ≤ n by omega), Option.bind_eq_bind,
      Option.bind_some]
    by_cases hlt : f j < a
    · rw [if_pos hlt]
      have hne : s ≠ j := by
        rintro rfl
        omega
      obtain ⟨j', hrun, hj', hsj', hle, habove⟩ := ih (by omega) (by omega)
      refine ⟨j', hrun, by omega, hsj', hle, fun x hx hxj ↦ ?_⟩
      by_cases hx1 : x = j
      · rwa [hx1]
      · exact habove x hx (by omega)
    · rw [if_neg hlt]
      refine ⟨j, rfl, by omega, by omega, by omega, fun x hx hxj ↦ ?_⟩
      omega

/-- What the loop keeps: up to `i` nothing is less than the pivot, from `j` on nothing is
greater; the pivot stands at `l + 1`. -/
structure Parted (f : Nat → Nat) (a l ir i j : Nat) : Prop where
  pivot : f (l + 1) = a
  left : l + 1 ≤ i
  between : i ≤ j
  right : j ≤ ir
  room : i < ir ∧ l + 1 < j
  low : ∀ x, l ≤ x → x ≤ i → a ≤ f x
  high : ∀ x, j ≤ x → x ≤ ir → f x ≤ a

/-- One round of the loop. -/
theorem partitionLoop_eq {i' j' : Nat} (hi : scanUp m ids a i = some i')
    (hj : scanDown m ids a j = some j') :
    partitionLoop ids a i j m =
      if j' < i' then some (i', j', m)
      else (MIDL_SWAP m ids i' j').bind (partitionLoop ids a i' j') := by
  rw [partitionLoop]
  split
  · next x y hx hy =>
    obtain rfl := Option.some.inj (hx.symm.trans hi)
    obtain rfl := Option.some.inj (hy.symm.trans hj)
    by_cases hend : y < x
    · rw [if_pos hend, if_pos hend]
    · rw [if_neg hend, if_neg hend]
      cases MIDL_SWAP m ids x y with
      | none => rfl
      | some m => rfl
  · next hnone =>
    exact absurd hj (hnone i' j' hi)

private theorem partitionLoop_spec (h : m.Holds ids n) (hn : ir ≤ n) (hp : Parted f a l ir i j) :
    ∃ i' j' g, partitionLoop ids a i j (m.write ids f) = some (i', j', m.write ids g) ∧
      Rearranged (l + 2) ir f g ∧ g (l + 1) = a ∧ l + 1 ≤ j' ∧ j' < i' ∧ i' ≤ ir ∧
      (∀ x, l ≤ x → x < i' → a ≤ g x) ∧ ∀ x, j' < x → x ≤ ir → g x ≤ a := by
  induction hd : j using Nat.strong_induction_on generalizing f i j with
  | h d ih =>
    subst hd
    have hir : f ir ≤ a := hp.high ir hp.right (Nat.le_refl ir)
    obtain ⟨i', hup, hii, hiir, hia, hil⟩ := scanUp_spec h hp.room.1 hn hir
    obtain ⟨j', hdown, hjj, hlj, hja, hjh⟩ := scanDown_spec h hp.room.2
      (show j ≤ n + 1 by have := hp.right; omega) (Nat.le_of_eq hp.pivot.symm)
    rw [partitionLoop_eq hup hdown]
    have hleft := hp.left
    have hright := hp.right
    have hlow : ∀ x, l ≤ x → x < i' → a ≤ f x := by
      intro x hx hxi
      by_cases hxl : x ≤ i
      · exact hp.low x hx hxl
      · exact Nat.le_of_lt (hil x (by omega) hxi)
    have hhigh : ∀ x, j' < x → x ≤ ir → f x ≤ a := by
      intro x hx hxr
      by_cases hxj : j ≤ x
      · exact hp.high x hxj hxr
      · exact Nat.le_of_lt (hjh x hx (by omega))
    by_cases hend : j' < i'
    · rw [if_pos hend]
      exact ⟨i', j', f, rfl, .refl _ _ _, hp.pivot, hlj, hend, hiir, hlow, hhigh⟩
    · rw [if_neg hend, MIDL_SWAP_eq h (show i' ≤ n by omega) (show j' ≤ n by omega),
        Option.bind_some]
      have hother : ∀ x, x ≠ i' → x ≠ j' → (f ∘ Equiv.swap i' j') x = f x :=
        fun x hx hx' ↦ congrArg f (Equiv.swap_apply_of_ne_of_ne hx hx')
      have hfirst : (f ∘ Equiv.swap i' j') i' = f j' :=
        congrArg f (Equiv.swap_apply_left i' j')
      have hsecond : (f ∘ Equiv.swap i' j') j' = f i' :=
        congrArg f (Equiv.swap_apply_right i' j')
      have hnext : Parted (f ∘ Equiv.swap i' j') a l ir i' j' := by
        refine ⟨?_, by omega, by omega, by omega, by omega, ?_, ?_⟩
        · rw [hother (l + 1) (by omega) (by omega)]
          exact hp.pivot
        · intro x hx hxi
          by_cases hxi' : x = i'
          · rw [hxi', hfirst]
            exact hja
          · rw [hother x hxi' (by omega)]
            exact hlow x hx (by omega)
        · intro x hx hxr
          by_cases hxj' : x = j'
          · rw [hxj', hsecond]
            exact hia
          · rw [hother x (by omega) hxj']
            exact hhigh x (by omega) hxr
      obtain ⟨i'', j'', g, hrun, hre, hrest⟩ := ih j' hjj hnext rfl
      refine ⟨i'', j'', g, hrun, ?_, hrest⟩
      exact (Rearranged.swap (by omega) (by omega) (by omega) (by omega)).trans hre

/-- Both ends of the stretch and the place of its pivot, the median of the three in the last. -/
def medianOfThree (l ir : Nat) (f : Nat → Nat) : Nat → Nat :=
  greaterFirst l (l + 1) (greaterFirst (l + 1) ir (greaterFirst l ir f))

private theorem rearranged_medianOfThree (hlr : l + 1 < ir) :
    Rearranged l ir f (medianOfThree l ir f) := by
  apply Rearranged.trans _ (rearranged_greaterFirst (by omega) (by omega) (by omega) (by omega))
  apply Rearranged.trans _ (rearranged_greaterFirst (by omega) (by omega) (by omega) (by omega))
  exact rearranged_greaterFirst (by omega) (by omega) (by omega) (by omega)

private theorem medianOfThree_ordered (hlr : l + 1 < ir) :
    medianOfThree l ir f (l + 1) ≤ medianOfThree l ir f l ∧
      medianOfThree l ir f ir ≤ medianOfThree l ir f (l + 1) := by
  obtain ⟨f₁, hf₁⟩ : ∃ f₁, f₁ = greaterFirst l ir f := ⟨_, rfl⟩
  obtain ⟨f₂, hf₂⟩ : ∃ f₂, f₂ = greaterFirst (l + 1) ir f₁ := ⟨_, rfl⟩
  have hl2 : f₂ l = f₁ l := by
    rw [hf₂]
    exact greaterFirst_of_ne (by omega) (by omega)
  have h1l : f₁ l = max (f l) (f ir) := hf₁ ▸ greaterFirst_left
  have h1r : f₁ ir = min (f l) (f ir) := hf₁ ▸ greaterFirst_right
  have h2l : f₂ (l + 1) = max (f₁ (l + 1)) (f₁ ir) := hf₂ ▸ greaterFirst_left
  have h2r : f₂ ir = min (f₁ (l + 1)) (f₁ ir) := hf₂ ▸ greaterFirst_right
  unfold medianOfThree
  rw [← hf₁, ← hf₂, greaterFirst_left, greaterFirst_right,
    greaterFirst_of_ne (show ir ≠ l by omega) (show ir ≠ l + 1 by omega)]
  omega

/-- Both ends of the stretch stop the scans. -/
theorem parted_medianOfThree (hlr : l + 1 < ir) :
    Parted (medianOfThree l ir f) (medianOfThree l ir f (l + 1)) l ir (l + 1) ir := by
  obtain ⟨hleft, hright⟩ := medianOfThree_ordered (f := f) hlr
  refine ⟨rfl, Nat.le_refl _, by omega, Nat.le_refl _, by omega, ?_, ?_⟩
  · intro x hx hxl
    by_cases hx0 : x = l
    · rw [hx0]
      exact hleft
    · rw [show x = l + 1 by omega]
  · intro x hx hxr
    rw [show x = ir by omega]
    exact hright

/-- The pivot in the last place that is not less divides the stretch. -/
theorem cut_of_pivot {c : Nat} (hpivot : g (l + 1) = a) (hlj : l + 1 ≤ j) (hji : j < i)
    (hlow : ∀ x, l ≤ x → x < i → a ≤ g x) (hhigh : ∀ x, j < x → x ≤ ir → g x ≤ a)
    (hjc : j ≤ c) (hci : c ≤ i) : Cut (· ≥ ·) (g ∘ Equiv.swap (l + 1) j) l ir c := by
  intro x y hx hxc hcy hy
  have hother : ∀ z, z ≠ l + 1 → z ≠ j → (g ∘ Equiv.swap (l + 1) j) z = g z :=
    fun z hz hz' ↦ congrArg g (Equiv.swap_apply_of_ne_of_ne hz hz')
  have hfirst : (g ∘ Equiv.swap (l + 1) j) (l + 1) = g j :=
    congrArg g (Equiv.swap_apply_left (l + 1) j)
  have hsecond : (g ∘ Equiv.swap (l + 1) j) j = a := by
    rw [← hpivot]
    exact congrArg g (Equiv.swap_apply_right (l + 1) j)
  have hxa : a ≤ (g ∘ Equiv.swap (l + 1) j) x := by
    by_cases hxj : x = j
    · rw [hxj, hsecond]
    · by_cases hxl : x = l + 1
      · rw [hxl, hfirst]
        exact hlow j (by omega) hji
      · rw [hother x hxl hxj]
        exact hlow x hx (by omega)
  have hya : (g ∘ Equiv.swap (l + 1) j) y ≤ a := by
    by_cases hyj : y = j
    · rw [hyj, hsecond]
    · rw [hother y (by omega) hyj]
      exact hhigh y (by omega) hy
  exact hya.trans hxa

private theorem partitionStep_spec (h : m.Holds ids n) (hn : ir ≤ n) (hlr : l + SMALL ≤ ir)
    (hint : l + ir < 2 ^ 31) :
    ∃ i j g, partitionStep ids l ir (m.write ids f) = some (i, j, m.write ids g) ∧
      Rearranged l ir f g ∧ l + 1 ≤ j ∧ j < i ∧ i ≤ ir ∧
      ∀ c, j ≤ c → c ≤ i → Cut (· ≥ ·) g l ir c := by
  have hsmall : SMALL = 8 := rfl
  have hroom : l + 1 < ir := by omega
  obtain ⟨f₁, hf₁⟩ : ∃ f₁, f₁ = f ∘ Equiv.swap ((l + ir) / 2) (l + 1) := ⟨_, rfl⟩
  obtain ⟨f₂, hf₂⟩ : ∃ f₂, f₂ = medianOfThree l ir f₁ := ⟨_, rfl⟩
  have hre : Rearranged l ir f f₂ := by
    rw [hf₂]
    apply Rearranged.trans _ (rearranged_medianOfThree hroom)
    rw [hf₁]
    exact .swap (by omega) (by omega) (by omega) (by omega)
  have hparted : Parted f₂ (f₂ (l + 1)) l ir (l + 1) ir := hf₂ ▸ parted_medianOfThree hroom
  obtain ⟨i, j, g, hrun, hre', hpivot, hlj, hji, hir, hlow, hhigh⟩ :=
    partitionLoop_spec h hn hparted
  refine ⟨i, j, g ∘ Equiv.swap (l + 1) j, ?_, ?_, hlj, hji, hir,
    fun c ↦ cut_of_pivot hpivot hlj hji hlow hhigh⟩
  · have hlast : Function.update (Function.update g (l + 1) (g j)) j (f₂ (l + 1)) =
        g ∘ Equiv.swap (l + 1) j := by
      rw [← hpivot, Equiv.swap_comm]
      exact (Equiv.comp_swap_eq_update j (l + 1) g).symm
    have hlin : l ≤ n := by omega
    have hl1n : l + 1 ≤ n := by omega
    have hjn : j ≤ n := by omega
    unfold medianOfThree at hf₂
    simp only [partitionStep, if_neg (Nat.not_le.mpr hint),
      MIDL_SWAP_eq h (show (l + ir) / 2 ≤ n by omega) hl1n, swapLess_eq h hlin hn,
      swapLess_eq h hl1n hn, swapLess_eq h hlin hl1n, ← hf₁, ← hf₂,
      Mem.load_write h hl1n, Mem.load_write h hjn, Mem.store_write h hl1n, Mem.store_write h hjn,
      hrun, hlast, Option.bind_eq_bind, Option.bind_some]
    rfl
  · exact (hre.trans (hre'.mono (by omega) (Nat.le_refl _))).trans
      (.swap (by omega) (by omega) (by omega) (by omega))

end

/-! ### The stretches put off -/

/-- The places of a stretch. -/
def extent (s : Nat × Nat) : Nat := s.2 + 1 - s.1

/-- Each stretch put off is at most half of the one it comes from. -/
def Fits (n : Nat) : List (Nat × Nat) → Prop
  | [] => True
  | s :: segs => extent s * 2 ^ segs.length ≤ n ∧ Fits n segs

/-- The rounds still needed. -/
def rounds (segs : List (Nat × Nat)) : Nat := (segs.map fun s ↦ 2 * extent s + 1).sum

section

variable {f : Nat → Nat} {m : Mem} {ids : Ptr} {n l ir : Nat} {istack : List (Nat × Nat)}

/-- Few stretches are put off, while there is one left to divide. -/
theorem length_lt (h : Fits n ((l, ir) :: istack)) (hn : n ≤ 2 ^ 30) (hlr : l + SMALL ≤ ir) :
    2 * istack.length + 2 < ISTACK := by
  have hextent : 8 ≤ extent (l, ir) := by
    have hsmall : SMALL = 8 := rfl
    show 8 ≤ ir + 1 - l
    omega
  have hpow : 2 ^ istack.length < 2 ^ 31 := by
    calc 2 ^ istack.length ≤ extent (l, ir) * 2 ^ istack.length :=
          Nat.le_mul_of_pos_left _ (by omega)
      _ ≤ n := h.1
      _ < 2 ^ 31 := by omega
  have hlen : istack.length < 31 := (Nat.pow_lt_pow_iff_right (by decide)).mp hpow
  show 2 * istack.length + 2 < 64
  omega

/-- The part sorted next is at most half as large as the stretch, the other part smaller. -/
theorem fits_split {s t : Nat × Nat} (h : Fits n ((l, ir) :: istack))
    (hst : extent s + extent t < extent (l, ir)) (hle : extent s ≤ extent t) :
    Fits n (s :: t :: istack) := by
  refine ⟨?_, ?_, h.2⟩
  · calc extent s * 2 ^ (istack.length + 1) = (extent s * 2) * 2 ^ istack.length := by
          rw [Nat.pow_succ, Nat.mul_comm (2 ^ istack.length), Nat.mul_assoc]
      _ ≤ extent (l, ir) * 2 ^ istack.length := Nat.mul_le_mul_right _ (by omega)
      _ ≤ n := h.1
  · calc extent t * 2 ^ istack.length ≤ extent (l, ir) * 2 ^ istack.length :=
          Nat.mul_le_mul_right _ (by omega)
      _ ≤ n := h.1

private theorem sortLoop_spec (h : m.Holds ids n) (hn : n ≤ 2 ^ 30) {fuel : Nat}
    (hp : Pending (· ≥ ·) f 1 n ((l, ir) :: istack)) (hfits : Fits n ((l, ir) :: istack))
    (hfuel : rounds ((l, ir) :: istack) ≤ fuel) :
    ∃ g, sortLoop ids fuel l ir istack (m.write ids f) = some (m.write ids g) ∧
      Rearranged 1 n f g ∧ Pending (· ≥ ·) g 1 n [] := by
  induction fuel generalizing f l ir istack with
  | zero =>
    simp only [rounds, List.map_cons, List.sum_cons] at hfuel
    omega
  | succ fuel ih =>
    obtain ⟨hl, hle, hir⟩ := hp.bounds _ List.mem_cons_self
    simp only at hl hle hir
    simp only [rounds, List.map_cons, List.sum_cons] at hfuel ih
    by_cases hsmall : ir < l + SMALL
    · obtain ⟨g, hrun, hre, hs⟩ := insertion_spec (j := l + 1) h (Nat.lt_succ_self l) hir hl
        (by omega) (fun x y hx hxl hly hyr ↦ hp.cut_ends (.inl rfl) x y hx hxl hly (by omega))
        (fun x y hx hxy hy ↦ by omega)
      have hdone := hp.done hre fun c _ _ ↦ Cut.of_sorted hs
      have hre' : Rearranged 1 n f g := hre.mono hl hir
      simp only [sortLoop, if_pos hsmall, hrun, Option.bind_eq_bind, Option.bind_some]
      cases istack with
      | nil => exact ⟨g, rfl, hre', hdone⟩
      | cons s istack =>
        obtain ⟨l', ir'⟩ := s
        obtain ⟨g', hrun', hre'', hsorted⟩ := ih hdone hfits.2
          (by simp only [List.map_cons, List.sum_cons] at hfuel ⊢; omega)
        exact ⟨g', hrun', hre'.trans hre'', hsorted⟩
    · have hlr : l + SMALL ≤ ir := Nat.not_lt.mp hsmall
      have hroom : ¬ ISTACK ≤ 2 * istack.length + 2 := Nat.not_le.mpr (length_lt hfits hn hlr)
      have h8 : SMALL = 8 := rfl
      obtain ⟨i, j, g, hrun, hre, hlj, hji, hiir, hcut⟩ :=
        partitionStep_spec (f := f) h hir hlr (by omega)
      have hsplit := hp.split hre (e := j - 1) (i := i) (by omega) (by omega) (by omega)
        fun c hc hci ↦ hcut c (by omega) hci
      have hleft : extent (l, j - 1) = j - l := by
        show j - 1 + 1 - l = j - l
        omega
      have hright : extent (i, ir) = ir - i + 1 := by
        show ir + 1 - i = ir - i + 1
        omega
      have hwhole : extent (l, ir) = ir + 1 - l := rfl
      have hre' : Rearranged 1 n f g := hre.mono hl hir
      simp only [sortLoop, if_neg hsmall, hrun, if_neg hroom, Option.bind_eq_bind,
        Option.bind_some]
      by_cases hhalf : j - l ≤ ir - i + 1
      · obtain ⟨g', hrun', hre'', hsorted⟩ := ih hsplit
          (fits_split hfits (by omega) (by omega))
          (by simp only [List.map_cons, List.sum_cons]; omega)
        refine ⟨g', ?_, hre'.trans hre'', hsorted⟩
        rw [if_pos hhalf]
        exact hrun'
      · obtain ⟨g', hrun', hre'', hsorted⟩ := ih (hsplit.perm (.swap _ _ _))
          (fits_split hfits (by omega) (by omega))
          (by simp only [List.map_cons, List.sum_cons]; omega)
        refine ⟨g', ?_, hre'.trans hre'', hsorted⟩
        rw [if_neg hhalf]
        exact hrun'

/-- The sort, on an array just written. -/
theorem sort_write (h : m.Holds ids n) (hn : n ≤ 2 ^ 30) (hf : f 0 = n) :
    ∃ g, mdb_midl_sort (m.write ids f) ids = some (m.write ids g) ∧ Rearranged 1 n f g ∧
      ascending g n = (ascending f n).mergeSort := by
  have hfits : Fits n [(1, n)] := by
    refine ⟨?_, trivial⟩
    show (n + 1 - 1) * 2 ^ 0 ≤ n
    omega
  have hrounds : rounds [(1, n)] ≤ 2 * n + 1 := by
    show 2 * (n + 1 - 1) + 1 + 0 ≤ 2 * n + 1
    omega
  obtain ⟨g, hrun, hre, hdone⟩ := sortLoop_spec h hn (.start (Nat.le_add_left 1 n)) hfits hrounds
  refine ⟨g, ?_, hre, ?_⟩
  · have hint : ¬ 2 ^ 31 ≤ n := by omega
    simp only [mdb_midl_sort, Mem.load_write h (Nat.zero_le n), hf, if_neg hint,
      Option.bind_eq_bind, Option.bind_some]
    exact hrun
  · have hsorted : (ascending g n).Pairwise (· ≤ ·) := by
      rw [ascending_eq, List.pairwise_reverse]
      exact hdone.sorted (by omega)
    have hperm : (ascending g n).Perm (ascending f n) := by
      rw [ascending_eq, ascending_eq]
      apply (List.reverse_perm _).trans
      apply List.Perm.trans _ (List.reverse_perm _).symm
      exact hre.perm (Nat.le_refl 1) (by omega)
    apply List.Perm.eq_of_pairwise' hsorted (List.pairwise_mergeSort' _ _)
    exact hperm.trans (List.mergeSort_perm _ _).symm

end

/-- Any list of up to `2 ^ 30` numbers is sorted; every access is inside the list, the sums of
indices stay in `int`, the stack does not run over, and nothing else is written. -/
theorem mdb_midl_sort_sorts {m : Mem} {ids : Ptr} (h : m.Holds ids (m.view ids 0))
    (hn : m.view ids 0 ≤ 2 ^ 30) :
    ∃ m', mdb_midl_sort m ids = some m' ∧
      ascending (m'.view ids) (m.view ids 0) =
        (ascending (m.view ids) (m.view ids 0)).mergeSort ∧
      m'.size = m.size ∧
      ∀ b j, b ≠ ids.blk ∨ j ≤ ids.off ∨ ids.off + m.view ids 0 < j →
        m'.words b j = m.words b j := by
  obtain ⟨g, hrun, hre, hsort⟩ := sort_write h hn rfl
  rw [Mem.write_view] at hrun
  refine ⟨_, hrun, by rw [Mem.view_write]; exact hsort, rfl, ?_⟩
  intro b j hj
  rw [Mem.words_write]
  by_cases hin : b = ids.blk ∧ ids.off ≤ j
  · rw [if_pos hin, hre.eq_outside (by omega), Mem.view, Nat.add_sub_cancel' hin.2, hin.1]
  · rw [if_neg hin]

/-- Twelve numbers in a list that has room for no more. -/
def sampleIdl : Mem where
  next := 1
  size := fun _ ↦ 14
  words := fun _ i ↦ [12, 12, 5, 9, 2, 11, 7, 3, 12, 8, 1, 10, 6, 4].getD i 0

/-- The sample is sorted, and the rest of memory left as it is. -/
theorem mdb_midl_sort_sorts_sample :
    ∃ m', mdb_midl_sort sampleIdl ⟨0, 1⟩ = some m' ∧
      ascending (m'.view ⟨0, 1⟩) 12 = (ascending (sampleIdl.view ⟨0, 1⟩) 12).mergeSort ∧
      m'.size = sampleIdl.size ∧
      ∀ b j, b ≠ 0 ∨ j ≤ 1 ∨ 1 + 12 < j → m'.words b j = sampleIdl.words b j :=
  @mdb_midl_sort_sorts sampleIdl ⟨0, 1⟩ (show 1 + 12 < 14 by decide)
    (show 12 ≤ 2 ^ 30 by decide)

end ObDump.Lmdb
