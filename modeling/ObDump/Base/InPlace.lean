import Mathlib.GroupTheory.Perm.Basic
import Mathlib.Data.List.Nodup
import Mathlib.Data.List.Range

/-!
# Sorting in place

Library `Base`. A sequence as a function of the index, of which a stretch is brought into another
order; places that nothing has to cross any more, for any relation; and the stretches a sorting
loop has still to do, which hold all other places.
-/

namespace ObDump.Base

universe u

variable {α : Type u}

/-! ### Another order -/

/-- `g` is `f` with what stands from `l` to `r` in another order. -/
def Rearranged (l r : Nat) (f g : Nat → α) : Prop :=
  ∃ σ : Equiv.Perm Nat, (∀ i, σ i ≠ i → l ≤ i ∧ i ≤ r) ∧ g = f ∘ σ

namespace Rearranged

variable {l r a n i j : Nat} {f g k : Nat → α}

/-- Nothing is moved. -/
theorem refl (l r : Nat) (f : Nat → α) : Rearranged l r f f :=
  ⟨1, fun _ hi ↦ absurd rfl hi, rfl⟩

/-- One rearrangement after another. -/
theorem trans (h : Rearranged l r f g) (h' : Rearranged l r g k) : Rearranged l r f k := by
  obtain ⟨σ, hσ, rfl⟩ := h
  obtain ⟨τ, hτ, rfl⟩ := h'
  refine ⟨σ * τ, fun i hi ↦ ?_, rfl⟩
  by_cases ht : τ i = i
  · apply hσ
    rwa [Equiv.Perm.mul_apply, ht] at hi
  · exact hτ i ht

/-- A rearrangement of a part is one of the whole. -/
theorem mono (h : Rearranged l r f g) {l' r' : Nat} (hl : l' ≤ l) (hr : r ≤ r') :
    Rearranged l' r' f g := by
  obtain ⟨σ, hσ, rfl⟩ := h
  exact ⟨σ, fun i hi ↦ ⟨hl.trans (hσ i hi).1, (hσ i hi).2.trans hr⟩, rfl⟩

/-- Two places are exchanged. -/
theorem swap (hi : l ≤ i) (hi' : i ≤ r) (hj : l ≤ j) (hj' : j ≤ r) :
    Rearranged l r f (f ∘ Equiv.swap i j) := by
  refine ⟨Equiv.swap i j, fun x hx ↦ ?_, rfl⟩
  by_cases hxi : x = i
  · exact hxi ▸ ⟨hi, hi'⟩
  · by_cases hxj : x = j
    · exact hxj ▸ ⟨hj, hj'⟩
    · exact absurd (Equiv.swap_apply_of_ne_of_ne hxi hxj) hx

/-- Other places keep what they hold. -/
theorem eq_outside (h : Rearranged l r f g) (hi : i < l ∨ r < i) : g i = f i := by
  obtain ⟨σ, hσ, rfl⟩ := h
  show f (σ i) = f i
  by_cases hx : σ i = i
  · rw [hx]
  · have := hσ i hx
    omega

private theorem exists_eq (h : Rearranged l r f g) (hi : l ≤ i) (hr : i ≤ r) :
    ∃ j, l ≤ j ∧ j ≤ r ∧ g i = f j := by
  obtain ⟨σ, hσ, rfl⟩ := h
  by_cases hx : σ (σ i) = σ i
  · exact ⟨i, hi, hr, congrArg f (σ.injective hx)⟩
  · exact ⟨σ i, (hσ _ hx).1, (hσ _ hx).2, rfl⟩

/-- An element moves into a gap, and what stood for the gap takes its place. -/
theorem move (hi : l ≤ i) (hi' : i ≤ r) (hj : l ≤ j) (hj' : j ≤ r) (hij : i ≠ j) (x : α) :
    Rearranged l r (Function.update f j x) (Function.update (Function.update f j (f i)) i x) := by
  have hcomm : ∀ y, Function.update (Function.update f j y) i x =
      Function.update (Function.update f i x) j y :=
    fun y ↦ Function.update_comm hij.symm y x f
  have hswap : Function.update (Function.update f j (f i)) i x =
      Function.update f j x ∘ Equiv.swap i j := by
    rw [Equiv.swap_comm, Equiv.comp_swap_eq_update, Function.update_self,
      Function.update_of_ne hij, hcomm, hcomm, Function.update_idem]
  rw [hswap]
  exact swap hi hi' hj hj'

/-- The elements of a wider stretch are the same ones. -/
theorem perm (h : Rearranged l r f g) (hl : a ≤ l) (hr : r < a + n) :
    ((List.range' a n).map g).Perm ((List.range' a n).map f) := by
  obtain ⟨σ, hσ, rfl⟩ := h
  have hmem : ∀ i, i ∈ (List.range' a n).map σ ↔ i ∈ List.range' a n := by
    intro i
    simp only [List.mem_map, List.mem_range'_1]
    by_cases hx : σ (σ.symm i) = σ.symm i
    · rw [Equiv.apply_symm_apply] at hx
      constructor
      · rintro ⟨j, hj, rfl⟩
        rw [σ.symm_apply_apply] at hx
        omega
      · exact fun hi ↦ ⟨i, hi, by rw [hx, Equiv.apply_symm_apply, ← hx]⟩
    · have hj := hσ _ hx
      have hi : σ i ≠ i := by
        intro hc
        apply hx
        rw [Equiv.apply_symm_apply, Equiv.eq_symm_apply, hc]
      have hi := hσ i hi
      constructor
      · intro
        omega
      · intro
        exact ⟨σ.symm i, by omega, σ.apply_symm_apply i⟩
  rw [← List.map_map]
  apply List.Perm.map
  have hnodup : (List.range' a n).Nodup := List.nodup_range'
  rw [List.perm_ext_iff_of_nodup (hnodup.map σ.injective) hnodup]
  exact hmem

end Rearranged

/-! ### Cuts -/

variable {R : α → α → Prop}

/-- Of the places from `a` to `b`, what stands before `c` is in relation to what stands from `c`
on. -/
def Cut (R : α → α → Prop) (f : Nat → α) (a b c : Nat) : Prop :=
  ∀ x y, a ≤ x → x < c → c ≤ y → y ≤ b → R (f x) (f y)

namespace Cut

variable {f g : Nat → α} {a b c l r : Nat}

/-- A cut stays one when one side of it is rearranged. -/
theorem rearranged (h : Cut R f a b c) (hr : Rearranged l r f g) (hl : a ≤ l) (hb : r ≤ b)
    (hc : c ≤ l ∨ r < c) : Cut R g a b c := by
  intro x y hx hxc hcy hy
  have hx' : ∃ x', a ≤ x' ∧ x' < c ∧ g x = f x' := by
    by_cases hin : l ≤ x ∧ x ≤ r
    · obtain ⟨j, hlj, hjr, hj⟩ := hr.exists_eq hin.1 hin.2
      exact ⟨j, by omega, by omega, hj⟩
    · exact ⟨x, hx, hxc, hr.eq_outside (by omega)⟩
  have hy' : ∃ y', c ≤ y' ∧ y' ≤ b ∧ g y = f y' := by
    by_cases hin : l ≤ y ∧ y ≤ r
    · obtain ⟨j, hlj, hjr, hj⟩ := hr.exists_eq hin.1 hin.2
      exact ⟨j, by omega, by omega, hj⟩
    · exact ⟨y, hcy, hy, hr.eq_outside (by omega)⟩
  obtain ⟨x', hax, hxc', hgx⟩ := hx'
  obtain ⟨y', hcy', hyb, hgy⟩ := hy'
  rw [hgx, hgy]
  exact h x' y' hax hxc' hcy' hyb

/-- Between two cuts, a cut of what lies between is one. -/
theorem within (hl : Cut R f a b l) (hr : Cut R f a b (r + 1)) (h : Cut R f l r c) (hlc : l ≤ c)
    (hcr : c ≤ r + 1) : Cut R f a b c := by
  intro x y hx hxc hcy hy
  by_cases hxl : x < l
  · exact hl x y hx hxl (by omega) hy
  · by_cases hyr : r < y
    · exact hr x y hx (by omega) hyr hy
    · exact h x y (by omega) hxc hcy (by omega)

/-- A sorted stretch has cuts everywhere. -/
theorem of_sorted (h : ∀ x y, l ≤ x → x < y → y ≤ r → R (f x) (f y)) : Cut R f l r c :=
  fun x y hx hxc hcy hy ↦ h x y hx (Nat.lt_of_lt_of_le hxc hcy) hy

end Cut

/-! ### What is left to sort -/

/-- The stretches, first and last place, that have still to be sorted. -/
structure Pending (R : α → α → Prop) (f : Nat → α) (a b : Nat) (segs : List (Nat × Nat)) :
    Prop where
  bounds : ∀ s ∈ segs, a ≤ s.1 ∧ s.1 ≤ s.2 + 1 ∧ s.2 ≤ b
  apart : segs.Pairwise fun s t ↦ s.2 < t.1 ∨ t.2 < s.1
  cut : ∀ c, a < c → c ≤ b → Cut R f a b c ∨ ∃ s ∈ segs, s.1 < c ∧ c ≤ s.2

namespace Pending

variable {f g : Nat → α} {a b l r e i n : Nat} {segs segs' : List (Nat × Nat)}

/-- At first the whole range is pending. -/
theorem start (h : a ≤ b + 1) : Pending R f a b [(a, b)] where
  bounds := fun _ hs ↦ List.mem_singleton.mp hs ▸ ⟨Nat.le_refl a, h, Nat.le_refl b⟩
  apart := List.pairwise_singleton _ _
  cut := fun _ hc hb ↦ .inr ⟨_, List.mem_singleton_self _, hc, hb⟩

/-- Nothing is left. -/
theorem sorted (h : Pending R f a b []) (hn : a + n ≤ b + 1) :
    ((List.range' a n).map f).Pairwise R := by
  rw [List.pairwise_map]
  apply List.Pairwise.imp_of_mem _ List.pairwise_lt_range'
  intro x y hx hy hlt
  rw [List.mem_range'_1] at hx hy
  obtain hc | ⟨s, hs, -⟩ := h.cut y (by omega) (by omega)
  · exact hc x y hx.1 hlt (Nat.le_refl y) (by omega)
  · exact absurd hs List.not_mem_nil

/-- The order of the pending ranges does not matter. -/
theorem perm (h : Pending R f a b segs) (hp : segs.Perm segs') : Pending R f a b segs' where
  bounds := fun s hs ↦ h.bounds s (hp.mem_iff.mpr hs)
  apart := h.apart.perm hp fun hst ↦ hst.symm
  cut := by
    intro c hc hb
    obtain hcut | ⟨s, hs, hin⟩ := h.cut c hc hb
    · exact .inl hcut
    · exact .inr ⟨s, hp.mem_iff.mp hs, hin⟩

section

variable (h : Pending R f a b ((l, r) :: segs))
include h

/-- A stretch has cuts at both ends. -/
theorem cut_ends {c : Nat} (hc : c = l ∨ c = r + 1) : Cut R f a b c := by
  obtain ⟨hal, hlr, hrb⟩ := h.bounds _ List.mem_cons_self
  have happ := (List.pairwise_cons.mp h.apart).1
  by_cases ha : a < c
  · by_cases hb : c ≤ b
    · obtain hcut | ⟨s, hs, hin⟩ := h.cut c ha hb
      · exact hcut
      · obtain rfl | hs := List.mem_cons.mp hs
        · omega
        · have hst := happ s hs
          have hbs := h.bounds s (List.mem_cons_of_mem _ hs)
          simp only at hst hlr
          omega
    · intro x y _ _ hcy hy
      omega
  · intro x y hx hxc
    omega

/-- The first stretch is brought into another order and cut into two. -/
theorem split (hr : Rearranged l r f g) (hle : l ≤ e + 1) (hei : e < i) (hir : i ≤ r + 1)
    (hcut : ∀ c, e < c → c ≤ i → Cut R g l r c) :
    Pending R g a b ((l, e) :: (i, r) :: segs) := by
  obtain ⟨hal, hlr, hrb⟩ := h.bounds _ List.mem_cons_self
  simp only at hal hlr hrb
  have happ := List.pairwise_cons.mp h.apart
  have hkeep : ∀ c, c ≤ l ∨ r < c → Cut R f a b c → Cut R g a b c :=
    fun c hc hcf ↦ hcf.rearranged hr hal hrb hc
  have hleft := hkeep l (.inl (Nat.le_refl l)) (h.cut_ends (.inl rfl))
  have hright := hkeep (r + 1) (.inr (Nat.lt_succ_self r)) (h.cut_ends (.inr rfl))
  refine ⟨?_, ?_, ?_⟩
  · intro s hs
    obtain rfl | hs := List.mem_cons.mp hs
    · exact ⟨hal, hle, by show e ≤ b; omega⟩
    · obtain rfl | hs := List.mem_cons.mp hs
      · exact ⟨by show a ≤ i; omega, hir, hrb⟩
      · exact h.bounds s (List.mem_cons_of_mem _ hs)
  · rw [List.pairwise_cons, List.pairwise_cons]
    refine ⟨?_, ?_, happ.2⟩
    · intro s hs
      obtain rfl | hs := List.mem_cons.mp hs
      · exact .inl hei
      · have hst := happ.1 s hs
        simp only at hst ⊢
        omega
    · intro s hs
      have hst := happ.1 s hs
      simp only at hst ⊢
      omega
  · intro c hac hcb
    by_cases hin : l < c ∧ c ≤ r
    · by_cases hce : c ≤ e
      · exact .inr ⟨_, List.mem_cons_self, hin.1, hce⟩
      · by_cases hci : i < c
        · exact .inr ⟨_, List.mem_cons_of_mem _ List.mem_cons_self, hci, hin.2⟩
        · exact .inl (hleft.within hright (hcut c (by omega) (by omega)) (by omega) (by omega))
    · obtain hcf | ⟨s, hs, hsc⟩ := h.cut c hac hcb
      · exact .inl (hkeep c (by omega) hcf)
      · obtain rfl | hs := List.mem_cons.mp hs
        · exact absurd hsc hin
        · exact .inr ⟨s, List.mem_cons_of_mem _ (List.mem_cons_of_mem _ hs), hsc⟩

/-- The first stretch is sorted. -/
theorem done (hr : Rearranged l r f g) (hs : ∀ c, l < c → c ≤ r → Cut R g l r c) :
    Pending R g a b segs := by
  obtain ⟨hal, hlr, hrb⟩ := h.bounds _ List.mem_cons_self
  simp only at hal hlr hrb
  have hkeep : ∀ c, c ≤ l ∨ r < c → Cut R f a b c → Cut R g a b c :=
    fun c hc hcf ↦ hcf.rearranged hr hal hrb hc
  have hleft := hkeep l (.inl (Nat.le_refl l)) (h.cut_ends (.inl rfl))
  have hright := hkeep (r + 1) (.inr (Nat.lt_succ_self r)) (h.cut_ends (.inr rfl))
  refine ⟨fun s hs ↦ h.bounds s (List.mem_cons_of_mem _ hs), h.apart.of_cons, ?_⟩
  intro c hac hcb
  by_cases hin : l < c ∧ c ≤ r
  · exact .inl (hleft.within hright (hs c hin.1 hin.2) (by omega) (by omega))
  · obtain hcf | ⟨s, hs, hsc⟩ := h.cut c hac hcb
    · exact .inl (hkeep c (by omega) hcf)
    · obtain rfl | hs := List.mem_cons.mp hs
      · exact absurd hsc hin
      · exact .inr ⟨s, hs, hsc⟩

end

end Pending

end ObDump.Base
