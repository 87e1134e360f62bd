import Mathlib

/-!
# Lists with elements inserted

Library `Base`. One list is another with elements put in anywhere, each of which has a given
property: what filtering and what a loop over the longer list make of it.
-/

namespace ObDump.Base

universe u v w

/-- The second list is the first with elements inserted that are all `fresh`. -/
inductive Inserted {α : Type u} (fresh : α → Prop) : List α → List α → Prop
  | nil : Inserted fresh [] []
  | keep {as bs : List α} (a : α) (h : Inserted fresh as bs) : Inserted fresh (a :: as) (a :: bs)
  | add {as bs : List α} (b : α) (hb : fresh b) (h : Inserted fresh as bs) :
      Inserted fresh as (b :: bs)

namespace Inserted

variable {α : Type u} {fresh : α → Prop} {as bs : List α}

/-- Every element of the shorter list is in the longer one. -/
theorem subset (h : Inserted fresh as bs) : as ⊆ bs := by
  induction h with
  | nil => exact List.Subset.refl _
  | keep a _ ih => exact List.cons_subset_cons a ih
  | add b _ _ ih => exact List.subset_cons_of_subset b ih

/-- A test that holds of the kept elements and of no fresh one filters the insertions out. -/
theorem filter_eq (h : Inserted fresh as bs) {p : α → Bool} (hk : ∀ a ∈ as, p a = true)
    (hf : ∀ b, fresh b → p b = false) : bs.filter p = as := by
  induction h with
  | nil => rfl
  | keep a _ ih =>
    rw [List.filter_cons_of_pos (hk a List.mem_cons_self),
      ih fun b hb ↦ hk b (List.mem_cons_of_mem a hb)]
  | add b hb _ ih =>
    have hb' := hf b hb
    rw [List.filter_cons_of_neg (by rw [hb']; exact Bool.false_ne_true), ih hk]

/-- A loop whose steps at fresh elements do nothing runs as over the shorter list. -/
theorem foldlM_eq {m : Type v → Type w} [Monad m] [LawfulMonad m] {σ : Type v}
    (h : Inserted fresh as bs) {f : σ → α → m σ} (hf : ∀ s b, fresh b → f s b = pure s) (s : σ) :
    bs.foldlM f s = as.foldlM f s := by
  induction h generalizing s with
  | nil => rfl
  | keep a _ ih =>
    rw [List.foldlM_cons, List.foldlM_cons]
    exact bind_congr fun s' ↦ ih s'
  | add b hb _ ih => rw [List.foldlM_cons, hf s b hb, pure_bind, ih s]

end Inserted

end ObDump.Base
