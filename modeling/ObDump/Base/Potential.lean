import Mathlib

/-!
# Counting steps

Library `Base`. A run that counts the steps of one party and the events that may delay it; a
potential that each of those steps uses up, and each event raises by so much at most, bounds the
steps by the events.
-/

namespace ObDump.Base

universe u

variable {σ : Type u}

/-- A run of `Step`, whose steps give what they count. -/
inductive CountedRun (Step : σ → Nat → Nat → σ → Prop) (s : σ) : Nat → Nat → σ → Prop
  | start : CountedRun Step s 0 0 s
  | step {k c a b : Nat} {t u : σ} : CountedRun Step s k c t → Step t a b u →
      CountedRun Step s (k + a) (c + b) u

/-- The steps counted are those the potential has at first, and what the events bring. -/
theorem CountedRun.bounded {Step : σ → Nat → Nat → σ → Prop} {I : σ → Prop} {Φ : σ → Nat} {g : Nat}
    (hI : ∀ s a b t, I s → Step s a b t → I t)
    (hΦ : ∀ s a b t, I s → Step s a b t → a + Φ t ≤ Φ s + g * b) {s t : σ} {k c : Nat}
    (h : CountedRun Step s k c t) (hs : I s) : I t ∧ k + Φ t ≤ Φ s + g * c := by
  induction h with
  | start => exact ⟨hs, by omega⟩
  | step hrun hstep ih =>
    obtain ⟨hinv, hle⟩ := ih
    have hnext := hΦ _ _ _ _ hinv hstep
    rw [Nat.mul_add]
    exact ⟨hI _ _ _ _ hinv hstep, by omega⟩

end ObDump.Base
