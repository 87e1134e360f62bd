import Mathlib

/-!
# Arithmetic and counters of type `int`

Library `Base`. A signed operation whose result does not fit has no defined result. A counting
loop runs on fuel, so a loop that goes on for ever is told from one that ends, and from one that
increments the largest number.
-/

namespace ObDump.Base

universe u

variable {α : Type u}

/-- The result of a signed 32-bit operation, if it fits. -/
def int32 (n : Int) : Option Int :=
  if -2147483648 ≤ n ∧ n ≤ 2147483647 then some n else none

/-- An `int` has the value of a number just when it has room for it. -/
theorem int32_eq_some {n m : Int} :
    int32 n = some m ↔ (-2147483648 ≤ n ∧ n ≤ 2147483647) ∧ m = n := by
  unfold int32
  split
  · next h => simp [h, eq_comm]
  · next h => simp [h]

private theorem int32_eq_none {n : Int} : int32 n = none ↔ n < -2147483648 ∨ 2147483647 < n := by
  unfold int32
  split <;> simp <;> omega

/-- How a counting loop ends: with what its body accumulated, by an increment that overflows, or
not within the fuel. -/
inductive Counted (α : Type u) where
  | done (a : α)
  | overflow
  | running

/-- `for (int i = first; i <= last; ++i)`. -/
def countTo (body : Int → α → α) (last : Int) : Nat → Int → α → Counted α
  | 0, _, _ => .running
  | fuel + 1, i, a =>
    if i ≤ last then
      match int32 (i + 1) with
      | some next => countTo body last fuel next (body i a)
      | none => .overflow
    else .done a

/-- The numbers from `first` to `last`. -/
def intsTo (first last : Int) : List Int :=
  (List.range (last + 1 - first).toNat).map fun k : Nat ↦ first + (k : Int)

private theorem intsTo_of_lt {first last : Int} (h : last < first) : intsTo first last = [] := by
  have hn : (last + 1 - first).toNat = 0 := by omega
  rw [intsTo, hn]
  rfl

private theorem intsTo_of_le {first last : Int} (h : first ≤ last) :
    intsTo first last = first :: intsTo (first + 1) last := by
  have hn : (last + 1 - first).toNat = (last + 1 - (first + 1)).toNat + 1 := by omega
  rw [intsTo, hn, List.range_succ_eq_map, List.map_cons, List.map_map, intsTo]
  congr 1
  · simp
  · apply List.map_congr_left
    intro k _
    show first + ((k + 1 : Nat) : Int) = first + 1 + (k : Int)
    omega

/-- With fuel enough a loop overflows when its bound is the largest number, and otherwise runs
its body once for each number. -/
theorem countTo_spec (body : Int → α → α) {last : Int} (hlast : last ≤ 2147483647) {fuel : Nat}
    {i : Int} (hlo : -2147483648 ≤ i) (hhi : i ≤ 2147483647) (hfuel : 2147483649 - i ≤ fuel)
    (a : α) :
    countTo body last fuel i a =
      if last = 2147483647 then .overflow
      else .done ((intsTo i last).foldl (fun a k ↦ body k a) a) := by
  induction fuel generalizing i a with
  | zero => omega
  | succ fuel ih =>
    rw [countTo]
    by_cases hi : i ≤ last
    · rw [if_pos hi, intsTo_of_le hi, List.foldl_cons]
      by_cases hmax : i = 2147483647
      · have hnone : int32 (i + 1) = none := int32_eq_none.mpr (by omega)
        rw [hnone, if_pos (by omega)]
      · have hsome : int32 (i + 1) = some (i + 1) := int32_eq_some.mpr ⟨by omega, rfl⟩
        rw [hsome]
        apply ih <;> omega
    · rw [if_neg hi, if_neg (by omega), intsTo_of_lt (by omega)]
      rfl

/-- More fuel changes nothing once the loop has ended. -/
theorem countTo_mono (body : Int → α → α) {last : Int} {fuel fuel' : Nat} (hle : fuel ≤ fuel')
    {i : Int} {a : α} (h : countTo body last fuel i a ≠ .running) :
    countTo body last fuel' i a = countTo body last fuel i a := by
  induction fuel generalizing fuel' i a with
  | zero => exact absurd rfl h
  | succ fuel ih =>
    obtain ⟨k, rfl⟩ : ∃ k, fuel' = k + 1 := ⟨fuel' - 1, by omega⟩
    rw [countTo] at h ⊢
    rw [countTo]
    by_cases hi : i ≤ last
    · rw [if_pos hi] at h ⊢
      rw [if_pos hi]
      cases hn : int32 (i + 1) with
      | none => rfl
      | some next =>
        rw [hn] at h
        apply ih (by omega) h
    · rw [if_neg hi, if_neg hi]

end ObDump.Base
