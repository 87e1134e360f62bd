import ObDump.Base.Bytes

/-!
# Decimal text

Library `Base`. The decimal digits of a number, most significant first and without leading
zeros, and the number a run of digits spells.
-/

namespace ObDump.Base

/-- ASCII digit. -/
def isDigit (b : UInt8) : Bool := 0x30 ≤ b && b ≤ 0x39

/-- The digit of a number below 10. -/
def digit (n : Nat) : UInt8 := UInt8.ofNat (0x30 + n)

/-- Value of a run of ASCII digits. -/
def decimal (ds : Bytes) : Nat := ds.foldl (fun n b ↦ 10 * n + (b.toNat - 0x30)) 0

/-- The digits of `n` before those of `acc`; the fuel only has to exceed `n`. -/
def natTextAux : Nat → Nat → Bytes → Bytes
  | 0, _, acc => acc
  | fuel + 1, n, acc =>
    if n < 10 then digit n :: acc else natTextAux fuel (n / 10) (digit (n % 10) :: acc)

/-- Decimal text of a natural number. -/
def natText (n : Nat) : Bytes := natTextAux (n + 1) n []

/-- Decimal text of an integer. -/
def intText (n : Int) : Bytes := if n < 0 then 0x2D :: natText n.natAbs else natText n.natAbs

example : intText (-4294967295) = lit "-4294967295" := by decide

/-! ### The digits of a number -/

private theorem natTextAux_append (f n : Nat) (acc : Bytes) :
    natTextAux f n acc = natTextAux f n [] ++ acc := by
  induction f generalizing n acc with
  | zero => rfl
  | succ f ih =>
    simp only [natTextAux]
    split
    · rfl
    · rw [ih (n / 10) (digit (n % 10) :: acc), ih (n / 10) [digit (n % 10)], List.append_assoc]
      rfl

private theorem natTextAux_fuel {f g n : Nat} (hf : n < f) (hg : n < g) :
    natTextAux f n [] = natTextAux g n [] := by
  induction f generalizing g n with
  | zero => omega
  | succ f ih =>
    cases g with
    | zero => omega
    | succ g =>
      simp only [natTextAux]
      split
      · rfl
      · rw [natTextAux_append f, natTextAux_append g, ih (by omega) (show n / 10 < g by omega)]

/-- A number of one digit. -/
theorem natText_of_lt {n : Nat} (h : n < 10) : natText n = [digit n] := by
  simp [natText, natTextAux, h]

/-- A longer number is its quotient by ten, then its last digit. -/
theorem natText_of_ge {n : Nat} (h : 10 ≤ n) :
    natText n = natText (n / 10) ++ [digit (n % 10)] := by
  unfold natText
  rw [natTextAux, if_neg (by omega), natTextAux_append,
    natTextAux_fuel (show n / 10 < n by omega) (Nat.lt_succ_self _)]

private theorem toNat_digit {n : Nat} (h : n < 10) : (digit n).toNat = 0x30 + n := by
  unfold digit
  rw [UInt8.toNat_ofNat']
  omega

/-- A digit is a digit. -/
theorem isDigit_digit {n : Nat} (h : n < 10) : isDigit (digit n) = true := by
  have ht := toNat_digit h
  simp only [isDigit, Bool.and_eq_true, decide_eq_true_eq, UInt8.le_iff_toNat_le]
  have h0 : (0x30 : UInt8).toNat = 0x30 := rfl
  have h9 : (0x39 : UInt8).toNat = 0x39 := rfl
  omega

/-- Decimal text consists of digits. -/
theorem isDigit_of_mem_natText {n : Nat} : ∀ b ∈ natText n, isDigit b = true := by
  induction n using Nat.strongRecOn with
  | ind n ih =>
    by_cases h : n < 10
    · rw [natText_of_lt h]
      intro b hb
      rw [List.mem_singleton.mp hb]
      exact isDigit_digit h
    · rw [natText_of_ge (by omega)]
      intro b hb
      rcases List.mem_append.mp hb with hb | hb
      · exact ih (n / 10) (by omega) b hb
      · rw [List.mem_singleton.mp hb]
        exact isDigit_digit (by omega)

/-- Decimal text of a positive number starts with a digit other than zero. -/
theorem natText_head {n : Nat} (h : 0 < n) :
    ∃ b t, natText n = b :: t ∧ isDigit b = true ∧ b ≠ 0x30 := by
  induction n using Nat.strongRecOn with
  | ind n ih =>
    by_cases hn : n < 10
    · refine ⟨_, [], natText_of_lt hn, isDigit_digit hn, fun hd ↦ ?_⟩
      have ht := toNat_digit hn
      rw [hd] at ht
      have h0 : (0x30 : UInt8).toNat = 0x30 := rfl
      omega
    · obtain ⟨b, t, hb, hd, hne⟩ := ih (n / 10) (by omega) (by omega)
      exact ⟨b, t ++ [digit (n % 10)], by rw [natText_of_ge (by omega), hb]; rfl, hd, hne⟩

/-- The digits of a number spell it. -/
theorem decimal_natText (n : Nat) : decimal (natText n) = n := by
  induction n using Nat.strongRecOn with
  | ind n ih =>
    by_cases h : n < 10
    · have ht := toNat_digit h
      rw [natText_of_lt h]
      simp only [decimal, List.foldl_cons, List.foldl_nil, ht]
      omega
    · have hd := ih (n / 10) (by omega)
      have ht := toNat_digit (show n % 10 < 10 by omega)
      unfold decimal at hd ⊢
      rw [natText_of_ge (by omega), List.foldl_append, hd, List.foldl_cons, List.foldl_nil, ht]
      omega

end ObDump.Base
