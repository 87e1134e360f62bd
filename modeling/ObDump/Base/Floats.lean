import Mathlib

/-!
# Binary floating-point numbers

Library `Base`. Numbers given by the bits of their sign, exponent and fraction: what they are
worth, their integer part, and the conversion of a 32-bit number to 64 bits, which keeps its
value.
-/

namespace ObDump.Base

/-- The magnitude that an exponent and a fraction of the given widths stand for; none for an
infinity and for what is no number. -/
def fieldsValue (mantissa exponent e m : Nat) : Option ℚ :=
  let bias := 2 ^ (exponent - 1) - 1 + mantissa
  if e = 2 ^ exponent - 1 then none
  else if e = 0 then some (m * 2 ^ (1 - bias : ℤ))
  else some ((2 ^ mantissa + m : ℕ) * 2 ^ (e - bias : ℤ))

/-- The value of a binary floating-point number with the given field widths. -/
def floatValue (mantissa exponent bits : Nat) : Option ℚ :=
  let sign : ℚ := if bits / 2 ^ (mantissa + exponent) % 2 = 1 then -1 else 1
  (fieldsValue mantissa exponent (bits / 2 ^ mantissa % 2 ^ exponent) (bits % 2 ^ mantissa)).map
    (sign * ·)

/-- Truncation toward zero of a binary floating-point number with the given field widths. -/
def truncFloat (mantissa exponent bits : Nat) : Int :=
  let m := bits % 2 ^ mantissa
  let e := bits / 2 ^ mantissa % 2 ^ exponent
  let bias := 2 ^ (exponent - 1) - 1 + mantissa
  let magnitude :=
    if bias ≤ e then (2 ^ mantissa + m) * 2 ^ (e - bias) else (2 ^ mantissa + m) / 2 ^ (bias - e)
  if bits / 2 ^ (mantissa + exponent) % 2 = 1 then -magnitude else magnitude

/-- The integer a binary floating-point number is, if it is one. -/
def integralFloat (mantissa exponent bits : Nat) : Option Int :=
  let m := bits % 2 ^ mantissa
  let e := bits / 2 ^ mantissa % 2 ^ exponent
  let bias := 2 ^ (exponent - 1) - 1 + mantissa
  if e = 2 ^ exponent - 1 then none
  else if e = 0 ∧ m = 0 then some 0
  else if e ≠ 0 ∧ (bias ≤ e ∨ (2 ^ mantissa + m) % 2 ^ (bias - e) = 0) then
    some (truncFloat mantissa exponent bits)
  else none

/-- A number that is an integer is its own integer part. -/
theorem truncFloat_of_integralFloat {mantissa exponent bits : Nat} {n : Int}
    (hexp : 2 ≤ exponent) (h : integralFloat mantissa exponent bits = some n) :
    truncFloat mantissa exponent bits = n := by
  simp only [integralFloat] at h
  split_ifs at h with hinf hzero hint
  · -- The exponent 0 puts the hidden bit below the point.
    cases h
    obtain ⟨he, hm⟩ := hzero
    have hpow : 2 ^ 1 ≤ 2 ^ (exponent - 1) := Nat.pow_le_pow_right (by omega) (by omega)
    have hbias : ¬ 2 ^ (exponent - 1) - 1 + mantissa ≤ 0 := by omega
    have hlt : 2 ^ mantissa < 2 ^ (2 ^ (exponent - 1) - 1 + mantissa) :=
      Nat.pow_lt_pow_right (by omega) (by omega)
    simp only [truncFloat, he, hm, if_neg hbias, Nat.add_zero, Nat.sub_zero,
      Nat.div_eq_of_lt hlt]
    split <;> rfl
  · exact Option.some.inj h

/-! ### From 32 to 64 bits -/

/-- The exponent and the fraction of the 64-bit number of the same magnitude; what is no number
gets the fraction of a quiet one. -/
def widenFields (e m : Nat) : Nat × Nat :=
  if e = 255 then (2047, if m = 0 then 0 else 2 ^ 51 + m % 2 ^ 22 * 2 ^ 29)
  else if e ≠ 0 then (e + 896, m * 2 ^ 29)
  else if m = 0 then (0, 0)
  else (m.log2 + 874, (m - 2 ^ m.log2) * 2 ^ (52 - m.log2))

/-- The conversion of a 32-bit floating-point number to a 64-bit one. -/
def widen (bits : UInt32) : UInt64 :=
  let fields := widenFields (bits.toNat / 2 ^ 23 % 2 ^ 8) (bits.toNat % 2 ^ 23)
  UInt64.ofNat (bits.toNat / 2 ^ 31 * 2 ^ 63 + fields.1 * 2 ^ 52 + fields.2)

private theorem widenFields_lt {e m : Nat} (he : e < 2 ^ 8) (hm : m < 2 ^ 23) :
    (widenFields e m).1 < 2 ^ 11 ∧ (widenFields e m).2 < 2 ^ 52 := by
  unfold widenFields
  split_ifs with hinf hm0 hnormal hzero
  · exact ⟨by decide, by decide⟩
  · refine ⟨show 2047 < 2 ^ 11 by decide, ?_⟩
    show 2 ^ 51 + m % 2 ^ 22 * 2 ^ 29 < 2 ^ 52
    omega
  · refine ⟨?_, ?_⟩
    · show e + 896 < 2 ^ 11
      omega
    · show m * 2 ^ 29 < 2 ^ 52
      omega
  · exact ⟨by decide, by decide⟩
  · have hlog : m.log2 < 23 := (Nat.log2_lt hzero).mpr hm
    have hlow : 2 ^ m.log2 ≤ m := Nat.log2_self_le hzero
    have hhigh : m < 2 ^ (m.log2 + 1) := Nat.lt_log2_self
    refine ⟨?_, ?_⟩
    · show m.log2 + 874 < 2 ^ 11
      omega
    · show (m - 2 ^ m.log2) * 2 ^ (52 - m.log2) < 2 ^ 52
      calc (m - 2 ^ m.log2) * 2 ^ (52 - m.log2) < 2 ^ m.log2 * 2 ^ (52 - m.log2) := by
            apply Nat.mul_lt_mul_of_pos_right _ (Nat.two_pow_pos _)
            rw [Nat.pow_succ] at hhigh
            omega
        _ = 2 ^ 52 := by rw [← Nat.pow_add, Nat.add_sub_cancel' (by omega)]

private theorem scale (a k : Nat) (z : ℤ) :
    ((a * 2 ^ k : ℕ) : ℚ) * 2 ^ z = a * 2 ^ (k + z) := by
  rw [zpow_add₀ two_ne_zero, zpow_natCast]
  push_cast
  ring

private theorem fieldsValue_widen {e m : Nat} (he : e < 2 ^ 8) (hm : m < 2 ^ 23) :
    fieldsValue 52 11 (widenFields e m).1 (widenFields e m).2 = fieldsValue 23 8 e m := by
  have hbias : ((2 ^ (11 - 1) - 1 + 52 : ℕ) : ℤ) = 1075 := by norm_num
  have hbias' : ((2 ^ (8 - 1) - 1 + 23 : ℕ) : ℤ) = 150 := by norm_num
  unfold widenFields fieldsValue
  simp only [hbias, hbias']
  by_cases hinf : e = 255
  · rw [if_pos hinf, if_pos (show 2047 = 2 ^ 11 - 1 from rfl),
      if_pos (show e = 2 ^ 8 - 1 from hinf)]
  rw [if_neg hinf, if_neg (show e ≠ 2 ^ 8 - 1 from hinf)]
  by_cases hnormal : e ≠ 0
  · rw [if_pos hnormal, if_neg (show e + 896 ≠ 2 ^ 11 - 1 by omega),
      if_neg (show e + 896 ≠ 0 by omega), if_neg hnormal]
    have hfraction : 2 ^ 52 + m * 2 ^ 29 = (2 ^ 23 + m) * 2 ^ 29 := by ring
    have hexponent : ((29 : ℕ) : ℤ) + (((e + 896 : ℕ) : ℤ) - 1075) = e - 150 := by
      push_cast
      ring
    rw [hfraction, scale, hexponent]
  rw [if_neg hnormal, if_pos (not_not.mp hnormal)]
  by_cases hzero : m = 0
  · rw [if_pos hzero, if_neg (by decide), if_pos rfl, hzero, Nat.cast_zero, zero_mul, zero_mul]
  -- the leading bit of a subnormal fraction becomes the hidden one
  · have hlog : m.log2 < 23 := (Nat.log2_lt hzero).mpr hm
    have hlow : 2 ^ m.log2 ≤ m := Nat.log2_self_le hzero
    rw [if_neg hzero, if_neg (show m.log2 + 874 ≠ 2 ^ 11 - 1 by omega),
      if_neg (show m.log2 + 874 ≠ 0 by omega)]
    have hfraction : 2 ^ 52 + (m - 2 ^ m.log2) * 2 ^ (52 - m.log2) = m * 2 ^ (52 - m.log2) := by
      have hlead : 2 ^ 52 = 2 ^ m.log2 * 2 ^ (52 - m.log2) := by
        rw [← Nat.pow_add, Nat.add_sub_cancel' (by omega)]
      rw [hlead, ← Nat.add_mul, Nat.add_sub_cancel' hlow]
    have hexponent : ((52 - m.log2 : ℕ) : ℤ) + (((m.log2 + 874 : ℕ) : ℤ) - 1075) = 1 - 150 := by
      omega
    rw [hfraction, scale, hexponent]

/-- The conversion keeps the value. -/
theorem floatValue_widen (bits : UInt32) :
    floatValue 52 11 (widen bits).toNat = floatValue 23 8 bits.toNat := by
  have hbits : bits.toNat < 2 ^ 32 := bits.toNat_lt
  obtain ⟨s, hs⟩ : ∃ s, s = bits.toNat / 2 ^ 31 := ⟨_, rfl⟩
  obtain ⟨e, he⟩ : ∃ e, e = bits.toNat / 2 ^ 23 % 2 ^ 8 := ⟨_, rfl⟩
  obtain ⟨m, hm⟩ : ∃ m, m = bits.toNat % 2 ^ 23 := ⟨_, rfl⟩
  have he8 : e < 2 ^ 8 := by omega
  have hm23 : m < 2 ^ 23 := by omega
  obtain ⟨hexp, hfrac⟩ := widenFields_lt he8 hm23
  have hvalue := fieldsValue_widen he8 hm23
  obtain ⟨fields, hfields⟩ : ∃ fields, fields = widenFields e m := ⟨_, rfl⟩
  rw [← hfields] at hexp hfrac hvalue
  have hwide : (widen bits).toNat = s * 2 ^ 63 + fields.1 * 2 ^ 52 + fields.2 := by
    have hdef : widen bits = UInt64.ofNat (s * 2 ^ 63 + fields.1 * 2 ^ 52 + fields.2) := by
      rw [widen, hfields, hs, he, hm]
    rw [hdef]
    apply UInt64.toNat_ofNat_of_lt'
    show s * 2 ^ 63 + fields.1 * 2 ^ 52 + fields.2 < 2 ^ 64
    omega
  have hm' : (widen bits).toNat % 2 ^ 52 = fields.2 := by omega
  have he' : (widen bits).toNat / 2 ^ 52 % 2 ^ 11 = fields.1 := by omega
  have hs' : (widen bits).toNat / 2 ^ (52 + 11) % 2 = s % 2 := by omega
  have hs32 : bits.toNat / 2 ^ (23 + 8) % 2 = s % 2 := by rw [hs]
  simp only [floatValue, hm', he', hs', hs32, ← he, ← hm, hvalue]

/-- One and a half, and the smallest positive number. -/
example : widen 0x3FC00000 = 0x3FF8000000000000 ∧ widen 1 = 0x36A0000000000000 := by decide

end ObDump.Base
