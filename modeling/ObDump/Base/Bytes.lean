import Mathlib

/-!
# Byte strings and fixed-width integers in them

Library `Base`. A byte string is a plain list, so its order is the lexicographic
one with a proper prefix first. Little-endian and big-endian readings are given for
every width; on strings of one length the big-endian reading is an order isomorphism.
-/

namespace ObDump.Base

/-- Immutable byte strings. -/
abbrev Bytes := List UInt8

/-- The UTF-8 bytes of a literal text. -/
def lit (s : String) : Bytes := s.toUTF8.data.toList

/-- Contents of a buffer read as a NUL-terminated string: the bytes before the first NUL. -/
def cstr (s : Bytes) : Bytes := s.takeWhile (· != 0)

/-- A string without NUL reads back whole. -/
theorem cstr_eq_self {s : Bytes} (h : 0 ∉ s) : cstr s = s := by
  unfold cstr
  apply List.takeWhile_eq_self_iff.mpr
  intro b hb
  simp only [bne_iff_ne, ne_eq]
  rintro rfl
  exact h hb

/-- A NUL-terminated reading is a prefix of the buffer. -/
theorem cstr_prefix (s : Bytes) : cstr s <+: s := List.takeWhile_prefix _

/-! ### Little-endian integers -/

/-- Little-endian value: the first byte is the least significant. -/
def ofLE : Bytes → Nat
  | [] => 0
  | b :: bs => b.toNat + 256 * ofLE bs

/-- The `n` low bytes of a number, least significant first. -/
def toLE : Nat → Nat → Bytes
  | 0, _ => []
  | n + 1, v => UInt8.ofNat (v % 256) :: toLE n (v / 256)

/-! ### Big-endian integers -/

/-- Big-endian value: the first byte is the most significant. -/
def ofBE : Bytes → Nat
  | [] => 0
  | b :: bs => b.toNat * 256 ^ bs.length + ofBE bs

/-- A big-endian value is below the power its width allows. -/
theorem ofBE_lt (bs : Bytes) : ofBE bs < 256 ^ bs.length := by
  induction bs with
  | nil => simp [ofBE]
  | cons b bs ih =>
    have hb : b.toNat + 1 ≤ 256 := b.toNat_lt
    have hm : (b.toNat + 1) * 256 ^ bs.length ≤ 256 * 256 ^ bs.length :=
      Nat.mul_le_mul_right _ hb
    simp only [ofBE, List.length_cons, Nat.pow_succ]
    rw [Nat.add_mul] at hm
    omega

/-- On strings of one length, byte order is numeric order of the big-endian values. -/
theorem lt_iff_ofBE_lt {a b : Bytes} (h : a.length = b.length) : a < b ↔ ofBE a < ofBE b := by
  induction a generalizing b with
  | nil =>
    cases b with
    | nil => simp [ofBE]
    | cons y ys => simp at h
  | cons x xs ih =>
    cases b with
    | nil => simp at h
    | cons y ys =>
      have hl : xs.length = ys.length := by simpa using h
      have hx : ofBE xs < 256 ^ ys.length := hl ▸ ofBE_lt xs
      have hy := ofBE_lt ys
      have hw : 0 < 256 ^ ys.length := Nat.pow_pos (by decide)
      rw [List.cons_lt_cons_iff, ih hl]
      simp only [ofBE, hl]
      constructor
      · rintro (hxy | ⟨rfl, hlt⟩)
        · have hs : x.toNat + 1 ≤ y.toNat := UInt8.lt_iff_toNat_lt.mp hxy
          have hm := Nat.mul_le_mul_right (256 ^ ys.length) hs
          rw [Nat.add_mul] at hm
          omega
        · omega
      · intro hlt
        by_cases he : x = y
        · subst he
          exact .inr ⟨rfl, by omega⟩
        · have hne : x.toNat ≠ y.toNat := fun hn ↦ he (UInt8.toNat_inj.mp hn)
          refine .inl (UInt8.lt_iff_toNat_lt.mpr ?_)
          by_contra hge
          have hs : y.toNat + 1 ≤ x.toNat := by omega
          have hm := Nat.mul_le_mul_right (256 ^ ys.length) hs
          rw [Nat.add_mul] at hm
          omega

/-- On strings of one length, the big-endian value determines the bytes. -/
theorem ofBE_inj {a b : Bytes} (h : a.length = b.length) (he : ofBE a = ofBE b) : a = b := by
  have hab : ¬ a < b := fun hlt ↦ by have := (lt_iff_ofBE_lt h).mp hlt; omega
  have hba : ¬ b < a := fun hlt ↦ by have := (lt_iff_ofBE_lt h.symm).mp hlt; omega
  exact List.le_antisymm (List.not_lt.mp hba) (List.not_lt.mp hab)

/-! ### Four bytes -/

/-- Four bytes shifted into place and combined bit by bit are their big-endian sum. -/
theorem or_shift_eq {b c d : Nat} (a : Nat) (hb : b < 256) (hc : c < 256) (hd : d < 256) :
    a <<< 24 ||| b <<< 16 ||| c <<< 8 ||| d = a * 2 ^ 24 + b * 2 ^ 16 + c * 2 ^ 8 + d := by
  have h1 : a <<< 24 ||| b <<< 16 = (a * 2 ^ 8 + b) <<< 16 := by
    rw [← Nat.shiftLeft_add_eq_or_of_lt (by rw [Nat.shiftLeft_eq]; omega)]
    simp only [Nat.shiftLeft_eq]
    omega
  have h2 : (a * 2 ^ 8 + b) <<< 16 ||| c <<< 8 = ((a * 2 ^ 8 + b) * 2 ^ 8 + c) <<< 8 := by
    rw [← Nat.shiftLeft_add_eq_or_of_lt (by rw [Nat.shiftLeft_eq]; omega)]
    simp only [Nat.shiftLeft_eq]
    omega
  rw [h1, h2, ← Nat.shiftLeft_add_eq_or_of_lt (by omega), Nat.shiftLeft_eq]
  omega

/-- The big-endian value of four bytes. -/
theorem ofBE_four (a b c d : UInt8) :
    ofBE [a, b, c, d] = a.toNat * 2 ^ 24 + b.toNat * 2 ^ 16 + c.toNat * 2 ^ 8 + d.toNat := by
  simp only [ofBE, List.length_cons, List.length_nil]
  omega

end ObDump.Base
