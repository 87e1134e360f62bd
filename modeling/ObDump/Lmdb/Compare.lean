import ObDump.Base.Bytes

/-!
# The key order of LMDB

Library `Lmdb`. The default key comparison of the vendored library,
`dart/src/lmdb/mdb.c:5264–5281`: the common length by `memcmp`, then the lengths. Its sign is
the byte-lexicographic order with a proper prefix first.
-/

namespace ObDump.Lmdb

open Base

/-- `memcmp` on strings of one length: the difference at the first byte that differs. -/
def memcmp : Bytes → Bytes → Int
  | a :: as, b :: bs => if a = b then memcmp as bs else (a.toNat : Int) - b.toNat
  | _, _ => 0

/-- `mdb_cmp_memn`, `dart/src/lmdb/mdb.c:5264–5281`. -/
def mdb_cmp_memn (a b : Bytes) : Int :=
  let len_diff : Int := (a.length : Int) - b.length
  let len := if 0 < len_diff then b.length else a.length
  let len_diff := if 0 < len_diff then 1 else len_diff
  let diff := memcmp (a.take len) (b.take len)
  if diff ≠ 0 then diff else if len_diff < 0 then -1 else len_diff

private theorem memcmp_take {a b : Bytes} {n : Nat} (h : min a.length b.length ≤ n) :
    memcmp (a.take n) (b.take n) = memcmp a b := by
  induction a generalizing b n with
  | nil => simp [memcmp]
  | cons x xs ih =>
    cases b with
    | nil => cases n <;> simp [memcmp]
    | cons y ys =>
      cases n with
      | zero => simp at h
      | succ n =>
        simp only [List.take_succ_cons, memcmp]
        rw [ih (by simp only [List.length_cons] at h; omega)]

private theorem mdb_cmp_memn_eq (a b : Bytes) :
    mdb_cmp_memn a b =
      if memcmp a b ≠ 0 then memcmp a b
      else if a.length < b.length then -1 else if b.length < a.length then 1 else 0 := by
  unfold mdb_cmp_memn
  dsimp only
  by_cases hlt : b.length < a.length
  · have hpos : (0 : Int) < (a.length : Int) - b.length := by omega
    simp only [if_pos hpos]
    rw [memcmp_take (by omega), if_neg (show ¬ a.length < b.length by omega), if_pos hlt]
    simp
  · have hpos : ¬ (0 : Int) < (a.length : Int) - b.length := by omega
    simp only [if_neg hpos]
    rw [memcmp_take (by omega), if_neg hlt]
    by_cases hle : a.length < b.length
    · rw [if_pos hle, if_pos (show (a.length : Int) - b.length < 0 by omega)]
    · rw [if_neg hle, if_neg (show ¬ (a.length : Int) - b.length < 0 by omega),
        show (a.length : Int) - b.length = 0 by omega]

private theorem mdb_cmp_memn_cons (x : UInt8) (xs ys : Bytes) :
    mdb_cmp_memn (x :: xs) (x :: ys) = mdb_cmp_memn xs ys := by
  simp [mdb_cmp_memn_eq, memcmp]

private theorem mdb_cmp_memn_cons_of_ne {x y : UInt8} (h : x ≠ y) (xs ys : Bytes) :
    mdb_cmp_memn (x :: xs) (y :: ys) = (x.toNat : Int) - y.toNat := by
  have hne : x.toNat ≠ y.toNat := fun he ↦ h (UInt8.toNat_inj.mp he)
  have hsub : (x.toNat : Int) - y.toNat ≠ 0 := by omega
  simp [mdb_cmp_memn_eq, memcmp, h, hsub]

/-- The comparison is negative just when the first key is smaller. -/
theorem mdb_cmp_memn_neg (a b : Bytes) : mdb_cmp_memn a b < 0 ↔ a < b := by
  induction a generalizing b with
  | nil => cases b <;> simp [mdb_cmp_memn_eq, memcmp]
  | cons x xs ih =>
    cases b with
    | nil => simp [mdb_cmp_memn_eq, memcmp]
    | cons y ys =>
      rw [List.cons_lt_cons_iff]
      by_cases hxy : x = y
      · subst hxy
        rw [mdb_cmp_memn_cons, ih]
        simp
      · rw [mdb_cmp_memn_cons_of_ne hxy, UInt8.lt_iff_toNat_lt]
        simp only [hxy, false_and, or_false]
        omega

/-- The comparison is zero just when the keys are equal. -/
theorem mdb_cmp_memn_zero (a b : Bytes) : mdb_cmp_memn a b = 0 ↔ a = b := by
  induction a generalizing b with
  | nil => cases b <;> simp [mdb_cmp_memn_eq, memcmp]
  | cons x xs ih =>
    cases b with
    | nil => simp [mdb_cmp_memn_eq, memcmp]
    | cons y ys =>
      by_cases hxy : x = y
      · subst hxy
        rw [mdb_cmp_memn_cons, ih]
        simp
      · have hne : x.toNat ≠ y.toNat := fun he ↦ hxy (UInt8.toNat_inj.mp he)
        rw [mdb_cmp_memn_cons_of_ne hxy]
        simp only [List.cons.injEq, hxy, false_and, iff_false]
        omega

/-- The comparison is positive just when the first key is larger. -/
theorem mdb_cmp_memn_pos (a b : Bytes) : 0 < mdb_cmp_memn a b ↔ b < a := by
  have hneg := mdb_cmp_memn_neg a b
  have hzero := mdb_cmp_memn_zero a b
  constructor
  · intro h
    have hge : ¬ a < b := fun hlt ↦ by have := hneg.mpr hlt; omega
    have hne : a ≠ b := fun he ↦ by have := hzero.mpr he; omega
    by_contra hlt
    exact hne (List.le_antisymm (List.not_lt.mp hlt) (List.not_lt.mp hge))
  · intro h
    have h1 : ¬ mdb_cmp_memn a b < 0 := fun hc ↦ List.lt_asymm h (hneg.mp hc)
    have h2 : mdb_cmp_memn a b ≠ 0 := fun hc ↦ List.lt_irrefl b ((hzero.mp hc) ▸ h)
    omega

end ObDump.Lmdb
