import ObDump.Base.Bytes

/-!
# Well-formed UTF-8

Library `Base`. A machine over single bytes that accepts exactly the well-formed byte
sequences of the Unicode standard: shortest forms only, no surrogates, nothing above
U+10FFFF. Validity of a concatenation follows from validity of its parts.
-/

namespace ObDump.Base.Utf8

/-- What the machine waits for between two bytes. -/
inductive State where
  /-- A character may begin. -/
  | start
  /-- This many plain continuation bytes are owed, plus one. -/
  | more (n : Fin 3)
  /-- After `E0`, `ED`, `F0` and `F4` the next byte has a narrower range. -/
  | afterE0
  | afterED
  | afterF0
  | afterF4
  deriving DecidableEq, Repr

/-- The first byte of a character. -/
def lead (b : UInt8) : Option State :=
  if b < 0x80 then some .start
  else if b < 0xC2 then none
  else if b < 0xE0 then some (.more 0)
  else if b = 0xE0 then some .afterE0
  else if b = 0xED then some .afterED
  else if b < 0xF0 then some (.more 1)
  else if b = 0xF0 then some .afterF0
  else if b < 0xF4 then some (.more 2)
  else if b = 0xF4 then some .afterF4
  else none

private def tail (lo hi : UInt8) (next : State) (b : UInt8) : Option State :=
  if lo ≤ b ∧ b ≤ hi then some next else none

/-- One byte. -/
def step : State → UInt8 → Option State
  | .start, b => lead b
  | .more 0, b => tail 0x80 0xBF .start b
  | .more 1, b => tail 0x80 0xBF (.more 0) b
  | .more 2, b => tail 0x80 0xBF (.more 1) b
  | .afterE0, b => tail 0xA0 0xBF (.more 0) b
  | .afterED, b => tail 0x80 0x9F (.more 0) b
  | .afterF0, b => tail 0x90 0xBF (.more 1) b
  | .afterF4, b => tail 0x80 0x8F (.more 1) b

/-- All bytes in turn. -/
def run (q : State) (s : Bytes) : Option State := s.foldlM step q

/-- A sequence of whole characters. -/
def valid (s : Bytes) : Bool := run .start s == some .start

/-- Reading two parts is reading the first and then the second. -/
theorem run_append (q : State) (s t : Bytes) : run q (s ++ t) = (run q s).bind (run · t) := by
  simp only [run, List.foldlM_append]
  rfl

/-- Validity as the end state of the machine. -/
theorem valid_iff {s : Bytes} : valid s = true ↔ run .start s = some .start := by
  simp [valid]

/-- Well-formed parts make a well-formed whole. -/
theorem valid_append {s t : Bytes} (hs : valid s = true) (ht : valid t = true) :
    valid (s ++ t) = true := by
  rw [valid_iff] at hs ht ⊢
  rw [run_append, hs]
  exact ht

/-- A sequence of 7-bit bytes is well-formed. -/
theorem valid_of_ascii {s : Bytes} (h : ∀ b ∈ s, b < 0x80) : valid s = true := by
  rw [valid_iff]
  induction s with
  | nil => rfl
  | cons b s ih =>
    have hb : step .start b = some .start := by simp [step, lead, h b List.mem_cons_self]
    have hs := ih (fun c hc ↦ h c (List.mem_cons_of_mem _ hc))
    simp only [run, List.foldlM_cons, hb]
    exact hs

/-- A 7-bit byte is a whole character. -/
theorem step_of_lt {q q' : State} {b : UInt8} (hb : b < 0x80) (h : step q b = some q') :
    q = .start ∧ q' = .start := by
  have ht : ∀ {lo hi next}, 0x80 ≤ lo → tail lo hi next b ≠ some q' := by
    intro lo hi next hlo ht
    unfold tail at ht
    split at ht
    · next hr =>
      have h1 := UInt8.le_iff_toNat_le.mp (UInt8.le_trans hlo hr.1)
      have h2 := UInt8.lt_iff_toNat_lt.mp hb
      omega
    · cases ht
  cases q with
  | start =>
    simp only [step, lead, if_pos hb] at h
    cases h
    exact ⟨rfl, rfl⟩
  | more n =>
    have hn : n = 0 ∨ n = 1 ∨ n = 2 := by omega
    rcases hn with rfl | rfl | rfl <;> exact absurd h (ht (by decide))
  | _ => exact absurd h (ht (by decide))

end ObDump.Base.Utf8
