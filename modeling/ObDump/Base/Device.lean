import ObDump.Base.Bytes

/-!
# Devices

Library `Base`. Texts written to a device one after another, each taken from its front on as far
as the device takes it, and a last flush that delivers a part of what was taken. All of the
texts are delivered exactly when none is cut and the flush is whole.
-/

namespace ObDump.Base

/-- A device: how many bytes it takes of a text after earlier ones, and how many bytes the last
flush delivers of all it took. -/
structure Device where
  takes : List Bytes → Bytes → Nat
  flushes : Bytes → Nat

namespace Device

/-- The device that takes and delivers every byte. -/
def perfect : Device := ⟨fun _ text ↦ text.length, List.length⟩

variable (dev : Device)

/-- What is taken of texts written after `done`. -/
def taken (done : List Bytes) : List Bytes → Bytes
  | [] => []
  | text :: texts => text.take (dev.takes done text) ++ taken (done ++ [text]) texts

/-- Each of the texts written after `done` is taken whole. -/
def TakesFrom (done : List Bytes) : List Bytes → Prop
  | [] => True
  | text :: texts => text.length ≤ dev.takes done text ∧ TakesFrom (done ++ [text]) texts

/-- Each of the texts is taken whole, and the last flush delivers all of them. -/
def TakesAll (texts : List Bytes) : Prop :=
  dev.TakesFrom [] texts ∧ texts.flatten.length ≤ dev.flushes texts.flatten

/-- What is delivered of the bytes taken. -/
def delivered (bytes : Bytes) : Bytes := bytes.take (dev.flushes bytes)

variable {dev}

/-- One more text. -/
theorem taken_append (done texts : List Bytes) (text : Bytes) :
    dev.taken done (texts ++ [text]) =
      dev.taken done texts ++ text.take (dev.takes (done ++ texts) text) := by
  induction texts generalizing done with
  | nil => simp [taken]
  | cons head texts ih =>
    rw [List.cons_append, taken, ih, taken, List.append_assoc, List.append_assoc,
      List.singleton_append]

/-- No more is taken than is written. -/
theorem length_taken_le (done texts : List Bytes) :
    (dev.taken done texts).length ≤ texts.flatten.length := by
  induction texts generalizing done with
  | nil => exact Nat.le_refl _
  | cons text texts ih =>
    have htexts := ih (done ++ [text])
    simp only [taken, List.length_append, List.length_take, List.flatten_cons]
    omega

/-- What is taken is written. -/
theorem mem_of_mem_taken (done texts : List Bytes) {b : UInt8} (h : b ∈ dev.taken done texts) :
    b ∈ texts.flatten := by
  induction texts generalizing done with
  | nil => cases h
  | cons text texts ih =>
    rw [List.flatten_cons, List.mem_append]
    rcases List.mem_append.mp h with hb | hb
    · exact .inl (List.mem_of_mem_take hb)
    · exact .inr (ih _ hb)

/-- As much is taken as is written exactly when no text is cut. -/
theorem length_le_taken_iff (done texts : List Bytes) :
    texts.flatten.length ≤ (dev.taken done texts).length ↔ dev.TakesFrom done texts := by
  induction texts generalizing done with
  | nil => exact iff_of_true (Nat.le_refl _) trivial
  | cons text texts ih =>
    have hle : (dev.taken (done ++ [text]) texts).length ≤ texts.flatten.length :=
      length_taken_le _ _
    have hiff := ih (done ++ [text])
    simp only [taken, TakesFrom, List.length_append, List.length_take, List.flatten_cons,
      ← hiff]
    omega

/-- Texts taken whole are taken as they are. -/
theorem TakesFrom.taken_eq {done texts : List Bytes} (h : dev.TakesFrom done texts) :
    dev.taken done texts = texts.flatten := by
  induction texts generalizing done with
  | nil => rfl
  | cons text texts ih =>
    rw [taken, List.take_of_length_le h.1, ih h.2, List.flatten_cons]

/-- Everything written is delivered exactly when the device takes and flushes all of it. -/
theorem delivered_taken_iff (texts : List Bytes) :
    dev.delivered (dev.taken [] texts) = texts.flatten ↔ dev.TakesAll texts := by
  constructor
  · intro h
    have hlength := congrArg List.length h
    have hle : (dev.taken [] texts).length ≤ texts.flatten.length := length_taken_le _ _
    rw [delivered, List.length_take] at hlength
    have htakes : dev.TakesFrom [] texts := (length_le_taken_iff [] texts).mp (by omega)
    rw [htakes.taken_eq] at hlength
    exact ⟨htakes, by omega⟩
  · rintro ⟨htakes, hflush⟩
    rw [htakes.taken_eq, delivered, List.take_of_length_le hflush]

/-- A perfect device takes every text. -/
theorem perfect_takesAll (texts : List Bytes) : perfect.TakesAll texts := by
  have htakes : ∀ done, perfect.TakesFrom done texts := by
    induction texts with
    | nil => exact fun _ ↦ trivial
    | cons text texts ih => exact fun done ↦ ⟨Nat.le_refl _, ih _⟩
  exact ⟨htakes [], Nat.le_refl _⟩

end Device

end ObDump.Base
