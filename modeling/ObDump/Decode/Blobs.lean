import ObDump.Decode.Fields

/-!
# Reading a blob's text back

Library `Decode`. A hexadecimal reader for the texts of `src/fb_decode.cpp:138–156`. The reader
takes either case of a letter and refuses an odd number of digits; the dashes of a UUID are
removed before it runs.
-/

namespace ObDump

open Base

/-- The separator of a UUID's groups. -/
def dash : UInt8 := 0x2D

/-- Value of a hexadecimal digit of either case. -/
def hexValue? (c : UInt8) : Option Nat :=
  if 0x30 ≤ c ∧ c ≤ 0x39 then some (c.toNat - 0x30)
  else if 0x61 ≤ c ∧ c ≤ 0x66 then some (c.toNat - 0x57)
  else if 0x41 ≤ c ∧ c ≤ 0x46 then some (c.toNat - 0x37)
  else none

/-- The bytes that pairs of hexadecimal digits stand for, high digit first. -/
def unhex : Bytes → Option Bytes
  | [] => some []
  | [_] => none
  | c :: d :: s => do
    let high ← hexValue? c
    let low ← hexValue? d
    let data ← unhex s
    pure (UInt8.ofNat (16 * high + low) :: data)

/-- One of `0–9` and `a–f`. -/
def IsLowerHex (c : UInt8) : Prop := 0x30 ≤ c ∧ c ≤ 0x39 ∨ 0x61 ≤ c ∧ c ≤ 0x66

instance (c : UInt8) : Decidable (IsLowerHex c) :=
  inferInstanceAs (Decidable (0x30 ≤ c ∧ c ≤ 0x39 ∨ 0x61 ≤ c ∧ c ≤ 0x66))

/-- Dashes removed. -/
def undashed (s : Bytes) : Bytes := s.filter (· != dash)

/-! ### Digits -/

private theorem hexDigit_spec {n : Nat} (hn : n < 16) :
    IsLowerHex (hexDigit n) ∧ hexDigit n ≠ dash ∧ hexValue? (hexDigit n) = some n := by
  have h : ∀ i : Fin 16, IsLowerHex (hexDigit i.val) ∧ hexDigit i.val ≠ dash ∧
      hexValue? (hexDigit i.val) = some i.val := by
    decide
  exact h ⟨n, hn⟩

private theorem hexText_cons (b : UInt8) (data : Bytes) :
    hexText (b :: data) = hexDigit (b.toNat / 16) :: hexDigit (b.toNat % 16) :: hexText data :=
  rfl

private theorem exists_of_mem_hexText {c : UInt8} {data : Bytes} (h : c ∈ hexText data) :
    ∃ n < 16, c = hexDigit n := by
  induction data with
  | nil => cases h
  | cons b data ih =>
    have hb : b.toNat < 256 := b.toNat_lt
    rw [hexText_cons, List.mem_cons, List.mem_cons] at h
    rcases h with hc | hc | hc
    · exact ⟨b.toNat / 16, by omega, hc⟩
    · exact ⟨b.toNat % 16, by omega, hc⟩
    · exact ih hc

/-- Hexadecimal texts are lower-case. -/
theorem isLowerHex_of_mem_hexText {c : UInt8} {data : Bytes} (h : c ∈ hexText data) :
    IsLowerHex c := by
  obtain ⟨n, hn, rfl⟩ := exists_of_mem_hexText h
  apply (hexDigit_spec hn).1

/-- Hexadecimal texts have no dash. -/
theorem dash_notMem_hexText (data : Bytes) : dash ∉ hexText data := by
  intro h
  obtain ⟨n, hn, hd⟩ := exists_of_mem_hexText h
  apply (hexDigit_spec hn).2.1
  exact hd.symm

/-- Hexadecimal texts read back. -/
theorem unhex_hexText (data : Bytes) : unhex (hexText data) = some data := by
  induction data with
  | nil => rfl
  | cons b data ih =>
    have hb : b.toNat < 256 := b.toNat_lt
    have hhigh := (hexDigit_spec (n := b.toNat / 16) (by omega)).2.2
    have hlow := (hexDigit_spec (n := b.toNat % 16) (by omega)).2.2
    have hbyte : UInt8.ofNat (16 * (b.toNat / 16) + b.toNat % 16) = b := by
      rw [Nat.div_add_mod]
      apply UInt8.ofNat_toNat
    rw [hexText_cons, unhex, hhigh, hlow, ih]
    show some (UInt8.ofNat (16 * (b.toNat / 16) + b.toNat % 16) :: data) = some (b :: data)
    rw [hbyte]

/-! ### Groups -/

/-- The five groups of a UUID's bytes. -/
def uuidGroups (data : Bytes) : List Bytes :=
  [data.take 4, (data.drop 4).take 2, (data.drop 6).take 2, (data.drop 8).take 2, data.drop 10]

private theorem flatten_uuidGroups (data : Bytes) : (uuidGroups data).flatten = data := by
  simp only [uuidGroups, List.flatten_cons, List.flatten_nil, List.append_nil]
  have hjoin : ∀ m n : Nat, (data.drop m).take n ++ data.drop (m + n) = data.drop m := by
    intro m n
    rw [← List.drop_drop]
    apply List.take_append_drop
  rw [hjoin 8 2, hjoin 6 2, hjoin 4 2]
  apply List.take_append_drop

private theorem uuidText_eq_intercalate {data : Bytes} (h : data.length = 16) :
    uuidText data = [dash].intercalate ((uuidGroups data).map hexText) := by
  have hd : lit "-" = [dash] := by decide
  simp [uuidText, h, hd, uuidGroups, List.intercalate]

private theorem undashed_append (s t : Bytes) : undashed (s ++ t) = undashed s ++ undashed t :=
  List.filter_append ..

private theorem undashed_hexText (data : Bytes) : undashed (hexText data) = hexText data := by
  unfold undashed
  apply List.filter_eq_self.mpr
  intro c hc
  have hne : c ≠ dash := by
    rintro rfl
    exact dash_notMem_hexText data hc
  simpa using hne

private theorem hexText_append (s t : Bytes) : hexText (s ++ t) = hexText s ++ hexText t :=
  List.flatMap_append ..

private theorem undashed_uuidText (data : Bytes) : undashed (uuidText data) = hexText data := by
  unfold uuidText
  by_cases h : data.length = 16
  · have hd : undashed (lit "-") = [] := by decide
    rw [if_pos h]
    simp only [undashed_append, hd, undashed_hexText, List.append_nil, ← hexText_append]
    have hf := flatten_uuidGroups data
    simp only [uuidGroups, List.flatten_cons, List.flatten_nil, List.append_nil] at hf
    rw [List.append_assoc, List.append_assoc, List.append_assoc, hf]
  · rw [if_neg h, undashed_hexText]

private theorem dash_mem_uuidText (data : Bytes) : dash ∈ uuidText data ↔ data.length = 16 := by
  unfold uuidText
  by_cases h : data.length = 16
  · have hd : dash ∈ lit "-" := by decide
    rw [if_pos h]
    simp [h, hd]
  · rw [if_neg h]
    simp only [h, iff_false]
    apply dash_notMem_hexText

/-! ### The printed texts -/

/-- Reading a printed blob back, dashes removed, yields the blob. -/
theorem unhex_blobString (asUuid : Bool) (data : Bytes) :
    unhex (undashed (blobString asUuid data)) = some data := by
  unfold blobString
  cases asUuid with
  | false => rw [if_neg (by decide), toHex_eq_hexText, undashed_hexText, unhex_hexText]
  | true => rw [if_pos rfl, hexAsUuid_toHex, undashed_uuidText, unhex_hexText]

/-- Different blobs of one field print as different texts. -/
theorem blobString_injective (asUuid : Bool) : Function.Injective (blobString asUuid) := by
  intro data data' h
  have hread := unhex_blobString asUuid data
  rw [h, unhex_blobString] at hread
  exact (Option.some.inj hread).symm

/-- Blob text is lossless: its digits read back, they are two lower-case ones for each byte,
different blobs have different texts, and the dashes stand in the texts of 16 bytes alone, where
they part the digits 8-4-4-4-12. -/
theorem blob_text_lossless :
    (∀ data, unhex (undashed (hexAsUuid (toHex data))) = some data) ∧
    (∀ data, (toHex data).length = 2 * data.length ∧ ∀ c ∈ toHex data, IsLowerHex c) ∧
    Function.Injective toHex ∧
    Function.Injective (fun data ↦ hexAsUuid (toHex data)) ∧
    (∀ data, dash ∈ hexAsUuid (toHex data) ↔ data.length = 16) ∧
    ∀ data, data.length = 16 →
      ((hexAsUuid (toHex data)).splitOn dash).map List.length = [8, 4, 4, 4, 12] := by
  refine ⟨unhex_blobString true, ?_, blobString_injective false, blobString_injective true, ?_, ?_⟩
  · intro data
    rw [toHex_eq_hexText]
    constructor
    · apply length_hexText
    · intro c
      apply isLowerHex_of_mem_hexText
  · intro data
    rw [hexAsUuid_toHex]
    apply dash_mem_uuidText
  · intro data h
    have hno : ∀ s ∈ (uuidGroups data).map hexText, dash ∉ s := by
      intro s hs
      obtain ⟨group, -, rfl⟩ := List.mem_map.mp hs
      apply dash_notMem_hexText
    have hne : (uuidGroups data).map hexText ≠ [] := by simp [uuidGroups]
    rw [hexAsUuid_toHex, uuidText_eq_intercalate h, List.splitOn_intercalate dash hno hne]
    simp [uuidGroups, h]

end ObDump
