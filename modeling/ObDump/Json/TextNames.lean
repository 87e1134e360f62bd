import ObDump.Json.TextRuns

/-!
# Where member names come from

Library `Json`. What one byte can do to the names the open containers hold: nothing, except
the quote that ends a name. So a run adds only names that it has itself read, and each is at
most as long as the bytes that spell it, with equality only for plain ones.
-/

namespace ObDump.JsonText

open Base

/-- The names of a frame's members, with the one whose value is still to come. -/
def Frame.names : Frame → List Bytes
  | .arr _ => []
  | .obj ms name => name.toList ++ ms.map Prod.fst

/-- The names in all open containers. -/
def names (S : List Frame) : List Bytes := S.flatMap Frame.names

@[simp] private theorem names_nil : names [] = [] := rfl

@[simp] private theorem names_arr (es : List Tree) (S : List Frame) :
    names (.arr es :: S) = names S := rfl

@[simp] private theorem names_obj (ms : List (Bytes × Tree)) (name : Option Bytes)
    (S : List Frame) :
    names (.obj ms name :: S) = name.toList ++ ms.map Prod.fst ++ names S := rfl

/-- Not inside a string or a literal. -/
def Mode.quiet : Mode → Bool
  | .string .. => false
  | .literal .. => false
  | _ => true

/-! ### What one byte can do -/

/-- Between strings and literals, with no name added. -/
private def Quiet (S : List Frame) (s' : State) : Prop :=
  s'.mode.quiet = true ∧ names s'.stack ⊆ names S

private theorem complete_quiet {v : Tree} {S : List Frame} {s' : State}
    (h : complete v S = some s') : Quiet S s' := by
  rcases S with _ | ⟨es | ⟨ms, _ | k⟩, S⟩
  · cases h; exact ⟨rfl, by simp⟩
  · cases h; exact ⟨rfl, by simp⟩
  · cases h
  · cases h; exact ⟨rfl, by simp⟩

private theorem closeArr_quiet {S : List Frame} {s' : State} (h : closeArr S = some s') :
    Quiet S s' := by
  rcases S with _ | ⟨es | ⟨ms, name⟩, S⟩
  · cases h
  · obtain ⟨hq, hn⟩ := complete_quiet (S := S) h
    exact ⟨hq, hn⟩
  · cases h

private theorem closeObj_quiet {S : List Frame} {s' : State} (h : closeObj S = some s') :
    Quiet S s' := by
  rcases S with _ | ⟨es | ⟨ms, _ | k⟩, S⟩
  · cases h
  · cases h
  · obtain ⟨hq, hn⟩ := complete_quiet h
    exact ⟨hq, fun x hx ↦ List.mem_append_right _ (hn hx)⟩
  · cases h

private theorem afterStep_quiet {S : List Frame} {b : UInt8} {s' : State}
    (h : afterStep S b = some s') : Quiet S s' := by
  unfold afterStep at h
  split_ifs at h
  · cases h; exact ⟨rfl, by simp⟩
  · rcases S with _ | ⟨es | ⟨ms, _ | k⟩, S⟩
    · cases h
    · cases h; exact ⟨rfl, by simp⟩
    · cases h; exact ⟨rfl, by simp⟩
    · cases h
  · exact closeArr_quiet h
  · exact closeObj_quiet h

/-- One byte, by what it leaves. -/
inductive StepCase (s : State) (b : UInt8) (s' : State) : Prop
  /-- No string is open after it, and no name is added. -/
  | quiet (hq : s'.mode.quiet = true) (hn : names s'.stack ⊆ names s.stack)
  /-- A string begins. -/
  | opens (isName : Bool) (hm : s'.mode = .string isName .plain [])
      (hn : names s'.stack ⊆ names s.stack)
  /-- A string goes on. -/
  | goesOn (isName : Bool) (part : StrPart) (acc : Bytes) (r : StrPart × Bytes)
      (hs : s.mode = .string isName part acc) (hb : ¬ (part = .plain ∧ b = 0x22))
      (hr : strStep part acc b = some r) (hm : s' = ⟨.string isName r.1 r.2, s.stack⟩)
  /-- A name ends. -/
  | named (acc : Bytes) (hs : s.mode = .string true .plain acc) (hb : b = 0x22)
      (hq : s'.mode.quiet = true) (hn : names s'.stack ⊆ acc.reverse :: names s.stack)
  /-- Inside a literal. -/
  | spells (rest : Bytes) (v : Tree) (hm : s'.mode = .literal rest v)
      (hn : names s'.stack ⊆ names s.stack)
      (hl : (∀ c ∈ rest, 0x61 ≤ c) ∨ ∃ c, s.mode = .literal (c :: rest) v)

private theorem letters {rest : Bytes} (h : (rest.all fun c ↦ decide (0x61 ≤ c)) = true) :
    ∀ c ∈ rest, 0x61 ≤ c := by
  simpa using h

private theorem beginValue_case {s s' : State} {b : UInt8} (h : beginValue s.stack b = some s') :
    StepCase s b s' := by
  unfold beginValue at h
  split_ifs at h
  · cases h; exact .quiet rfl (by simp)
  · cases h; exact .quiet rfl (by simp)
  · cases h; exact .opens false rfl (by simp)
  · cases h; exact .quiet rfl (by simp)
  · cases h; exact .quiet rfl (by simp)
  · cases h; exact .quiet rfl (by simp)
  · cases h; exact .spells _ _ rfl (by simp) (.inl (letters rfl))
  · cases h; exact .spells _ _ rfl (by simp) (.inl (letters rfl))
  · cases h; exact .spells _ _ rfl (by simp) (.inl (letters rfl))

private theorem beginName_case {s s' : State} {b : UInt8} (h : beginName s.stack b = some s') :
    StepCase s b s' := by
  unfold beginName at h
  split_ifs at h
  cases h
  exact .opens true rfl (by simp)

private theorem Quiet.case {s s' : State} {b : UInt8} (h : Quiet s.stack s') : StepCase s b s' :=
  .quiet h.1 h.2

private theorem endString_case {s s' : State} {isName : Bool} {acc : Bytes} {b : UInt8}
    (hs : s.mode = .string isName .plain acc) (hb : b = 0x22)
    (h : endString isName acc.reverse s.stack = some s') : StepCase s b s' := by
  cases isName with
  | false => exact (complete_quiet h).case
  | true =>
    obtain ⟨mode, S⟩ := s
    rcases S with _ | ⟨es | ⟨ms, _ | k⟩, S⟩
    · cases h
    · cases h
    · cases h
      exact .named acc hs hb rfl (by simp)
    · cases h

private theorem number_case {part : NumPart} {acc : Bytes} {S : List Frame} {s' : State}
    {b : UInt8} (h : step ⟨.number part acc, S⟩ b = some s') :
    StepCase ⟨.number part acc, S⟩ b s' := by
  simp only [step] at h
  split at h
  · cases h; exact .quiet rfl (by simp)
  · split at h
    · split at h
      · next T hc =>
        obtain ⟨hq, hn⟩ := afterStep_quiet h
        exact .quiet hq fun x hx ↦ (complete_quiet hc).2 (hn hx)
      · next v T hc =>
        split at h
        · cases h
          exact (complete_quiet hc).case
        · cases h
      · cases h
    · cases h

/-- Every step is one of the cases. -/
theorem step_case {s s' : State} {b : UInt8} (h : step s b = some s') : StepCase s b s' := by
  obtain ⟨mode, S⟩ := s
  cases mode with
  | value =>
    simp only [step] at h
    split_ifs at h
    · cases h; exact .quiet rfl (by simp)
    · exact beginValue_case (s := ⟨.value, S⟩) h
  | firstValue =>
    simp only [step] at h
    split_ifs at h
    · cases h; exact .quiet rfl (by simp)
    · exact (closeArr_quiet h).case
    · exact beginValue_case (s := ⟨.firstValue, S⟩) h
  | firstName =>
    simp only [step] at h
    split_ifs at h
    · cases h; exact .quiet rfl (by simp)
    · exact (closeObj_quiet h).case
    · exact beginName_case (s := ⟨.firstName, S⟩) h
  | nextName =>
    simp only [step] at h
    split_ifs at h
    · cases h; exact .quiet rfl (by simp)
    · exact beginName_case (s := ⟨.nextName, S⟩) h
  | colon =>
    simp only [step] at h
    split_ifs at h
    · cases h; exact .quiet rfl (by simp)
    · cases h; exact .quiet rfl (by simp)
  | after => exact (afterStep_quiet h).case
  | done v =>
    simp only [step] at h
    split_ifs at h
    cases h
    exact .quiet rfl (by simp)
  | string isName part acc =>
    simp only [step] at h
    split_ifs at h with hb
    · obtain ⟨rfl, hq⟩ := hb
      exact endString_case (s := ⟨.string isName .plain acc, S⟩) rfl hq h
    · obtain ⟨r, hr, rfl⟩ := Option.map_eq_some_iff.mp h
      exact .goesOn isName part acc r rfl hb hr rfl
  | number part acc => exact number_case h
  | literal rest v =>
    simp only [step] at h
    cases rest with
    | nil => cases h
    | cons c rest =>
      simp only at h
      split_ifs at h
      · exact (complete_quiet h).case
      · cases h
        exact .spells rest v rfl (by simp) (.inr ⟨c, rfl⟩)

/-! ### Literals -/

/-- What is still to come of a literal is letters. -/
def Spells (s : State) : Prop := ∀ rest v, s.mode = .literal rest v → ∀ c ∈ rest, 0x61 ≤ c

private theorem spells_of_ne {s : State} (h : ∀ rest v, s.mode ≠ .literal rest v) : Spells s :=
  fun rest v hm ↦ absurd hm (h rest v)

private theorem step_spells {s s' : State} {b : UInt8} (h : step s b = some s') (hs : Spells s) :
    Spells s' := by
  cases step_case h with
  | quiet hq | named _ _ _ hq =>
    apply spells_of_ne
    intro rest v hm
    rw [hm] at hq
    cases hq
  | opens isName hm =>
    apply spells_of_ne
    intro rest v hm'
    rw [hm] at hm'
    cases hm'
  | goesOn isName part acc r _ _ _ hm =>
    rw [hm]
    exact spells_of_ne (by simp)
  | spells rest v hm _ hl =>
    intro rest' v' hm'
    rw [hm] at hm'
    cases hm'
    rcases hl with hl | ⟨c, hc⟩
    · exact hl
    · exact fun x hx ↦ hs _ _ hc x (List.mem_cons_of_mem _ hx)

/-- Runs keep to the literals there are. -/
theorem run_spells {s s' : State} {t : Bytes} (h : run s t = some s') (hs : Spells s) :
    Spells s' := by
  induction t generalizing s with
  | nil =>
    cases h
    exact hs
  | cons b t ih =>
    rw [run_cons] at h
    obtain ⟨m, hm, ht⟩ := Option.bind_eq_some_iff.mp h
    exact ih ht (step_spells hm hs)

private theorem step_number_none {part : NumPart} {acc : Bytes} {S : List Frame} {b : UInt8}
    (hn : part.next b = none) (ha : ∀ T, afterStep T b = none) (hw : isWs b = false) :
    step ⟨.number part acc, S⟩ b = none := by
  simp only [step, hn, ha, hw]
  split
  · split
    · rfl
    · rfl
    · rfl
  · rfl

private theorem step_literal_none {rest : Bytes} {v : Tree} {S : List Frame} {b : UInt8}
    (hs : Spells ⟨.literal rest v, S⟩) (hb : b < 0x61) : step ⟨.literal rest v, S⟩ b = none := by
  cases rest with
  | nil => rfl
  | cons c rest =>
    have hc := hs (c :: rest) v rfl c List.mem_cons_self
    have hne : b ≠ c := by
      rintro rfl
      exact absurd hc (UInt8.not_le.mpr hb)
    simp [step, hne]

private theorem step_zero {s : State} (hs : Spells s) : step s 0 = none := by
  obtain ⟨mode, S⟩ := s
  cases mode with
  | string isName part acc => cases part <;> rfl
  | number part acc => exact step_number_none (by cases part <;> rfl) (fun _ ↦ rfl) rfl
  | literal rest v => exact step_literal_none hs (by decide)
  | _ => rfl

/-- No text has a NUL byte. -/
theorem zero_notMem_of_run {s s' : State} {t : Bytes} (hs : Spells s) (h : run s t = some s') :
    0 ∉ t := by
  induction t generalizing s with
  | nil => simp
  | cons b t ih =>
    rw [run_cons] at h
    obtain ⟨m, hm, ht⟩ := Option.bind_eq_some_iff.mp h
    intro hmem
    rcases List.mem_cons.mp hmem with rfl | hmem
    · rw [step_zero hs] at hm
      cases hm
    · exact ih (step_spells hm hs) ht hmem

/-- At the start of a text no word is being read. -/
theorem spells_start : Spells start := spells_of_ne (by simp [start])

/-! ### The length of a name -/

/-- Bytes read of a string that have not been collected yet; one for a byte that was read
and collected nothing before. -/
def StrPart.weight : StrPart → Nat
  | .plain | .escape => 1
  | .unicode n _ none => 2 + n
  | .unicode n _ (some _) => 8 + n
  | .lowEscape _ => 6
  | .lowUnicode _ => 7

/-- A string that is open spells less than `u` bytes so far. -/
def Shorter (u : Nat) (s : State) : Prop :=
  ∀ isName part acc, s.mode = .string isName part acc → acc.length + part.weight ≤ u

private theorem shorter_of_ne {u : Nat} {s : State}
    (h : ∀ isName part acc, s.mode ≠ .string isName part acc) : Shorter u s :=
  fun isName part acc hm ↦ absurd hm (h isName part acc)

private theorem length_utf8Encode (c : Nat) : (utf8Encode c).length ≤ 4 := by
  unfold utf8Encode
  split_ifs <;> simp

private theorem endUnicode_weight {v : Nat} {acc : Bytes} {hi : Option Nat} {r : StrPart × Bytes}
    (h : endUnicode v acc hi = some r) : r.2.length + r.1.weight ≤ acc.length + 6 := by
  -- The escape collects four bytes at most, or waits for its second half.
  cases hi with
  | none =>
    have hl := length_utf8Encode v
    simp only [endUnicode] at h
    split_ifs at h
    · cases h
      exact Nat.le_refl _
    · cases h
      simp only [StrPart.weight, List.length_append, List.length_reverse]
      omega
  | some hi =>
    have hl := length_utf8Encode (0x10000 + (hi - 0xD800) * 0x400 + (v - 0xDC00))
    simp only [endUnicode] at h
    split_ifs at h
    cases h
    simp only [StrPart.weight, List.length_append, List.length_reverse]
    omega

private theorem strStep_weight {part : StrPart} {acc : Bytes} {b : UInt8} {r : StrPart × Bytes}
    {u : Nat} (h : strStep part acc b = some r) (hu : acc.length + part.weight ≤ u) :
    r.2.length + r.1.weight ≤ u + 1 := by
  cases part with
  | plain =>
    simp only [strStep] at h
    split_ifs at h
    · cases h
      exact Nat.le_succ_of_le hu
    · cases h
      exact Nat.succ_le_succ hu
  | escape =>
    simp only [strStep] at h
    split_ifs at h
    · cases h
      exact Nat.succ_le_succ hu
    · obtain ⟨c, -, rfl⟩ := Option.map_eq_some_iff.mp h
      exact Nat.succ_le_succ hu
  | unicode n v hi =>
    simp only [strStep] at h
    split at h
    · cases h
    · next d hd =>
      split_ifs at h
      · cases h
        cases hi <;> exact Nat.succ_le_succ hu
      · have hend := endUnicode_weight h
        cases hi <;> simp only [StrPart.weight] at hu <;> omega
  | lowEscape hi =>
    simp only [strStep] at h
    split_ifs at h
    cases h
    exact Nat.succ_le_succ hu
  | lowUnicode hi =>
    simp only [strStep] at h
    split_ifs at h
    cases h
    exact Nat.succ_le_succ hu

private theorem step_shorter_of {s s' : State} {b : UInt8} {u : Nat} (h : step s b = some s')
    (h0 : 1 ≤ u)
    (hon : ∀ isName part acc r, s.mode = .string isName part acc → ¬ (part = .plain ∧ b = 0x22) →
      strStep part acc b = some r → r.2.length + r.1.weight ≤ u)
    (hend : ∀ acc, s.mode = .string true .plain acc → acc.length < u) :
    Shorter u s' ∧ ∀ n ∈ names s'.stack, n ∈ names s.stack ∨ n.length < u := by
  cases step_case h with
  | quiet hq hn =>
    refine ⟨shorter_of_ne fun isName part acc hm ↦ ?_, fun n hm ↦ .inl (hn hm)⟩
    rw [hm] at hq
    cases hq
  | opens isName hm hn =>
    refine ⟨fun isName' part acc hm' ↦ ?_, fun n hm ↦ .inl (hn hm)⟩
    rw [hm] at hm'
    cases hm'
    exact h0
  | goesOn isName part acc r hs hb hr hm =>
    subst hm
    refine ⟨fun isName' part' acc' hm' ↦ ?_, fun n hm ↦ .inl hm⟩
    cases hm'
    exact hon _ _ _ r hs hb hr
  | named acc hs _ hq hn =>
    refine ⟨shorter_of_ne fun isName part acc hm ↦ ?_, fun n hm ↦ ?_⟩
    · rw [hm] at hq
      cases hq
    · rcases List.mem_cons.mp (hn hm) with rfl | hm
      · rw [List.length_reverse]
        exact .inr (hend acc hs)
      · exact .inl hm
  | spells rest v hm hn =>
    refine ⟨shorter_of_ne fun isName part acc hm' ↦ ?_, fun n hm ↦ .inl (hn hm)⟩
    rw [hm] at hm'
    cases hm'

private theorem step_shorter {s s' : State} {b : UInt8} {u : Nat} (h : step s b = some s')
    (hu : Shorter u s) : Shorter (u + 1) s' ∧
      ∀ n ∈ names s'.stack, n ∈ names s.stack ∨ n.length < u + 1 := by
  apply step_shorter_of h (Nat.le_add_left 1 u)
  · intro isName part acc r hs _ hr
    exact strStep_weight hr (hu _ _ _ hs)
  · intro acc hs
    have hl := hu _ _ _ hs
    simp only [StrPart.weight] at hl
    omega

private theorem step_shorter_of_not_plain {acc : Bytes} {S : List Frame} {s' : State} {b : UInt8}
    (h : step ⟨.string true .plain acc, S⟩ b = some s') (hb : ¬ plainByte b = true) :
    Shorter (acc.length + 1) s' ∧
      ∀ n ∈ names s'.stack, n ∈ names S ∨ n.length < acc.length + 1 := by
  -- A byte that does not spell itself makes the open string fall behind.
  apply step_shorter_of h (Nat.le_add_left 1 _)
  · intro isName part acc' r hs hq hr
    cases hs
    simp only [true_and] at hq
    simp only [strStep] at hr
    split_ifs at hr with he hlow
    · cases hr
      exact Nat.le_refl _
    · exact absurd (by simp [plainByte, hq, he, UInt8.not_lt.mp hlow]) hb
  · intro acc' hs
    cases hs
    exact Nat.lt_succ_self _

/-- Names that a run adds are shorter than what is read in all. -/
theorem run_shorter {s s' : State} {t : Bytes} {u : Nat} (h : run s t = some s')
    (hu : Shorter u s) : Shorter (u + t.length) s' ∧
      ∀ n ∈ names s'.stack, n ∈ names s.stack ∨ n.length < u + t.length := by
  induction t generalizing s u with
  | nil =>
    cases h
    exact ⟨hu, fun n hm ↦ .inl hm⟩
  | cons b t ih =>
    rw [run_cons] at h
    obtain ⟨m, hm, ht⟩ := Option.bind_eq_some_iff.mp h
    obtain ⟨hu', hn⟩ := step_shorter hm hu
    obtain ⟨hu'', hn'⟩ := ih ht hu'
    have hl : u + 1 + t.length = u + (b :: t).length := by
      rw [List.length_cons]
      omega
    rw [hl] at hu'' hn'
    refine ⟨hu'', fun n hn'' ↦ ?_⟩
    rcases hn' n hn'' with hn'' | hlt
    · rcases hn n hn'' with hn'' | hlt
      · exact .inl hn''
      · exact .inr (by rw [List.length_cons]; omega)
    · exact .inr hlt

/-- Where a name is read, plain bytes spell themselves; with any other byte, the name and all
names read with it come out shorter. -/
theorem run_name {acc c : Bytes} {S : List Frame} {s' : State}
    (h : run ⟨.string true .plain acc, S⟩ c = some s') :
    plainString c = true ∧ s' = ⟨.string true .plain (c.reverse ++ acc), S⟩ ∨
      Shorter (acc.length + c.length) s' ∧
        ∀ n ∈ names s'.stack, n ∈ names S ∨ n.length < acc.length + c.length := by
  induction c generalizing acc with
  | nil =>
    cases h
    exact .inl ⟨rfl, rfl⟩
  | cons b c ih =>
    rw [run_cons] at h
    obtain ⟨m, hm, ht⟩ := Option.bind_eq_some_iff.mp h
    by_cases hb : plainByte b = true
    · have hp := run_plain true acc S (s := [b]) (by simp [plainString, hb])
      rw [run_cons, hm] at hp
      cases hp
      have hl : ([b].reverse ++ acc).length + c.length = acc.length + (b :: c).length := by
        simp only [List.length_append, List.length_reverse, List.length_cons, List.length_nil]
        omega
      rcases ih ht with ⟨hc, rfl⟩ | hr
      · exact .inl ⟨by simpa [plainString, hb] using hc, by simp⟩
      · rw [hl] at hr
        exact .inr hr
    · have hu := step_shorter_of_not_plain hm hb
      obtain ⟨hu', hn'⟩ := run_shorter ht hu.1
      have hl : acc.length + 1 + c.length = acc.length + (b :: c).length := by
        rw [List.length_cons]
        omega
      rw [hl] at hu' hn'
      refine .inr ⟨hu', fun n hn ↦ ?_⟩
      rcases hn' n hn with hn | hlt
      · rcases hu.2 n hn with hn | hlt
        · exact .inl hn
        · exact .inr (by rw [List.length_cons]; omega)
      · exact .inr hlt

/-! ### The end of a name -/

private theorem run_comma_newline_string (isName : Bool) (acc : Bytes) (S : List Frame) :
    run ⟨.string isName .plain acc, S⟩ (lit ": [\n    ") = none := by
  change run _ ([0x3A, 0x20, 0x5B, 0x0A] ++ lit "    ") = none
  rfl

private theorem run_complete_colon (v : Tree) (S : List Frame) :
    (complete v S).bind (run · (lit ": [\n    ")) = none := by
  rcases S with _ | ⟨es | ⟨ms, _ | k⟩, S⟩
  · rfl
  · rfl
  · rfl
  · rfl

/-- The quote, colon and bracket written after a name are read as such only if a name of an
open object is being read. -/
theorem run_nameEnd {m s' : State} (hm : Spells m) (h : run m (lit "\": [\n    ") = some s') :
    ∃ acc ms S, m = ⟨.string true .plain acc, .obj ms none :: S⟩ ∧
      s' = ⟨.firstValue, .arr [] :: .obj ms (some acc.reverse) :: S⟩ := by
  have hq : lit "\": [\n    " = 0x22 :: lit ": [\n    " := rfl
  rw [hq, run_cons] at h
  obtain ⟨mode, S⟩ := m
  cases mode with
  | value | firstValue =>
    have hs : (run ⟨.string false .plain [], S⟩ (lit ": [\n    ")) = some s' := h
    rw [run_comma_newline_string] at hs
    cases hs
  | firstName | nextName =>
    have hs : (run ⟨.string true .plain [], S⟩ (lit ": [\n    ")) = some s' := h
    rw [run_comma_newline_string] at hs
    cases hs
  | colon | after | done => cases h
  | string isName part acc =>
    cases part with
    | plain =>
      cases isName with
      | false =>
        have hs : (complete (.str acc.reverse) S).bind (run · (lit ": [\n    ")) = some s' := h
        rw [run_complete_colon] at hs
        cases hs
      | true =>
        rcases S with _ | ⟨es | ⟨ms, _ | k⟩, S⟩
        · cases h
        · cases h
        · cases h
          exact ⟨acc, ms, S, rfl, rfl⟩
        · cases h
    | escape =>
      have hs : (run ⟨.string isName .plain (0x22 :: acc), S⟩ (lit ": [\n    ")) = some s' := h
      rw [run_comma_newline_string] at hs
      cases hs
    | unicode n v hi => cases h
    | lowEscape hi => cases h
    | lowUnicode hi => cases h
  | number part acc =>
    rw [step_number_none (by cases part <;> rfl) (fun _ ↦ rfl) rfl] at h
    cases h
  | literal rest v =>
    rw [step_literal_none hm (by decide)] at h
    cases h

end ObDump.JsonText
