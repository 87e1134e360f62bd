import ObDump.Json.Text

/-!
# Runs of the JSON text reader

Library `Json`. How runs compose: over a concatenation, over the plain bytes of a
string, and inside an enclosing container. The last says that a text which is a value
on its own is read as that value wherever a value may stand.
-/

namespace ObDump.JsonText

open Base

/-- Nothing is read. -/
@[simp] theorem run_nil (s : State) : run s [] = some s := rfl

/-- Reading one byte and then the rest. -/
theorem run_cons (s : State) (b : UInt8) (t : Bytes) :
    run s (b :: t) = (step s b).bind (run · t) := by
  simp only [run, List.foldlM_cons]
  rfl

/-- Reading two parts is reading the first and then the second. -/
theorem run_append (s : State) (t u : Bytes) : run s (t ++ u) = (run s t).bind (run · u) := by
  simp only [run, List.foldlM_append]
  rfl

/-- A run over a concatenation has a run over its first part. -/
theorem run_append_some {s s' : State} {t u : Bytes} (h : run s (t ++ u) = some s') :
    ∃ m, run s t = some m ∧ run m u = some s' := by
  rw [run_append] at h
  exact Option.bind_eq_some_iff.mp h

/-! ### Plain string bytes -/

/-- A byte that stands for itself inside a JSON string. -/
def plainByte (b : UInt8) : Bool := 0x20 ≤ b && b != 0x22 && b != 0x5C

/-- A string that needs no escaping: no quote, no backslash, no control byte. -/
def plainString (s : Bytes) : Bool := s.all plainByte

/-- A plain string has no quote, no backslash and no control byte. -/
theorem plainString_iff {s : Bytes} :
    plainString s = true ↔ ∀ b ∈ s, 0x20 ≤ b ∧ b ≠ 0x22 ∧ b ≠ 0x5C := by
  simp [plainString, plainByte, and_assoc]

/-- Plain bytes are collected as they are. -/
theorem run_plain (isName : Bool) (acc : Bytes) (S : List Frame) {s : Bytes}
    (h : plainString s = true) :
    run ⟨.string isName .plain acc, S⟩ s = some ⟨.string isName .plain (s.reverse ++ acc), S⟩ := by
  induction s generalizing acc with
  | nil => rfl
  | cons b s ih =>
    obtain ⟨hb, hs⟩ : plainByte b = true ∧ plainString s = true := by
      simpa [plainString] using h
    have hlo : ¬ b < 0x20 := by
      have : (0x20 : UInt8) ≤ b := by simp [plainByte] at hb; exact hb.1.1
      exact UInt8.not_lt.mpr this
    have hq : b ≠ 0x22 := by simp [plainByte] at hb; exact hb.1.2
    have he : b ≠ 0x5C := by simp [plainByte] at hb; exact hb.2
    rw [run_cons]
    simp only [step, hq, and_false, if_false, strStep, he, hlo, Option.map_some,
      Option.bind_some]
    rw [ih (b :: acc) hs]
    simp

/-! ### Reading inside an enclosing container -/

/-- A stack whose innermost container is waiting for a value. -/
def Awaits : List Frame → Prop
  | [] => True
  | .arr _ :: _ => True
  | .obj _ (some _) :: _ => True
  | .obj _ none :: _ => False

/-- The state with further containers open around it. A value complete on its own is handed
to the innermost of them. -/
def enclose (S : List Frame) (s : State) : Option State :=
  match s.mode with
  | .done v => complete v S
  | m => some ⟨m, s.stack ++ S⟩

private theorem complete_enclose (S : List Frame) (v : Tree) (T : List Frame) {s' : State}
    (h : complete v T = some s') : complete v (T ++ S) = enclose S s' := by
  rcases T with _ | ⟨es | ⟨ms, _ | k⟩, T⟩
  · cases h; rfl
  · cases h; rfl
  · simp [complete] at h
  · cases h; rfl

private theorem closeArr_enclose (S : List Frame) (T : List Frame) {s' : State}
    (h : closeArr T = some s') : closeArr (T ++ S) = enclose S s' := by
  rcases T with _ | ⟨es | ⟨ms, name⟩, T⟩
  · simp [closeArr] at h
  · exact complete_enclose S _ T h
  · simp [closeArr] at h

private theorem closeObj_enclose (S : List Frame) (T : List Frame) {s' : State}
    (h : closeObj T = some s') : closeObj (T ++ S) = enclose S s' := by
  rcases T with _ | ⟨es | ⟨ms, _ | k⟩, T⟩
  · simp [closeObj] at h
  · simp [closeObj] at h
  · exact complete_enclose S _ T h
  · simp [closeObj] at h

private theorem beginValue_enclose (S : List Frame) (T : List Frame) (b : UInt8) {s' : State}
    (h : beginValue T b = some s') : beginValue (T ++ S) b = enclose S s' := by
  unfold beginValue at h ⊢
  split_ifs at h ⊢
  all_goals cases h; rfl

private theorem beginName_enclose (S : List Frame) (T : List Frame) (b : UInt8) {s' : State}
    (h : beginName T b = some s') : beginName (T ++ S) b = enclose S s' := by
  unfold beginName at h ⊢
  split_ifs at h ⊢
  cases h
  rfl

private theorem afterStep_enclose (S : List Frame) (T : List Frame) (b : UInt8) {s' : State}
    (h : afterStep T b = some s') : afterStep (T ++ S) b = enclose S s' := by
  unfold afterStep at h ⊢
  split_ifs at h ⊢
  · cases h; rfl
  · rcases T with _ | ⟨es | ⟨ms, _ | k⟩, T⟩
    · simp at h
    · cases h; rfl
    · cases h; rfl
    · simp at h
  · exact closeArr_enclose S T h
  · exact closeObj_enclose S T h

private theorem endString_enclose (S : List Frame) (isName : Bool) (v : Bytes) (T : List Frame)
    {s' : State} (h : endString isName v T = some s') :
    endString isName v (T ++ S) = enclose S s' := by
  cases isName with
  | true =>
    rcases T with _ | ⟨es | ⟨ms, _ | k⟩, T⟩
    · simp [endString] at h
    · simp [endString] at h
    · cases h; rfl
    · simp [endString] at h
  | false => exact complete_enclose S _ T h

private theorem ws_enclose {S : List Frame} (hS : Awaits S) (v : Tree) {b : UInt8}
    (hb : isWs b = true) : (complete v S).bind (step · b) = complete v S := by
  rcases S with _ | ⟨es | ⟨ms, _ | k⟩, S⟩
  · simp [complete, step, hb]
  · simp [complete, step, afterStep, hb]
  · exact absurd hS id
  · simp [complete, step, afterStep, hb]

private theorem number_enclose {S : List Frame} (hS : Awaits S) (part : NumPart) (acc : Bytes)
    (T : List Frame) {s' : State} {b : UInt8}
    (h : step ⟨.number part acc, T⟩ b = some s') :
    step ⟨.number part acc, T ++ S⟩ b = enclose S s' := by
  simp only [step] at h ⊢
  cases hn : part.next b with
  | some part' =>
    simp only [hn] at h ⊢
    cases h
    rfl
  | none =>
    simp only [hn] at h ⊢
    split at h
    · next hc =>
      rw [if_pos hc]
      rcases T with _ | ⟨es | ⟨ms, _ | k⟩, T⟩
      · -- A number on its own ended by white space.
        simp only [complete] at h
        split at h
        · next hb =>
          cases h
          have hw := ws_enclose hS (.num acc.reverse) hb
          rw [List.nil_append]
          change _ = complete (.num acc.reverse) S
          rcases S with _ | ⟨es | ⟨ms, _ | k⟩, S⟩
          · simp [complete, hb]
          · simpa [complete, step] using hw
          · exact absurd hS id
          · simpa [complete, step] using hw
        · simp at h
      · exact afterStep_enclose S _ b h
      · simp [complete] at h
      · exact afterStep_enclose S _ b h
    · simp at h

/-- One byte read alone is read the same way inside an enclosing container. -/
theorem step_enclose {S : List Frame} (hS : Awaits S) {s s' : State} {b : UInt8}
    (h : step s b = some s') : (enclose S s).bind (step · b) = enclose S s' := by
  obtain ⟨mode, T⟩ := s
  cases mode with
  | value =>
    change step ⟨.value, T ++ S⟩ b = _
    simp only [step] at h ⊢
    split_ifs at h ⊢
    · cases h; rfl
    · exact beginValue_enclose S T b h
  | firstValue =>
    change step ⟨.firstValue, T ++ S⟩ b = _
    simp only [step] at h ⊢
    split_ifs at h ⊢
    · cases h; rfl
    · exact closeArr_enclose S T h
    · exact beginValue_enclose S T b h
  | firstName =>
    change step ⟨.firstName, T ++ S⟩ b = _
    simp only [step] at h ⊢
    split_ifs at h ⊢
    · cases h; rfl
    · exact closeObj_enclose S T h
    · exact beginName_enclose S T b h
  | nextName =>
    change step ⟨.nextName, T ++ S⟩ b = _
    simp only [step] at h ⊢
    split_ifs at h ⊢
    · cases h; rfl
    · exact beginName_enclose S T b h
  | colon =>
    change step ⟨.colon, T ++ S⟩ b = _
    simp only [step] at h ⊢
    split_ifs at h ⊢
    · cases h; rfl
    · cases h; rfl
  | after => exact afterStep_enclose S T b h
  | done v =>
    change (complete v S).bind (step · b) = _
    simp only [step] at h
    split_ifs at h with hb
    cases h
    exact ws_enclose hS v hb
  | string isName part acc =>
    change step ⟨.string isName part acc, T ++ S⟩ b = _
    simp only [step] at h ⊢
    split_ifs at h ⊢
    · exact endString_enclose S isName _ T h
    · obtain ⟨r, hr, rfl⟩ := Option.map_eq_some_iff.mp h
      rw [hr]
      rfl
  | number part acc => exact number_enclose hS part acc T h
  | literal rest v =>
    change step ⟨.literal rest v, T ++ S⟩ b = _
    simp only [step] at h ⊢
    cases rest with
    | nil => simp at h
    | cons c rest' =>
      simp only at h ⊢
      split_ifs at h ⊢
      · exact complete_enclose S v T h
      · cases h; rfl

/-- A run alone is the same run inside an enclosing container. -/
theorem run_enclose {S : List Frame} (hS : Awaits S) {s s' : State} {t : Bytes}
    (h : run s t = some s') : (enclose S s).bind (run · t) = enclose S s' := by
  induction t generalizing s with
  | nil =>
    simp only [run_nil, Option.some.injEq] at h
    subst h
    simp
  | cons b t ih =>
    rw [run_cons] at h
    obtain ⟨m, hm, ht⟩ := Option.bind_eq_some_iff.mp h
    rw [← ih ht, ← step_enclose hS hm, Option.bind_assoc]
    simp only [run_cons]

/-- A text that is one complete value is read as that value wherever one must stand. -/
theorem run_value {S : List Frame} (hS : Awaits S) {t : Bytes} {v : Tree}
    (h : run start t = some ⟨.done v, []⟩) : run ⟨.value, S⟩ t = complete v S := by
  have hr := run_enclose hS h
  simpa [start, enclose] using hr

/-- After `[` such a text is read as it is where a value must stand. -/
theorem run_firstValue {S : List Frame} {t : Bytes} {s' : State}
    (h : run ⟨.value, S⟩ t = some s') (hne : s'.mode ≠ .value) :
    run ⟨.firstValue, S⟩ t = some s' := by
  induction t with
  | nil =>
    cases h
    exact absurd rfl hne
  | cons b t ih =>
    rw [run_cons] at h ⊢
    simp only [step] at h ⊢
    by_cases hb : isWs b = true
    · simp only [hb, if_true, Option.bind_some] at h ⊢
      exact ih h
    · simp only [hb, Bool.false_eq_true, if_false] at h ⊢
      have hc : b ≠ 0x5D := by
        rintro rfl
        simp [beginValue, isDigit] at h
      rw [if_neg hc]
      exact h

/-- A text whose tree is an object ends in the completed object. -/
theorem run_of_parse_obj {t : Bytes} {ms : List (Bytes × Tree)}
    (h : parse t = some (.obj ms)) : run start t = some ⟨.done (.obj ms), []⟩ := by
  unfold parse at h
  split at h
  · obtain ⟨⟨mode, S⟩, hs, hf⟩ := Option.bind_eq_some_iff.mp h
    rw [hs]
    cases mode with
    | done v =>
      cases S with
      | nil =>
        cases hf
        rfl
      | cons f S => simp [finish] at hf
    | number part acc =>
      cases S with
      | nil =>
        simp only [finish] at hf
        split at hf
        · cases hf
        · simp at hf
      | cons f S => simp [finish] at hf
    | _ => simp [finish] at hf
  · simp at h

/-- A parsed text is well-formed UTF-8. -/
theorem valid_of_parse {t : Bytes} {v : Tree} (h : parse t = some v) : Utf8.valid t = true := by
  unfold parse at h
  split at h
  · assumption
  · simp at h

/-- A complete run over well-formed UTF-8 is a parse. -/
theorem parse_of_run {t : Bytes} {v : Tree} (hu : Utf8.valid t = true)
    (h : run start t = some ⟨.done v, []⟩) : parse t = some v := by
  unfold parse
  rw [if_pos hu, h]
  rfl

/-- White space between tokens changes nothing. -/
theorem run_spaces {s : State} (hs : ∀ b, isWs b = true → step s b = some s) {t : Bytes}
    (h : ∀ b ∈ t, isWs b = true) : run s t = some s := by
  induction t with
  | nil => rfl
  | cons b t ih =>
    rw [run_cons, hs b (h b List.mem_cons_self), Option.bind_some]
    exact ih fun c hc ↦ h c (List.mem_cons_of_mem _ hc)

/-! ### Texts that are not finished -/

/-- One value has been read and nothing encloses it. A number may still go on. -/
def State.Finished (s : State) : Prop :=
  s.stack = [] ∧ ((∃ v, s.mode = .done v) ∨ ∃ part acc, s.mode = .number part acc)

private theorem finished_step {s s' : State} {b : UInt8} (hs : s.Finished)
    (h : step s b = some s') : s'.Finished := by
  obtain ⟨mode, S⟩ := s
  obtain ⟨hS, hmode⟩ := hs
  change S = [] at hS
  subst hS
  rcases hmode with ⟨v, hm⟩ | ⟨part, acc, hm⟩
  · change mode = .done v at hm
    subst hm
    simp only [step] at h
    split at h
    · cases h
      exact ⟨rfl, .inl ⟨v, rfl⟩⟩
    · cases h
  · change mode = .number part acc at hm
    subst hm
    simp only [step, complete] at h
    split at h
    · cases h
      exact ⟨rfl, .inr ⟨_, _, rfl⟩⟩
    · split_ifs at h
      cases h
      exact ⟨rfl, .inl ⟨_, rfl⟩⟩

private theorem finished_run {s s' : State} {t : Bytes} (hs : s.Finished)
    (h : run s t = some s') : s'.Finished := by
  induction t generalizing s with
  | nil =>
    cases h
    exact hs
  | cons b t ih =>
    rw [run_cons] at h
    obtain ⟨m, hm, ht⟩ := Option.bind_eq_some_iff.mp h
    exact ih (finished_step hs hm) ht

private theorem finished_of_parse {t : Bytes} {v : Tree} (h : parse t = some v) :
    ∃ s, run start t = some s ∧ s.Finished := by
  unfold parse at h
  split at h
  · obtain ⟨⟨mode, S⟩, hs, hf⟩ := Option.bind_eq_some_iff.mp h
    refine ⟨⟨mode, S⟩, hs, ?_⟩
    unfold finish at hf
    split at hf
    · next heq =>
      cases heq
      exact ⟨rfl, .inl ⟨_, rfl⟩⟩
    · next heq =>
      cases heq
      exact ⟨rfl, .inr ⟨_, _, rfl⟩⟩
    · cases hf
  · cases h

/-- A text that ends inside a container is no value, and nor is anything it begins with. -/
theorem parse_eq_none_of_isPrefix {s t : Bytes} {m : State} (hrun : run start t = some m)
    (hm : m.stack ≠ []) (hs : s <+: t) : parse s = none := by
  by_contra hne
  obtain ⟨v, hv⟩ := Option.ne_none_iff_exists'.mp hne
  obtain ⟨m', hm', hfin⟩ := finished_of_parse hv
  obtain ⟨u, rfl⟩ := hs
  rw [run_append, hm', Option.bind_some] at hrun
  apply hm
  exact (finished_run hfin hrun).1

end ObDump.JsonText
