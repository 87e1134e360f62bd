import ObDump.Base.Except

/-!
# Prefix-exact runs

Library `Base`. A producer that may fail feeds a consumer that may stop. `RunsTo` says where
such a run ends without the loop: after the last item, at the first result the consumer
stops at, or before the first item that fails. `drive` is the loop, and runs exactly so.
-/

namespace ObDump.Base

universe u

variable {α γ ε : Type} {σ : Type u}
variable (produce : α → Except ε γ) (consume : σ → γ → σ × Bool)

/-- The loop: produce, consume, and go on while the consumer asks for more. -/
def drive : List α → σ → σ × Except ε Unit
  | [], s => (s, .ok ())
  | a :: as, s =>
    match produce a with
    | .error err => (s, .error err)
    | .ok c => if (consume s c).2 then drive as (consume s c).1 else ((consume s c).1, .ok ())

/-- The state after results consumed in turn. -/
def feed (s : σ) (cs : List γ) : σ := cs.foldl (fun s c ↦ (consume s c).1) s

/-- The consumer asks for more after each of the results. -/
def KeepsGoing : σ → List γ → Prop
  | _, [] => True
  | s, c :: cs => (consume s c).2 = true ∧ KeepsGoing (consume s c).1 cs

/-- How a run over `as` that consumed `cs` ends: with the last item, with a result the
consumer stops at, or before the next item, which fails. -/
inductive Ending (as : List α) (s : σ) (cs : List γ) : Except ε Unit → Prop
  | all (h : cs.length = as.length) (hgo : KeepsGoing consume s cs) : Ending as s cs (.ok ())
  | stopped (pre : List γ) (c : γ) (h : cs = pre ++ [c]) (hgo : KeepsGoing consume s pre)
      (hstop : (consume (feed consume s pre) c).2 = false) : Ending as s cs (.ok ())
  | failed (err : ε) (h : cs.length < as.length) (hgo : KeepsGoing consume s cs)
      (herr : produce as[cs.length] = .error err) : Ending as s cs (.error err)

/-- A run from `s`: the results of the items before its end are consumed, each once and in
order. -/
def RunsTo (as : List α) (s : σ) (r : σ × Except ε Unit) : Prop :=
  ∃ cs, (as.take cs.length).mapM produce = .ok cs ∧ r.1 = feed consume s cs ∧
    Ending produce consume as s cs r.2

variable {produce consume}

private theorem runsTo_nil {s : σ} {r : σ × Except ε Unit} :
    RunsTo produce consume [] s r ↔ r = (s, .ok ()) := by
  constructor
  · rintro ⟨cs, hm, hs, hend⟩
    rw [List.take_nil, List.mapM_nil] at hm
    cases hm
    cases r with
    | mk s' out =>
      cases hend with
      | all h hgo => exact congrArg (·, _) hs
      | stopped pre c h => exact absurd h (by simp)
      | failed err h => exact absurd h (by simp)
  · rintro rfl
    exact ⟨[], rfl, rfl, .all rfl trivial⟩

/-- A run that begins with a failing item ends there. -/
theorem runsTo_cons_of_error {a : α} {as : List α} {s : σ} {r : σ × Except ε Unit} {err : ε}
    (ha : produce a = .error err) :
    RunsTo produce consume (a :: as) s r ↔ r = (s, .error err) := by
  constructor
  · rintro ⟨cs, hm, hs, hend⟩
    cases cs with
    | cons c cs =>
      rw [List.length_cons, List.take_succ_cons, List.mapM_cons, ha] at hm
      cases hm
    | nil =>
      cases r with
      | mk s' out =>
        cases hend with
        | all h => exact absurd h (by simp)
        | stopped pre c h => exact absurd h (by simp)
        | failed err' h hgo herr =>
          have he : produce a = .error err' := herr
          rw [ha] at he
          cases he
          exact congrArg (·, _) hs
  · rintro rfl
    exact ⟨[], rfl, rfl, .failed err (by simp) trivial ha⟩

private theorem mapM_take_cons {a : α} {as : List α} {c : γ} {cs : List γ}
    (h : ((a :: as).take (c :: cs).length).mapM produce = .ok (c :: cs)) :
    produce a = .ok c ∧ (as.take cs.length).mapM produce = .ok cs := by
  rw [List.length_cons, List.take_succ_cons, mapM_eq_ok] at h
  cases h with
  | cons ha has => exact ⟨ha, mapM_eq_ok.mpr has⟩

private theorem take_cons_mapM {a : α} {as : List α} {c : γ} {cs : List γ}
    (ha : produce a = .ok c) (h : (as.take cs.length).mapM produce = .ok cs) :
    ((a :: as).take (c :: cs).length).mapM produce = .ok (c :: cs) := by
  rw [List.length_cons, List.take_succ_cons, mapM_eq_ok]
  exact .cons ha (mapM_eq_ok.mp h)

private theorem ending_nil_absurd {a : α} {as : List α} {s : σ} {out : Except ε Unit} {c : γ}
    (ha : produce a = .ok c) (h : Ending produce consume (a :: as) s [] out) : False := by
  cases h with
  | all h => exact absurd h (by simp)
  | stopped pre c h => exact absurd h (by simp)
  | failed err h hgo herr =>
    have he : produce a = .error err := herr
    rw [ha] at he
    cases he

/-- A run whose first result stops the consumer ends there. -/
theorem runsTo_cons_of_stop {a : α} {as : List α} {s : σ} {r : σ × Except ε Unit} {c : γ}
    (ha : produce a = .ok c) (hc : (consume s c).2 = false) :
    RunsTo produce consume (a :: as) s r ↔ r = ((consume s c).1, .ok ()) := by
  constructor
  · rintro ⟨cs, hm, hs, hend⟩
    cases cs with
    | nil => exact (ending_nil_absurd ha hend).elim
    | cons c' cs =>
      have hc' := (mapM_take_cons hm).1
      rw [ha] at hc'
      cases hc'
      cases r with
      | mk s' out =>
        cases hend with
        | all h hgo => exact absurd hgo.1 (by simp [hc])
        | stopped pre d h hgo =>
          cases pre with
          | nil =>
            cases h
            exact congrArg (·, _) hs
          | cons p pre =>
            cases h
            exact absurd hgo.1 (by simp [hc])
        | failed err h hgo => exact absurd hgo.1 (by simp [hc])
  · rintro rfl
    exact ⟨[c], take_cons_mapM ha rfl, rfl, .stopped [] c rfl trivial hc⟩

/-- A run whose first result keeps the consumer going continues with the other items. -/
theorem runsTo_cons_of_go {a : α} {as : List α} {s : σ} {r : σ × Except ε Unit} {c : γ}
    (ha : produce a = .ok c) (hc : (consume s c).2 = true) :
    RunsTo produce consume (a :: as) s r ↔ RunsTo produce consume as (consume s c).1 r := by
  constructor
  · rintro ⟨cs, hm, hs, hend⟩
    cases cs with
    | nil => exact (ending_nil_absurd ha hend).elim
    | cons c' cs =>
      obtain ⟨hc', htail⟩ := mapM_take_cons hm
      rw [ha] at hc'
      cases hc'
      refine ⟨cs, htail, hs, ?_⟩
      cases r with
      | mk s' out =>
        cases hend with
        | all h hgo => exact .all (by simpa using h) hgo.2
        | stopped pre d h hgo hstop =>
          cases pre with
          | nil =>
            cases h
            exact absurd hc (by simpa [feed] using hstop)
          | cons p pre =>
            cases h
            exact .stopped pre d rfl hgo.2 hstop
        | failed err h hgo herr => exact .failed err (by simpa using h) hgo.2 herr
  · rintro ⟨cs, hm, hs, hend⟩
    refine ⟨c :: cs, take_cons_mapM ha hm, hs, ?_⟩
    cases r with
    | mk s' out =>
      cases hend with
      | all h hgo => exact .all (by simpa using h) ⟨hc, hgo⟩
      | stopped pre d h hgo hstop => exact .stopped (c :: pre) d (by rw [h]; rfl) ⟨hc, hgo⟩ hstop
      | failed err h hgo herr => exact .failed err (by simpa using h) ⟨hc, hgo⟩ herr

/-- The loop ends exactly where a run ends. -/
theorem drive_eq_iff {as : List α} {s : σ} {r : σ × Except ε Unit} :
    drive produce consume as s = r ↔ RunsTo produce consume as s r := by
  induction as generalizing s with
  | nil =>
    rw [runsTo_nil]
    exact eq_comm
  | cons a as ih =>
    cases ha : produce a with
    | error err =>
      rw [runsTo_cons_of_error ha, drive, ha]
      exact eq_comm
    | ok c =>
      rw [drive, ha]
      cases hc : (consume s c).2 with
      | false =>
        rw [runsTo_cons_of_stop ha hc]
        simp only [hc, Bool.false_eq_true, if_false]
        exact eq_comm
      | true =>
        rw [runsTo_cons_of_go ha hc]
        simp only [hc, if_true]
        exact ih

/-- The loop fails exactly when it reaches a failing item before the consumer stops. -/
theorem drive_error_iff {as : List α} {s : σ} {err : ε} :
    (drive produce consume as s).2 = .error err ↔
      ∃ cs, (as.take cs.length).mapM produce = .ok cs ∧ KeepsGoing consume s cs ∧
        ∃ h : cs.length < as.length, produce as[cs.length] = .error err := by
  constructor
  · intro h
    obtain ⟨cs, hm, -, hend⟩ := drive_eq_iff.mp (rfl : drive produce consume as s = _)
    rw [h] at hend
    cases hend with
    | failed err hl hgo herr => exact ⟨cs, hm, hgo, hl, herr⟩
  · rintro ⟨cs, hm, hgo, hl, herr⟩
    have hrun : RunsTo produce consume as s (feed consume s cs, .error err) :=
      ⟨cs, hm, rfl, .failed err hl hgo herr⟩
    rw [drive_eq_iff.mpr hrun]

private theorem keepsGoing_of (hgo : ∀ s c, (consume s c).2 = true) (s : σ) (cs : List γ) :
    KeepsGoing consume s cs := by
  induction cs generalizing s with
  | nil => trivial
  | cons c cs ih => exact ⟨hgo s c, ih _⟩

/-- A consumer that always asks for more is fed every result, if no item fails. -/
theorem drive_eq_ok_iff (hgo : ∀ s c, (consume s c).2 = true) {as : List α} {s s' : σ} :
    drive produce consume as s = (s', .ok ()) ↔
      ∃ cs, as.mapM produce = .ok cs ∧ s' = feed consume s cs := by
  rw [drive_eq_iff]
  constructor
  · rintro ⟨cs, hm, hs, hend⟩
    cases hend with
    | all h =>
      rw [h, List.take_length] at hm
      exact ⟨cs, hm, hs⟩
    | stopped pre c h _ hstop =>
      rw [hgo] at hstop
      cases hstop
  · rintro ⟨cs, hm, rfl⟩
    have hl := (mapM_eq_ok.mp hm).length_eq
    exact ⟨cs, by rw [← hl, List.take_length, hm], rfl, .all hl.symm (keepsGoing_of hgo s cs)⟩

end ObDump.Base
