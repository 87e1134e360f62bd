import Mathlib

/-!
# Handle ledgers

Library `Base`. A trace of handles opened and closed, checked against a ledger of the handles
that are open. A handle is opened while its parent is open and closed once, while none of its
children is open; a trace is released when the ledger accepts it and ends empty.
-/

namespace ObDump.Base

universe u

/-- What happens to a handle. -/
inductive HandleEvent (H : Type u) where
  | opened (h : H)
  | closed (h : H)
  deriving DecidableEq, Repr

namespace Ledger

variable {H : Type u} [DecidableEq H] (parent : H → Option H)

/-- The open handles after an event, newest first; nothing for an event that is not allowed. -/
def step (opens : List H) : HandleEvent H → Option (List H)
  | .opened h =>
    if h ∉ opens ∧ ∀ p ∈ parent h, p ∈ opens then some (h :: opens) else none
  | .closed h =>
    if h ∈ opens ∧ ∀ c ∈ opens, parent c ≠ some h then some (opens.erase h) else none

/-- The open handles after a trace. -/
def run (opens : List H) (trace : List (HandleEvent H)) : Option (List H) :=
  trace.foldlM (step parent) opens

/-- Every handle of the trace is opened and then closed once, children before their parent. -/
def Released (trace : List (HandleEvent H)) : Prop := run parent [] trace = some []

instance (trace : List (HandleEvent H)) : Decidable (Released parent trace) :=
  inferInstanceAs (Decidable (run parent [] trace = some []))

variable {parent} {opens : List H}

@[simp] private theorem run_nil : run parent opens [] = some opens := rfl

/-- A trace in two parts. -/
theorem run_append (s t : List (HandleEvent H)) :
    run parent opens (s ++ t) = (run parent opens s).bind fun o ↦ run parent o t :=
  List.foldlM_append

/-- A trace by its first event. -/
theorem run_cons (e : HandleEvent H) (t : List (HandleEvent H)) :
    run parent opens (e :: t) = (step parent opens e).bind fun o ↦ run parent o t :=
  List.foldlM_cons

/-- A handle that is not open opens under its open parent. -/
theorem step_opened {h : H} (hnew : h ∉ opens) (hp : ∀ p ∈ parent h, p ∈ opens) :
    step parent opens (.opened h) = some (h :: opens) := if_pos ⟨hnew, hp⟩

/-- An open handle without open children closes. -/
theorem step_closed {h : H} (hopen : h ∈ opens) (hc : ∀ c ∈ opens, parent c ≠ some h) :
    step parent opens (.closed h) = some (opens.erase h) := if_pos ⟨hopen, hc⟩

/-- A handle with an open child does not close. -/
theorem step_closed_of_child {h c : H} (hopen : c ∈ opens) (hc : parent c = some h) :
    step parent opens (.closed h) = none := by
  apply if_neg
  rintro ⟨-, hall⟩
  exact hall c hopen hc

/-- A handle opened before a part of a trace and closed after it leaves what the part leaves. -/
theorem run_bracket {h : H} {leaked : List H} {trace : List (HandleEvent H)}
    (hnew : h ∉ opens) (hp : ∀ p ∈ parent h, p ∈ opens) (hleaf : ∀ c, parent c ≠ some h)
    (hrun : run parent (h :: opens) trace = some (leaked ++ h :: opens)) (hl : h ∉ leaked) :
    run parent opens (.opened h :: (trace ++ [.closed h])) = some (leaked ++ opens) := by
  have hopen : h ∈ leaked ++ h :: opens := List.mem_append_right leaked List.mem_cons_self
  rw [run_cons, step_opened hnew hp, Option.bind_some, run_append, hrun, Option.bind_some,
    run_cons, step_closed hopen fun c _ ↦ hleaf c, Option.bind_some, run_nil,
    List.erase_append_right _ hl, List.erase_cons_head]

private theorem count_run {trace : List (HandleEvent H)} {opens' : List H}
    (hrun : run parent opens trace = some opens') (h : H) :
    opens'.count h + trace.count (.closed h) = opens.count h + trace.count (.opened h) := by
  induction trace generalizing opens with
  | nil =>
    cases hrun
    rfl
  | cons e trace ih =>
    rw [run_cons] at hrun
    obtain ⟨o, hstep, hrest⟩ := Option.bind_eq_some_iff.mp hrun
    have hcount := ih hrest
    cases e with
    | opened k =>
      simp only [step] at hstep
      split_ifs at hstep
      cases hstep
      simp only [List.count_cons, beq_iff_eq, HandleEvent.opened.injEq, reduceCtorEq, if_false,
        Nat.add_zero] at hcount ⊢
      omega
    | closed k =>
      simp only [step] at hstep
      split_ifs at hstep with hk
      cases hstep
      have hpos : 0 < opens.count k := List.count_pos_iff.mpr hk.1
      simp only [List.count_cons, List.count_erase, beq_iff_eq, HandleEvent.closed.injEq,
        reduceCtorEq, if_false, Nat.add_zero] at hcount ⊢
      split_ifs at hcount ⊢ with hkh
      · subst hkh
        omega
      · omega

/-- In a released trace every handle is closed as often as it is opened. -/
theorem Released.count_eq {trace : List (HandleEvent H)} (hr : Released parent trace) (h : H) :
    trace.count (.closed h) = trace.count (.opened h) := by
  simpa using count_run hr h

end Ledger

end ObDump.Base
