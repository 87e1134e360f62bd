import Mathlib

/-!
# Cursors over a list

Library `Base`. A cursor before its first move, on an element, or in the gap before an index.
A move has a target index and stays where it is when there is no such element. A machine whose
steps follow such moves delivers the elements of the list in order, forwards or backwards.
-/

namespace ObDump.Base

universe u v w

/-- Where a cursor is: nowhere yet, on an element, or between an element and the one before. -/
inductive Position
  | unset
  | on (i : Nat)
  | gap (i : Nat)
  deriving DecidableEq, Repr

namespace Position

/-- The index a forward move goes to. -/
def next : Position → Nat
  | unset => 0
  | on i => i + 1
  | gap i => i

/-- How many of `n` elements lie before the cursor; all of them before its first move. -/
def ahead (n : Nat) : Position → Nat
  | unset => n
  | on i => i
  | gap i => i

/-- The index a backward move goes to, or `n` when there is none. -/
def prev (n : Nat) (p : Position) : Nat := if p.ahead n = 0 then n else p.ahead n - 1

/-- A cursor not yet placed goes to the first element. -/
@[simp] theorem next_unset : next unset = 0 := rfl

/-- From an element the cursor goes to the one after it. -/
@[simp] theorem next_on (i : Nat) : (on i).next = i + 1 := rfl

/-- From a gap the cursor goes to the element behind it. -/
@[simp] theorem next_gap (i : Nat) : (gap i).next = i := rfl

/-- Before a cursor not yet placed lies the whole list. -/
@[simp] theorem ahead_unset (n : Nat) : ahead n unset = n := rfl

/-- Before a cursor on an element lie those of smaller index. -/
@[simp] theorem ahead_on (n i : Nat) : (on i).ahead n = i := rfl

/-- Before a gap lie the elements of smaller index. -/
@[simp] theorem ahead_gap (n i : Nat) : (gap i).ahead n = i := rfl

end Position

section

variable {α : Type u}

/-- Where a move to a target index ends. -/
def landing (l : List α) (p : Position) (target : Nat) : Position :=
  if target < l.length then .on target else p

/-- A move to an element lands there. -/
theorem landing_of_lt {l : List α} {target : Nat} (p : Position) (h : target < l.length) :
    landing l p target = .on target := if_pos h

/-- A move past the end leaves the cursor where it is. -/
theorem landing_of_le {l : List α} {target : Nat} (p : Position) (h : l.length ≤ target) :
    landing l p target = p := if_neg (Nat.not_lt.mpr h)

end

/-! ### Walks of a machine -/

section

variable {σ : Type u} {α : Type v} {ε : Type w}

/-- One operation called until it fails: the elements delivered, and the failure. -/
inductive Delivers (step : σ → Option (σ × Except ε α)) : σ → List α → ε → Prop
  | stop {s s' : σ} {e : ε} : step s = some (s', .error e) → Delivers step s [] e
  | more {s s' : σ} {a : α} {as : List α} {e : ε} :
    step s = some (s', .ok a) → Delivers step s' as e → Delivers step s (a :: as) e

/-- An operation that starts a walk, then another one until it fails. -/
inductive Walk (start step : σ → Option (σ × Except ε α)) : σ → List α → ε → Prop
  | stop {s s' : σ} {e : ε} : start s = some (s', .error e) → Walk start step s [] e
  | more {s s' : σ} {a : α} {as : List α} {e : ε} :
    start s = some (s', .ok a) → Delivers step s' as e → Walk start step s (a :: as) e

variable {start step : σ → Option (σ × Except ε α)} {s : σ} {as as' : List α} {e e' : ε}

/-- A machine delivers one sequence only. -/
theorem Delivers.unique (h : Delivers step s as e) (h' : Delivers step s as' e') :
    as = as' ∧ e = e' := by
  induction h generalizing as' with
  | stop hs =>
    cases h' with
    | stop hs' =>
      simp only [hs, Option.some.injEq, Prod.mk.injEq, Except.error.injEq] at hs'
      exact ⟨rfl, hs'.2⟩
    | more hs' _ => simp [hs] at hs'
  | more hs _ ih =>
    cases h' with
    | stop hs' => simp [hs] at hs'
    | more hs' hd =>
      simp only [hs, Option.some.injEq, Prod.mk.injEq, Except.ok.injEq] at hs'
      obtain ⟨rfl, rfl⟩ := hs'
      obtain ⟨rfl, rfl⟩ := ih hd
      exact ⟨rfl, rfl⟩

/-- A walk has one outcome. -/
theorem Walk.unique (h : Walk start step s as e) (h' : Walk start step s as' e') :
    as = as' ∧ e = e' := by
  cases h with
  | stop hs =>
    cases h' with
    | stop hs' =>
      simp only [hs, Option.some.injEq, Prod.mk.injEq, Except.error.injEq] at hs'
      exact ⟨rfl, hs'.2⟩
    | more hs' _ => simp [hs] at hs'
  | more hs hd =>
    cases h' with
    | stop hs' => simp [hs] at hs'
    | more hs' hd' =>
      simp only [hs, Option.some.injEq, Prod.mk.injEq, Except.ok.injEq] at hs'
      obtain ⟨rfl, rfl⟩ := hs'
      obtain ⟨rfl, rfl⟩ := hd.unique hd'
      exact ⟨rfl, rfl⟩

/-- A machine whose states stand for what is left to deliver, and whose steps deliver the first
of it, delivers all of it. -/
theorem delivers_of_simulation {τ : Type u} (R : σ → τ → Prop) (left : τ → List α)
    (hstep : ∀ s t, R s t →
      left t = [] ∧ (∃ s', step s = some (s', .error e)) ∨
        ∃ s' t' a, step s = some (s', .ok a) ∧ left t = a :: left t' ∧ R s' t') {t : τ}
    (h : R s t) : Delivers step s (left t) e := by
  induction hn : (left t).length generalizing s t with
  | zero =>
    obtain ⟨hl, s', hs⟩ | ⟨s', t', a, -, hl, -⟩ := hstep s t h
    · rw [hl]
      exact .stop hs
    · rw [hl] at hn
      simp at hn
  | succ n ih =>
    obtain ⟨hl, -⟩ | ⟨s', t', a, hs, hl, hr⟩ := hstep s t h
    · rw [hl] at hn
      simp at hn
    · rw [hl]
      rw [hl, List.length_cons] at hn
      exact .more hs (ih hr (by omega))

end

/-! ### Walks over a list -/

section

variable {σ : Type} {α : Type v} {ε : Type w} {l : List α} {R : σ → Position → Prop}
  {start step : σ → Option (σ × Except ε α)} {s : σ} {p : Position} {e : ε}

/-- A call follows a move: it delivers the element at the target, or fails in place. -/
def Follows (l : List α) (R : σ → Position → Prop) (e : ε) (r : Option (σ × Except ε α))
    (p : Position) (target : Nat) : Prop :=
  ∃ s', r = some (s', (l[target]?).elim (.error e) .ok) ∧ R s' (landing l p target)

/-- A move to an element, from what the call returns. -/
theorem Follows.of_lt {r : Option (σ × Except ε α)} {target : Nat} {a : α} {s' : σ}
    (ha : l[target]? = some a) (hr : r = some (s', .ok a)) (hR : R s' (.on target)) :
    Follows l R e r p target := by
  refine ⟨s', by rw [ha]; exact hr, ?_⟩
  rw [landing_of_lt p (List.getElem?_eq_some_iff.mp ha).1]
  exact hR

/-- A move past the end, from what the call returns. -/
theorem Follows.of_le {r : Option (σ × Except ε α)} {target : Nat} {s' : σ}
    (ht : l.length ≤ target) (hr : r = some (s', .error e)) (hR : R s' p) :
    Follows l R e r p target := by
  refine ⟨s', by rw [List.getElem?_eq_none ht]; exact hr, ?_⟩
  rw [landing_of_le p ht]
  exact hR

/-- Forward moves deliver what lies behind the position. -/
theorem delivers_next (hstep : ∀ s p, R s p → Follows l R e (step s) p p.next) (h : R s p) :
    Delivers step s (l.drop p.next) e := by
  apply delivers_of_simulation R (fun p ↦ l.drop p.next) _ h
  intro s p hR
  obtain ⟨s', hs, hR'⟩ := hstep s p hR
  by_cases hlt : p.next < l.length
  · rw [landing_of_lt p hlt] at hR'
    rw [List.getElem?_eq_getElem hlt] at hs
    exact .inr ⟨s', .on p.next, _, hs, List.drop_eq_getElem_cons hlt, hR'⟩
  · rw [List.getElem?_eq_none (Nat.not_lt.mp hlt)] at hs
    exact .inl ⟨List.drop_eq_nil_of_le (Nat.not_lt.mp hlt), s', hs⟩

/-- Backward moves deliver what lies before it, the nearest first. -/
theorem delivers_prev (hstep : ∀ s p, R s p → Follows l R e (step s) p (p.prev l.length))
    (hR : ∀ s p, R s p → p.ahead l.length ≤ l.length) (h : R s p) :
    Delivers step s (l.take (p.ahead l.length)).reverse e := by
  apply delivers_of_simulation R (fun p ↦ (l.take (p.ahead l.length)).reverse) _ h
  intro s p hp
  obtain ⟨s', hs, hR'⟩ := hstep s p hp
  have hle := hR s p hp
  by_cases h0 : p.ahead l.length = 0
  · rw [Position.prev, if_pos h0, List.getElem?_eq_none (Nat.le_refl _)] at hs
    refine .inl ⟨?_, s', hs⟩
    simp only [h0, List.take_zero, List.reverse_nil]
  · rw [Position.prev, if_neg h0] at hs hR'
    have hlt : p.ahead l.length - 1 < l.length := by omega
    rw [landing_of_lt p hlt] at hR'
    rw [List.getElem?_eq_getElem hlt] at hs
    refine .inr ⟨s', .on (p.ahead l.length - 1), _, hs, ?_, hR'⟩
    have hsucc : p.ahead l.length = p.ahead l.length - 1 + 1 := by omega
    dsimp only [Position.ahead_on]
    conv_lhs => rw [hsucc, List.take_succ_eq_append_getElem hlt, List.reverse_append]
    rfl

/-- A walk that starts at an index delivers the list from there on. -/
theorem walk_next {target : Nat} (hstart : Follows l R e (start s) p target)
    (hstep : ∀ s p, R s p → Follows l R e (step s) p p.next) :
    Walk start step s (l.drop target) e := by
  obtain ⟨s', hs, hR⟩ := hstart
  by_cases hlt : target < l.length
  · rw [List.getElem?_eq_getElem hlt] at hs
    rw [landing_of_lt p hlt] at hR
    rw [List.drop_eq_getElem_cons hlt]
    exact .more hs (delivers_next hstep hR)
  · rw [List.getElem?_eq_none (Nat.not_lt.mp hlt)] at hs
    rw [List.drop_eq_nil_of_le (Nat.not_lt.mp hlt)]
    exact .stop hs

/-- A walk that starts at the last element and goes back delivers the list reversed. -/
theorem walk_prev (hstart : Follows l R e (start s) p (l.length - 1))
    (hstep : ∀ s p, R s p → Follows l R e (step s) p (p.prev l.length))
    (hR : ∀ s p, R s p → p.ahead l.length ≤ l.length) : Walk start step s l.reverse e := by
  obtain ⟨s', hs, hR'⟩ := hstart
  by_cases hlt : l.length - 1 < l.length
  · rw [List.getElem?_eq_getElem hlt] at hs
    rw [landing_of_lt p hlt] at hR'
    have hl : l = l.take (l.length - 1) ++ [l[l.length - 1]] := by
      rw [← List.take_succ_eq_append_getElem hlt, List.take_of_length_le (by omega)]
    have hrev : l.reverse = l[l.length - 1] :: (l.take (l.length - 1)).reverse := by
      conv_lhs => rw [hl, List.reverse_append]
      rfl
    rw [hrev]
    exact .more hs (delivers_prev hstep hR hR')
  · obtain rfl : l = [] := List.eq_nil_of_length_eq_zero (by omega)
    exact .stop hs

end

end ObDump.Base
