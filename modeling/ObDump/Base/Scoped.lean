import ObDump.Base.Handles

/-!
# Scopes of handles

Library `Base`. Computations that open handles and release them in `finally` clauses. Such a
computation mirrors one without handles when it ends as that one does, in the same state, and
leaves on its trace a part after which the same handles are open as before it. The rules follow
the shape of the code: a part without handles, a sequence, a scope of handles, and a call that
opens a handle when it returns zero.
-/

namespace ObDump.Base

/-- A computation on a state that may throw. -/
abbrev Plain (σ ε : Type) : Type → Type := ExceptT ε (StateM σ)

/-- Such a computation with a trace of handles. -/
abbrev Traced (H σ ε : Type) : Type → Type := ExceptT ε (StateM (List (HandleEvent H) × σ))

section

variable {H σ ε α β : Type}

namespace Traced

/-- A part that opens and closes nothing. -/
def silent (y : Plain σ ε α) : Traced H σ ε α := fun w ↦
  let r := y w.2
  (r.1, (w.1, r.2))

instance : MonadLift (Plain σ ε) (Traced H σ ε) := ⟨silent⟩

/-- Events are added to the trace. -/
def emit (es : List (HandleEvent H)) : Traced H σ ε Unit := fun w ↦ (.ok (), (w.1 ++ es, w.2))

/-- Handles are opened, the first one first. -/
def acquire (hs : List H) : Traced H σ ε Unit := emit (hs.map .opened)

/-- Handles are closed, the first one first. -/
def release (hs : List H) : Traced H σ ε Unit := emit (hs.map .closed)

/-- A call that opens a handle when it returns zero. -/
def create (rc : Int) (h : H) : Traced H σ ε Int := do
  if rc = 0 then acquire [h]
  pure rc

/-- A run of a sequence, by the run of its first part. -/
theorem bind_apply {ρ : Type} (x : ExceptT ε (StateM ρ) α)
    (f : α → ExceptT ε (StateM ρ) β) (s : ρ) :
    (x >>= f) s = (x s).1.casesOn (fun e ↦ (.error e, (x s).2)) fun a ↦ f a (x s).2 := by
  show ExceptT.bindCont f (x s).1 (x s).2 = _
  cases (x s).1 <;> rfl

/-- A run that ends with events in a `finally` clause. -/
theorem finally_apply (x : Traced H σ ε α) (es : List (HandleEvent H))
    (w : List (HandleEvent H) × σ) :
    (tryFinally x (emit es)) w = ((x w).1, ((x w).2.1 ++ es, (x w).2.2)) := by
  show tryFinally (fun _ ↦ x w : Traced H σ ε α) (emit es) w = _
  cases x w with
  | mk r w' => cases r <;> rfl

end Traced

/-! ### Balanced parts of a trace -/

/-- The handles a trace opens. -/
def openings (trace : List (HandleEvent H)) : List H :=
  trace.filterMap fun e ↦
    match e with
    | .opened h => some h
    | .closed _ => none

@[simp] private theorem openings_append (s t : List (HandleEvent H)) :
    openings (s ++ t) = openings s ++ openings t := List.filterMap_append

@[simp] private theorem openings_map_opened (hs : List H) : openings (hs.map .opened) = hs := by
  rw [openings, List.filterMap_map]
  exact List.filterMap_some

@[simp] private theorem openings_map_closed (hs : List H) : openings (hs.map .closed) = [] := by
  rw [openings, List.filterMap_map]
  exact List.filterMap_none hs

/-- An opened handle is among the openings, as often. -/
theorem count_openings [DecidableEq H] (trace : List (HandleEvent H)) (h : H) :
    (openings trace).count h = trace.count (.opened h) := by
  induction trace with
  | nil => rfl
  | cons e trace ih =>
    cases e with
    | opened k =>
      have hk : openings (.opened k :: trace) = k :: openings trace := rfl
      rw [hk, List.count_cons, List.count_cons, ih]
      simp only [beq_iff_eq, HandleEvent.opened.injEq]
    | closed k =>
      have hk : openings (.closed k :: trace) = openings trace := rfl
      rw [hk, List.count_cons_of_ne (by simp), ih]

variable (parent : H → Option H) (ok : H → Prop)

/-- A part of a trace that leaves open what was open before it. It opens handles of a list, each
at most once, and only such as may be opened. -/
structure Balanced [DecidableEq H] (opens new : List H) (trace : List (HandleEvent H)) : Prop where
  returns : Ledger.run parent opens trace = some opens
  once : (openings trace).Sublist new
  allowed : ∀ h ∈ openings trace, ok h

/-- Handles that can be opened and then closed in one order: new ones, under open parents, and
parents of none that is open. -/
structure Fresh (opens hs : List H) : Prop where
  nodup : hs.Nodup
  unopened : ∀ h ∈ hs, h ∉ opens
  parents : ∀ h ∈ hs, ∀ p ∈ parent h, p ∈ opens
  leaves : ∀ h ∈ hs, ∀ c ∈ hs ++ opens, parent c ≠ some h

variable {parent ok} {opens new new' hs : List H}

private theorem Fresh.tail {h : H} (hf : Fresh parent opens (h :: hs)) :
    Fresh parent opens hs where
  nodup := (List.nodup_cons.mp hf.nodup).2
  unopened k hk := hf.unopened k (List.mem_cons_of_mem h hk)
  parents k hk := hf.parents k (List.mem_cons_of_mem h hk)
  leaves k hk c hc := hf.leaves k (List.mem_cons_of_mem h hk) c (List.mem_cons_of_mem h hc)

variable [DecidableEq H]

private theorem Fresh.run_acquire {more : List H} (hf : Fresh parent opens hs)
    (hmore : ∀ h ∈ hs, h ∉ more) :
    Ledger.run parent (more ++ opens) (hs.map .opened) = some (hs.reverse ++ (more ++ opens)) := by
  -- Which other handles are open does not matter.
  induction hs generalizing more with
  | nil => rfl
  | cons h hs ih =>
    have hnew : h ∉ more ++ opens := by
      rw [List.mem_append]
      rintro (hm | ho)
      · exact hmore h List.mem_cons_self hm
      · exact hf.unopened h List.mem_cons_self ho
    have hp : ∀ p ∈ parent h, p ∈ more ++ opens := fun p hp ↦
      List.mem_append_right more (hf.parents h List.mem_cons_self p hp)
    have hrest : ∀ k ∈ hs, k ∉ h :: more := by
      intro k hk
      rw [List.mem_cons]
      rintro (rfl | hm)
      · exact (List.nodup_cons.mp hf.nodup).1 hk
      · exact hmore k (List.mem_cons_of_mem h hk) hm
    rw [List.map_cons, Ledger.run_cons, Ledger.step_opened hnew hp, Option.bind_some,
      ← List.cons_append, ih hf.tail hrest, List.reverse_cons, List.append_assoc]
    rfl

private theorem Fresh.run_release (hf : Fresh parent opens hs) :
    Ledger.run parent (hs.reverse ++ opens) (hs.map .closed) = some opens := by
  induction hs with
  | nil => rfl
  | cons h hs ih =>
    have hopen : h ∈ (h :: hs).reverse ++ opens :=
      List.mem_append_left opens (List.mem_reverse.mpr List.mem_cons_self)
    have hc : ∀ c ∈ (h :: hs).reverse ++ opens, parent c ≠ some h := by
      intro c hc
      apply hf.leaves h List.mem_cons_self
      simpa only [List.mem_append, List.mem_reverse] using hc
    have hnot : h ∉ hs.reverse := fun hr ↦
      (List.nodup_cons.mp hf.nodup).1 (List.mem_reverse.mp hr)
    rw [List.map_cons, Ledger.run_cons, Ledger.step_closed hopen hc, Option.bind_some,
      List.reverse_cons, List.append_assoc, List.erase_append_right _ hnot]
    show Ledger.run parent (hs.reverse ++ (h :: opens).erase h) _ = _
    rw [List.erase_cons_head]
    exact ih hf.tail

namespace Balanced

/-- The empty part. -/
theorem nil : Balanced parent ok opens [] [] where
  returns := rfl
  once := List.Sublist.refl []
  allowed _ hm := absurd hm List.not_mem_nil

/-- One part after another. -/
theorem append {s t : List (HandleEvent H)} (hs : Balanced parent ok opens new s)
    (ht : Balanced parent ok opens new' t) : Balanced parent ok opens (new ++ new') (s ++ t) where
  returns := by
    rw [Ledger.run_append, hs.returns]
    exact ht.returns
  once := by
    rw [openings_append]
    exact hs.once.append ht.once
  allowed h hm := by
    rw [openings_append, List.mem_append] at hm
    exact hm.elim (hs.allowed h) (ht.allowed h)

/-- A part that may open more. -/
theorem mono {trace : List (HandleEvent H)} (hb : Balanced parent ok opens new trace)
    (hsub : new.Sublist new') : Balanced parent ok opens new' trace :=
  ⟨hb.returns, hb.once.trans hsub, hb.allowed⟩

/-- A part between the opening and the closing of fresh handles. -/
theorem bracket {trace : List (HandleEvent H)} (hf : Fresh parent opens hs) (hok : ∀ h ∈ hs, ok h)
    (hb : Balanced parent ok (hs.reverse ++ opens) new trace) :
    Balanced parent ok opens (hs ++ new) (hs.map .opened ++ trace ++ hs.map .closed) where
  returns := by
    have hopen : Ledger.run parent ([] ++ opens) (hs.map .opened) =
        some (hs.reverse ++ ([] ++ opens)) := hf.run_acquire fun _ _ ↦ List.not_mem_nil
    rw [List.nil_append] at hopen
    rw [List.append_assoc, Ledger.run_append, hopen, Option.bind_some, Ledger.run_append,
      hb.returns, Option.bind_some]
    exact hf.run_release
  once := by
    rw [openings_append, openings_append, openings_map_opened, openings_map_closed,
      List.append_nil]
    exact hb.once.append_left hs
  allowed h hm := by
    rw [openings_append, openings_append, openings_map_opened, openings_map_closed,
      List.append_nil, List.mem_append] at hm
    exact hm.elim (hok h) (hb.allowed h)

/-- A balanced part on its own is released, opens a handle at most once, and only such as may
be opened. -/
theorem released {trace : List (HandleEvent H)} (hb : Balanced parent ok [] new trace)
    (hnew : new.Nodup) :
    Ledger.Released parent trace ∧ ∀ h, trace.count (.opened h) ≤ 1 ∧
      (.opened h ∈ trace → ok h) := by
  refine ⟨hb.returns, fun h ↦ ⟨?_, fun hm ↦ hb.allowed h ?_⟩⟩
  · rw [← count_openings]
    exact List.nodup_iff_count_le_one.mp (hb.once.nodup hnew) h
  · rw [← List.count_pos_iff, count_openings]
    exact List.count_pos_iff.mpr hm

end Balanced

/-! ### Mirrored computations -/

variable (parent ok opens new) in
/-- The computation with handles ends as the one without, with a balanced trace. -/
def Mirrors (x : Traced H σ ε α) (y : Plain σ ε α) : Prop :=
  ∀ (trace : List (HandleEvent H)) (s : σ), ∃ t,
    x (trace, s) = ((y s).1, (trace ++ t, (y s).2)) ∧ Balanced parent ok opens new t

namespace Mirrors

open Traced

/-- A part without handles. -/
theorem lift (y : Plain σ ε α) :
    Mirrors parent ok opens [] (liftM y : Traced H σ ε α) y := by
  intro trace s
  refine ⟨[], ?_, Balanced.nil⟩
  rw [List.append_nil]
  rfl

/-- A part that only may throw. -/
theorem liftExcept (y : Except ε α) :
    Mirrors parent ok opens [] (liftM y : Traced H σ ε α) (liftM y) :=
  lift (liftM y : Plain σ ε α)

/-- A computation that may open more. -/
theorem mono {x : Traced H σ ε α} {y : Plain σ ε α} (h : Mirrors parent ok opens new x y)
    (hsub : new.Sublist new') : Mirrors parent ok opens new' x y := by
  intro trace s
  obtain ⟨t, hx, ht⟩ := h trace s
  exact ⟨t, hx, ht.mono hsub⟩

/-- A sequence. -/
theorem bind {x : Traced H σ ε α} {y : Plain σ ε α} {f : α → Traced H σ ε β}
    {g : α → Plain σ ε β} (h : Mirrors parent ok opens new x y)
    (hf : ∀ a, Mirrors parent ok opens new' (f a) (g a)) :
    Mirrors parent ok opens (new ++ new') (x >>= f) (y >>= g) := by
  intro trace s
  obtain ⟨t, hx, ht⟩ := h trace s
  rw [bind_apply y g, bind_apply x f, hx]
  cases (y s).1 with
  | error e => exact ⟨t, rfl, ht.mono (List.sublist_append_left new new')⟩
  | ok a =>
    obtain ⟨t', hx', ht'⟩ := hf a (trace ++ t) (y s).2
    refine ⟨t ++ t', ?_, ht.append ht'⟩
    rw [← List.append_assoc]
    exact hx'

/-- A part that only may throw, before others. -/
theorem liftExcept_bind {f : α → Traced H σ ε β} {g : α → Plain σ ε β} (y : Except ε α)
    (hf : ∀ a, Mirrors parent ok opens new (f a) (g a)) :
    Mirrors parent ok opens new ((liftM y : Traced H σ ε α) >>= f) (liftM y >>= g) :=
  (liftExcept y).bind hf

/-- A scope of fresh handles. -/
theorem scope {x : Traced H σ ε α} {y : Plain σ ε α} (hf : Fresh parent opens hs)
    (hok : ∀ h ∈ hs, ok h) (h : Mirrors parent ok (hs.reverse ++ opens) new x y) :
    Mirrors parent ok opens (hs ++ new) (acquire hs >>= fun _ ↦ tryFinally x (release hs)) y := by
  intro trace s
  obtain ⟨t, hx, ht⟩ := h (trace ++ hs.map .opened) s
  refine ⟨hs.map .opened ++ t ++ hs.map .closed, ?_, ht.bracket hf hok⟩
  show tryFinally x (emit (hs.map .closed)) (trace ++ hs.map .opened, s) = _
  rw [finally_apply, hx]
  simp only [List.append_assoc]

/-- A scope before others. -/
theorem scope_bind {x : Traced H σ ε α} {y : Plain σ ε α} {f : α → Traced H σ ε β}
    {g : α → Plain σ ε β} (hf : Fresh parent opens hs) (hok : ∀ h ∈ hs, ok h)
    (h : Mirrors parent ok (hs.reverse ++ opens) new x y)
    (hg : ∀ a, Mirrors parent ok opens new' (f a) (g a)) :
    Mirrors parent ok opens (hs ++ new ++ new')
      (acquire hs >>= fun _ ↦ tryFinally x (release hs) >>= f) (y >>= g) := by
  rw [← bind_assoc]
  exact (scope hf hok h).bind hg

/-- A call that opens a handle when it returns zero, a test that throws unless it did, and the
scope of the handle. -/
theorem call {x : Traced H σ ε α} {y : Plain σ ε α} {test : Int → Except ε Unit} {rc : Int}
    {h : H} (htest : ∀ rc, test rc = .ok () ↔ rc = 0) (hf : Fresh parent opens [h])
    (hok : rc = 0 → ok h) (hin : Mirrors parent ok (h :: opens) new x y) :
    Mirrors parent ok opens (h :: new)
      (create rc h >>= fun rc ↦ (liftM (test rc) : Traced H σ ε Unit) >>= fun _ ↦
        tryFinally x (release [h]))
      (liftM (test rc) >>= fun _ ↦ y) := by
  intro trace s
  cases hrc : test rc with
  | ok u =>
    have hzero : rc = 0 := (htest rc).mp hrc
    obtain ⟨t, hx, ht⟩ := scope hf (fun k hk ↦ List.mem_singleton.mp hk ▸ hok hzero) hin trace s
    refine ⟨t, ?_, ht⟩
    rw [create, if_pos hzero]
    show ((liftM (test rc) : Traced H σ ε Unit) >>= fun _ ↦ tryFinally x (release [h]))
      (trace ++ [.opened h], s) = _
    rw [hrc]
    exact hx
  | error e =>
    have hne : rc ≠ 0 := by
      intro hzero
      rw [(htest rc).mpr hzero] at hrc
      cases hrc
    refine ⟨[], ?_, Balanced.nil.mono (List.nil_sublist _)⟩
    rw [create, if_neg hne, List.append_nil]
    show ((liftM (test rc) : Traced H σ ε Unit) >>= fun _ ↦ tryFinally x (release [h]))
      (trace, s) = _
    rw [hrc]
    rfl

end Mirrors

end

end ObDump.Base
