import Mathlib

/-!
# Successful runs of fallible code

Library `Base`. Inversion of sequencing and of loops in `Except`: a run that succeeds
is a run whose every step succeeded.
-/

namespace ObDump.Base

universe u v w

variable {ε : Type u} {α : Type v} {β : Type v}

/-- A sequence succeeds exactly when its parts do. -/
theorem bind_eq_ok {x : Except ε α} {f : α → Except ε β} {r : β} :
    (x >>= f) = .ok r ↔ ∃ a, x = .ok a ∧ f a = .ok r := by
  cases x with
  | error e =>
    refine ⟨fun h ↦ (by cases h), ?_⟩
    rintro ⟨a, ha, -⟩
    cases ha
  | ok a =>
    refine ⟨fun h ↦ ⟨a, rfl, h⟩, ?_⟩
    rintro ⟨b, hb, h⟩
    cases hb
    exact h

/-- A sequence fails exactly when one of its parts does. -/
theorem bind_eq_error {x : Except ε α} {f : α → Except ε β} {e : ε} :
    (x >>= f) = .error e ↔ x = .error e ∨ ∃ a, x = .ok a ∧ f a = .error e := by
  cases x with
  | error e' =>
    constructor
    · intro h
      cases h
      exact .inl rfl
    · rintro (h | ⟨a, ha, -⟩)
      · cases h
        rfl
      · cases ha
  | ok a =>
    refine ⟨fun h ↦ .inr ⟨a, rfl, h⟩, ?_⟩
    rintro (h | ⟨b, hb, h⟩)
    · cases h
    · cases hb
      exact h

/-- A pure result in the middle of a sequence. -/
@[simp] theorem ok_bind (a : α) (f : α → Except ε β) : (Except.ok a >>= f) = f a := rfl

/-- An error ends a sequence. -/
@[simp] theorem error_bind (e : ε) (f : α → Except ε β) :
    ((Except.error e : Except ε α) >>= f) = .error e := rfl

/-- A run with one possible result, mapped. -/
theorem map_eq_ok_of {x : Except ε α} {f : α → β} {P : Prop} {v : α} {r : β}
    (h : ∀ a, x = .ok a ↔ P ∧ a = v) : x.map f = .ok r ↔ P ∧ r = f v := by
  cases x with
  | error e =>
    apply iff_of_false
    · intro hr
      cases hr
    · rintro ⟨hP, -⟩
      cases (h v).mpr ⟨hP, rfl⟩
  | ok a =>
    have ha := (h a).mp rfl
    rw [ha.2]
    constructor
    · intro hr
      cases hr
      exact ⟨ha.1, rfl⟩
    · rintro ⟨-, rfl⟩
      rfl

/-- A loop over a list succeeds exactly when each step does, and yields their results. -/
theorem mapM_eq_ok {f : α → Except ε β} {l : List α} {r : List β} :
    l.mapM f = .ok r ↔ List.Forall₂ (fun a b ↦ f a = .ok b) l r := by
  induction l generalizing r with
  | nil =>
    rw [List.mapM_nil]
    constructor
    · intro h
      cases h
      exact .nil
    · intro h
      cases h
      rfl
  | cons a l ih =>
    rw [List.mapM_cons, bind_eq_ok]
    constructor
    · rintro ⟨b, hb, h⟩
      obtain ⟨bs, hbs, hr⟩ := bind_eq_ok.mp h
      cases hr
      exact .cons hb (ih.mp hbs)
    · intro h
      cases h with
      | @cons _ b _ bs hb hbs => exact ⟨b, hb, bind_eq_ok.mpr ⟨bs, ih.mpr hbs, rfl⟩⟩

/-- A loop that fails has a step that fails with its error. -/
theorem exists_of_foldlM_eq_error {f : β → α → Except ε β} {l : List α} {s : β} {e : ε}
    (h : l.foldlM f s = .error e) : ∃ a ∈ l, ∃ s', f s' a = .error e := by
  induction l generalizing s with
  | nil => cases h
  | cons a l ih =>
    rw [List.foldlM_cons] at h
    rcases bind_eq_error.mp h with ha | ⟨s', -, hl⟩
    · exact ⟨a, List.mem_cons_self, s, ha⟩
    · obtain ⟨b, hb, hf⟩ := ih hl
      exact ⟨b, List.mem_cons_of_mem _ hb, hf⟩

/-- A loop succeeds when each of its steps does. -/
theorem exists_mapM_eq_ok {f : α → Except ε β} {l : List α} (h : ∀ a ∈ l, ∃ b, f a = .ok b) :
    ∃ r, l.mapM f = .ok r := by
  induction l with
  | nil => exact ⟨[], rfl⟩
  | cons a l ih =>
    obtain ⟨b, hb⟩ := h a List.mem_cons_self
    obtain ⟨r, hr⟩ := ih fun x hx ↦ h x (List.mem_cons_of_mem _ hx)
    exact ⟨b :: r, mapM_eq_ok.mpr (.cons hb (mapM_eq_ok.mp hr))⟩

/-- A loop with partial steps succeeds when each of them does. -/
theorem exists_mapM_eq_some {f : α → Option β} {l : List α} (h : ∀ a ∈ l, ∃ b, f a = some b) :
    ∃ r, l.mapM f = some r := by
  induction l with
  | nil => exact ⟨[], rfl⟩
  | cons a l ih =>
    obtain ⟨b, hb⟩ := h a List.mem_cons_self
    obtain ⟨r, hr⟩ := ih fun x hx ↦ h x (List.mem_cons_of_mem _ hx)
    exact ⟨b :: r, by simp [List.mapM_cons, hb, hr]⟩

/-- In related lists every element on the right has a partner on the left. -/
theorem exists_of_forall₂ {α β : Type*} {R : α → β → Prop} {l : List α} {r : List β}
    (h : List.Forall₂ R l r) {b : β} (hb : b ∈ r) : ∃ a ∈ l, R a b := by
  induction h with
  | nil => simp at hb
  | cons hab _ ih =>
    rcases List.mem_cons.mp hb with rfl | hb
    · exact ⟨_, List.mem_cons_self, hab⟩
    · obtain ⟨a, ha, hr⟩ := ih hb
      exact ⟨a, List.mem_cons_of_mem _ ha, hr⟩

/-- A rearrangement of the left list goes with one of the right list. -/
theorem exists_perm_of_forall₂_left {α β : Type*} {R : α → β → Prop} {l l' : List α} {r : List β}
    (h : List.Forall₂ R l r) (hp : l'.Perm l) : ∃ r', r'.Perm r ∧ List.Forall₂ R l' r' := by
  obtain ⟨r', hr', hp'⟩ := List.perm_comp_forall₂ hp h
  exact ⟨r', hp', hr'⟩

/-- In lists related twice every element on the left has a partner it is related to both ways. -/
theorem exists_and_of_forall₂ {α β : Type*} {R S : α → β → Prop} {l : List α} {r : List β}
    (h : List.Forall₂ R l r) (h' : List.Forall₂ S l r) {a : α} (ha : a ∈ l) :
    ∃ b ∈ r, R a b ∧ S a b := by
  induction h with
  | nil => cases ha
  | cons hab _ ih =>
    cases h' with
    | cons hab' h' =>
      rcases List.mem_cons.mp ha with rfl | ha
      · exact ⟨_, List.mem_cons_self, hab, hab'⟩
      · obtain ⟨b, hb, hR⟩ := ih h' ha
        exact ⟨b, List.mem_cons_of_mem _ hb, hR⟩

/-- Of related lists, where another relation holds of a related pair exactly when its left
element is of some kind. -/
theorem forall₂_iff_of_forall₂ {α β : Type*} {R S : α → β → Prop} {P : α → Prop} {l : List α}
    {r : List β} (h : List.Forall₂ R l r) (hS : ∀ a b, R a b → (S a b ↔ P a)) :
    List.Forall₂ S l r ↔ ∀ a ∈ l, P a := by
  induction h with
  | nil => simp
  | cons hab _ ih => rw [List.forall₂_cons, hS _ _ hab, ih, List.forall_mem_cons]

/-- Where each element on the left of related lists has a partner in another way, the list has
partners in that way. -/
theorem exists_forall₂_of_forall₂ {α β γ : Type*} {R : α → β → Prop} {S : α → γ → Prop}
    {l : List α} {r : List β} (h : List.Forall₂ R l r) (hS : ∀ a b, R a b → ∃ c, S a c) :
    ∃ m, List.Forall₂ S l m := by
  induction h with
  | nil => exact ⟨[], .nil⟩
  | cons hab _ ih =>
    obtain ⟨c, hc⟩ := hS _ _ hab
    obtain ⟨m, hm⟩ := ih
    exact ⟨c :: m, .cons hc hm⟩

/-- Two lists related to a third, completed to a square when each element's relations are. -/
theorem exists_forall₂_square {α β γ δ : Type*} {R : α → β → Prop} {S : α → γ → Prop}
    {R' : γ → δ → Prop} {S' : β → δ → Prop} {l : List α} {r : List β} {m : List γ}
    (h : List.Forall₂ R l r) (h' : List.Forall₂ S l m)
    (hsquare : ∀ a b c, R a b → S a c → ∃ d, R' c d ∧ S' b d) :
    ∃ n, List.Forall₂ R' m n ∧ List.Forall₂ S' r n := by
  induction h' generalizing r with
  | nil =>
    cases h
    exact ⟨[], .nil, .nil⟩
  | cons hac _ ih =>
    cases h with
    | cons hab hrest =>
      obtain ⟨d, hcd, hbd⟩ := hsquare _ _ _ hab hac
      obtain ⟨n, hmn, hrn⟩ := ih hrest
      exact ⟨d :: n, .cons hcd hmn, .cons hbd hrn⟩

/-- A rearrangement of the right list goes with one of the left list. -/
theorem exists_perm_of_forall₂ {α β : Type*} {R : α → β → Prop} {l : List α} {r r' : List β}
    (h : List.Forall₂ R l r) (hp : r'.Perm r) : ∃ l', l'.Perm l ∧ List.Forall₂ R l' r' := by
  obtain ⟨l', hl', hf⟩ := exists_perm_of_forall₂_left h.flip hp
  exact ⟨l', hl', hf.flip⟩

/-- Every result of a successful loop comes from some element. -/
theorem mem_of_mapM_eq_ok {f : α → Except ε β} {l : List α} {r : List β}
    (h : l.mapM f = .ok r) {b : β} (hb : b ∈ r) : ∃ a ∈ l, f a = .ok b :=
  exists_of_forall₂ (mapM_eq_ok.mp h) hb

/-- A loop over indices with partial steps succeeds exactly with the results of all of them. -/
theorem mapM_range_eq_some {f : Nat → Option α} {n : Nat} {l : List α} :
    (List.range n).mapM f = some l ↔
      l.length = n ∧ ∀ i (h : i < l.length), f i = some l[i] := by
  induction n generalizing f l with
  | zero =>
    cases l with
    | nil => simp
    | cons => simp
  | succ n ih =>
    rw [List.range_succ_eq_map, List.mapM_cons, List.mapM_map]
    simp only [Option.bind_eq_bind, Option.bind_eq_some_iff, ih]
    constructor
    · rintro ⟨a, ha, t, ⟨hl, ht⟩, h⟩
      cases h
      refine ⟨by simp [hl], fun i hi ↦ ?_⟩
      cases i with
      | zero => exact ha
      | succ i => exact ht i (by simpa using hi)
    · rintro ⟨hl, h⟩
      cases l with
      | nil => simp at hl
      | cons a t =>
        refine ⟨a, h 0 (by simp), t, ⟨by simpa using hl, fun i hi ↦ ?_⟩, rfl⟩
        exact h (i + 1) (by simpa using hi)

/-! ### Runs that agree unless both fail -/

section

variable {ε : Type u} {α β : Type v}

/-- The same result, or two failures with whatever errors. -/
def Agree (x y : Except ε α) : Prop :=
  (∃ a, x = .ok a ∧ y = .ok a) ∨ (∃ e, x = .error e) ∧ ∃ e, y = .error e

/-- A result agrees with itself. -/
theorem Agree.refl (x : Except ε α) : Agree x x := by
  cases x with
  | error e => exact .inr ⟨⟨e, rfl⟩, e, rfl⟩
  | ok a => exact .inl ⟨a, rfl, rfl⟩

/-- Runs with the same successful results agree. -/
theorem agree_of_ok_iff {x y : Except ε α} (h : ∀ a, x = .ok a ↔ y = .ok a) : Agree x y := by
  cases x with
  | ok a => exact .inl ⟨a, rfl, (h a).mp rfl⟩
  | error e =>
    cases y with
    | ok a => cases (h a).mpr rfl
    | error e' => exact .inr ⟨⟨e, rfl⟩, e', rfl⟩

/-- Agreement goes through the rest of a computation. -/
theorem Agree.bind {x y : Except ε α} (h : Agree x y) {f g : α → Except ε β}
    (hfg : ∀ a, Agree (f a) (g a)) : Agree (x >>= f) (y >>= g) := by
  rcases h with ⟨a, rfl, rfl⟩ | ⟨⟨e, rfl⟩, e', rfl⟩
  · exact hfg a
  · exact .inr ⟨⟨e, rfl⟩, e', rfl⟩

/-- Runs with a state that agree: in the state too when they succeed. -/
def AgreeWith {σ : Type*} (x y : σ × Except ε α) : Prop :=
  x = y ∨ (∃ e, x.2 = .error e) ∧ ∃ e, y.2 = .error e

/-- Where the two differ both have failed. -/
theorem AgreeWith.eq_or_errors {σ : Type*} {x y : σ × Except ε α} (h : AgreeWith x y) :
    x = y ∨ ∃ s e s' e', x = (s, .error e) ∧ y = (s', .error e') := by
  rcases h with heq | ⟨⟨e, he⟩, e', he'⟩
  · exact .inl heq
  · exact .inr ⟨x.1, e, y.1, e', Prod.ext rfl he, Prod.ext rfl he'⟩

/-- Failures agree, whatever their states and errors. -/
theorem agreeWith_errors {σ : Type*} (s s' : σ) (e e' : ε) :
    AgreeWith (s, (.error e : Except ε α)) (s', .error e') := .inr ⟨⟨e, rfl⟩, e', rfl⟩

end

end ObDump.Base
