import Mathlib.Data.Set.Insert
import Mathlib.Logic.Function.Basic

/-!
# Versions over shared cells

Library `Base`. Versions of a structure lie in cells they share. One change at a time takes
cells that no version from `since` on uses, writes them, and is committed as the next version;
the cells it does without wait under its number. Whoever reads a version from `since` on finds
it as it was committed, whatever is written meanwhile.
-/

namespace ObDump.Base

universe u v

/-- The cells, the versions committed to them, and the change in progress: `queue` is what it
has not taken of `retired`, `fresh` what it has not taken of `unused`. -/
@[ext]
structure Versions (P : Type u) (C : Type v) where
  cells : P → C
  now : Nat
  since : Nat
  live : Nat → Set P
  kept : Nat → P → C
  retired : Nat → Set P
  unused : Set P
  queue : Nat → Set P
  pool : Set P
  fresh : Set P
  held : Set P
  dropped : Set P

namespace Versions

variable {P : Type u} {C : Type v}

/-! ### Operations -/

section

variable (s : Versions P C)

/-- The cells that wait under a number go to the pool. -/
def take (k : Nat) : Versions P C :=
  { s with
    since := max s.since k
    pool := s.pool ∪ s.queue k
    queue := Function.update s.queue k ∅ }

/-- The change gets cells. -/
def alloc (a : Set P) : Versions P C :=
  { s with pool := s.pool \ a, fresh := s.fresh \ a, held := s.held ∪ a }

/-- The change gives cells back. -/
def release (a : Set P) : Versions P C := { s with pool := s.pool ∪ a, held := s.held \ a }

/-- The change does without cells, of which it lets go of some. -/
def drop (a b : Set P) : Versions P C := { s with dropped := s.dropped ∪ a, held := s.held \ b }

/-- What waits after a commit: what was left in the queue and the pool, and the cells dropped. -/
def waiting (rest : Nat → Set P) (k : Nat) : Set P :=
  if k ≤ s.now then s.queue k ∪ rest k else if k = s.now + 1 then s.dropped else ∅

/-- The change becomes the next version. -/
def commit (next : Set P) (rest : Nat → Set P) : Versions P C where
  cells := s.cells
  now := s.now + 1
  since := s.since
  live := Function.update s.live (s.now + 1) next
  kept := Function.update s.kept (s.now + 1) s.cells
  retired := s.waiting rest
  unused := s.fresh
  queue := s.waiting rest
  pool := ∅
  fresh := s.fresh
  held := ∅
  dropped := ∅

/-- The change is given up. -/
def abort : Versions P C :=
  { s with queue := s.retired, pool := ∅, fresh := s.unused, held := ∅, dropped := ∅ }

end

/-! ### The invariant -/

/-- Not a cell that may be taken, now or later. -/
def Apart (s : Versions P C) (p : P) : Prop := p ∉ s.pool ∧ p ∉ s.fresh ∧ ∀ k, p ∉ s.queue k

/-- What holds between steps. -/
structure Inv (s : Versions P C) : Prop where
  since_le : s.since ≤ s.now
  intact : ∀ n, s.since ≤ n → n ≤ s.now → ∀ p ∈ s.live n, s.cells p = s.kept n p
  retired_le : ∀ k, ∀ p ∈ s.retired k, k ≤ s.now
  retired_live : ∀ k, ∀ p ∈ s.retired k, ∀ n, s.since ≤ n → n ≤ s.now → p ∈ s.live n → n < k
  retired_once : ∀ j k p, p ∈ s.retired j → p ∈ s.retired k → j = k
  retired_used : ∀ k, ∀ p ∈ s.retired k, p ∉ s.unused
  live_used : ∀ n, s.since ≤ n → n ≤ s.now → ∀ p ∈ s.live n, p ∉ s.unused
  queue_sub : ∀ k, s.queue k ⊆ s.retired k
  fresh_sub : s.fresh ⊆ s.unused
  pool_apart : ∀ p ∈ s.pool, p ∉ s.fresh ∧ ∀ k, p ∉ s.queue k
  pool_live : ∀ p ∈ s.pool, ∀ n, s.since ≤ n → n ≤ s.now → p ∉ s.live n
  held_live : ∀ p ∈ s.held, ∀ n, s.since ≤ n → n ≤ s.now → p ∉ s.live n
  held_apart : ∀ p ∈ s.held, s.Apart p
  dropped_apart : ∀ p ∈ s.dropped, s.Apart p

namespace Inv

variable {s t : Versions P C}

/-- The invariant of the same system, written in another way. -/
theorem of_eq (h : s.Inv) (ht : t = s) : t.Inv := ht ▸ h

/-- What waits is no part of the last version. -/
theorem retired_now (h : s.Inv) {k : Nat} {p : P} (hp : p ∈ s.retired k) : p ∉ s.live s.now := by
  intro hl
  have hlt := h.retired_live k p hp s.now h.since_le (Nat.le_refl _) hl
  have hle := h.retired_le k p hp
  omega

/-- Cells that may be taken are no part of a version still read. -/
theorem free_live (h : s.Inv) {p : P} (hp : p ∈ s.pool ∪ s.fresh) {n : Nat} (hn : s.since ≤ n)
    (hle : n ≤ s.now) : p ∉ s.live n := by
  cases hp with
  | inl hp => exact h.pool_live p hp n hn hle
  | inr hp => exact fun hl ↦ h.live_used n hn hle p hl (h.fresh_sub hp)

/-- A cell of the last version or of the change is not among those that wait or may be taken. -/
theorem used_apart (h : s.Inv) {p : P} (hp : p ∈ s.live s.now ∪ s.held) : s.Apart p := by
  cases hp with
  | inl hl =>
    refine ⟨fun hq ↦ ?_, fun hf ↦ ?_, fun k hk ↦ h.retired_now (h.queue_sub k hk) hl⟩
    · exact h.pool_live p hq s.now h.since_le (Nat.le_refl _) hl
    · exact h.live_used s.now h.since_le (Nat.le_refl _) p hl (h.fresh_sub hf)
  | inr hh => exact h.held_apart p hh

private theorem mem_taken {f : Nat → Set P} {k j : Nat} {p : P} :
    p ∈ Function.update f k ∅ j ↔ j ≠ k ∧ p ∈ f j := by
  by_cases hj : j = k
  · subst hj
    simp
  · simp [hj]

/-- Cells that wait under the number of a version go to the pool. -/
theorem take (h : s.Inv) {k : Nat} (hk : k ≤ s.now) : (s.take k).Inv := by
  have hmax : ∀ {n}, (s.take k).since ≤ n → s.since ≤ n := Nat.le_trans (Nat.le_max_left _ _)
  have hqueue : ∀ {j p}, p ∈ (s.take k).queue j → j ≠ k ∧ p ∈ s.queue j := mem_taken.mp
  have hapart : ∀ {p}, s.Apart p → (s.take k).Apart p := by
    intro p hp
    exact ⟨fun hc ↦ hc.elim hp.1 (hp.2.2 k), hp.2.1, fun j hj ↦ hp.2.2 j (hqueue hj).2⟩
  refine
    { since_le := Nat.max_le.mpr ⟨h.since_le, hk⟩
      intact := fun n hn ↦ h.intact n (hmax hn)
      retired_le := h.retired_le
      retired_live := fun j p hp n hn ↦ h.retired_live j p hp n (hmax hn)
      retired_once := h.retired_once
      retired_used := h.retired_used
      live_used := fun n hn ↦ h.live_used n (hmax hn)
      queue_sub := fun j p hp ↦ h.queue_sub j (hqueue hp).2
      fresh_sub := h.fresh_sub
      pool_apart := ?_
      pool_live := ?_
      held_live := fun p hp n hn ↦ h.held_live p hp n (hmax hn)
      held_apart := fun p hp ↦ hapart (h.held_apart p hp)
      dropped_apart := fun p hp ↦ hapart (h.dropped_apart p hp) }
  · rintro p (hp | hp)
    · obtain ⟨hfresh, hq⟩ := h.pool_apart p hp
      exact ⟨hfresh, fun j hj ↦ hq j (hqueue hj).2⟩
    · have hr := h.queue_sub k hp
      refine ⟨fun hf ↦ h.retired_used k p hr (h.fresh_sub hf), fun j hj ↦ (hqueue hj).1 ?_⟩
      exact h.retired_once j k p (h.queue_sub j (hqueue hj).2) hr
  · rintro p (hp | hp) n hn hle
    · exact h.pool_live p hp n (hmax hn) hle
    · -- a version still read is not older than the number the cell waited under
      intro hl
      have hlt := h.retired_live k p (h.queue_sub k hp) n (hmax hn) hle hl
      have hkn : k ≤ n := Nat.le_trans (Nat.le_max_right _ _) hn
      omega

/-- The change gets cells of the pool, or unused ones. -/
theorem alloc (h : s.Inv) {a : Set P} (ha : a ⊆ s.pool ∪ s.fresh) : (s.alloc a).Inv := by
  have hapart : ∀ {p}, s.Apart p → (s.alloc a).Apart p :=
    fun hp ↦ ⟨fun hc ↦ hp.1 hc.1, fun hc ↦ hp.2.1 hc.1, hp.2.2⟩
  refine
    { since_le := h.since_le
      intact := h.intact
      retired_le := h.retired_le
      retired_live := h.retired_live
      retired_once := h.retired_once
      retired_used := h.retired_used
      live_used := h.live_used
      queue_sub := h.queue_sub
      fresh_sub := fun _ hq ↦ h.fresh_sub hq.1
      pool_apart := fun q hq ↦ ⟨fun hf ↦ (h.pool_apart q hq.1).1 hf.1, (h.pool_apart q hq.1).2⟩
      pool_live := fun q hq ↦ h.pool_live q hq.1
      held_live := ?_
      held_apart := ?_
      dropped_apart := fun p hp ↦ hapart (h.dropped_apart p hp) }
  · rintro p (hp | hp) n hn hle
    · exact h.held_live p hp n hn hle
    · exact h.free_live (ha hp) hn hle
  · rintro p (hp | hp)
    · exact hapart (h.held_apart p hp)
    · refine ⟨fun hc ↦ hc.2 hp, fun hc ↦ hc.2 hp, fun k hc ↦ ?_⟩
      cases ha hp with
      | inl hq => exact (h.pool_apart p hq).2 k hc
      | inr hf => exact h.retired_used k p (h.queue_sub k hc) (h.fresh_sub hf)

/-- The change gives cells back. -/
theorem release (h : s.Inv) {a : Set P} (ha : a ⊆ s.held) (hd : ∀ p ∈ a, p ∉ s.dropped) :
    (s.release a).Inv :=
  { h with
    pool_apart := by
      rintro p (hp | hp)
      · exact h.pool_apart p hp
      · exact (h.held_apart p (ha hp)).2
    pool_live := by
      rintro p (hp | hp)
      · exact h.pool_live p hp
      · exact h.held_live p (ha hp)
    held_live := fun p hp ↦ h.held_live p hp.1
    held_apart := by
      intro p hp
      obtain ⟨hpool, hrest⟩ := h.held_apart p hp.1
      exact ⟨fun hc ↦ hc.elim hpool hp.2, hrest⟩
    dropped_apart := by
      intro p hp
      obtain ⟨hpool, hrest⟩ := h.dropped_apart p hp
      exact ⟨fun hc ↦ hc.elim hpool fun hc ↦ hd p hc hp, hrest⟩ }

/-- The change writes to its own cells only. -/
theorem write (h : s.Inv) (cells : P → C) (hc : ∀ p, p ∉ s.held → cells p = s.cells p) :
    Inv { s with cells := cells } :=
  { h with
    intact := by
      intro n hn hle p hp
      have hheld : p ∉ s.held := fun hh ↦ h.held_live p hh n hn hle hp
      exact (hc p hheld).trans (h.intact n hn hle p hp) }

/-- What a version is taken to be committed with matters on its cells only. -/
theorem keep (h : s.Inv) (kept : Nat → P → C)
    (hk : ∀ n, s.since ≤ n → n ≤ s.now → ∀ p ∈ s.live n, s.cells p = kept n p) :
    Inv { s with kept := kept } :=
  { h with intact := hk }

/-- The change lets go of cells of the last version, or of its own. -/
theorem drop (h : s.Inv) {a b : Set P} (ha : a ⊆ s.live s.now ∪ s.held) : (s.drop a b).Inv :=
  { h with
    held_live := fun p hp ↦ h.held_live p hp.1
    held_apart := fun p hp ↦ h.held_apart p hp.1
    dropped_apart := by
      rintro p (hp | hp)
      · exact h.dropped_apart p hp
      · exact h.used_apart (ha hp) }

/-- The change is given up. -/
theorem abort (h : s.Inv) : s.abort.Inv :=
  { h with
    queue_sub := fun _ ↦ Set.Subset.rfl
    fresh_sub := Set.Subset.rfl
    pool_apart := fun p hp ↦ (Set.notMem_empty p hp).elim
    pool_live := fun p hp ↦ (Set.notMem_empty p hp).elim
    held_live := fun p hp ↦ (Set.notMem_empty p hp).elim
    held_apart := fun p hp ↦ (Set.notMem_empty p hp).elim
    dropped_apart := fun p hp ↦ (Set.notMem_empty p hp).elim }

/-- Where a cell that waits after a commit comes from. -/
theorem mem_waiting {rest : Nat → Set P} {k : Nat} {p : P} (hp : p ∈ s.waiting rest k) :
    k ≤ s.now ∧ (p ∈ s.queue k ∨ p ∈ rest k) ∨ k = s.now + 1 ∧ p ∈ s.dropped := by
  unfold waiting at hp
  by_cases hk : k ≤ s.now
  · rw [if_pos hk] at hp
    exact .inl ⟨hk, hp⟩
  · rw [if_neg hk] at hp
    by_cases hk' : k = s.now + 1
    · rw [if_pos hk'] at hp
      exact .inr ⟨hk', hp⟩
    · rw [if_neg hk'] at hp
      exact (Set.notMem_empty p hp).elim

/-- The change becomes the next version. -/
theorem commit (h : s.Inv) (next : Set P) (rest : Nat → Set P)
    (hnext : next ⊆ (s.live s.now ∪ s.held) \ s.dropped) (hrest : ∀ k, rest k ⊆ s.pool)
    (honce : ∀ j k p, p ∈ rest j → p ∈ rest k → j = k) : (s.commit next rest).Inv := by
  have hlive : ∀ n, n ≤ s.now → (s.commit next rest).live n = s.live n :=
    fun n hn ↦ Function.update_of_ne (by omega) _ _
  have hkept : ∀ n, n ≤ s.now → (s.commit next rest).kept n = s.kept n :=
    fun n hn ↦ Function.update_of_ne (by omega) _ _
  have hlast : (s.commit next rest).live (s.now + 1) = next := Function.update_self _ _ _
  -- nothing that waits is part of the new version
  have hapart : ∀ k, ∀ p ∈ s.waiting rest k, p ∉ next := by
    intro k p hp hn
    obtain ⟨hpool, -, hqueue⟩ := h.used_apart (hnext hn).1
    obtain ⟨-, hq | hr⟩ | ⟨-, hd⟩ := mem_waiting hp
    · exact hqueue k hq
    · exact hpool (hrest k hr)
    · exact (hnext hn).2 hd
  have hle : ∀ n, n ≤ s.now + 1 → n ≤ s.now ∨ n = s.now + 1 := by omega
  refine
    { since_le := Nat.le_succ_of_le h.since_le
      intact := ?_
      retired_le := ?_
      retired_live := ?_
      retired_once := ?_
      retired_used := ?_
      live_used := ?_
      queue_sub := fun k ↦ Set.Subset.rfl
      fresh_sub := Set.Subset.rfl
      pool_apart := fun p hp ↦ (Set.notMem_empty p hp).elim
      pool_live := fun p hp ↦ (Set.notMem_empty p hp).elim
      held_live := fun p hp ↦ (Set.notMem_empty p hp).elim
      held_apart := fun p hp ↦ (Set.notMem_empty p hp).elim
      dropped_apart := fun p hp ↦ (Set.notMem_empty p hp).elim }
  · intro n hs hn p hp
    obtain hn | rfl := hle n hn
    · rw [hlive n hn] at hp
      rw [hkept n hn]
      exact h.intact n hs hn p hp
    · show s.cells p = Function.update s.kept (s.now + 1) s.cells (s.now + 1) p
      rw [Function.update_self]
  · intro k p hp
    obtain ⟨hk, -⟩ | ⟨hk, -⟩ := mem_waiting hp
    · exact Nat.le_succ_of_le hk
    · exact Nat.le_of_eq hk
  · intro k p hp n hs hn hl
    obtain hn | rfl := hle n hn
    · rw [hlive n hn] at hl
      obtain ⟨-, hq | hr⟩ | ⟨rfl, -⟩ := mem_waiting hp
      · exact h.retired_live k p (h.queue_sub k hq) n hs hn hl
      · exact absurd hl (h.pool_live p (hrest k hr) n hs hn)
      · omega
    · rw [hlast] at hl
      exact absurd hl (hapart k p hp)
  · intro j k p hj hk
    obtain ⟨hjn, hq | hr⟩ | ⟨rfl, hd⟩ := mem_waiting hj
    · obtain ⟨-, hq' | hr'⟩ | ⟨-, hd'⟩ := mem_waiting hk
      · exact h.retired_once j k p (h.queue_sub j hq) (h.queue_sub k hq')
      · exact absurd hq ((h.pool_apart p (hrest k hr')).2 j)
      · exact absurd hq ((h.dropped_apart p hd').2.2 j)
    · obtain ⟨-, hq' | hr'⟩ | ⟨-, hd'⟩ := mem_waiting hk
      · exact absurd hq' ((h.pool_apart p (hrest j hr)).2 k)
      · exact honce j k p hr hr'
      · exact absurd (hrest j hr) (h.dropped_apart p hd').1
    · obtain ⟨-, hq' | hr'⟩ | ⟨rfl, -⟩ := mem_waiting hk
      · exact absurd hq' ((h.dropped_apart p hd).2.2 k)
      · exact absurd (hrest k hr') (h.dropped_apart p hd).1
      · rfl
  · intro k p hp hf
    obtain ⟨-, hq | hr⟩ | ⟨-, hd⟩ := mem_waiting hp
    · exact h.retired_used k p (h.queue_sub k hq) (h.fresh_sub hf)
    · exact (h.pool_apart p (hrest k hr)).1 hf
    · exact (h.dropped_apart p hd).2.1 hf
  · intro n hs hn p hp hf
    obtain hn | rfl := hle n hn
    · rw [hlive n hn] at hp
      exact h.live_used n hs hn p hp (h.fresh_sub hf)
    · rw [hlast] at hp
      exact (h.used_apart (hnext hp).1).2.1 hf

end Inv

end Versions

end ObDump.Base
