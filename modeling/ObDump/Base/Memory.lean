import Mathlib

/-!
# Words in blocks

Library `Base`. Memory as blocks of words, with pointers into them. Reading and writing fail
outside a block, so that a computation that succeeds has kept to what is allocated. What a
pointer sees is a function of the index, and writes through it are updates of that function.
-/

namespace ObDump.Base

/-- A block and a place in it. -/
structure Ptr where
  blk : Nat
  off : Nat

/-- The pointer `i` words further. -/
def Ptr.add (p : Ptr) (i : Nat) : Ptr := ⟨p.blk, p.off + i⟩

/-- The words of all blocks; a block is as large as its size says, and those from `next` on are
not in use. -/
@[ext]
structure Mem where
  next : Nat
  size : Nat → Nat
  words : Nat → Nat → Nat

namespace Mem

/-- A word read; nothing outside the block. -/
def load (m : Mem) (p : Ptr) (i : Nat) : Option Nat :=
  if p.off + i < m.size p.blk then some (m.words p.blk (p.off + i)) else none

/-- A word written; nothing outside the block. -/
def store (m : Mem) (p : Ptr) (i v : Nat) : Option Mem :=
  if p.off + i < m.size p.blk then
    some
      { m with
        words := Function.update m.words p.blk
          (Function.update (m.words p.blk) (p.off + i) v) }
  else none

/-- A new block of `n` words, which hold anything. -/
def malloc (m : Mem) (n : Nat) (data : Nat → Nat) : Mem × Ptr :=
  ({ next := m.next + 1
     size := Function.update m.size m.next n
     words := Function.update m.words m.next data }, ⟨m.next, 0⟩)

/-- The words of a block in a new one of `n` words, with anything behind them; the old one is no
longer in use. -/
def realloc (m : Mem) (p : Ptr) (n : Nat) (data : Nat → Nat) : Mem × Ptr :=
  ({ next := m.next + 1
     size := Function.update (Function.update m.size p.blk 0) m.next n
     words := Function.update m.words m.next fun i ↦
       if i < m.size p.blk then m.words p.blk i else data i }, ⟨m.next, 0⟩)

/-- The words from a pointer on. -/
def view (m : Mem) (p : Ptr) (i : Nat) : Nat := m.words p.blk (p.off + i)

/-- Other words from a pointer on, to the end of its block. -/
def write (m : Mem) (p : Ptr) (f : Nat → Nat) : Mem :=
  { m with
    words := Function.update m.words p.blk fun j ↦
      if p.off ≤ j then f (j - p.off) else m.words p.blk j }

/-- The words from a pointer up to index `n` are allocated. -/
def Holds (m : Mem) (p : Ptr) (n : Nat) : Prop := p.off + n < m.size p.blk

section

variable {m : Mem} {p q : Ptr} {n i v : Nat} {f g : Nat → Nat}

/-- A block that has room has room for less. -/
theorem Holds.mono (h : m.Holds p n) {k : Nat} (hk : k ≤ n) : m.Holds p k :=
  Nat.lt_of_le_of_lt (Nat.add_le_add_left hk _) h

/-- The room further into a block. -/
theorem Holds.add (h : m.Holds p n) {d k : Nat} (hk : d + k ≤ n) : m.Holds (p.add d) k := by
  unfold Holds Ptr.add
  unfold Holds at h
  show p.off + d + k < m.size p.blk
  omega

/-- Writing leaves the room as it is. -/
@[simp] theorem holds_write : (m.write p f).Holds q n ↔ m.Holds q n := Iff.rfl

/-- A load within the room gives what is seen there. -/
theorem load_eq (h : m.Holds p n) (hi : i ≤ n) : m.load p i = some (m.view p i) :=
  if_pos (show p.off + i < m.size p.blk from h.mono hi)

/-- The words of a block after a write. -/
theorem words_write {b j : Nat} : (m.write p f).words b j =
    if b = p.blk ∧ p.off ≤ j then f (j - p.off) else m.words b j := by
  by_cases hb : b = p.blk
  · subst hb
    simp only [write, Function.update_self, true_and]
  · simp only [write, Function.update_of_ne hb, hb, false_and, if_false]

private theorem ext_words {m m' : Mem} (hn : m.next = m'.next) (hs : m.size = m'.size)
    (h : ∀ b j, m.words b j = m'.words b j) : m = m' :=
  Mem.ext hn hs (funext fun b ↦ funext fun j ↦ h b j)

/-- What was written is seen. -/
@[simp] theorem view_write : (m.write p f).view p = f := by
  funext i
  rw [view, words_write, if_pos ⟨rfl, Nat.le_add_right _ _⟩, Nat.add_sub_cancel_left]

/-- Writing what is there changes nothing. -/
@[simp] theorem write_view : m.write p (m.view p) = m := by
  refine ext_words rfl rfl ?_
  intro b j
  rw [words_write]
  by_cases hj : b = p.blk ∧ p.off ≤ j
  · rw [if_pos hj, view, Nat.add_sub_cancel' hj.2, hj.1]
  · rw [if_neg hj]

@[simp] private theorem write_write : (m.write p f).write p g = m.write p g := by
  refine ext_words rfl rfl ?_
  intro b j
  simp only [words_write]
  by_cases hj : b = p.blk ∧ p.off ≤ j
  · rw [if_pos hj, if_pos hj]
  · rw [if_neg hj, if_neg hj, if_neg hj]

/-- What was written is loaded. -/
theorem load_write (h : m.Holds p n) (hi : i ≤ n) : (m.write p f).load p i = some (f i) := by
  rw [load_eq (holds_write.mpr h) hi, view_write]

/-- A store within the room is a write of one place. -/
theorem store_eq (h : m.Holds p n) (hi : i ≤ n) :
    m.store p i v = some (m.write p (Function.update (m.view p) i v)) := by
  have hin : p.off + i < m.size p.blk := h.mono hi
  unfold store
  rw [if_pos hin]
  apply congrArg some
  refine ext_words rfl rfl ?_
  intro b j
  rw [words_write]
  by_cases hb : b = p.blk
  · subst hb
    simp only [Function.update_self, true_and]
    by_cases hj : p.off ≤ j
    · obtain ⟨k, rfl⟩ := Nat.exists_eq_add_of_le hj
      rw [if_pos hj, Nat.add_sub_cancel_left]
      by_cases hk : k = i
      · rw [hk, Function.update_self, Function.update_self]
      · rw [Function.update_of_ne hk, Function.update_of_ne (by omega)]
        rfl
    · rw [if_neg hj, Function.update_of_ne (by omega)]
  · simp only [Function.update_of_ne hb, hb, false_and, if_false]

/-- A store after a write is one write. -/
theorem store_write (h : m.Holds p n) (hi : i ≤ n) :
    (m.write p f).store p i v = some (m.write p (Function.update f i v)) := by
  rw [store_eq (holds_write.mpr h) hi, view_write, write_write]

/-- A load through a pointer moved on. -/
theorem load_add {d : Nat} : m.load (p.add d) i = m.load p (d + i) := by
  simp only [load, Ptr.add, Nat.add_assoc]

/-- A store through a pointer moved on. -/
theorem store_add {d : Nat} : m.store (p.add d) i v = m.store p (d + i) v := by
  simp only [store, Ptr.add, Nat.add_assoc]

/-- What another pointer sees of a write. -/
theorem view_write_of_ne (h : q.blk ≠ p.blk) : (m.write p f).view q = m.view q := by
  funext i
  rw [view, words_write, if_neg (fun hc ↦ h hc.1)]
  rfl

/-- What was written is seen through a pointer moved on. -/
theorem view_write_add {d : Nat} : (m.write p f).view (p.add d) i = f (d + i) := by
  unfold view Ptr.add
  rw [words_write, if_pos ⟨rfl, show p.off ≤ p.off + d + i by omega⟩]
  apply congrArg
  show p.off + d + i - p.off = d + i
  omega

/-- A write further on is one from the start. -/
theorem write_add {d : Nat} :
    m.write (p.add d) g = m.write p fun i ↦ if i < d then m.view p i else g (i - d) := by
  refine ext_words rfl rfl ?_
  intro b j
  rw [words_write, words_write]
  show (if b = p.blk ∧ p.off + d ≤ j then g (j - (p.off + d)) else _) = _
  by_cases hb : b = p.blk
  · subst hb
    simp only [true_and]
    by_cases hj : p.off ≤ j
    · obtain ⟨k, rfl⟩ := Nat.exists_eq_add_of_le hj
      rw [if_pos hj, Nat.add_sub_cancel_left]
      by_cases hk : k < d
      · rw [if_neg (by omega), if_pos hk]
        rfl
      · rw [if_pos (by omega), if_neg hk]
        apply congrArg
        omega
    · rw [if_neg (by omega), if_neg hj]
  · rw [if_neg (fun hc ↦ hb hc.1), if_neg (fun hc ↦ hb hc.1)]

/-! ### New blocks -/

section

variable {data : Nat → Nat}

/-- A new block has the room asked for. -/
@[simp] theorem size_malloc : (m.malloc n data).1.size m.next = n := Function.update_self _ _ _

/-- A block moved has the room asked for. -/
@[simp] theorem size_realloc : (m.realloc p n data).1.size m.next = n :=
  Function.update_self _ _ _

/-- The words of the old block are in the new one. -/
theorem words_realloc (hi : i < m.size p.blk) :
    (m.realloc p n data).1.words m.next i = m.words p.blk i := by
  have hblock : (m.realloc p n data).1.words m.next =
      fun i ↦ if i < m.size p.blk then m.words p.blk i else data i := Function.update_self _ _ _
  rw [hblock]
  exact if_pos hi

end

end

/-! ### What stays -/

/-- The blocks in use, except perhaps one, are as they were. -/
structure Keeps (m m' : Mem) (blk : Nat) : Prop where
  next : m.next ≤ m'.next
  size : ∀ b, b < m.next → b ≠ blk → m'.size b = m.size b
  words : ∀ b, b < m.next → b ≠ blk → m'.words b = m.words b

namespace Keeps

variable {m m' m'' : Mem} {p q : Ptr} {blk blk' n : Nat} {f : Nat → Nat}

/-- A memory keeps what it holds. -/
theorem refl (m : Mem) (blk : Nat) : m.Keeps m blk :=
  ⟨Nat.le_refl _, fun _ _ _ ↦ rfl, fun _ _ _ ↦ rfl⟩

/-- Then one that was not in use before may change. -/
theorem trans (h : m.Keeps m' blk) (h' : m'.Keeps m'' blk') (hb : blk' = blk ∨ m.next ≤ blk') :
    m.Keeps m'' blk where
  next := Nat.le_trans h.next h'.next
  size := by
    intro b hlt hne
    rw [h'.size b (Nat.lt_of_lt_of_le hlt h.next) (by omega), h.size b hlt hne]
  words := by
    intro b hlt hne
    rw [h'.words b (Nat.lt_of_lt_of_le hlt h.next) (by omega), h.words b hlt hne]

/-- A write keeps the other blocks. -/
theorem write (m : Mem) (p : Ptr) (f : Nat → Nat) : m.Keeps (m.write p f) p.blk where
  next := Nat.le_refl _
  size := fun _ _ _ ↦ rfl
  words := fun _ _ hne ↦ Function.update_of_ne hne _ _

/-- A new block leaves the others. -/
theorem malloc (m : Mem) (n : Nat) (data : Nat → Nat) : m.Keeps (m.malloc n data).1 m.next where
  next := Nat.le_succ _
  size := fun _ _ hne ↦ Function.update_of_ne hne _ _
  words := fun _ _ hne ↦ Function.update_of_ne hne _ _

/-- A block moved leaves the others. -/
theorem realloc (m : Mem) (p : Ptr) (n : Nat) (data : Nat → Nat) :
    m.Keeps (m.realloc p n data).1 p.blk where
  next := Nat.le_succ _
  size := by
    intro b hb hne
    show Function.update (Function.update m.size p.blk 0) m.next n b = m.size b
    rw [Function.update_of_ne (Nat.ne_of_lt hb), Function.update_of_ne hne]
  words := fun _ hb _ ↦ Function.update_of_ne (Nat.ne_of_lt hb) _ _

/-- The other blocks keep their room. -/
theorem holds (h : m.Keeps m' blk) (hq : q.blk < m.next) (hne : q.blk ≠ blk) :
    m'.Holds q n ↔ m.Holds q n := by
  unfold Holds
  rw [h.size q.blk hq hne]

/-- The other blocks keep their words. -/
theorem view (h : m.Keeps m' blk) (hq : q.blk < m.next) (hne : q.blk ≠ blk) :
    m'.view q = m.view q := by
  funext i
  exact congrFun (h.words q.blk hq hne) _

end Keeps

end Mem

end ObDump.Base
