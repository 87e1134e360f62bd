import ObDump.Lmdb.MidlSort

/-!
# Room in ID lists, and merging

Library `Lmdb`. A list as it lies in memory, with what there is room for; making room, and the
merge that starts from the last elements and ends at the mark put where the number stands.
-/

namespace ObDump.Lmdb

open Base

/-! ### Lists in memory -/

/-- A list of the block it is in, with room for so many elements. -/
structure Represents (m : Mem) (ids : Ptr) (room : Nat) (l : List Nat) : Prop where
  off : ids.off = 1
  size : m.size ids.blk = room + 2
  alloclen : m.words ids.blk 0 = room
  length : m.view ids 0 = l.length
  enough : l.length ≤ room
  elements : ascending (m.view ids) l.length = l
  used : ids.blk < m.next

namespace Represents

variable {m : Mem} {ids : Ptr} {room : Nat} {l : List Nat}

/-- A list has the room it is said to have. -/
theorem holds (h : Represents m ids room l) : m.Holds ids room := by
  show ids.off + room < m.size ids.blk
  rw [h.off, h.size]
  omega

/-- The room is read in front of the list. -/
theorem load_room (h : Represents m ids room l) : m.load (roomPtr ids) 0 = some room := by
  have hin : m.Holds (roomPtr ids) 0 := by
    show ids.off - 1 + 0 < m.size ids.blk
    rw [h.off, h.size]
    omega
  rw [Mem.load_eq hin (Nat.le_refl 0), Mem.view]
  show some (m.words ids.blk (ids.off - 1 + 0)) = some room
  rw [h.off]
  exact congrArg some h.alloclen

/-- The list is given other elements. -/
theorem write (h : Represents m ids room l) {f : Nat → Nat} {l' : List Nat}
    (hlen : f 0 = l'.length) (hle : l'.length ≤ room) (hl : ascending f l'.length = l') :
    Represents (m.write ids f) ids room l' where
  off := h.off
  size := h.size
  alloclen := by
    rw [Mem.words_write, if_neg (by rw [h.off]; omega)]
    exact h.alloclen
  length := by rw [Mem.view_write]; exact hlen
  enough := hle
  elements := by rw [Mem.view_write]; exact hl
  used := h.used

end Represents

/-! ### Making room -/

section

variable {m : Mem} {ids : Ptr} {room num : Nat} {l : List Nat}

/-- A block filled as a list. -/
theorem represents_write {b : Nat} {f : Nat → Nat} (hsize : m.size b = room + 2)
    (hb : b < m.next) (hroom : f 0 = room) (hlen : f 1 = l.length) (hle : l.length ≤ room)
    (hl : ascending (fun i ↦ f (1 + i)) l.length = l) :
    Represents (m.write ⟨b, 0⟩ f) ⟨b, 1⟩ room l where
  off := rfl
  size := hsize
  alloclen := by
    rw [Mem.words_write, if_pos ⟨rfl, Nat.le_refl 0⟩]
    exact hroom
  length := (Mem.view_write_add (p := ⟨b, 0⟩) (d := 1)).trans hlen
  enough := hle
  elements := by
    have hview : ∀ i, (m.write ⟨b, 0⟩ f).view ⟨b, 1⟩ i = f (1 + i) :=
      fun _ ↦ Mem.view_write_add (p := ⟨b, 0⟩) (d := 1)
    rw [ascending_congr fun i _ _ ↦ hview i]
    exact hl
  used := hb

/-- A new list has no elements. -/
theorem mdb_midl_alloc_spec (m : Mem) (num : Nat) (data : Nat → Nat) :
    ∃ m' ids, mdb_midl_alloc m num data = some (m', ids) ∧ Represents m' ids num [] ∧
      m.Keeps m' m.next ∧ ids.blk = m.next := by
  obtain ⟨m₁, hm₁⟩ : ∃ m₁, m₁ = (m.malloc (num + 2) data).1 := ⟨_, rfl⟩
  have hpair : m.malloc (num + 2) data = (m₁, ⟨m.next, 0⟩) := hm₁ ▸ rfl
  have hnext : m₁.next = m.next + 1 := hm₁ ▸ rfl
  have hsize : m₁.size m.next = num + 2 := hm₁ ▸ Mem.size_malloc
  have hholds : m₁.Holds ⟨m.next, 0⟩ 1 := by
    show 0 + 1 < m₁.size m.next
    omega
  have hkeeps : m.Keeps m₁ m.next := hm₁ ▸ Mem.Keeps.malloc m _ _
  obtain ⟨f, hf⟩ : ∃ f, f = Function.update (m₁.view ⟨m.next, 0⟩) 0 num := ⟨_, rfl⟩
  refine ⟨m₁.write ⟨m.next, 0⟩ (Function.update f 1 0), ⟨m.next, 1⟩, ?_, ?_, ?_, rfl⟩
  · simp only [mdb_midl_alloc, hpair, Mem.store_eq hholds (Nat.zero_le 1), ← hf,
      Mem.store_write hholds (Nat.le_refl 1), Option.bind_eq_bind, Option.bind_some]
    rfl
  · have hroom : Function.update f 1 0 0 = num := by
      rw [Function.update_of_ne (by omega), hf, Function.update_self]
    exact represents_write hsize (by omega) hroom (Function.update_self 1 0 f) (Nat.zero_le _) rfl
  · exact hkeeps.trans (Mem.Keeps.write m₁ _ _) (.inl rfl)

private theorem needed_spec (h : num < 2 ^ 31) : num + 2 ≤ needed num := by
  have hmod : (num + num / 4 + (256 + 2)) % 2 ^ 32 = num + num / 4 + (256 + 2) :=
    Nat.mod_eq_of_lt (by omega)
  rw [needed, hmod]
  omega

/-- In a new block with more room the list is the same one. -/
theorem Represents.realloc (h : Represents m ids room l) {size : Nat} {m₁ : Mem}
    (data : Nat → Nat) (hm₁ : m₁ = (m.realloc (roomPtr ids) size data).1)
    (hsize : room + 2 ≤ size) :
    Represents (m₁.write ⟨m.next, 0⟩ (Function.update (m₁.view ⟨m.next, 0⟩) 0 (size - 2)))
      ⟨m.next, 1⟩ (size - 2) l := by
  obtain ⟨f, hf⟩ : ∃ f, f = Function.update (m₁.view ⟨m.next, 0⟩) 0 (size - 2) := ⟨_, rfl⟩
  rw [← hf]
  have hold : ∀ i, i ≤ room → f (1 + i) = m.view ids i := by
    intro i hi
    have hin : 1 + i < m.size ids.blk := by
      rw [h.size]
      omega
    have hword : m₁.view ⟨m.next, 0⟩ (1 + i) = m.words ids.blk (1 + i) := by
      rw [Mem.view, Nat.zero_add, hm₁]
      exact Mem.words_realloc hin
    rw [hf, Function.update_of_ne (by omega), hword, Mem.view, h.off]
  have henough := h.enough
  have hnew : m₁.size m.next = size := hm₁ ▸ Mem.size_realloc
  have hnext : m₁.next = m.next + 1 := hm₁ ▸ rfl
  apply represents_write (by omega) (by omega)
  · rw [hf, Function.update_self]
  · exact (hold 0 (Nat.zero_le _)).trans h.length
  · omega
  · rw [ascending_congr fun i _ hi ↦ hold i (hi.trans henough)]
    exact h.elements

/-- The list is the same one, in this block or a new one, and has the room asked for. -/
theorem mdb_midl_need_spec (h : Represents m ids room l) (hn : num + l.length < 2 ^ 31)
    (data : Nat → Nat) :
    ∃ m' ids' room', mdb_midl_need m ids num data = some (m', ids') ∧
      Represents m' ids' room' l ∧ l.length + num ≤ room' ∧ m.Keeps m' ids.blk ∧
      (ids'.blk = ids.blk ∨ ids'.blk = m.next) := by
  have hlen : m.load ids 0 = some l.length := by
    rw [Mem.load_eq h.holds (Nat.zero_le _), h.length]
  have hroom : m.load (roomPtr ids) 0 = some room := h.load_room
  have hmod : (num + l.length) % 2 ^ 32 = num + l.length := Nat.mod_eq_of_lt (by omega)
  simp only [mdb_midl_need, hlen, hroom, hmod, Option.bind_eq_bind, Option.bind_some]
  by_cases hfull : room < num + l.length
  · rw [if_pos hfull]
    have hneeded := needed_spec hn
    obtain ⟨size, hs⟩ : ∃ size, size = needed (num + l.length) := ⟨_, rfl⟩
    rw [← hs] at hneeded ⊢
    obtain ⟨m₁, hm₁⟩ : ∃ m₁, m₁ = (m.realloc (roomPtr ids) size data).1 := ⟨_, rfl⟩
    have hpair : m.realloc (roomPtr ids) size data = (m₁, ⟨m.next, 0⟩) := hm₁ ▸ rfl
    have hholds : m₁.Holds ⟨m.next, 0⟩ 0 := by
      have hsize : m₁.size m.next = size := hm₁ ▸ Mem.size_realloc
      show 0 + 0 < m₁.size m.next
      omega
    have hkeeps : m.Keeps m₁ ids.blk := hm₁ ▸ Mem.Keeps.realloc m (roomPtr ids) _ _
    refine ⟨_, ⟨m.next, 1⟩, size - 2, ?_, h.realloc data hm₁ (by omega), by omega,
      hkeeps.trans (Mem.Keeps.write m₁ _ _) (.inr (Nat.le_refl _)), .inr rfl⟩
    simp only [hpair, Mem.store_eq hholds (Nat.le_refl 0), Option.bind_some]
    rfl
  · rw [if_neg hfull]
    exact ⟨m, ids, room, rfl, h, by omega, Mem.Keeps.refl _ _, .inl rfl⟩

end

/-! ### Merging -/

section

variable {f f₀ g : Nat → Nat} {m : Mem} {idl merge : Ptr} {n i j b top : Nat}

/-- Elements below the next one to merge are moved up, to where they stand in the end. -/
theorem moveUp_spec (h : m.Holds idl n) (hn : i + 1 + j ≤ n) (hmark : f 0 = maxId)
    (hb : b ≤ maxId) :
    ∃ j' f', moveUp idl b j (i + 1 + j) (f j) (m.write idl f) =
        some (j', i + 1 + j', f j', m.write idl f') ∧ j' ≤ j ∧
      (∀ x, x ≤ i + 1 + j' ∨ i + 1 + j < x → f' x = f x) ∧ b ≤ f j' ∧
      ∀ (A : List Nat) (g : Nat → Nat), (∀ x, i + 1 + j' < x → x ≤ i + 1 + j → g x = f' x) →
        ascending g (i + 1 + j') = (b :: A).merge (ascending f j') →
        ascending g (i + 1 + j) = (b :: A).merge (ascending f j) := by
  induction j generalizing f with
  | zero =>
    refine ⟨0, f, ?_, Nat.le_refl 0, fun _ _ ↦ rfl, hmark ▸ hb, fun _ _ _ h ↦ h⟩
    rw [moveUp, if_neg (by rw [hmark]; omega)]
  | succ j ih =>
    by_cases hlt : f (j + 1) < b
    · obtain ⟨f₁, hf₁⟩ : ∃ f₁, f₁ = Function.update f (i + 1 + (j + 1)) (f (j + 1)) := ⟨_, rfl⟩
      have hsame : ∀ x, x ≠ i + 1 + (j + 1) → f₁ x = f x := by
        intro x hx
        rw [hf₁, Function.update_of_ne hx]
      obtain ⟨j', f', hrun, hle, hkeep, hb', hmerge⟩ :=
        ih (f := f₁) (by omega) (by rw [hsame 0 (by omega)]; exact hmark)
      refine ⟨j', f', ?_, by omega, ?_, ?_, ?_⟩
      · rw [moveUp, if_pos hlt]
        simp only [Mem.store_write h hn, Option.bind_eq_bind, Option.bind_some, ← hf₁,
          Mem.load_write h (show j ≤ n by omega)]
        rw [show i + 1 + (j + 1) - 1 = i + 1 + j by omega, hrun, hsame j' (by omega)]
      · intro x hx
        rw [hkeep x (by omega)]
        exact hsame x (by omega)
      · rw [← hsame j' (by omega)]
        exact hb'
      · intro A g hg hlow
        have hlow' : ascending g (i + 1 + j') = (b :: A).merge (ascending f₁ j') := by
          rw [hlow, ascending_congr fun x _ hx ↦ (hsame x (by omega)).symm]
        have hrest := hmerge A g (fun x hx hxj ↦ hg x hx (by omega)) hlow'
        have htop : g (i + 1 + (j + 1)) = f (j + 1) := by
          rw [hg _ (by omega) (Nat.le_refl _), hkeep _ (.inr (by omega)), hf₁,
            Function.update_self]
        have hcut : ascending f₁ j = ascending f j :=
          ascending_congr fun x _ hx ↦ hsame x (by omega)
        show g (i + 1 + (j + 1)) :: ascending g (i + 1 + j) =
          (b :: A).merge (f (j + 1) :: ascending f j)
        rw [htop, hrest, hcut, List.cons_merge_cons_neg]
        simpa using hlt
    · refine ⟨j + 1, f, ?_, Nat.le_refl _, fun _ _ ↦ rfl, by omega, fun _ _ _ h ↦ h⟩
      rw [moveUp, if_neg hlt]

/-- What is read of the list merged in does not change, whatever is written up to `top`. -/
def ReadsAs (m : Mem) (idl : Ptr) (f₀ : Nat → Nat) (top : Nat) (merge : Ptr) (n : Nat)
    (g : Nat → Nat) : Prop :=
  ∀ f, (∀ x, top < x → f x = f₀ x) → ∀ i, i ≤ n → (m.write idl f).load merge i = some (g i)

private theorem mergeDown_spec (h : m.Holds idl top) (hr : ReadsAs m idl f₀ top merge n g)
    (hi : i ≤ n) (hij : i + j ≤ top) (hf : ∀ x, top < x → f x = f₀ x) (hmark : f 0 = maxId)
    (hg : ∀ x, 1 ≤ x → x ≤ i → g x ≤ maxId) :
    ∃ f', mergeDown idl merge i j (i + j) (f j) (m.write idl f) = some (m.write idl f') ∧
      (∀ x, i + j < x → f' x = f x) ∧
      ascending f' (i + j) = (ascending g i).merge (ascending f j) := by
  induction i generalizing f j with
  | zero =>
    refine ⟨f, rfl, fun _ _ ↦ rfl, ?_⟩
    rw [Nat.zero_add]
    exact (List.nil_merge _).symm
  | succ i ih =>
    obtain ⟨j', f', hrun, hle, hkeep, hb, hmerge⟩ :=
      moveUp_spec (i := i) h hij hmark (hg (i + 1) (by omega) (Nat.le_refl _))
    obtain ⟨f₁, hf₁⟩ : ∃ f₁, f₁ = Function.update f' (i + 1 + j') (g (i + 1)) := ⟨_, rfl⟩
    have hsame : ∀ x, x ≠ i + 1 + j' → f₁ x = f' x := by
      intro x hx
      rw [hf₁, Function.update_of_ne hx]
    have hlow : ∀ x, x ≤ j' → f₁ x = f x := by
      intro x hx
      rw [hsame x (by omega), hkeep x (.inl (by omega))]
    obtain ⟨f'', hrun', hkeep', hmerge'⟩ := ih (f := f₁) (j := j') (by omega) (by omega)
      (by
        intro x hx
        rw [hsame x (by omega), hkeep x (.inr (by omega))]
        exact hf x hx)
      (by rw [hlow 0 (Nat.zero_le _)]; exact hmark)
      (fun x hx hxi ↦ hg x hx (by omega))
    refine ⟨f'', ?_, ?_, ?_⟩
    · simp only [mergeDown, hr f hf (i + 1) hi, hrun, Option.bind_eq_bind, Option.bind_some,
        Mem.store_write h (show i + 1 + j' ≤ top by omega), ← hf₁]
      rw [show i + 1 + j' - 1 = i + j' by omega, ← hlow j' (Nat.le_refl _)]
      exact hrun'
    · intro x hx
      rw [hkeep' x (by omega), hsame x (by omega), hkeep x (.inr hx)]
    · apply hmerge (ascending g i) f''
      · intro x hx hxj
        rw [hkeep' x (by omega), hsame x (by omega)]
      · have hcut : ascending f₁ j' = ascending f j' := ascending_congr fun x _ hx ↦ hlow x hx
        have htop : f'' (i + 1 + j') = g (i + 1) := by
          rw [hkeep' _ (by omega), hf₁, Function.update_self]
        have hnext : i + 1 + j' = (i + j') + 1 := by omega
        rw [hnext] at htop ⊢
        show f'' (i + j' + 1) :: ascending f'' (i + j') = _
        rw [htop, hmerge', hcut]
        -- the next element is the one that is merged in
        cases j' with
        | zero =>
          show g (i + 1) :: (ascending g i).merge [] = (g (i + 1) :: ascending g i).merge []
          rw [List.merge_right, List.merge_right]
        | succ j' =>
          show g (i + 1) :: (ascending g i).merge (f (j' + 1) :: ascending f j') =
            (g (i + 1) :: ascending g i).merge (f (j' + 1) :: ascending f j')
          rw [List.cons_merge_cons_pos]
          simpa using hb

/-- The merge, of a list that keeps clear of the part written. -/
theorem xmerge_write (h : m.Holds idl top) (hf : f 0 = j)
    (hr : ReadsAs m idl f top merge i g) (hi : g 0 = i) (htop : i + j ≤ top)
    (hg : ∀ x, 1 ≤ x → x ≤ i → g x ≤ maxId) :
    ∃ f', mdb_midl_xmerge (m.write idl f) idl merge = some (m.write idl f') ∧ f' 0 = i + j ∧
      (∀ x, i + j < x → f' x = f x) ∧
      ascending f' (i + j) = (ascending g i).merge (ascending f j) := by
  obtain ⟨f₁, hf₁⟩ : ∃ f₁, f₁ = Function.update f 0 maxId := ⟨_, rfl⟩
  have hsame : ∀ x, x ≠ 0 → f₁ x = f x := by
    intro x hx
    rw [hf₁, Function.update_of_ne hx]
  obtain ⟨f', hrun, hkeep, hmerge⟩ := mergeDown_spec (f := f₁) (j := j) h hr (Nat.le_refl i) htop
    (fun x hx ↦ hsame x (by omega)) (by rw [hf₁, Function.update_self]) hg
  refine ⟨Function.update f' 0 (i + j), ?_, Function.update_self _ _ _, ?_, ?_⟩
  · simp only [mdb_midl_xmerge, hr f (fun _ _ ↦ rfl) 0 (Nat.zero_le _), hi,
      Mem.load_write h (Nat.zero_le _), hf, Mem.store_write h (Nat.zero_le _), ← hf₁,
      Mem.load_write h (show j ≤ top by omega), hrun, Option.bind_eq_bind, Option.bind_some]
  · intro x hx
    rw [Function.update_of_ne (by omega), hkeep x hx, hsame x (by omega)]
  · have hcut : ascending f₁ j = ascending f j := ascending_congr fun x hx _ ↦ hsame x (by omega)
    have hcount : ascending (Function.update f' 0 (i + j)) (i + j) = ascending f' (i + j) :=
      ascending_congr fun x hx _ ↦ Function.update_of_ne (by omega) _ _
    rw [hcount, hmerge, hcut]

end

end ObDump.Lmdb
