import ObDump.Base.Bytes

/-!
# Ordered member lists

Library `Base`. A finite map kept as an association list in strictly increasing key
order, so that equal maps are equal lists. Lookup laws need no invariant; the order
laws and extensionality need `Ordered`.
-/

namespace ObDump.Base

universe u v

/-- An association list of members. -/
abbrev Members (κ : Type u) (β : Type v) := List (κ × β)

namespace Members

variable {κ : Type u} {β : Type v}

/-! ### Lookup -/

section Lookup

variable [DecidableEq κ]

/-- The value of a key, if it has one. -/
def lookup : Members κ β → κ → Option β
  | [], _ => none
  | (k', v') :: rest, k => if k = k' then some v' else lookup rest k

/-- No member of the empty object is found. -/
@[simp] theorem lookup_nil (k : κ) : lookup ([] : Members κ β) k = none := rfl

/-- Some member has the key exactly when lookup finds one. -/
theorem lookup_isSome_iff (ms : Members κ β) (k : κ) :
    (lookup ms k).isSome ↔ k ∈ ms.map Prod.fst := by
  induction ms with
  | nil => simp
  | cons e rest ih =>
    by_cases h : k = e.1
    · simp [lookup, h]
    · simp [lookup, h, ih]

/-- A looked-up value is a member. -/
theorem mem_of_lookup {ms : Members κ β} {k : κ} {v : β} (h : lookup ms k = some v) :
    (k, v) ∈ ms := by
  induction ms with
  | nil => simp at h
  | cons e rest ih =>
    simp only [lookup] at h
    split at h
    · next he =>
      rw [he, ← Option.some.inj h]
      exact List.mem_cons_self
    · exact List.mem_cons_of_mem _ (ih h)

/-- Lookup among the members whose keys pass a test. -/
theorem lookup_filter (ms : Members κ β) (p : κ → Bool) (k : κ) :
    lookup (ms.filter fun e ↦ p e.1) k = if p k then lookup ms k else none := by
  induction ms with
  | nil => simp
  | cons e rest ih =>
    rw [List.filter_cons]
    by_cases hk : k = e.1
    · subst hk
      split
      · simp [lookup]
      · next hp => simp [ih, hp]
    · split
      · simp [lookup, hk, ih]
      · simp [lookup, hk, ih]

end Lookup

/-! ### Order -/

section Order

variable [LT κ]

/-- Keys in strictly increasing order. -/
def Ordered (ms : Members κ β) : Prop := ms.Pairwise (fun a b ↦ a.1 < b.1)

/-- The empty object is in order. -/
theorem ordered_nil : Ordered ([] : Members κ β) := List.Pairwise.nil

variable [LE κ] [Std.LawfulOrderLT κ]

/-- An ordered list has no key twice. -/
theorem nodup_keys {ms : Members κ β} (h : Ordered ms) : (ms.map Prod.fst).Nodup := by
  apply List.pairwise_map.mpr
  apply h.imp
  intro a b hab he
  rw [he] at hab
  exact Std.lt_irrefl hab

section

variable [DecidableEq κ]

private theorem lookup_of_lt {ms : Members κ β} {k : κ} (h : ∀ e ∈ ms, k < e.1) :
    lookup ms k = none := by
  cases hl : lookup ms k with
  | none => rfl
  | some v => exact absurd (h (k, v) (mem_of_lookup hl)) (Std.lt_irrefl)

/-- In an ordered list membership is lookup. -/
theorem lookup_eq_some_iff {ms : Members κ β} (h : Ordered ms) {k : κ} {v : β} :
    lookup ms k = some v ↔ (k, v) ∈ ms := by
  refine ⟨mem_of_lookup, fun hm ↦ ?_⟩
  induction ms with
  | nil => simp at hm
  | cons e rest ih =>
    have hc := List.pairwise_cons.mp h
    rcases List.mem_cons.mp hm with rfl | hr
    · simp [lookup]
    · have hne : k ≠ e.1 := by
        intro he
        have hlt := hc.1 (k, v) hr
        rw [he] at hlt
        exact Std.lt_irrefl hlt
      simp [lookup, hne, ih hc.2 hr]

end

variable [Std.IsLinearOrder κ]

private theorem lt_of_not_lt_of_ne {a b : κ}
    (h : ¬ a < b) (hne : ¬ a = b) : b < a := by
  rcases Std.lt_trichotomy a b with hlt | rfl | hgt
  · exact absurd hlt h
  · exact absurd rfl hne
  · exact hgt

variable [DecidableEq κ]

private theorem lookup_of_lt_head {e : κ × β} {ms : Members κ β} (h : Ordered (e :: ms)) {k : κ}
    (hk : k < e.1) : lookup (e :: ms) k = none := by
  apply lookup_of_lt
  intro f hf
  rcases List.mem_cons.mp hf with rfl | hf
  · exact hk
  · exact Std.lt_trans hk ((List.pairwise_cons.mp h).1 f hf)

/-- Ordered member lists with the same lookups are the same list. -/
theorem ext {ms ns : Members κ β} (hm : Ordered ms) (hn : Ordered ns)
    (h : ∀ k, lookup ms k = lookup ns k) : ms = ns := by
  induction ms generalizing ns with
  | nil =>
    cases ns with
    | nil => rfl
    | cons e rest => have := h e.1; simp [lookup] at this
  | cons e rest ih =>
    cases ns with
    | nil => have := h e.1; simp [lookup] at this
    | cons f rest' =>
      obtain ⟨k, v⟩ := e
      obtain ⟨k', v'⟩ := f
      have he := List.pairwise_cons.mp hm
      have hf := List.pairwise_cons.mp hn
      have hk : k = k' := by
        rcases Std.lt_trichotomy k k' with hlt | heq | hgt
        · have hx := h k
          rw [lookup_of_lt_head hn hlt] at hx
          simp [lookup] at hx
        · exact heq
        · have hx := h k'
          rw [lookup_of_lt_head hm hgt] at hx
          simp [lookup] at hx
      subst hk
      have hv : v = v' := by have := h k; simpa [lookup] using this
      subst hv
      congr 1
      apply ih he.2 hf.2
      intro a
      by_cases ha : a = k
      · rw [ha, lookup_of_lt he.1, lookup_of_lt hf.1]
      · have := h a
        simpa [lookup, ha] using this

end Order

/-! ### Settings -/

section Settings

variable [DecidableEq κ] [LT κ] [DecidableLT κ]

/-- Set one member, replacing the value of an existing key. -/
def insert : Members κ β → κ → β → Members κ β
  | [], k, v => [(k, v)]
  | (k', v') :: rest, k, v =>
    if k < k' then (k, v) :: (k', v') :: rest
    else if k = k' then (k, v) :: rest
    else (k', v') :: insert rest k v

/-- Set several members in turn; a later one replaces an earlier one of its key. -/
def insertAll (ms : Members κ β) (es : List (κ × β)) : Members κ β :=
  es.foldl (fun ms e ↦ insert ms e.1 e.2) ms

/-- A set key reads back its value. -/
@[simp] theorem lookup_insert_self (ms : Members κ β) (k : κ) (v : β) :
    lookup (insert ms k v) k = some v := by
  induction ms with
  | nil => simp [insert, lookup]
  | cons e rest ih =>
    obtain ⟨k', v'⟩ := e
    simp only [insert]
    split
    · simp [lookup]
    · split
      · simp [lookup]
      · next hne => simp [lookup, hne, ih]

/-- Setting one key leaves every other key as it was. -/
theorem lookup_insert_of_ne (ms : Members κ β) {k a : κ} (v : β) (h : a ≠ k) :
    lookup (insert ms k v) a = lookup ms a := by
  induction ms with
  | nil => simp [insert, lookup, h]
  | cons e rest ih =>
    obtain ⟨k', v'⟩ := e
    simp only [insert]
    split
    · simp [lookup, h]
    · split
      · next he => subst he; simp [lookup, h]
      · simp [lookup, ih]

/-- Lookup after setting one key. -/
theorem lookup_insert (ms : Members κ β) (k a : κ) (v : β) :
    lookup (insert ms k v) a = if a = k then some v else lookup ms a := by
  split
  · next h => rw [h, lookup_insert_self]
  · next h => exact lookup_insert_of_ne ms v h

/-- A key that none of the settings names keeps its value. -/
theorem lookup_insertAll_of_notMem (ms : Members κ β) (es : List (κ × β)) {a : κ}
    (h : a ∉ es.map Prod.fst) : lookup (insertAll ms es) a = lookup ms a := by
  induction es generalizing ms with
  | nil => rfl
  | cons e es ih =>
    simp only [List.map_cons, List.mem_cons, not_or] at h
    simp only [insertAll, List.foldl_cons]
    exact (ih (insert ms e.1 e.2) h.2).trans (lookup_insert_of_ne ms e.2 h.1)

/-- The last setting of a key wins. -/
theorem lookup_insertAll_of_last (ms : Members κ β) (pre post : List (κ × β)) (k : κ) (v : β)
    (h : k ∉ post.map Prod.fst) :
    lookup (insertAll ms (pre ++ (k, v) :: post)) k = some v := by
  simp only [insertAll, List.foldl_append, List.foldl_cons]
  exact (lookup_insertAll_of_notMem _ post h).trans (lookup_insert_self _ k v)

/-- With distinct keys, every setting reads back. -/
theorem lookup_insertAll_of_mem (ms : Members κ β) (es : List (κ × β))
    (hd : (es.map Prod.fst).Nodup) {k : κ} {v : β} (h : (k, v) ∈ es) :
    lookup (insertAll ms es) k = some v := by
  obtain ⟨pre, post, rfl⟩ := List.append_of_mem h
  apply lookup_insertAll_of_last
  rw [List.map_append, List.map_cons, List.nodup_append] at hd
  exact (List.nodup_cons.mp hd.2.1).1

/-- A value read back was set, unless its key was not set at all. -/
theorem mem_or_lookup_of_insertAll {ms : Members κ β} {es : List (κ × β)} {k : κ} {v : β}
    (h : lookup (insertAll ms es) k = some v) :
    (k, v) ∈ es ∨ k ∉ es.map Prod.fst ∧ lookup ms k = some v := by
  induction es generalizing ms with
  | nil => exact .inr ⟨by simp, h⟩
  | cons e es ih =>
    rcases ih h with hm | ⟨hn, hl⟩
    · exact .inl (List.mem_cons_of_mem _ hm)
    · rw [lookup_insert] at hl
      split at hl
      · next hk =>
        cases hl
        exact .inl (by rw [hk]; exact List.mem_cons_self)
      · next hk => exact .inr ⟨by simp [hk, hn], hl⟩

/-- Settings in two batches. -/
theorem insertAll_append (ms : Members κ β) (es fs : List (κ × β)) :
    insertAll ms (es ++ fs) = insertAll (insertAll ms es) fs := List.foldl_append

/-- A value read back is the last one set, or was there before. -/
theorem lookup_insertAll (ms : Members κ β) (es : List (κ × β)) (k : κ) :
    lookup (insertAll ms es) k = (lookup (insertAll [] es) k).or (lookup ms k) := by
  induction es generalizing ms with
  | nil => rfl
  | cons e es ih =>
    have hms : insertAll ms (e :: es) = insertAll (insert ms e.1 e.2) es := rfl
    have hnil : insertAll [] (e :: es) = insertAll (insert [] e.1 e.2) es := rfl
    rw [hms, hnil, ih, ih (insert [] e.1 e.2), lookup_insert, lookup_insert, Option.or_assoc]
    split
    · rfl
    · rfl

/-- The keys after a setting. -/
theorem mem_keys_insert (ms : Members κ β) (k : κ) (v : β) (a : κ) :
    a ∈ (insert ms k v).map Prod.fst ↔ a = k ∨ a ∈ ms.map Prod.fst := by
  rw [← lookup_isSome_iff, ← lookup_isSome_iff, lookup_insert]
  split
  · next h => simp [h]
  · next h => simp [h]

variable [LE κ] [Std.IsLinearOrder κ] [Std.LawfulOrderLT κ]

/-- Setting a member keeps the order. -/
theorem ordered_insert {ms : Members κ β} (k : κ) (v : β) (h : Ordered ms) :
    Ordered (insert ms k v) := by
  induction ms with
  | nil => exact List.pairwise_singleton _ _
  | cons e rest ih =>
    obtain ⟨k', v'⟩ := e
    have hc := List.pairwise_cons.mp h
    simp only [insert]
    split
    · next hlt =>
      apply List.pairwise_cons.mpr
      refine ⟨?_, h⟩
      intro b hb
      rcases List.mem_cons.mp hb with rfl | hb
      · exact hlt
      · exact Std.lt_trans hlt (hc.1 b hb)
    · split
      · next he => subst he; exact List.pairwise_cons.mpr hc
      · next hlt hne =>
        apply List.pairwise_cons.mpr
        refine ⟨?_, ih hc.2⟩
        intro b hb
        have hk : b.1 ∈ (insert rest k v).map Prod.fst := List.mem_map_of_mem hb
        rcases (mem_keys_insert rest k v b.1).mp hk with he | hm
        · rw [he]
          exact lt_of_not_lt_of_ne hlt hne
        · obtain ⟨c, hcm, hce⟩ := List.mem_map.mp hm
          rw [← hce]
          exact hc.1 c hcm

/-- Setting several members keeps the order. -/
theorem ordered_insertAll {ms : Members κ β} (es : List (κ × β)) (h : Ordered ms) :
    Ordered (insertAll ms es) := by
  induction es generalizing ms with
  | nil => exact h
  | cons e es ih => exact ih (ordered_insert e.1 e.2 h)

/-- Setting a key and keeping the keys that pass a test. -/
theorem filter_insert {ms : Members κ β} (p : κ → Bool) (k : κ) (v : β) (h : Ordered ms) :
    (insert ms k v).filter (fun e ↦ p e.1) =
      if p k then insert (ms.filter fun e ↦ p e.1) k v else ms.filter fun e ↦ p e.1 := by
  have hf : Ordered (ms.filter fun e ↦ p e.1) := h.filter _
  have hi : Ordered ((insert ms k v).filter fun e ↦ p e.1) := (ordered_insert k v h).filter _
  split
  · next hp =>
    apply ext hi (ordered_insert k v hf)
    intro a
    rw [lookup_filter, lookup_insert, lookup_insert, lookup_filter]
    by_cases ha : a = k
    · simp [ha, hp]
    · simp [ha]
  · next hp =>
    apply ext hi hf
    intro a
    rw [lookup_filter, lookup_filter, lookup_insert]
    by_cases ha : a = k
    · simp [ha, hp]
    · simp [ha]

/-- Keeping the keys that pass a test is keeping the settings that name them. -/
theorem filter_insertAll {ms : Members κ β} (p : κ → Bool) (es : List (κ × β)) (h : Ordered ms) :
    (insertAll ms es).filter (fun e ↦ p e.1) =
      insertAll (ms.filter fun e ↦ p e.1) (es.filter fun e ↦ p e.1) := by
  induction es generalizing ms with
  | nil => rfl
  | cons e es ih =>
    have hs := ih (ordered_insert e.1 e.2 h)
    rw [filter_insert p e.1 e.2 h] at hs
    rw [List.filter_cons]
    split
    · next hp =>
      rw [if_pos hp] at hs
      exact hs
    · next hp =>
      rw [if_neg hp] at hs
      exact hs

/-- Setting a key again replaces its value. -/
theorem insert_insert {ms : Members κ β} (k : κ) (v w : β) (h : Ordered ms) :
    insert (insert ms k v) k w = insert ms k w := by
  apply ext (ordered_insert k w (ordered_insert k v h)) (ordered_insert k w h)
  intro a
  rw [lookup_insert, lookup_insert, lookup_insert]
  split
  · rfl
  · rfl

/-- Setting the members of an ordered list in turn builds that list. -/
theorem insertAll_self {ms : Members κ β} (h : Ordered ms) : insertAll [] ms = ms := by
  apply ext (ordered_insertAll ms ordered_nil) h
  intro k
  cases hl : lookup ms k with
  | some v =>
    exact lookup_insertAll_of_mem [] ms (nodup_keys h) ((lookup_eq_some_iff h).mp hl)
  | none =>
    rw [lookup_insertAll_of_notMem, lookup_nil]
    intro hk
    rw [← lookup_isSome_iff, hl] at hk
    cases hk

/-- Settings with distinct keys are exactly the members they build. -/
theorem mem_insertAll_iff {es : List (κ × β)} (hd : (es.map Prod.fst).Nodup) {e : κ × β} :
    e ∈ insertAll [] es ↔ e ∈ es := by
  have ho : Ordered (insertAll [] es) := ordered_insertAll es ordered_nil
  constructor
  · intro he
    have hl := (lookup_eq_some_iff ho).mpr he
    by_cases hk : e.1 ∈ es.map Prod.fst
    · obtain ⟨f, hf, hfe⟩ := List.mem_map.mp hk
      have hlf := lookup_insertAll_of_mem [] es hd hf
      rw [hfe, hl, Option.some.injEq] at hlf
      exact Prod.ext hfe hlf.symm ▸ hf
    · rw [lookup_insertAll_of_notMem _ _ hk] at hl
      simp at hl
  · intro he
    exact (lookup_eq_some_iff ho).mp (lookup_insertAll_of_mem [] es hd he)

/-- Settings with distinct keys build the same members in any order. -/
theorem insertAll_perm {es fs : List (κ × β)} (hp : es.Perm fs) (hd : (es.map Prod.fst).Nodup) :
    insertAll [] es = insertAll [] fs := by
  have hd' : (fs.map Prod.fst).Nodup := (hp.map Prod.fst).nodup_iff.mp hd
  have hes : Ordered (insertAll [] es) := ordered_insertAll es ordered_nil
  have hfs : Ordered (insertAll [] fs) := ordered_insertAll fs ordered_nil
  apply ext hes hfs
  intro k
  ext v
  rw [lookup_eq_some_iff hes, lookup_eq_some_iff hfs, mem_insertAll_iff hd, mem_insertAll_iff hd']
  exact hp.mem_iff

end Settings

end Members

end ObDump.Base
