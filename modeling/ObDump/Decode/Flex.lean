import ObDump.Decode.Values

/-!
# The shape of a converted FlexBuffers value

Library `Decode`. What the JSON of a FlexBuffers value should be, said without the converter:
the same scalar or text at each leaf, the same elements in the same order, and the same keys
with the values they stand for. `flexToJson` gives exactly that except where the value holds a
key-typed string: `IsString` is false for it and `src/fb_decode.cpp:234` makes it null.
-/

namespace ObDump

open Base

mutual

/-- The JSON value of the same shape; an object's members may come in any order. -/
def FlexRef.SameShape : FlexRef → Json → Prop
  | .null, j => j = .null
  | .bool b, j => j = .bool b
  | .int n, j => j = .int n
  | .uint n, j => j = .int n
  | .float bits, j => j = .float64 bits
  | .indirectInt n, j => j = .int n
  | .indirectUInt n, j => j = .int n
  | .indirectFloat bits, j => j = .float64 bits
  | .key s, j => j = .str s
  | .string s, j => j = .str s
  | .blob data, j => j = .str (hexText data)
  | .map keys values, j =>
    ∃ ms, j = .obj ms ∧ (ms.map Prod.fst).Perm keys ∧ SameMembers keys values ms
  | .vector xs, j => ∃ js, j = .arr js ∧ SameElems xs js
  | .typedVector xs, j => ∃ js, j = .arr js ∧ SameElems xs js
  | .fixedTypedVector xs, j => ∃ js, j = .arr js ∧ SameElems xs js
termination_by structural ref => ref

/-- As many elements, each of the same shape. -/
def SameElems : List FlexRef → List Json → Prop
  | [], js => js = []
  | x :: xs, js => ∃ j rest, js = j :: rest ∧ x.SameShape j ∧ SameElems xs rest
termination_by structural xs => xs

/-- Each key has a member of the shape of the value paired with it. -/
def SameMembers : List Bytes → List FlexRef → List (Bytes × Json) → Prop
  | keys, [], _ => keys = []
  | keys, x :: xs, ms => ∃ k rest j, keys = k :: rest ∧ Members.lookup ms k = some j ∧
      x.SameShape j ∧ SameMembers rest xs ms
termination_by structural _ xs => xs

end

/-- As many converted elements as elements. -/
@[simp] theorem length_flexVectorToJson (xs : List FlexRef) :
    (flexVectorToJson xs).length = xs.length := by
  induction xs with
  | nil => rfl
  | cons x xs ih => rw [flexVectorToJson, List.length_cons, ih, List.length_cons]

private theorem perm_keys_insertAll {keys : List Bytes} {js : List Json} (hd : keys.Nodup)
    (hl : keys.length = js.length) :
    ((Members.insertAll [] (keys.zip js)).map Prod.fst).Perm keys := by
  have hz : (keys.zip js).map Prod.fst = keys := List.map_fst_zip (by omega)
  have hn : ((Members.insertAll [] (keys.zip js)).map Prod.fst).Nodup := by
    apply Members.nodup_keys
    apply Members.ordered_insertAll
    exact Members.ordered_nil
  apply (List.perm_ext_iff_of_nodup hn hd).mpr
  intro k
  rw [← hz] at hd
  constructor
  · intro hk
    obtain ⟨e, he, hek⟩ := List.mem_map.mp hk
    have hm := List.mem_map_of_mem (f := Prod.fst) ((Members.mem_insertAll_iff hd).mp he)
    rwa [hz, hek] at hm
  · intro hk
    rw [← hz] at hk
    obtain ⟨e, he, hek⟩ := List.mem_map.mp hk
    rw [← hek]
    exact List.mem_map_of_mem ((Members.mem_insertAll_iff hd).mpr he)

private theorem lookup_insertAll_zip {keys : List Bytes} {js : List Json} (hd : keys.Nodup)
    (hl : keys.length = js.length) {k : Bytes} {j : Json} (h : (k, j) ∈ keys.zip js) :
    Members.lookup (Members.insertAll [] (keys.zip js)) k = some j := by
  apply Members.lookup_insertAll_of_mem
  · rwa [List.map_fst_zip (by omega)]
  · exact h

mutual

private theorem sameShape_iff (ref : FlexRef) (h : ref.everywhere FlexRef.mapOk = true) :
    ref.SameShape (flexToJson ref) ↔ ref.everywhere (!·.isKey) = true := by
  -- By the type of the value; inside a map or a vector, by its elements.
  match ref with
  | .null | .bool _ | .int _ | .uint _ | .float _ | .indirectInt _ | .indirectUInt _
  | .indirectFloat _ | .string _ => exact iff_of_true rfl rfl
  | .key s =>
    apply iff_of_false
    · intro hs
      cases hs
    · exact Bool.false_ne_true
  | .blob data => exact iff_of_true (congrArg Json.str (toHex_eq_hexText data)) rfl
  | .map keys values =>
    simp only [FlexRef.everywhere, FlexRef.mapOk, Bool.and_eq_true, decide_eq_true_eq] at h
    have hl : keys.length = (flexVectorToJson values).length := by
      rw [length_flexVectorToJson, h.1.1]
    have hm := sameMembers_iff keys values
      (Members.insertAll [] (keys.zip (flexVectorToJson values))) h.1.1
      (fun k j hkj ↦ lookup_insertAll_zip h.1.2 hl hkj) h.2
    constructor
    · rintro ⟨ms, hms, -, hs⟩
      cases hms
      exact hm.mp hs
    · intro hk
      exact ⟨_, rfl, perm_keys_insertAll h.1.2 hl, hm.mpr hk⟩
  | .vector xs | .typedVector xs | .fixedTypedVector xs =>
    have hx := sameElems_iff xs h
    constructor
    · rintro ⟨js, hjs, hs⟩
      cases hjs
      exact hx.mp hs
    · intro hk
      exact ⟨_, rfl, hx.mpr hk⟩
termination_by structural ref

private theorem sameElems_iff (xs : List FlexRef)
    (h : FlexRef.everywhereElems FlexRef.mapOk xs = true) :
    SameElems xs (flexVectorToJson xs) ↔ FlexRef.everywhereElems (!·.isKey) xs = true := by
  match xs with
  | [] => exact iff_of_true rfl rfl
  | x :: xs =>
    simp only [FlexRef.everywhereElems, Bool.and_eq_true] at h ⊢
    rw [← sameShape_iff x h.1, ← sameElems_iff xs h.2, flexVectorToJson, SameElems]
    constructor
    · rintro ⟨j, rest, hj, hs⟩
      cases hj
      exact hs
    · intro hs
      exact ⟨_, _, rfl, hs⟩
termination_by structural xs

private theorem sameMembers_iff (keys : List Bytes) (xs : List FlexRef) (ms : List (Bytes × Json))
    (hl : keys.length = xs.length)
    (hms : ∀ k j, (k, j) ∈ keys.zip (flexVectorToJson xs) → Members.lookup ms k = some j)
    (h : FlexRef.everywhereElems FlexRef.mapOk xs = true) :
    SameMembers keys xs ms ↔ FlexRef.everywhereElems (!·.isKey) xs = true := by
  match keys, xs with
  | [], [] => exact iff_of_true rfl rfl
  | k :: keys, x :: xs =>
    simp only [FlexRef.everywhereElems, Bool.and_eq_true] at h ⊢
    have hk := hms k (flexToJson x) List.mem_cons_self
    have hrest : ∀ k' j, (k', j) ∈ keys.zip (flexVectorToJson xs) →
        Members.lookup ms k' = some j := by
      intro k' j hkj
      exact hms k' j (List.mem_cons_of_mem _ hkj)
    rw [← sameShape_iff x h.1, ← sameMembers_iff keys xs ms (Nat.succ.inj hl) hrest h.2,
      SameMembers]
    constructor
    · rintro ⟨k', rest, j, hkeys, hj, hs⟩
      cases hkeys
      rw [hk] at hj
      cases hj
      exact hs
    · intro hs
      exact ⟨k, keys, _, rfl, hk, hs⟩
termination_by structural xs

end

/-- The converter keeps the shape of a value exactly when no key-typed string is in it. -/
theorem flexToJson_sameShape_iff (ref : FlexRef) (h : ref.WellFormed) :
    ref.SameShape (flexToJson ref) ↔ ref.noKeys = true := sameShape_iff ref h

/-- On a map with an inline vector and a blob. -/
theorem flexToJson_sameShape_iff_sample :
    FlexRef.SameShape (.map [lit "b", lit "a"] [.vector [.int 1, .null], .blob [0xAB]])
      (flexToJson (.map [lit "b", lit "a"] [.vector [.int 1, .null], .blob [0xAB]])) := by
  apply (flexToJson_sameShape_iff _ ?_).mpr
  · decide
  · show FlexRef.everywhere FlexRef.mapOk _ = true
    decide

/-- A vector of one key-typed string comes out as a vector of one null. -/
theorem flexToJson_loses_key :
    FlexRef.WellFormed (.typedVector [.key (lit "k")]) ∧
      flexToJson (.typedVector [.key (lit "k")]) = .arr [.null] ∧
      ¬ FlexRef.SameShape (.typedVector [.key (lit "k")])
        (flexToJson (.typedVector [.key (lit "k")])) := by
  refine ⟨rfl, rfl, ?_⟩
  rintro ⟨js, hjs, j, rest, rfl, hj, -⟩
  cases hjs
  cases hj

end ObDump
