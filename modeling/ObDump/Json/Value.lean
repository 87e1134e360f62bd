import ObDump.Base.Members
import ObDump.Base.Utf8

/-!
# JSON values

Library `Json`. The value tree of `nlohmann::json`: an object is an ordered member
list (the library keeps a `std::map`), a string is a byte string of any content, and
a floating-point number is kept as the bits of a `double`.
-/

namespace ObDump

open Base

/-- A JSON value. Signed and unsigned integers are one case: they print the same. -/
inductive Json where
  | null
  | bool (b : Bool)
  | int (n : Int)
  | float64 (bits : UInt64)
  | str (s : Bytes)
  | arr (xs : List Json)
  | obj (ms : List (Bytes × Json))
  deriving Repr, BEq, Inhabited

namespace Json

/-- An object from settings applied in turn. -/
def object (es : List (Bytes × Json)) : Json := .obj (Members.insertAll [] es)

/-- Member lookup; nothing for a value that is not an object. -/
def get? : Json → Bytes → Option Json
  | .obj ms, k => Members.lookup ms k
  | _, _ => none

/-- `j[name] = value` on an object. -/
def set : Json → Bytes → Json → Json
  | .obj ms, k, v => .obj (Members.insert ms k v)
  | j, _, _ => j

/-- `is_array()`. -/
def isArray : Json → Bool
  | .arr _ => true
  | _ => false

mutual

/-- Every string and every member name in the value is well-formed UTF-8. -/
def encodable : Json → Bool
  | .str s => Utf8.valid s
  | .arr xs => encodableElems xs
  | .obj ms => encodableMembers ms
  | _ => true
termination_by structural j => j

/-- Every element is encodable. -/
def encodableElems : List Json → Bool
  | [] => true
  | x :: xs => encodable x && encodableElems xs
termination_by structural xs => xs

/-- Every member is encodable. -/
def encodableMembers : List (Bytes × Json) → Bool
  | [] => true
  | (k, v) :: ms => Utf8.valid k && encodable v && encodableMembers ms
termination_by structural ms => ms

end

/-- An array is encodable exactly when its elements are. -/
theorem encodable_arr (xs : List Json) :
    encodable (.arr xs) = true ↔ ∀ x ∈ xs, encodable x = true := by
  rw [encodable]
  induction xs with
  | nil => simp [encodableElems]
  | cons x xs ih => simp [encodableElems, ih]

/-- An array of the values of a function. -/
theorem encodable_map {α : Type} (f : α → Json) (xs : List α) :
    encodable (.arr (xs.map f)) = true ↔ ∀ x ∈ xs, encodable (f x) = true := by
  rw [encodable_arr, List.forall_mem_map]

/-- An object is encodable exactly when its names and values are. -/
theorem encodable_obj (ms : List (Bytes × Json)) :
    encodable (.obj ms) = true ↔
      ∀ e ∈ ms, Utf8.valid e.1 = true ∧ encodable e.2 = true := by
  rw [encodable]
  induction ms with
  | nil => simp [encodableMembers]
  | cons e ms ih => simp [encodableMembers, ih]

/-- An ordered object is encodable exactly when every lookup in it is. -/
theorem encodable_obj_iff_lookup {ms : List (Bytes × Json)} (h : Members.Ordered ms) :
    encodable (.obj ms) = true ↔ ∀ k v, Members.lookup ms k = some v →
      Utf8.valid k = true ∧ encodable v = true := by
  rw [encodable_obj]
  constructor
  · intro hm k v hl
    exact hm (k, v) (Members.mem_of_lookup hl)
  · intro hl e he
    exact hl e.1 e.2 ((Members.lookup_eq_some_iff h).mpr he)

/-- An object of encodable members is encodable. -/
theorem encodable_object {es : List (Bytes × Json)}
    (h : ∀ e ∈ es, Utf8.valid e.1 = true ∧ e.2.encodable = true) :
    (object es).encodable = true := by
  rw [object, encodable_obj_iff_lookup (Members.ordered_insertAll es Members.ordered_nil)]
  intro k v hl
  rcases Members.mem_or_lookup_of_insertAll hl with hm | ⟨-, hnil⟩
  · exact h (k, v) hm
  · cases hnil

end Json

end ObDump
