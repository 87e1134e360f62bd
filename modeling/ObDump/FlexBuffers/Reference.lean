import ObDump.Base.Bytes

/-!
# FlexBuffers values

Library `FlexBuffers`. A `flexbuffers::Reference` as a tree, with the type predicates of the
format's type table: a map is also a vector, a key is not a string, and the indirect numbers
count as numbers. Reading the bytes is the library's part and stays a parameter.
-/

namespace ObDump

open Base

/-- A value by its type. A map holds its keys and its values as two parallel vectors, and a
typed vector's elements all have the vector's element type. -/
inductive FlexRef where
  | null
  | bool (b : Bool)
  | int (n : Int)
  | uint (n : Nat)
  | float (bits : UInt64)
  | indirectInt (n : Int)
  | indirectUInt (n : Nat)
  | indirectFloat (bits : UInt64)
  | key (s : Bytes)
  | string (s : Bytes)
  | blob (data : Bytes)
  | map (keys : List Bytes) (values : List FlexRef)
  | vector (xs : List FlexRef)
  | typedVector (xs : List FlexRef)
  | fixedTypedVector (xs : List FlexRef)
  deriving Repr

namespace FlexRef

/-- `IsNull()`. -/
def isNull : FlexRef → Bool
  | .null => true
  | _ => false

/-- `IsBool()` with `AsBool()`. -/
def asBool? : FlexRef → Option Bool
  | .bool b => some b
  | _ => none

/-- `IsInt()` with `AsInt64()`. -/
def asInt64? : FlexRef → Option Int
  | .int n | .indirectInt n => some n
  | _ => none

/-- `IsUInt()` with `AsUInt64()`. -/
def asUInt64? : FlexRef → Option Nat
  | .uint n | .indirectUInt n => some n
  | _ => none

/-- `IsFloat()` with `AsDouble()`. -/
def asDouble? : FlexRef → Option UInt64
  | .float bits | .indirectFloat bits => some bits
  | _ => none

/-- `IsString()` with `AsString()`. -/
def asString? : FlexRef → Option Bytes
  | .string s => some s
  | _ => none

/-- `IsBlob()` with `AsBlob()`. -/
def asBlob? : FlexRef → Option Bytes
  | .blob data => some data
  | _ => none

/-- `IsMap()` with the keys of `AsMap()`. -/
def mapKeys? : FlexRef → Option (List Bytes)
  | .map keys _ => some keys
  | _ => none

/-- `IsTypedVector()`. -/
def isTypedVector : FlexRef → Bool
  | .typedVector _ => true
  | _ => false

/-- `IsFixedTypedVector()`. -/
def isFixedTypedVector : FlexRef → Bool
  | .fixedTypedVector _ => true
  | _ => false

/-- `IsVector()`. -/
def isVector : FlexRef → Bool
  | .vector _ | .map _ _ => true
  | _ => false

/-- `IsKey()`. -/
def isKey : FlexRef → Bool
  | .key _ => true
  | _ => false

/-! ### Values by what holds at each node -/

mutual

/-- A test holds of the value and of every value inside it. -/
def everywhere (test : FlexRef → Bool) : FlexRef → Bool
  | .map keys values => test (.map keys values) && everywhereElems test values
  | .vector xs => test (.vector xs) && everywhereElems test xs
  | .typedVector xs => test (.typedVector xs) && everywhereElems test xs
  | .fixedTypedVector xs => test (.fixedTypedVector xs) && everywhereElems test xs
  | ref => test ref
termination_by structural ref => ref

/-- A test holds everywhere in each of the elements. -/
def everywhereElems (test : FlexRef → Bool) : List FlexRef → Bool
  | [] => true
  | x :: xs => everywhere test x && everywhereElems test xs
termination_by structural xs => xs

end

mutual

/-- Two tests hold everywhere exactly when each of them does. -/
theorem everywhere_and (p q : FlexRef → Bool) (ref : FlexRef) :
    everywhere (fun r ↦ p r && q r) ref = (everywhere p ref && everywhere q ref) := by
  match ref with
  | .null | .bool _ | .int _ | .uint _ | .float _ | .indirectInt _ | .indirectUInt _
  | .indirectFloat _ | .key _ | .string _ | .blob _ => rfl
  | .map _ xs | .vector xs | .typedVector xs | .fixedTypedVector xs =>
    simp only [everywhere, everywhereElems_and p q xs]
    ac_rfl
termination_by structural ref

private theorem everywhereElems_and (p q : FlexRef → Bool) (xs : List FlexRef) :
    everywhereElems (fun r ↦ p r && q r) xs = (everywhereElems p xs && everywhereElems q xs) := by
  match xs with
  | [] => rfl
  | x :: xs =>
    simp only [everywhereElems, everywhere_and p q x, everywhereElems_and p q xs]
    ac_rfl
termination_by structural xs

end

/-- A map has a value for each key and no key twice. -/
def mapOk : FlexRef → Bool
  | .map keys values => decide (keys.length = values.length ∧ keys.Nodup)
  | _ => true

/-- Every map in the value pairs distinct keys with values. -/
def WellFormed (ref : FlexRef) : Prop := ref.everywhere mapOk = true

/-- No value in the tree is a key-typed string; a map's keys are not values. -/
def noKeys (ref : FlexRef) : Bool := ref.everywhere (!·.isKey)

end FlexRef

/-- The entry points of the library: `VerifyBuffer` and `GetRoot` on a byte range. -/
structure FlexBuffers where
  verifyBuffer : Bytes → Bool
  getRoot : Bytes → FlexRef

end ObDump
