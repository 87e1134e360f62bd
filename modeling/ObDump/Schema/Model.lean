import ObDump.Json.Library

/-!
# The parsed model

Library `Schema`. Property types, external types and the entity definitions that
`src/schema.cpp` builds from an `objectbox-model.json`, with the codes and flags of
`include/internal/schema.hpp`. A schema keeps each entity id once.
-/

namespace ObDump

open Base

/-- What a C++ function of the program can throw. `outOfBounds` is no exception of the
source: it marks a read outside its buffer, which the source leaves undefined. -/
inductive Exc where
  | runtimeError (what : Bytes)
  | json (e : JsonError)
  | stoiInvalidArgument
  | stoiOutOfRange
  | outOfBounds
  deriving DecidableEq, Repr

/-- `include/internal/schema.hpp:16–48`. -/
inductive PropertyType where
  | bool | byte | short | char | int | long | float | double | string | date | relation
  | dateNano | flex | boolVector | byteVector | shortVector | charVector | intVector
  | longVector | floatVector | doubleVector | stringVector | dateVector | dateNanoVector
  | unknown
  deriving DecidableEq, Repr

/-- The enumerator's value. -/
def PropertyType.code : PropertyType → Int
  | .bool => 1
  | .byte => 2
  | .short => 3
  | .char => 4
  | .int => 5
  | .long => 6
  | .float => 7
  | .double => 8
  | .string => 9
  | .date => 10
  | .relation => 11
  | .dateNano => 12
  | .flex => 13
  | .boolVector => 22
  | .byteVector => 23
  | .shortVector => 24
  | .charVector => 25
  | .intVector => 26
  | .longVector => 27
  | .floatVector => 28
  | .doubleVector => 29
  | .stringVector => 30
  | .dateVector => 31
  | .dateNanoVector => 32
  | .unknown => -1

/-- `src/schema.cpp:22–50`. -/
def toPropertyType (raw : Int) : PropertyType :=
  match raw with
  | 1 => .bool
  | 2 => .byte
  | 3 => .short
  | 4 => .char
  | 5 => .int
  | 6 => .long
  | 7 => .float
  | 8 => .double
  | 9 => .string
  | 10 => .date
  | 11 => .relation
  | 12 => .dateNano
  | 13 => .flex
  | 22 => .boolVector
  | 23 => .byteVector
  | 24 => .shortVector
  | 25 => .charVector
  | 26 => .intVector
  | 27 => .longVector
  | 28 => .floatVector
  | 29 => .doubleVector
  | 30 => .stringVector
  | 31 => .dateVector
  | 32 => .dateNanoVector
  | _ => .unknown

/-- Every type is recovered from its own code. -/
theorem toPropertyType_code (t : PropertyType) : toPropertyType t.code = t := by
  cases t <;> rfl

/-- `kPropertyFlagUnsigned`, `include/internal/schema.hpp:56`. -/
def kPropertyFlagUnsigned : Int := 8192

namespace ExternalPropertyType

/-- `include/internal/schema.hpp:69–87`. -/
@[match_pattern] def unknown : Int := 0
@[match_pattern] def int128 : Int := 100
@[match_pattern] def uuid : Int := 102
@[match_pattern] def decimal128 : Int := 103
@[match_pattern] def flexMap : Int := 107
@[match_pattern] def flexVector : Int := 108
@[match_pattern] def json : Int := 109
@[match_pattern] def bson : Int := 110
@[match_pattern] def javaScript : Int := 111
@[match_pattern] def jsonToNative : Int := 112
@[match_pattern] def int128Vector : Int := 116
@[match_pattern] def uuidVector : Int := 118

end ExternalPropertyType

/-- `include/internal/schema.hpp:89–95`. -/
structure PropertyDef where
  id : Int
  name : Bytes
  type : PropertyType
  isUnsigned : Bool
  externalType : Int
  deriving DecidableEq, Repr

/-- A ToMany relation; `include/internal/schema.hpp:103–107`. -/
structure RelationDef where
  id : Int
  name : Bytes
  targetEntityId : Int
  deriving DecidableEq, Repr

/-- `include/internal/schema.hpp:109–114`. -/
structure EntityDef where
  entityId : Int
  name : Bytes
  properties : List PropertyDef
  relations : List RelationDef
  deriving DecidableEq, Repr

/-- `entitiesById_`: no entity id occurs twice. The order is that of the insertions; nothing
observes it, since lookups go by id and the listing sorts. -/
structure Schema where
  entities : List EntityDef
  nodup : (entities.map EntityDef.entityId).Nodup

namespace Schema

/-- No entities yet. -/
def empty : Schema := ⟨[], List.nodup_nil⟩

/-- `entitiesById_.emplace`: an id that is already there keeps its first entity. -/
def emplace (s : Schema) (e : EntityDef) : Schema :=
  if h : e.entityId ∈ s.entities.map EntityDef.entityId then s
  else
    ⟨s.entities ++ [e], by
      rw [List.map_append, List.map_singleton]
      exact List.nodup_append.mpr ⟨s.nodup, List.nodup_singleton _, by
        intro a ha b hb
        rw [List.mem_singleton.mp hb]
        rintro rfl
        exact h ha⟩⟩

/-- `Schema::find`, `src/schema.cpp:100–103`. -/
def find (s : Schema) (entityId : Int) : Option EntityDef :=
  s.entities.find? (fun e ↦ e.entityId == entityId)

/-- `Schema::all`, `src/schema.cpp:105–114`. -/
def all (s : Schema) : List EntityDef :=
  s.entities.mergeSort (fun a b ↦ decide (a.entityId ≤ b.entityId))

/-- A found entity is declared, under the id it was looked up by. -/
theorem mem_of_find {s : Schema} {id : Int} {e : EntityDef} (h : s.find id = some e) :
    e ∈ s.entities ∧ e.entityId = id := by
  refine ⟨List.mem_of_find?_eq_some h, ?_⟩
  simpa using List.find?_some h

/-- A declared entity is found under its id. -/
theorem find_of_mem {s : Schema} {e : EntityDef} (h : e ∈ s.entities) :
    s.find e.entityId = some e := by
  cases hf : s.find e.entityId with
  | none =>
    have hn := List.find?_eq_none.mp hf e h
    simp at hn
  | some d =>
    obtain ⟨hd, hid⟩ := mem_of_find hf
    rw [List.inj_on_of_nodup_map s.nodup hd h hid]

/-- An emplaced entity is new or already known by its id; the others are kept. -/
theorem mem_emplace {s : Schema} {e d : EntityDef} (h : d ∈ (s.emplace e).entities) :
    d ∈ s.entities ∨ d = e := by
  unfold emplace at h
  split at h
  · exact .inl h
  · simpa using h

end Schema

end ObDump
