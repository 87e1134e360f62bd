import ObDump.Base.Decimal
import ObDump.Schema.Parse

/-!
# Generating the FlatBuffers schema

Library `Fbs`. `src/fbs_gen.cpp:18–149`: the text of the `.fbs` file of a model, one table
for each entity with one field for each property id up to the largest.
-/

namespace ObDump

open Base

/-- `externalTypeName`, `src/schema.cpp:146–161`. -/
def externalTypeName (code : Int) : Option Bytes :=
  match code with
  | ExternalPropertyType.int128 => some (lit "Int128")
  | ExternalPropertyType.uuid => some (lit "Uuid")
  | ExternalPropertyType.decimal128 => some (lit "Decimal128")
  | ExternalPropertyType.flexMap => some (lit "FlexMap")
  | ExternalPropertyType.flexVector => some (lit "FlexVector")
  | ExternalPropertyType.json => some (lit "Json")
  | ExternalPropertyType.bson => some (lit "Bson")
  | ExternalPropertyType.javaScript => some (lit "JavaScript")
  | ExternalPropertyType.jsonToNative => some (lit "JsonToNative")
  | ExternalPropertyType.int128Vector => some (lit "Int128Vector")
  | ExternalPropertyType.uuidVector => some (lit "UuidVector")
  | _ => none

/-- `src/fbs_gen.cpp:18–49`. -/
def fbsTypeName (type : PropertyType) (isUnsigned : Bool) : Bytes :=
  match type with
  | .bool | .boolVector => lit "bool"
  | .byte | .byteVector => if isUnsigned then lit "ubyte" else lit "byte"
  | .short | .shortVector => if isUnsigned then lit "ushort" else lit "short"
  | .char | .charVector => lit "ushort"
  | .int | .intVector => if isUnsigned then lit "uint" else lit "int"
  | .long | .longVector | .date | .dateVector | .relation | .dateNano | .dateNanoVector =>
    if isUnsigned then lit "ulong" else lit "long"
  | .float | .floatVector => lit "float"
  | .double | .doubleVector => lit "double"
  | .string | .stringVector => lit "string"
  | .flex => lit "ubyte"
  | .unknown => lit "ubyte"

/-- `src/fbs_gen.cpp:51–68`. -/
def isVectorType : PropertyType → Bool
  | .boolVector | .byteVector | .shortVector | .charVector | .intVector | .longVector
  | .floatVector | .doubleVector | .stringVector | .dateVector | .dateNanoVector => true
  | _ => false

/-- The comment after a Flex field; `src/fbs_gen.cpp:73–75`. -/
def flexComment : Bytes :=
  lit "  // Flex: raw FlexBuffers-encoded bytes; a flatc-generated\n" ++
    lit "                    // reader gets these raw too (ob_dump's own JSON\n" ++
    lit "                    // output decodes them, but that's a separate path)"

/-- `src/fbs_gen.cpp:70–96`. -/
def writeField (prop : PropertyDef) : Bytes :=
  lit "  " ++ prop.name ++ lit ":" ++
    if prop.type = .flex then lit "[ubyte];" ++ flexComment ++ lit "\n"
    else
      let base := fbsTypeName prop.type prop.isUnsigned
      (if isVectorType prop.type then lit "[" ++ base ++ lit "]" else base) ++
        if prop.type = .unknown then
          lit " (deprecated);  // unrecognized PropertyType code, shape unknown\n"
        else
          lit ";" ++
            (match externalTypeName prop.externalType with
            | some ext => lit "  // external type: " ++ ext
            | none => []) ++ lit "\n"

/-- `src/fbs_gen.cpp:98–103`. -/
def writeReservedPlaceholder (propertyId : Int) : Bytes :=
  lit "  _reserved_" ++ intText propertyId ++ lit ":ubyte (deprecated);\n"

/-- The comment lines of `src/fbs_gen.cpp:111–116`. -/
def fbsHeader : Bytes :=
  lit "// Auto-generated by `ob_dump --fbs` from objectbox-model.json. Do not edit by hand.\n" ++
    lit "// Field order matches ObjectBox property id order (determines each field's vtable\n" ++
    lit "// slot); gaps from retired properties are filled with deprecated placeholders to\n" ++
    lit "// keep slot numbering aligned. See docs/BACKLOG.md for the full rationale — in\n" ++
    lit "// particular, this .fbs plus flatc only replaces the per-record FlatBuffers decode,\n" ++
    lit "// not LMDB access or the ObjectBox key-format parsing.\n\n"

/-- The map of `src/fbs_gen.cpp:119–124`: a repeated id keeps its last property. -/
def byId (entity : EntityDef) : Members Int PropertyDef :=
  Members.insertAll [] (entity.properties.map fun prop ↦ (prop.id, prop))

/-- The largest property id, 0 without properties; `src/fbs_gen.cpp:120–124`. -/
def maxId (entity : EntityDef) : Int :=
  entity.properties.foldl (fun m prop ↦ if prop.id > m then prop.id else m) 0

/-- One turn of the loop over the ids; `src/fbs_gen.cpp:128–133`. -/
def writeId (entity : EntityDef) (id : Int) : Bytes :=
  match Members.lookup (byId entity) id with
  | none => writeReservedPlaceholder id
  | some prop => writeField prop

/-- The comment for a relation; `src/fbs_gen.cpp:139–142`. -/
def writeRelation (schema : Schema) (rel : RelationDef) : Bytes :=
  lit "  // ToMany relation: " ++ rel.name ++ lit " (relation id " ++ intText rel.id ++
    lit ") -> " ++
    (match schema.find rel.targetEntityId with
    | some target => target.name
    | none => lit "?") ++
    lit " — not a table field, see docs/BACKLOG.md\n"

/-- The ids `1` to `maxId`. -/
def idsUpTo (maxId : Int) : List Int := (List.range maxId.toNat).map fun i : Nat ↦ (i : Int) + 1

/-- The text of an entity's table; `src/fbs_gen.cpp:126–144`. -/
def writeTable (schema : Schema) (entity : EntityDef) : Bytes :=
  lit "table " ++ entity.name ++ lit " \x7b\n" ++
    (idsUpTo (maxId entity)).flatMap (writeId entity) ++
    entity.relations.flatMap (writeRelation schema) ++ lit "\x7d\n\n"

/-- `generateFbs`, `src/fbs_gen.cpp:107–149`. -/
def generateFbs (nl : Nlohmann) (modelJson : Bytes) : Except Exc Bytes := do
  let schema ← Schema.parse nl modelJson
  pure (fbsHeader ++ schema.all.flatMap (writeTable schema))

end ObDump
