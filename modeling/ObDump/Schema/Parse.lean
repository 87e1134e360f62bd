import ObDump.Base.Except
import ObDump.Base.Floats
import ObDump.Schema.Model

/-!
# Parsing the model

Library `Schema`. `Schema::parse` of `src/schema.cpp:54–98` with the number parser it
rests on. Every failure of the source is an error here: a missing or mistyped field of
the JSON text, a malformed id, an id that is no `int`.
-/

namespace ObDump

open Base

/-! ### Reading fields of a JSON value -/

/-- Conversion of an integer to `int` keeps the low 32 bits. -/
def toInt32 (n : Int) : Int := (BitVec.ofInt 32 n).toInt

/-- The number is one of `int`. -/
def FitsInt (n : Int) : Prop := -2147483648 ≤ n ∧ n ≤ 2147483647

instance (n : Int) : Decidable (FitsInt n) := inferInstanceAs (Decidable (_ ∧ _))

namespace Json

/-- `j.at(key)`. -/
def at? (j : Json) (key : Bytes) : Except Exc Json :=
  match j with
  | .obj ms =>
    match Members.lookup ms key with
    | some v => .ok v
    | none => .error (.json .outOfRange)
  | _ => .error (.json .typeError)

/-- `j.contains(key)`. -/
def contains (j : Json) (key : Bytes) : Bool := (j.get? key).isSome

/-- `j.get<std::string>()`. -/
def getString : Json → Except Exc Bytes
  | .str s => .ok s
  | _ => .error (.json .typeError)

/-- `j.get<int>()`: any arithmetic value is converted, a floating-point number toward zero. -/
def getInt (nl : Nlohmann) : Json → Except Exc Int
  | .int n => .ok (toInt32 n)
  | .bool b => .ok (if b then 1 else 0)
  | .float64 bits =>
    let n := truncFloat 52 11 bits.toNat
    .ok (if FitsInt n then n else (nl.castInt bits).toInt)
  | _ => .error (.json .typeError)

/-- A range-based loop over a JSON value: the elements, the member values, nothing for
`null`, and the value itself otherwise. -/
def items : Json → List Json
  | .arr xs => xs
  | .obj ms => ms.map Prod.snd
  | .null => []
  | j => [j]

end Json

/-! ### `std::stoi` -/

/-- `isspace` in the C locale. -/
def isSpace (b : UInt8) : Bool := b = 0x20 || (0x09 ≤ b && b ≤ 0x0D)

/-- An optional sign and what follows it. -/
def takeSign : Bytes → Bool × Bytes
  | [] => (false, [])
  | b :: s => if b = 0x2D then (true, s) else if b = 0x2B then (false, s) else (false, b :: s)

/-- A value outside `int` is out of range. -/
def stoiRange (v : Int) : Except Exc Int :=
  if v < -2147483648 ∨ 2147483647 < v then .error .stoiOutOfRange else .ok v

private theorem stoiRange_ok {v n : Int} (h : stoiRange v = .ok n) :
    -2147483648 ≤ n ∧ n ≤ 2147483647 := by
  unfold stoiRange at h
  split at h
  · simp at h
  · cases h
    omega

/-- White space and a sign are accepted, and the conversion stops at the first byte that is
no digit. -/
def stoi (s : Bytes) : Except Exc Int :=
  let (negative, rest) := takeSign (s.dropWhile isSpace)
  let digits := rest.takeWhile isDigit
  if digits = [] then .error .stoiInvalidArgument
  else stoiRange (if negative then -(decimal digits) else decimal digits)

/-- A converted number is an `int`. -/
theorem stoi_range {s : Bytes} {n : Int} (h : stoi s = .ok n) :
    -2147483648 ≤ n ∧ n ≤ 2147483647 := by
  simp only [stoi] at h
  split at h
  · simp at h
  · exact stoiRange_ok h

/-! ### `Schema::parse` -/

/-- `src/schema.cpp:14–20`. -/
def parseLeadingId (idUid : Bytes) : Except Exc Int :=
  match idUid.idxOf? 0x3A with
  | none => .error (.runtimeError (lit "malformed id field (expected \"id:uid\"): " ++ idUid))
  | some colon => stoi (idUid.take colon)

/-- A parsed id is an `int`. -/
theorem parseLeadingId_range {s : Bytes} {n : Int} (h : parseLeadingId s = .ok n) :
    -2147483648 ≤ n ∧ n ≤ 2147483647 := by
  unfold parseLeadingId at h
  split at h
  · simp at h
  · exact stoi_range h

/-- The UNSIGNED bit of an optional `flags`; `src/schema.cpp:75–77`. -/
def parseUnsigned (nl : Nlohmann) (p : Json) : Except Exc Bool :=
  if p.contains (lit "flags") then do
    let flags ← (← p.at? (lit "flags")).getInt nl
    pure (BitVec.ofInt 32 flags &&& BitVec.ofInt 32 kPropertyFlagUnsigned != 0)
  else pure false

/-- An optional `externalType`; `src/schema.cpp:78–80`. -/
def parseExternalType (nl : Nlohmann) (p : Json) : Except Exc Int :=
  if p.contains (lit "externalType") then do (← p.at? (lit "externalType")).getInt nl
  else pure ExternalPropertyType.unknown

/-- One entry of `properties`; `src/schema.cpp:67–82`. -/
def parseProperty (nl : Nlohmann) (p : Json) : Except Exc PropertyDef := do
  let id ← parseLeadingId (← (← p.at? (lit "id")).getString)
  let name ← (← p.at? (lit "name")).getString
  let type ← (← p.at? (lit "type")).getInt nl
  let isUnsigned ← parseUnsigned nl p
  let externalType ← parseExternalType nl p
  pure { id, name, type := toPropertyType type, isUnsigned, externalType }

/-- One entry of `relations`; `src/schema.cpp:85–91`. -/
def parseRelation (r : Json) : Except Exc RelationDef := do
  let id ← parseLeadingId (← (← r.at? (lit "id")).getString)
  let name ← (← r.at? (lit "name")).getString
  let targetEntityId ← parseLeadingId (← (← r.at? (lit "targetId")).getString)
  pure { id, name, targetEntityId }

/-- The optional `relations` of an entity; `src/schema.cpp:84–92`. -/
def parseRelations (e : Json) : Except Exc (List RelationDef) :=
  if e.contains (lit "relations") then do
    (← e.at? (lit "relations")).items.mapM parseRelation
  else pure []

/-- One entry of `entities`; `src/schema.cpp:63–92`. -/
def parseEntity (nl : Nlohmann) (e : Json) : Except Exc EntityDef := do
  let entityId ← parseLeadingId (← (← e.at? (lit "id")).getString)
  let name ← (← e.at? (lit "name")).getString
  let properties ← (← e.at? (lit "properties")).items.mapM (parseProperty nl)
  let relations ← parseRelations e
  pure { entityId, name, properties, relations }

/-- The loop over `entities`; `src/schema.cpp:62–95`. -/
def parseEntities (nl : Nlohmann) : List Json → Schema → Except Exc Schema
  | [], schema => .ok schema
  | e :: es, schema => do
    let entity ← parseEntity nl e
    parseEntities nl es (schema.emplace entity)

/-- `Schema::parse`, `src/schema.cpp:54–98`. -/
def Schema.parse (nl : Nlohmann) (modelJson : Bytes) : Except Exc Schema :=
  match nl.parse modelJson with
  | .error e => .error (.json e)
  | .ok model =>
    match model.get? (lit "entities") with
    | some (.arr entities) => parseEntities nl entities .empty
    | _ => .error (.runtimeError (lit "model json has no \"entities\" array"))

/-- An accepted model text, from the entities it yields. -/
theorem Schema.parse_of_entities {nl : Nlohmann} {modelJson : Bytes} {es : List EntityDef}
    (h : (Schema.parse nl modelJson).map Schema.entities = .ok es) :
    ∃ s, Schema.parse nl modelJson = .ok s ∧ s.entities = es := by
  cases hs : Schema.parse nl modelJson with
  | error e =>
    rw [hs] at h
    cases h
  | ok s =>
    rw [hs] at h
    exact ⟨s, rfl, Except.ok.inj h⟩

/-! ### What an accepted model guarantees -/

/-- Every name an entity declares is well-formed UTF-8. -/
structure EntityDef.NamesValid (e : EntityDef) : Prop where
  name : Utf8.valid e.name = true
  properties : ∀ p ∈ e.properties, Utf8.valid p.name = true
  relations : ∀ r ∈ e.relations, Utf8.valid r.name = true

private theorem at?_encodable {j v : Json} {key : Bytes} (hj : j.encodable = true)
    (h : j.at? key = .ok v) : v.encodable = true := by
  cases j with
  | obj ms =>
    simp only [Json.at?] at h
    split at h
    · next hl =>
      cases h
      exact ((Json.encodable_obj ms).mp hj _ (Members.mem_of_lookup hl)).2
    · simp at h
  | _ => simp [Json.at?] at h

private theorem getString_valid {j : Json} {s : Bytes} (hj : j.encodable = true)
    (h : j.getString = .ok s) : Utf8.valid s = true := by
  cases j with
  | str t => cases h; exact hj
  | _ => simp [Json.getString] at h

private theorem items_encodable {j : Json} (hj : j.encodable = true) :
    ∀ x ∈ j.items, x.encodable = true := by
  intro x hx
  cases j with
  | arr xs => exact (Json.encodable_arr xs).mp hj x hx
  | obj ms =>
    obtain ⟨e, he, rfl⟩ := List.mem_map.mp hx
    exact ((Json.encodable_obj ms).mp hj e he).2
  | null => simp [Json.items] at hx
  | _ => rw [List.mem_singleton.mp hx]; exact hj

private theorem parseProperty_name {nl : Nlohmann} {j : Json} {p : PropertyDef}
    (hj : j.encodable = true) (h : parseProperty nl j = .ok p) : Utf8.valid p.name = true := by
  unfold parseProperty at h
  obtain ⟨_, _, h⟩ := bind_eq_ok.mp h
  obtain ⟨_, _, h⟩ := bind_eq_ok.mp h
  obtain ⟨_, _, h⟩ := bind_eq_ok.mp h
  obtain ⟨v, hv, h⟩ := bind_eq_ok.mp h
  obtain ⟨name, hname, h⟩ := bind_eq_ok.mp h
  obtain ⟨_, _, h⟩ := bind_eq_ok.mp h
  obtain ⟨_, _, h⟩ := bind_eq_ok.mp h
  obtain ⟨_, _, h⟩ := bind_eq_ok.mp h
  obtain ⟨_, _, h⟩ := bind_eq_ok.mp h
  cases h
  exact getString_valid (at?_encodable hj hv) hname

private theorem parseRelation_name {j : Json} {r : RelationDef} (hj : j.encodable = true)
    (h : parseRelation j = .ok r) : Utf8.valid r.name = true := by
  unfold parseRelation at h
  obtain ⟨_, _, h⟩ := bind_eq_ok.mp h
  obtain ⟨_, _, h⟩ := bind_eq_ok.mp h
  obtain ⟨_, _, h⟩ := bind_eq_ok.mp h
  obtain ⟨v, hv, h⟩ := bind_eq_ok.mp h
  obtain ⟨name, hname, h⟩ := bind_eq_ok.mp h
  obtain ⟨_, _, h⟩ := bind_eq_ok.mp h
  obtain ⟨_, _, h⟩ := bind_eq_ok.mp h
  obtain ⟨_, _, h⟩ := bind_eq_ok.mp h
  cases h
  exact getString_valid (at?_encodable hj hv) hname

private theorem parseEntity_names {nl : Nlohmann} {j : Json} {e : EntityDef}
    (hj : j.encodable = true) (h : parseEntity nl j = .ok e) : e.NamesValid := by
  unfold parseEntity at h
  obtain ⟨_, _, h⟩ := bind_eq_ok.mp h
  obtain ⟨_, _, h⟩ := bind_eq_ok.mp h
  obtain ⟨_, _, h⟩ := bind_eq_ok.mp h
  obtain ⟨v, hv, h⟩ := bind_eq_ok.mp h
  obtain ⟨name, hname, h⟩ := bind_eq_ok.mp h
  obtain ⟨ps, hps, h⟩ := bind_eq_ok.mp h
  obtain ⟨properties, hproperties, h⟩ := bind_eq_ok.mp h
  obtain ⟨relations, hrelations, h⟩ := bind_eq_ok.mp h
  cases h
  refine ⟨getString_valid (at?_encodable hj hv) hname, ?_, ?_⟩
  · intro p hp
    obtain ⟨x, hx, hxp⟩ := mem_of_mapM_eq_ok hproperties hp
    exact parseProperty_name (items_encodable (at?_encodable hj hps) x hx) hxp
  · intro r hr
    unfold parseRelations at hrelations
    split at hrelations
    · obtain ⟨rs, hrs, hrelations⟩ := bind_eq_ok.mp hrelations
      obtain ⟨x, hx, hxr⟩ := mem_of_mapM_eq_ok hrelations hr
      exact parseRelation_name (items_encodable (at?_encodable hj hrs) x hx) hxr
    · cases hrelations
      simp at hr

private theorem parseEntities_names {nl : Nlohmann} {es : List Json} {s t : Schema}
    (hes : ∀ x ∈ es, x.encodable = true) (hs : ∀ e ∈ s.entities, e.NamesValid)
    (h : parseEntities nl es s = .ok t) : ∀ e ∈ t.entities, e.NamesValid := by
  induction es generalizing s with
  | nil => cases h; exact hs
  | cons x es ih =>
    obtain ⟨entity, hentity, h⟩ := bind_eq_ok.mp h
    refine ih (fun y hy ↦ hes y (List.mem_cons_of_mem _ hy)) ?_ h
    intro e he
    rcases Schema.mem_emplace he with hm | rfl
    · exact hs e hm
    · exact parseEntity_names (hes x List.mem_cons_self) hentity

/-- The names of an accepted model are well-formed UTF-8, since the JSON parser rejects
ill-formed texts. -/
theorem Schema.parse_namesValid {nl : Nlohmann} (hnl : nl.Documented) {modelJson : Bytes}
    {s : Schema} (h : Schema.parse nl modelJson = .ok s) :
    ∀ e ∈ s.entities, e.NamesValid := by
  unfold Schema.parse at h
  split at h
  · simp at h
  · next model hmodel =>
    have hj := hnl.parse_encodable hmodel
    split at h
    · next entities hentities =>
      refine parseEntities_names ?_ (by simp [Schema.empty]) h
      cases model with
      | obj ms =>
        have ha := ((Json.encodable_obj ms).mp hj _ (Members.mem_of_lookup hentities)).2
        exact (Json.encodable_arr entities).mp ha
      | _ => simp [Json.get?] at hentities
    · simp at h

end ObDump
