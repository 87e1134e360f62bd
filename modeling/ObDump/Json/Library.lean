import ObDump.Json.Text

/-!
# The JSON library

Library `Json`. `nlohmann::json` is not part of the sources: its `parse` and `dump` are
parameters, and `Documented` collects what its documentation says of them.
-/

namespace ObDump

open Base

/-- Exceptions of the JSON library, by class. -/
inductive JsonError where
  | parseError
  | invalidIterator
  | typeError
  | outOfRange
  deriving DecidableEq, Repr

/-- The entry points the code calls. `dump` takes the indent, none for a compact text;
`number` is the value the library reads from a number's lexeme; `castInt` is what its
`static_cast<int>` makes of a floating-point number outside `int`, which the language leaves
open. -/
structure Nlohmann where
  parse : Bytes → Except JsonError Json
  dump : Option Nat → Json → Except JsonError Bytes
  number : Bytes → Json
  castInt : UInt64 → BitVec 32

namespace Nlohmann

/-- Reading back what `dump` wrote gives the same value, on the values of `S`. -/
def InverseOn (nl : Nlohmann) (S : Json → Prop) : Prop :=
  ∀ v, S v → ∀ indent t, nl.dump indent v = .ok t → JsonText.read nl.number t = some v

/-- No two values of `S` have the same text. -/
def InjectiveOn (nl : Nlohmann) (S : Json → Prop) : Prop :=
  ∀ v w, S v → S w → ∀ indent t, nl.dump indent v = .ok t → nl.dump indent w = .ok t → v = w

/-- Values that read back have different texts. -/
theorem InverseOn.injectiveOn {nl : Nlohmann} {S : Json → Prop} (h : nl.InverseOn S) :
    nl.InjectiveOn S := by
  intro v w hv hw indent t htv htw
  have hr := (h v hv indent t htv).symm.trans (h w hw indent t htw)
  exact Option.some.inj hr

/-- Documented behaviour: parsed strings are well-formed UTF-8, the default error handler of
`dump` rejects exactly the values with an ill-formed string, what `dump` returns is a JSON
text, of an object for an object, and it writes arrays and objects by writing what is in
them, so that they read back when that does. -/
structure Documented (nl : Nlohmann) : Prop where
  parse_encodable : ∀ {t v}, nl.parse t = .ok v → v.encodable = true
  dump_ok_iff : ∀ indent v, (∃ t, nl.dump indent v = .ok t) ↔ v.encodable = true
  dump_text : ∀ {indent v t}, nl.dump indent v = .ok t → ∃ tree, JsonText.parse t = some tree
  dump_object : ∀ {indent ms t}, nl.dump indent (.obj ms) = .ok t →
    ∃ trees, JsonText.parse t = some (.obj trees)
  inverse_array : ∀ {xs}, nl.InverseOn (· ∈ xs) → nl.InverseOn (· = .arr xs)
  inverse_object : ∀ {ms}, Members.Ordered ms → nl.InverseOn (· ∈ ms.map Prod.snd) →
    nl.InverseOn (· = .obj ms)

/-- An object reads back when the values it is made of do. -/
theorem Documented.inverse_settings {nl : Nlohmann} (hnl : nl.Documented)
    {es : List (Bytes × Json)} (h : nl.InverseOn (· ∈ es.map Prod.snd)) :
    nl.InverseOn (· = Json.object es) := by
  apply hnl.inverse_object (Members.ordered_insertAll es Members.ordered_nil)
  intro v hv
  obtain ⟨e, he, rfl⟩ := List.mem_map.mp hv
  have ho := Members.ordered_insertAll es (Members.ordered_nil (κ := Bytes))
  apply h
  rcases Members.mem_or_lookup_of_insertAll ((Members.lookup_eq_some_iff ho).mpr he) with hm | hnil
  · exact List.mem_map_of_mem hm
  · cases hnil.2

end Nlohmann

end ObDump
