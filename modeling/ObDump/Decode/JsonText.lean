import ObDump.Decode.RoundTrip

/-!
# Strings that hold JSON

Library `Decode`. `decodeStringAsJson` of `src/fb_decode.cpp:76–92` keeps the raw string when
the library throws a `parse_error`. The library throws another exception, `out_of_range`, for a
number that it cannot represent, and that one leaves `decodeObject`.
-/

namespace ObDump

open Base FlatBuffers

section

variable (lib : Libraries) (t : Table)

/-- The record's field of `p` passes the checks of a string and holds `s`. -/
def HoldsString (p : PropertyDef) (s : Bytes) : Prop :=
  ∃ off, fieldOffset t.buf t.pos (slotFor p.id) = some off ∧ off ≠ 0 ∧
    Codec.string.accepts lib.verifier t (slotFor p.id) off = true ∧
    readStored t.buf (t.pos + off) .string = some (.string s)

/-- No property of `ps` stores another value than `j` under `name`. -/
def KeepsMember (ps : List PropertyDef) (name : Bytes) (j : Json) : Prop :=
  ∀ w, Members.lookup (Members.insertAll [] (ps.filterMap (setting lib t))) name = some w → w = j

/-- The parsed value of a content, or the content itself as a string. -/
def parsedOrText (s : Bytes) : Json :=
  match lib.json.parse s with
  | .ok j => j
  | .error _ => .str s

variable {lib t}

private theorem parseOrRaw_eq_ok
    (hparse : ∀ s e, lib.json.parse s = .error e → e = .parseError ∨ e = .outOfRange)
    {s : Bytes} (j : Json) :
    parseOrRaw lib s = .ok j ↔ lib.json.parse s ≠ .error .outOfRange ∧ j = parsedOrText lib s := by
  -- Only one of the two exceptions of `parse` is caught.
  unfold parseOrRaw parsedOrText
  cases h : lib.json.parse s with
  | ok v => simp [eq_comm]
  | error e =>
    rcases hparse s e h with rfl | rfl
    · simp [eq_comm]
    · simp

private theorem codec_of_isJsonText {p : PropertyDef} (ht : p.type = .string)
    (hj : p.IsJsonText) : p.codec = some .stringAsJson := by
  unfold PropertyDef.IsJsonText at hj
  rw [PropertyDef.codec, ht]
  exact if_pos hj

private theorem setting_of_holdsString {p : PropertyDef} {s : Bytes}
    (hc : p.codec = some .stringAsJson) (hid : p.name ≠ lit "id") (hs : HoldsString lib t p s) :
    setting lib t p = (parseOrRaw lib s).toOption.map (p.name, ·) := by
  obtain ⟨off, hoff, h0, -, hread⟩ := hs
  rw [setting, if_neg hid, fieldJson_of_present hc hoff h0 hread]
  rfl

private theorem fieldOk_iff {p : PropertyDef} {s : Bytes} (hc : p.codec = some .stringAsJson)
    (hs : HoldsString lib t p s) : FieldOk lib t p ↔ ∃ j, parseOrRaw lib s = .ok j := by
  obtain ⟨off, hoff, h0, hacc, hread⟩ := hs
  constructor
  · intro h
    obtain ⟨off', hoff', habs | ⟨-, -, v, j, hv, hj⟩⟩ := h _ hc
    · rw [hoff, habs] at hoff'
      exact absurd (Option.some.inj hoff') h0
    · rw [hoff] at hoff'
      cases hoff'
      have hv' : some (Stored.string s) = some v := hread.symm.trans hv
      cases hv'
      exact ⟨j, hj⟩
  · rintro ⟨j, hj⟩ c hc'
    rw [hc] at hc'
    cases hc'
    exact ⟨off, hoff, .inr ⟨h0, hacc, _, j, hread, hj⟩⟩

end

private theorem lookup_id (lib : Libraries) (t : Table) (ps : List PropertyDef) :
    Members.lookup (Members.insertAll [] (ps.filterMap (setting lib t))) (lit "id") = none := by
  rw [Members.lookup_insertAll_of_notMem]
  · rfl
  · intro h
    obtain ⟨e, he, hname⟩ := List.mem_map.mp h
    obtain ⟨p, -, hp⟩ := List.mem_filterMap.mp he
    unfold setting at hp
    split_ifs at hp with hid
    obtain ⟨j, -, rfl⟩ := Option.map_eq_some_iff.mp hp
    exact hid hname

private theorem get?_member {lib : Libraries} {t : Table} {pre post : List PropertyDef}
    {p : PropertyDef} {j : Json} (h : setting lib t p = some (p.name, j)) :
    (Json.object ((pre ++ p :: post).filterMap (setting lib t))).get? p.name =
      some ((Members.lookup (Members.insertAll [] (post.filterMap (setting lib t)))
        p.name).getD j) := by
  have hcons : ∀ ms : List (Bytes × Json), Members.insertAll ms ((p.name, j) ::
      post.filterMap (setting lib t)) = Members.insertAll (Members.insert ms p.name j)
        (post.filterMap (setting lib t)) := fun _ ↦ rfl
  rw [List.filterMap_append, List.filterMap_cons, h, Json.object, Members.insertAll_append, hcons,
    Json.get?, Members.lookup_insertAll, Members.lookup_insert_self]
  exact Option.or_some

private theorem get?_eq_iff {lib : Libraries} {t : Table} {pre post : List PropertyDef}
    {p : PropertyDef} {j : Json} (h : setting lib t p = some (p.name, j)) :
    (Json.object ((pre ++ p :: post).filterMap (setting lib t))).get? p.name = some j ↔
      KeepsMember lib t post p.name j := by
  rw [get?_member h, Option.some.injEq, KeepsMember]
  cases Members.lookup (Members.insertAll [] (post.filterMap (setting lib t))) p.name with
  | none => exact iff_of_true rfl fun w hw ↦ by cases hw
  | some v => exact ⟨fun hv w hw ↦ (Option.some.inj hw).symm.trans hv, fun hv ↦ hv v rfl⟩

private theorem decodeObject_with {lib : Libraries} {data : Bytes} {pos : Nat}
    (hpos : getRoot data = some pos) {entity : EntityDef} {pre post : List PropertyDef}
    {p : PropertyDef} (hps : entity.properties = pre ++ p :: post)
    (hrest : ∃ r, decodeObject lib data { entity with properties := pre ++ post } = .ok r)
    (hc : p.codec = some .stringAsJson) {s : Bytes} (hs : HoldsString lib ⟨data, pos⟩ p s)
    (r : Json) :
    decodeObject lib data entity = .ok r ↔
      (p.name ≠ lit "id" → ∃ j, parseOrRaw lib s = .ok j) ∧
        r = Json.object ((pre ++ p :: post).filterMap (setting lib ⟨data, pos⟩)) := by
  obtain ⟨r₀, hr₀⟩ := hrest
  obtain ⟨hroot, pos', hpos', hstart, hothers, -⟩ := decodeObject_eq_ok.mp hr₀
  rw [hpos] at hpos'
  cases hpos'
  rw [decodeObject_eq_ok, ← fieldOk_iff hc hs, hps]
  constructor
  · rintro ⟨-, pos', hpos', -, hall, rfl⟩
    rw [hpos] at hpos'
    cases hpos'
    exact ⟨hall p (List.mem_append_right pre List.mem_cons_self), rfl⟩
  · rintro ⟨hp, rfl⟩
    refine ⟨hroot, pos, hpos, hstart, ?_, rfl⟩
    intro q hq hqid
    rcases List.mem_append.mp hq with hq | hq
    · exact hothers q (List.mem_append_left post hq) hqid
    · rcases List.mem_cons.mp hq with rfl | hq
      · exact hp hqid
      · exact hothers q (List.mem_append_right pre hq) hqid

/-- For every record that decodes without the property and holds the content `s` in it: the
object has the parsed value or the raw string as the property's member exactly when `parse`
does not throw `out_of_range`, the property is not called `id` and no later property of its
name is stored with another value. -/
theorem json_text_decodes_iff (lib : Libraries)
    (hparse : ∀ s e, lib.json.parse s = .error e → e = .parseError ∨ e = .outOfRange)
    (data : Bytes) {pos : Nat} (hpos : getRoot data = some pos) (entity : EntityDef)
    {pre post : List PropertyDef} {p : PropertyDef} (hps : entity.properties = pre ++ p :: post)
    (hrest : ∃ r, decodeObject lib data { entity with properties := pre ++ post } = .ok r)
    (ht : p.type = .string) (hj : p.IsJsonText) {s : Bytes}
    (hs : HoldsString lib ⟨data, pos⟩ p s) :
    (∃ r, decodeObject lib data entity = .ok r ∧ r.get? p.name = some (parsedOrText lib s)) ↔
      lib.json.parse s ≠ .error .outOfRange ∧ p.name ≠ lit "id" ∧
        KeepsMember lib ⟨data, pos⟩ post p.name (parsedOrText lib s) := by
  have hc := codec_of_isJsonText ht hj
  have hdecodes := decodeObject_with hpos hps hrest hc hs
  have hset : lib.json.parse s ≠ .error .outOfRange → p.name ≠ lit "id" →
      setting lib ⟨data, pos⟩ p = some (p.name, parsedOrText lib s) := by
    intro hnot hid
    rw [setting_of_holdsString hc hid hs, (parseOrRaw_eq_ok hparse _).mpr ⟨hnot, rfl⟩]
    rfl
  constructor
  · rintro ⟨r, hr, hmember⟩
    obtain ⟨hp, rfl⟩ := (hdecodes r).mp hr
    have hid : p.name ≠ lit "id" := by
      intro hid
      rw [hid] at hmember
      exact absurd (hmember.symm.trans (lookup_id lib _ (pre ++ p :: post)))
        (Option.some_ne_none _)
    obtain ⟨j, hok⟩ := hp hid
    have hnot := ((parseOrRaw_eq_ok hparse j).mp hok).1
    exact ⟨hnot, hid, (get?_eq_iff (hset hnot hid)).mp hmember⟩
  · rintro ⟨hnot, hid, hkeep⟩
    have hok := (parseOrRaw_eq_ok hparse _).mpr ⟨hnot, rfl⟩
    exact ⟨_, (hdecodes _).mpr ⟨fun _ ↦ ⟨_, hok⟩, rfl⟩,
      (get?_eq_iff (hset hnot hid)).mpr hkeep⟩

/-- A library that cannot represent the number `1e999`. -/
private def narrow : Libraries :=
  { Libraries.reference with
    json := { Nlohmann.reference with
      parse := fun s ↦
        if s = lit "1e999" then .error .outOfRange else Nlohmann.reference.parse s } }

private def setup : EntityDef :=
  ⟨1, lit "Setup", [⟨1, lit "extra", .string, false, ExternalPropertyType.json⟩], []⟩

private def setupRecord (text : Bytes) : Bytes :=
  [12, 0, 0, 0, 6, 0, 8, 0, 4, 0, 0, 0, 8, 0, 0, 0, 4, 0, 0, 0] ++ toLE 4 text.length ++ text ++ [0]

private theorem narrow_parse :
    ∀ s e, narrow.json.parse s = .error e → e = .parseError ∨ e = .outOfRange := by
  intro s e h
  simp only [narrow, Nlohmann.reference] at h
  split at h
  · cases h
    exact .inr rfl
  · split at h
    · split_ifs at h
      cases h
      exact .inl rfl
    · cases h
      exact .inl rfl

/-- A content that is JSON. -/
theorem json_text_decodes_iff_sample :
    ∃ r, decodeObject narrow (setupRecord (lit "[1]")) setup = .ok r ∧
      r.get? (lit "extra") = some (parsedOrText narrow (lit "[1]")) := by
  have hpos : getRoot (setupRecord (lit "[1]")) = some 12 := rfl
  have hps : setup.properties =
      [] ++ ⟨1, lit "extra", .string, false, ExternalPropertyType.json⟩ :: [] := rfl
  have hs : HoldsString narrow ⟨setupRecord (lit "[1]"), 12⟩
      ⟨1, lit "extra", .string, false, ExternalPropertyType.json⟩ (lit "[1]") :=
    ⟨4, rfl, by decide, rfl, rfl⟩
  apply (json_text_decodes_iff narrow narrow_parse (setupRecord (lit "[1]")) hpos setup hps
    ⟨_, rfl⟩ rfl (.inl rfl) hs).mpr
  refine ⟨?_, by decide, ?_⟩
  · exact fun h ↦ by cases h
  · exact fun w h ↦ by cases h

/-- The record passes every check, holds `1e999` and does not decode. -/
theorem json_text_escapes :
    HoldsString narrow ⟨setupRecord (lit "1e999"), 12⟩
        ⟨1, lit "extra", .string, false, ExternalPropertyType.json⟩ (lit "1e999") ∧
      decodeObject narrow (setupRecord (lit "1e999")) { setup with properties := [] } =
        .ok (.obj []) ∧
      decodeObject narrow (setupRecord (lit "1e999")) setup = .error (.json .outOfRange) :=
  ⟨⟨4, rfl, by decide, rfl, rfl⟩, rfl, rfl⟩

end ObDump
