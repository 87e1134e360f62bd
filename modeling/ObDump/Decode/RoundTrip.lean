import ObDump.Decode.Settings

/-!
# Decoding undoes the table encoding

Library `Decode`. A typed value, its FlatBuffers encoding and its JSON form are given from
the property's declaration alone, without the decoder. Whatever the layout of a table that
stores an assignment of such values, `decodeObject` returns its JSON object.
-/

namespace ObDump

open Base FlatBuffers

/-! ### Typed values -/

/-- A value of a property; floating-point numbers as bit patterns. -/
inductive FieldValue where
  | bool (b : Bool)
  | integer (n : Int)
  | float (bits : UInt32)
  | double (bits : UInt64)
  | text (s : Bytes)
  | bools (bs : List Bool)
  | integers (ns : List Int)
  | floats (bits : List UInt32)
  | doubles (bits : List UInt64)
  | bytes (data : Bytes)
  | texts (ss : List Bytes)
  deriving DecidableEq, Repr

/-- Bytes of an integer type, scalar or element. -/
def PropertyType.intSize : PropertyType → Option Nat
  | .byte | .byteVector => some 1
  | .short | .char | .shortVector | .charVector => some 2
  | .int | .intVector => some 4
  | .long | .date | .relation | .dateNano | .longVector | .dateVector | .dateNanoVector => some 8
  | _ => none

/-- The type is a vector of integers. -/
def PropertyType.isIntVector : PropertyType → Bool
  | .byteVector | .shortVector | .charVector | .intVector | .longVector | .dateVector
  | .dateNanoVector => true
  | _ => false

namespace PropertyDef

/-- Integers of the property are unsigned: by its flag, or as Unicode code units. -/
def Unsigned (p : PropertyDef) : Prop :=
  p.isUnsigned = true ∨ p.type = .char ∨ p.type = .charVector

/-- A string whose content is itself JSON. -/
def IsJsonText (p : PropertyDef) : Prop :=
  p.externalType = ExternalPropertyType.json ∨ p.externalType = ExternalPropertyType.javaScript ∨
    p.externalType = ExternalPropertyType.jsonToNative

/-- A byte vector that is an opaque blob. -/
def IsBlob (p : PropertyDef) : Prop :=
  p.type = .byteVector ∧ (p.externalType = ExternalPropertyType.uuid ∨
    p.externalType = ExternalPropertyType.int128 ∨
    p.externalType = ExternalPropertyType.decimal128 ∨
    p.externalType = ExternalPropertyType.bson)

/-- The number fits the property's integer type. -/
def InRange (p : PropertyDef) (n : Int) : Prop :=
  ∃ size, p.type.intSize = some size ∧
    (p.Unsigned ∧ 0 ≤ n ∧ n < 2 ^ (8 * size) ∨
      ¬ p.Unsigned ∧ -2 ^ (8 * size - 1) ≤ n ∧ n < 2 ^ (8 * size - 1))

/-- The value is one of the property's type. -/
def Holds (p : PropertyDef) : FieldValue → Prop
  | .bool _ => p.type = .bool
  | .integer n => p.type.isIntVector = false ∧ p.InRange n
  | .float _ => p.type = .float
  | .double _ => p.type = .double
  | .text _ => p.type = .string ∧ ¬ p.IsJsonText
  | .bools _ => p.type = .boolVector
  | .integers ns => p.type.isIntVector = true ∧ ¬ p.IsBlob ∧ ∀ n ∈ ns, p.InRange n
  | .floats _ => p.type = .floatVector
  | .doubles _ => p.type = .doubleVector
  | .bytes _ => p.IsBlob
  | .texts _ => p.type = .stringVector

/-- Two's complement of the property's width. -/
def wrap (p : PropertyDef) (n : Int) : Nat := (n % 2 ^ (8 * p.type.intSize.getD 0)).toNat

/-- The FlatBuffers encoding of a value. -/
def encode (p : PropertyDef) : FieldValue → Stored
  | .bool b => .scalar 1 b.toNat
  | .integer n => .scalar (p.type.intSize.getD 0) (p.wrap n)
  | .float bits => .scalar 4 bits.toNat
  | .double bits => .scalar 8 bits.toNat
  | .text s => .string s
  | .bools bs => .vector 1 (bs.map Bool.toNat)
  | .integers ns => .vector (p.type.intSize.getD 0) (ns.map p.wrap)
  | .floats bits => .vector 4 (bits.map UInt32.toNat)
  | .doubles bits => .vector 8 (bits.map UInt64.toNat)
  | .bytes data => .vector 1 (data.map UInt8.toNat)
  | .texts ss => .strings ss

/-- The JSON form of a value. -/
def json (p : PropertyDef) : FieldValue → Json
  | .bool b => .bool b
  | .integer n => .int n
  | .float bits => .float64 (widen bits)
  | .double bits => .float64 bits
  | .text s => .str s
  | .bools bs => .arr (bs.map Json.bool)
  | .integers ns => .arr (ns.map Json.int)
  | .floats bits => .arr (bits.map fun b ↦ .float64 (widen b))
  | .doubles bits => .arr (bits.map Json.float64)
  | .bytes data =>
    .str (if p.externalType = ExternalPropertyType.uuid then uuidText data else hexText data)
  | .texts ss => .arr (ss.map Json.str)

/-- The JSON number of a float has the float's value. -/
theorem json_float (p : PropertyDef) (bits : UInt32) :
    ∃ w : UInt64, p.json (.float bits) = .float64 w ∧
      floatValue 52 11 w.toNat = floatValue 23 8 bits.toNat :=
  ⟨_, rfl, floatValue_widen bits⟩

/-- And so have the numbers of the floats of a vector. -/
theorem json_floats (p : PropertyDef) (bits : List UInt32) :
    ∃ ws : List UInt64, p.json (.floats bits) = .arr (ws.map Json.float64) ∧
      ws.map (fun w ↦ floatValue 52 11 w.toNat) = bits.map fun b ↦ floatValue 23 8 b.toNat := by
  refine ⟨bits.map widen, ?_, ?_⟩
  · simp only [json, List.map_map, Function.comp_def]
  · simp only [List.map_map, Function.comp_def, floatValue_widen]

end PropertyDef

/-! ### The codec of a typed value -/

private theorem signed_wrap {bits : Nat} {n : Int} (hb : 0 < bits) (hlo : -2 ^ (bits - 1) ≤ n)
    (hhi : n < 2 ^ (bits - 1)) : signed bits (n % 2 ^ bits).toNat = n := by
  obtain ⟨k, rfl⟩ := Nat.exists_eq_add_of_lt hb
  simp only [Nat.zero_add, Nat.add_sub_cancel, signed] at *
  have hp : (2 : Int) ^ (k + 1) = 2 * 2 ^ k := by rw [pow_succ, mul_comm]
  have hq : (0 : Int) < 2 ^ k := by positivity
  have hm : 0 ≤ n % 2 ^ (k + 1) := Int.emod_nonneg _ (by positivity)
  have hc : ((2 ^ k : Nat) : Int) = 2 ^ k := by push_cast; rfl
  by_cases hn : 0 ≤ n
  · have he : n % 2 ^ (k + 1) = n := Int.emod_eq_of_lt hn (by omega)
    rw [he, if_pos (by omega), Int.toNat_of_nonneg hn]
  · have he : n % 2 ^ (k + 1) = n + 2 ^ (k + 1) := by
      rw [← Int.add_emod_right, Int.emod_eq_of_lt (by omega) (by omega)]
    rw [he] at hm ⊢
    rw [if_neg (by omega), Int.toNat_of_nonneg hm]
    omega

private theorem unsigned_wrap {bits : Nat} {n : Int} (hlo : 0 ≤ n) (hhi : n < 2 ^ bits) :
    ((n % 2 ^ bits).toNat : Int) = n := by
  rw [Int.emod_eq_of_lt hlo hhi, Int.toNat_of_nonneg hlo]

/-- The scalar type of an integer property undoes the encoding of every number it fits. -/
private def Undoes (p : PropertyDef) (T : Scalar) : Prop :=
  T.size = p.type.intSize.getD 0 ∧ ∀ n, p.InRange n → T.toJson (p.wrap n) = .int n

private theorem undoes_integer {p : PropertyDef} {size : Nat} {U S : Scalar}
    (hs : p.type.intSize = some size) (h0 : 0 < size) (hU : U.size = size) (hS : S.size = size)
    (hc : p.Unsigned ↔ p.isUnsigned = true)
    (hUj : ∀ bits, U.toJson bits = .int bits)
    (hSj : ∀ bits, S.toJson bits = .int (signed (8 * size) bits)) :
    Undoes p (p.integer U S) := by
  unfold Undoes PropertyDef.integer PropertyDef.wrap PropertyDef.InRange
  simp only [hs, Option.getD_some, Option.some.injEq, exists_eq_left', hc]
  cases p.isUnsigned with
  | true =>
    refine ⟨hU, fun n hn ↦ ?_⟩
    rcases hn with ⟨-, hlo, hhi⟩ | ⟨hf, -⟩
    · rw [if_pos rfl, hUj, unsigned_wrap hlo hhi]
    · exact absurd rfl hf
  | false =>
    refine ⟨hS, fun n hn ↦ ?_⟩
    rcases hn with ⟨hf, -⟩ | ⟨-, hlo, hhi⟩
    · exact absurd hf (by decide)
    · rw [if_neg (by decide), hSj, signed_wrap (by omega) hlo hhi]

private theorem undoes_char {p : PropertyDef} (hs : p.type.intSize = some 2)
    (hc : p.type = .char ∨ p.type = .charVector) : Undoes p .uint16 := by
  unfold Undoes PropertyDef.wrap PropertyDef.InRange
  simp only [hs, Option.getD_some, Option.some.injEq, exists_eq_left']
  refine ⟨rfl, fun n hn ↦ ?_⟩
  rcases hn with ⟨-, hlo, hhi⟩ | ⟨hf, -⟩
  · exact congrArg Json.int (unsigned_wrap hlo hhi)
  · exact absurd (.inr hc) hf

private theorem codec_integer {p : PropertyDef} {n : Int} (hv : p.type.isIntVector = false)
    (hr : p.InRange n) : ∃ T, p.codec = some (.scalar T) ∧ Undoes p T := by
  obtain ⟨size, hs, -⟩ := hr
  unfold PropertyDef.codec
  cases ht : p.type with
  | char => exact ⟨_, rfl, undoes_char (by simp [ht, PropertyType.intSize]) (.inl ht)⟩
  | byte | short | int | long | date | relation | dateNano =>
    exact ⟨_, rfl, undoes_integer (by rw [ht]; rfl) (by decide) rfl rfl
      (by simp [PropertyDef.Unsigned, ht]) (fun _ ↦ rfl) (fun _ ↦ rfl)⟩
  | _ => simp_all [PropertyType.intSize, PropertyType.isIntVector]

private theorem codec_integers {p : PropertyDef} (hv : p.type.isIntVector = true)
    (hb : ¬ p.IsBlob) : ∃ T, p.codec = some (.numericVector T) ∧ Undoes p T := by
  unfold PropertyDef.codec
  cases ht : p.type with
  | charVector => exact ⟨_, rfl, undoes_char (by simp [ht, PropertyType.intSize]) (.inr ht)⟩
  | byteVector =>
    simp only [PropertyDef.IsBlob, ht, true_and, not_or] at hb
    simp only [hb.1, hb.2.1, hb.2.2.1, hb.2.2.2, or_self, if_false]
    exact ⟨_, rfl, undoes_integer (by rw [ht]; rfl) (by decide) rfl rfl
      (by simp [PropertyDef.Unsigned, ht]) (fun _ ↦ rfl) (fun _ ↦ rfl)⟩
  | shortVector | intVector | longVector | dateVector | dateNanoVector =>
    exact ⟨_, rfl, undoes_integer (by rw [ht]; rfl) (by decide) rfl rfl
      (by simp [PropertyDef.Unsigned, ht]) (fun _ ↦ rfl) (fun _ ↦ rfl)⟩
  | _ => simp_all [PropertyType.isIntVector]

private theorem codec_blob {p : PropertyDef} (hb : p.IsBlob) :
    p.codec = some (.blobString (decide (p.externalType = ExternalPropertyType.uuid))) := by
  obtain ⟨ht, hx⟩ := hb
  unfold PropertyDef.codec
  by_cases hu : p.externalType = ExternalPropertyType.uuid
  · simp [ht, hu]
  · simp [ht, hu, hx.resolve_left hu]

private theorem map_toJson {α : Type} (f : α → Nat) (g : Nat → Json) (h : α → Json) (xs : List α)
    (hfg : ∀ x ∈ xs, g (f x) = h x) : (xs.map f).map g = xs.map h := by
  rw [List.map_map]
  exact List.map_congr_left hfg

/-- The codec of a property reads the layout of its values and yields their JSON forms. -/
theorem PropertyDef.codec_of_holds (lib : Libraries) {p : PropertyDef} {v : FieldValue}
    (h : p.Holds v) : ∃ c, p.codec = some c ∧ c.shape = (p.encode v).shape ∧
      c.toJson lib p.name (p.encode v) = .ok (p.json v) := by
  cases v with
  | bool b =>
    refine ⟨.bool, by simp [codec, show p.type = .bool from h], rfl, ?_⟩
    cases b <;> rfl
  | integer n =>
    obtain ⟨T, hc, hs, hT⟩ := codec_integer h.1 h.2
    exact ⟨_, hc, congrArg Shape.scalar hs, congrArg Except.ok (hT n h.2)⟩
  | float bits =>
    exact ⟨.scalar .float, by simp [codec, show p.type = .float from h], rfl,
      by simp [encode, Codec.toJson, Scalar.toJson, json]⟩
  | double bits =>
    exact ⟨.scalar .double, by simp [codec, show p.type = .double from h], rfl,
      by simp [encode, Codec.toJson, Scalar.toJson, json]⟩
  | text s =>
    refine ⟨.string, ?_, rfl, rfl⟩
    have hj := h.2
    unfold IsJsonText at hj
    simp [codec, h.1, hj]
  | bools bs =>
    refine ⟨.boolVector, by simp [codec, show p.type = .boolVector from h], rfl, ?_⟩
    refine congrArg (Except.ok ∘ Json.arr) (map_toJson _ _ _ bs fun b _ ↦ ?_)
    cases b <;> rfl
  | integers ns =>
    obtain ⟨T, hc, hs, hT⟩ := codec_integers h.1 h.2.1
    refine ⟨_, hc, congrArg Shape.vector hs, ?_⟩
    exact congrArg (Except.ok ∘ Json.arr) (map_toJson _ _ _ ns fun n hn ↦ hT n (h.2.2 n hn))
  | floats bits =>
    refine ⟨.numericVector .float, by simp [codec, show p.type = .floatVector from h], rfl, ?_⟩
    refine congrArg (Except.ok ∘ Json.arr) (map_toJson _ _ _ bits fun b _ ↦ ?_)
    simp [Scalar.toJson]
  | doubles bits =>
    refine ⟨.numericVector .double, by simp [codec, show p.type = .doubleVector from h], rfl, ?_⟩
    refine congrArg (Except.ok ∘ Json.arr) (map_toJson _ _ _ bits fun b _ ↦ ?_)
    simp [Scalar.toJson]
  | bytes data =>
    refine ⟨_, codec_blob h, rfl, ?_⟩
    have hd : (data.map UInt8.toNat).map UInt8.ofNat = data := by simp [Function.comp_def]
    simp only [encode, Codec.toJson, json, hd, blobString, decide_eq_true_eq]
    rw [hexAsUuid_toHex, toHex_eq_hexText]
  | texts ss => exact ⟨.stringVector, by simp [codec, show p.type = .stringVector from h], rfl, rfl⟩

/-! ### Layouts -/

private theorem Scalar.size_bounds (T : Scalar) : 0 < T.size ∧ T.size ≤ 8 := by
  cases T <;> decide

private theorem Codec.vector_size {c : Codec} {size : Nat} (h : c.shape = .vector size) :
    0 < size ∧ size ≤ 8 := by
  cases c with
  | numericVector T => cases h; exact T.size_bounds
  | boolVector | blobString | flex => cases h; decide
  | _ => simp [Codec.shape] at h

private theorem Codec.contents_string {c : Codec} (h : c.shape = .string) (v : Verifier)
    (buf : Bytes) (pos : Nat) : c.contents v buf pos = v.string buf pos := by
  cases c <;> first | rfl | simp [Codec.shape] at h

private theorem Codec.contents_vector {c : Codec} {size : Nat} (h : c.shape = .vector size)
    (v : Verifier) (buf : Bytes) (pos : Nat) : c.contents v buf pos = v.vector buf pos size := by
  cases c <;> first | (cases h; rfl) | simp [Codec.shape] at h

private theorem Codec.contents_strings {c : Codec} (h : c.shape = .strings) (v : Verifier)
    (buf : Bytes) (pos : Nat) :
    c.contents v buf pos = (v.vector buf pos 4 && v.vectorOfStrings buf pos) := by
  cases c <;> first | rfl | simp [Codec.shape] at h

/-- The verifier's checks accept a stored value of the codec's shape. -/
theorem Codec.accepts_of_storedAt {v : Verifier} (hv : v.AcceptsWellFormed) {t : Table}
    {slot off : Nat} {c : Codec} {s : Stored} (hl : t.buf.length < 2 ^ 31)
    (hoff : fieldOffset t.buf t.pos slot = some off) (h0 : 0 < off)
    (hs : StoredAt t.buf (t.pos + off) s) (hc : c.shape = s.shape) :
    c.accepts v t slot off = true := by
  have hpoint : ∀ {pos}, (∀ size, c.shape ≠ .scalar size) → PointsTo t.buf (t.pos + off) pos →
      readLE t.buf pos 4 ≠ none → c.contents v t.buf pos = true →
      c.accepts v t slot off = true := by
    intro pos hne hp hr hk
    obtain ⟨n, hn⟩ := Option.ne_none_iff_exists'.mp hr
    have hb := readLE_bound hn
    rw [accepts_pointer hne, follow_of hp, hv.offset hoff h0 hp (by omega), Bool.true_and]
    exact hk
  cases s with
  | scalar size bits =>
    unfold accepts
    rw [hc]
    exact hv.field hoff h0 hs.1 (readLE_bound hs.2)
  | string s =>
    obtain ⟨pos, hp, hs⟩ := hs
    refine hpoint (by simp [hc, Stored.shape]) hp (by simp [hs.count]) ?_
    rw [contents_string hc, hv.string hl hs]
  | vector size elems =>
    obtain ⟨pos, hp, hs⟩ := hs
    have hsize := vector_size hc
    refine hpoint (by simp [hc, Stored.shape]) hp (by simp [hs.count]) ?_
    rw [contents_vector hc, hv.vector hl hsize.1 hsize.2 hs]
  | strings ss =>
    obtain ⟨pos, offs, hp, hs, hlen, hss⟩ := hs
    refine hpoint (by simp [hc, Stored.shape]) hp (by simp [hs.count]) ?_
    rw [contents_strings hc, hv.vector hl (by decide) (by decide) hs,
      hv.vectorOfStrings hl hs fun i hi ↦ ⟨_, hss i hi (hlen ▸ hi)⟩]
    rfl

section

variable {lib : Libraries} {data : Bytes} {table vtable vtsize : Nat} {p : PropertyDef}

/-- A property whose vtable entry holds a typed value decodes to its JSON form. -/
theorem fieldJson_of_stored (hv : lib.verifier.AcceptsWellFormed)
    (hroot : RootTable data table vtable vtsize) (h1 : 1 ≤ p.id) (h2 : p.id ≤ 32766)
    {v : FieldValue} (hh : p.Holds v)
    (hs : StoresField data table vtable vtsize (p.id - 1).toNat (some (p.encode v))) :
    FieldOk lib ⟨data, table⟩ p ∧ fieldJson lib ⟨data, table⟩ p = some (p.json v) := by
  obtain ⟨off, h0, hentry, hat⟩ := hs
  obtain ⟨c, hc, hshape, hjson⟩ := PropertyDef.codec_of_holds lib hh
  have hoff : fieldOffset data table (slotFor p.id) = some off := by
    rw [slotFor_eq h1 h2, hroot.fieldOffset_eq, hentry]
  have hread : readStored data (table + off) c.shape = some (p.encode v) := by
    rw [hshape]
    exact readStored_of_storedAt hat
  constructor
  · intro d hd
    cases hc.symm.trans hd
    refine ⟨off, hoff, .inr ⟨by omega, ?_, _, _, hread, hjson⟩⟩
    exact Codec.accepts_of_storedAt hv hroot.size hoff h0 hat hshape
  · rw [fieldJson_of_present hc hoff (by omega) hread, hjson]
    rfl

/-- A property with no vtable entry, or with entry 0, is absent. -/
theorem fieldJson_of_unassigned (hroot : RootTable data table vtable vtsize) (h1 : 1 ≤ p.id)
    (h2 : p.id ≤ 32766) (hs : StoresField data table vtable vtsize (p.id - 1).toNat none) :
    FieldOk lib ⟨data, table⟩ p ∧ fieldJson lib ⟨data, table⟩ p = none := by
  have hoff : fieldOffset data table (slotFor p.id) = some 0 := by
    rw [slotFor_eq h1 h2, hroot.fieldOffset_eq, hs]
  exact ⟨fun _ _ ↦ ⟨0, hoff, .inl rfl⟩, fieldJson_of_absent hoff⟩

end

/-- The members of an assignment, in the model's order. -/
def assigned (ps : List PropertyDef) (a : PropertyDef → Option FieldValue) :
    List (Bytes × Json) :=
  ps.filterMap fun p ↦ (a p).map fun v ↦ (p.name, p.json v)

private theorem mem_assigned {ps : List PropertyDef} {a : PropertyDef → Option FieldValue}
    {e : Bytes × Json} :
    e ∈ assigned ps a ↔ ∃ p ∈ ps, ∃ v, a p = some v ∧ e = (p.name, p.json v) := by
  simp only [assigned, List.mem_filterMap, Option.map_eq_some_iff, @eq_comm _ e]

private theorem nodup_assigned {ps : List PropertyDef} (a : PropertyDef → Option FieldValue)
    (h : (ps.map PropertyDef.name).Nodup) : ((assigned ps a).map Prod.fst).Nodup := by
  have hsub : ((assigned ps a).map Prod.fst).Sublist (ps.map PropertyDef.name) := by
    clear h
    induction ps with
    | nil => exact List.Sublist.slnil
    | cons p ps ih =>
      unfold assigned at ih ⊢
      rw [List.filterMap_cons]
      cases a p with
      | none => exact ih.cons _
      | some v => exact ih.cons_cons _
  exact h.sublist hsub

/-- Decoding a table that stores an assignment of typed values, in any layout, yields exactly
one member for each assigned property, holding its value. -/
theorem decodeObject_encode (lib : Libraries) (hv : lib.verifier.AcceptsWellFormed)
    (entity : EntityDef) (a : PropertyDef → Option FieldValue) (data : Bytes)
    (table vtable vtsize : Nat) (hnames : (entity.properties.map PropertyDef.name).Nodup)
    (hid : ∀ p ∈ entity.properties, p.name ≠ lit "id")
    (hrange : ∀ p ∈ entity.properties, 1 ≤ p.id ∧ p.id ≤ 32766)
    (htyped : ∀ p ∈ entity.properties, ∀ v, a p = some v → p.Holds v)
    (hroot : RootTable data table vtable vtsize)
    (hstored : ∀ p ∈ entity.properties,
      StoresField data table vtable vtsize (p.id - 1).toNat ((a p).map p.encode)) :
    ∃ ms, decodeObject lib data entity = .ok (.obj ms) ∧ (ms.map Prod.fst).Nodup ∧
      ∀ e, e ∈ ms ↔ ∃ p ∈ entity.properties, ∃ v, a p = some v ∧ e = (p.name, p.json v) := by
  have hfield : ∀ p ∈ entity.properties, FieldOk lib ⟨data, table⟩ p ∧
      setting lib ⟨data, table⟩ p = (a p).map fun v ↦ (p.name, p.json v) := by
    intro p hp
    have hs := hstored p hp
    rw [setting, if_neg (hid p hp)]
    cases ha : a p with
    | none =>
      rw [ha] at hs
      obtain ⟨hok, hj⟩ := fieldJson_of_unassigned hroot (hrange p hp).1 (hrange p hp).2 hs
      exact ⟨hok, by rw [hj]; rfl⟩
    | some v =>
      rw [ha] at hs
      obtain ⟨hok, hj⟩ := fieldJson_of_stored hv hroot (hrange p hp).1 (hrange p hp).2
        (htyped p hp v ha) hs
      exact ⟨hok, by rw [hj]; rfl⟩
  have hsettings : entity.properties.filterMap (setting lib ⟨data, table⟩) =
      assigned entity.properties a := List.filterMap_congr fun p hp ↦ (hfield p hp).2
  have hok : decodeObject lib data entity = .ok (Json.object (assigned entity.properties a)) := by
    rw [decodeObject_eq_ok]
    obtain ⟨hr, ht⟩ := hv.root hroot
    exact ⟨hr, table, hroot.root, ht, fun p hp _ ↦ (hfield p hp).1, by rw [hsettings]⟩
  have hnd := nodup_assigned a hnames
  have hord : Members.Ordered (Members.insertAll [] (assigned entity.properties a)) :=
    Members.ordered_insertAll _ Members.ordered_nil
  refine ⟨_, hok, Members.nodup_keys hord, fun e ↦ ?_⟩
  rw [Members.mem_insertAll_iff hnd, mem_assigned]

/-- A record with an absent `Long`, an `Int` of -5 and the `String` `Hi`. -/
private def sampleRecord : Bytes :=
  [16, 0, 0, 0, 10, 0, 12, 0, 0, 0, 4, 0, 8, 0, 0, 0, 12, 0, 0, 0, 0xFB, 0xFF, 0xFF, 0xFF,
    4, 0, 0, 0, 2, 0, 0, 0, 72, 105, 0, 0]

private def sampleEntity : EntityDef where
  entityId := 1
  name := lit "Note"
  properties :=
    [⟨1, lit "created", .long, false, 0⟩, ⟨2, lit "n", .int, false, 0⟩,
      ⟨3, lit "s", .string, false, 0⟩]
  relations := []

private def sampleAssignment (p : PropertyDef) : Option FieldValue :=
  if p.name = lit "n" then some (.integer (-5))
  else if p.name = lit "s" then some (.text (lit "Hi"))
  else none

private theorem sample_root : RootTable sampleRecord 16 4 10 where
  size := by decide
  root := by decide
  positive := by decide
  aligned := by decide
  back := by decide
  vtableAligned := by decide
  vtableSize := by decide
  vtsizeEven := by decide
  vtableInside := by decide

/-- One layout of such a record. -/
theorem decodeObject_encode_sample :
    ∃ ms, decodeObject .reference sampleRecord sampleEntity = .ok (.obj ms) ∧
      (ms.map Prod.fst).Nodup ∧
      ∀ e, e ∈ ms ↔ ∃ p ∈ sampleEntity.properties, ∃ v, sampleAssignment p = some v ∧
        e = (p.name, p.json v) := by
  refine decodeObject_encode .reference Verifier.reference_acceptsWellFormed sampleEntity
    sampleAssignment sampleRecord 16 4 10 (by decide) (by decide) (by decide) ?_ sample_root ?_
  · intro p hp v hv
    simp only [sampleEntity, List.mem_cons, List.not_mem_nil, or_false] at hp
    rcases hp with rfl | rfl | rfl
    · have ha : sampleAssignment ⟨1, lit "created", .long, false, 0⟩ = none := by decide
      rw [ha] at hv
      cases hv
    · have ha : sampleAssignment ⟨2, lit "n", .int, false, 0⟩ = some (.integer (-5)) := by decide
      rw [ha] at hv
      cases hv
      exact ⟨rfl, 4, rfl, .inr ⟨by simp [PropertyDef.Unsigned], by decide, by decide⟩⟩
    · have ha : sampleAssignment ⟨3, lit "s", .string, false, 0⟩ = some (.text (lit "Hi")) := by
        decide
      rw [ha] at hv
      cases hv
      exact ⟨rfl, by unfold PropertyDef.IsJsonText; decide⟩
  · intro p hp
    simp only [sampleEntity, List.mem_cons, List.not_mem_nil, or_false] at hp
    rcases hp with rfl | rfl | rfl
    · change vtableEntry sampleRecord 4 10 0 = some 0
      decide
    · change StoresField sampleRecord 16 4 10 1 (some (.scalar 4 4294967291))
      exact ⟨4, by decide, by decide, by decide, by decide⟩
    · change StoresField sampleRecord 16 4 10 2 (some (.string (lit "Hi")))
      exact ⟨8, by decide, by decide, 28, ⟨by decide, 4, by decide⟩,
        ⟨by decide, by decide, by decide, by decide, by decide⟩⟩

end ObDump
