import ObDump.FlatBuffers.Wire

/-!
# The FlatBuffers verifier

Library `FlatBuffers`. `flatbuffers::Verifier` is not part of the sources: its checks are
parameters. `AcceptsWellFormed` says that each check passes on its own well-formed part
of a buffer, whatever the rest holds; `reference` is a verifier with the bounds and
alignment checks of release 25.9.23 and meets it.
-/

namespace ObDump.FlatBuffers

open Base

/-- The checks, each as a function of the buffer: `rootOffset` is `VerifyOffset` at 0,
`tableStart` is `VerifyTableStart`, `field` and `offset` are `VerifyField` and `VerifyOffset`
of a table's field, and the others check what a position holds. -/
structure Verifier where
  rootOffset : Bytes → Bool
  tableStart : Bytes → (table : Nat) → Bool
  field : Bytes → (table slot size : Nat) → Bool
  offset : Bytes → (table slot : Nat) → Bool
  vector : Bytes → (pos size : Nat) → Bool
  string : Bytes → (pos : Nat) → Bool
  vectorOfStrings : Bytes → (pos : Nat) → Bool

namespace Verifier

/-- Each check accepts what the format allows in the range it checks. -/
structure AcceptsWellFormed (v : Verifier) : Prop where
  root : ∀ {buf table vtable vtsize}, RootTable buf table vtable vtsize →
    v.rootOffset buf = true ∧ v.tableStart buf table = true
  field : ∀ {buf table slot size off}, fieldOffset buf table slot = some off → 0 < off →
    size ∣ table + off → table + off + size ≤ buf.length → v.field buf table slot size = true
  offset : ∀ {buf table slot off pos}, fieldOffset buf table slot = some off → 0 < off →
    PointsTo buf (table + off) pos → pos < buf.length → v.offset buf table slot = true
  vector : ∀ {buf pos size elems}, buf.length < 2 ^ 31 → 0 < size → size ≤ 8 →
    VectorAt buf pos size elems → v.vector buf pos size = true
  string : ∀ {buf pos s}, buf.length < 2 ^ 31 → StringAt buf pos s → v.string buf pos = true
  vectorOfStrings : ∀ {buf pos offs}, buf.length < 2 ^ 31 → VectorAt buf pos 4 offs →
    (∀ i (h : i < offs.length), ∃ s, StringAt buf (pos + 4 + i * 4 + offs[i]) s) →
    v.vectorOfStrings buf pos = true

/-! ### A verifier with the documented checks -/

/-- `Verify`: a part strictly smaller than the buffer, inside it. -/
def verifyRange (buf : Bytes) (pos n : Nat) : Bool :=
  n < buf.length && pos + n ≤ buf.length

/-- `Verify<T>`: an aligned scalar. -/
def verifyScalar (buf : Bytes) (pos size : Nat) : Bool :=
  pos % size == 0 && verifyRange buf pos size

/-- `VerifyOffset`: a nonzero forward offset to a byte of the buffer. -/
def verifyOffsetAt (buf : Bytes) (pos : Nat) : Bool :=
  verifyScalar buf pos 4 &&
    match readLE buf pos 4 with
    | some o => o != 0 && o < 2 ^ 31 && verifyRange buf (pos + o) 1
    | none => false

/-- `VerifyVectorOrString`: the count is readable and the elements lie inside the buffer. -/
def verifyVectorAt (buf : Bytes) (pos size : Nat) : Bool :=
  verifyScalar buf pos 4 &&
    match readLE buf pos 4 with
    | some n => n < (2 ^ 31 - 1) / size && verifyRange buf pos (4 + size * n)
    | none => false

/-- `VerifyString`: also the terminating NUL. -/
def verifyStringAt (buf : Bytes) (pos : Nat) : Bool :=
  verifyVectorAt buf pos 1 &&
    match readLE buf pos 4 with
    | some n => verifyRange buf (pos + 4 + n) 1 && buf[pos + 4 + n]? == some 0
    | none => false

/-- `VerifyTableStart`: the vtable's position and size. -/
def verifyTableStartAt (buf : Bytes) (table : Nat) : Bool :=
  verifyScalar buf table 4 &&
    match vtablePos buf table with
    | some vtable =>
      verifyScalar buf vtable 2 &&
        match readLE buf vtable 2 with
        | some vtsize => vtsize % 2 == 0 && verifyRange buf vtable vtsize
        | none => false
    | none => false

/-- The documented checks. -/
def reference : Verifier where
  rootOffset buf := verifyOffsetAt buf 0
  tableStart := verifyTableStartAt
  field buf table slot size :=
    match fieldOffset buf table slot with
    | some off => off == 0 || verifyScalar buf (table + off) size
    | none => false
  offset buf table slot :=
    match fieldOffset buf table slot with
    | some off => off == 0 || verifyOffsetAt buf (table + off)
    | none => false
  vector := verifyVectorAt
  string := verifyStringAt
  vectorOfStrings buf pos :=
    match vectorSize buf pos with
    | some n => (List.range n).all fun i ↦
        match vectorGetString buf pos i with
        | some p => verifyStringAt buf p
        | none => false
    | none => false

private theorem verifyScalar_of {buf : Bytes} {pos size : Nat} (hd : size ∣ pos)
    (hp : 0 < pos) (hb : pos + size ≤ buf.length) : verifyScalar buf pos size = true := by
  simp only [verifyScalar, verifyRange, Bool.and_eq_true, beq_iff_eq, decide_eq_true_eq]
  exact ⟨Nat.mod_eq_zero_of_dvd hd, by omega, hb⟩

private theorem verifyVectorAt_of {buf : Bytes} {pos size n : Nat} (hl : buf.length < 2 ^ 31)
    (h0 : 0 < size) (h8 : size ≤ 8) (hd : 4 ∣ pos) (hp : 0 < pos)
    (hn : readLE buf pos 4 = some n) (hb : pos + 4 + n * size ≤ buf.length) :
    verifyVectorAt buf pos size = true := by
  have hp4 : 4 ≤ pos := Nat.le_of_dvd hp hd
  have hlt : n < (2 ^ 31 - 1) / size := by
    rw [Nat.lt_iff_add_one_le, Nat.le_div_iff_mul_le h0, Nat.add_mul]
    omega
  have hc : size * n = n * size := Nat.mul_comm _ _
  have hcount := verifyScalar_of hd hp (readLE_bound hn)
  simp only [verifyVectorAt, hn, hcount, verifyRange, Bool.and_eq_true, decide_eq_true_eq]
  refine ⟨trivial, hlt, ?_, ?_⟩ <;> omega

private theorem verifyStringAt_of {buf s : Bytes} {pos : Nat} (hl : buf.length < 2 ^ 31)
    (h : StringAt buf pos s) : verifyStringAt buf pos = true := by
  have ht := (List.getElem?_eq_some_iff.mp h.terminator).1
  have hb : pos + 4 + s.length * 1 ≤ buf.length := by omega
  have hv := verifyVectorAt_of hl (by decide) (by decide) h.aligned h.positive h.count hb
  simp only [verifyStringAt, hv, h.count, h.terminator, verifyRange, Bool.and_eq_true,
    decide_eq_true_eq, beq_self_eq_true]
  refine ⟨trivial, ⟨?_, ?_⟩, trivial⟩ <;> omega

/-- The documented checks accept every well-formed part. -/
theorem reference_acceptsWellFormed : reference.AcceptsWellFormed where
  root := by
    intro buf table vtable vtsize h
    have ht := h.table_inside
    have hp := h.positive
    have hs := h.size
    have hv := h.vtsize_lt
    have hr := readLE_bound h.vtableSize
    constructor
    · simp only [reference, verifyOffsetAt, verifyScalar, verifyRange, h.root,
        Bool.and_eq_true, decide_eq_true_eq, bne_iff_ne]
      refine ⟨⟨rfl, ?_, ?_⟩, ⟨?_, ?_⟩, ?_, ?_⟩ <;> omega
    · have hstart := verifyScalar_of h.aligned hp ht
      have h2 : vtable % 2 = 0 := Nat.mod_eq_zero_of_dvd h.vtableAligned
      have h2' : vtsize % 2 = 0 := Nat.mod_eq_zero_of_dvd h.vtsizeEven
      have hi := h.vtableInside
      have hentry : verifyScalar buf vtable 2 = true := by
        simp only [verifyScalar, verifyRange, h2, Bool.and_eq_true, decide_eq_true_eq,
          beq_self_eq_true]
        refine ⟨trivial, ?_, ?_⟩ <;> omega
      simp only [reference, verifyTableStartAt, hstart, h.back, h.vtableSize, hentry,
        verifyRange, h2', Bool.and_eq_true, decide_eq_true_eq, beq_self_eq_true, true_and]
      constructor <;> omega
  field := by
    intro buf table slot size off hoff hpos hd hb
    simp only [reference, hoff, verifyScalar_of hd (by omega) hb, Bool.or_true]
  offset := by
    intro buf table slot off pos hoff hpos hp hlt
    obtain ⟨o, ho, h0, h31, rfl⟩ := hp.offset
    have hb := readLE_bound ho
    simp only [reference, hoff, verifyOffsetAt, verifyScalar_of hp.aligned (by omega) hb, ho,
      verifyRange, Bool.or_eq_true, Bool.and_eq_true, decide_eq_true_eq, bne_iff_ne]
    refine .inr ⟨trivial, ⟨?_, ?_⟩, ?_, ?_⟩ <;> omega
  vector := by
    intro buf pos size elems hl h0 h8 h
    exact verifyVectorAt_of hl h0 h8 h.aligned h.positive h.count h.inside
  string := by
    intro buf pos s hl h
    exact verifyStringAt_of hl h
  vectorOfStrings := by
    intro buf pos offs hl h hs
    simp only [reference, vectorSize, h.count, List.all_eq_true, List.mem_range]
    intro i hi
    obtain ⟨s, hsi⟩ := hs i hi
    simp only [vectorGetString, vectorGet, h.content i hi, Option.bind_eq_bind, Option.bind_some]
    exact verifyStringAt_of hl hsi

end Verifier

end ObDump.FlatBuffers
