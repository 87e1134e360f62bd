import ObDump.Base.Bytes

/-!
# Texts of the schema language

Library `FlatBuffers`. The part of the schema language that declares tables. A reader takes a text
byte by byte into identifiers and punctuation, with comments and blanks between them, and a text
declares the tables whose tokens these are. The grammar is unambiguous, every declared name is an
identifier, and texts are read piece by piece.
-/

namespace ObDump.FlatBuffers.SchemaText

open Base

/-! ### Tokens -/

/-- A letter or an underscore. -/
def isIdentifierStart (b : UInt8) : Bool :=
  (0x41 ≤ b && b ≤ 0x5A) || (0x61 ≤ b && b ≤ 0x7A) || b = 0x5F

/-- A letter, an underscore or a digit. -/
def isIdentifierByte (b : UInt8) : Bool := isIdentifierStart b || (0x30 ≤ b && b ≤ 0x39)

/-- A letter or an underscore, then letters, underscores and digits. -/
def isIdentifier : Bytes → Bool
  | [] => false
  | b :: s => isIdentifierStart b && s.all isIdentifierByte

/-- Tokens of table declarations. -/
inductive Token where
  | ident (name : Bytes)
  | openBrace
  | closeBrace
  | openBracket
  | closeBracket
  | openParen
  | closeParen
  | colon
  | semicolon
  | comma
  deriving DecidableEq, Repr

/-- The token of a punctuation mark. -/
def punctuation? (b : UInt8) : Option Token :=
  if b = 0x7B then some .openBrace
  else if b = 0x7D then some .closeBrace
  else if b = 0x5B then some .openBracket
  else if b = 0x5D then some .closeBracket
  else if b = 0x28 then some .openParen
  else if b = 0x29 then some .closeParen
  else if b = 0x3A then some .colon
  else if b = 0x3B then some .semicolon
  else if b = 0x2C then some .comma
  else none

/-- Where a byte finds the reader: between tokens, in an identifier, behind a slash, in a line
comment, or in a block comment, behind a star or not. -/
inductive Mode where
  | blank
  | ident (name : Bytes)
  | slash
  | line
  | block
  | star
  deriving DecidableEq, Repr

/-- A byte between tokens: the mode after it, and the token it is. -/
def start (b : UInt8) : Option (Mode × List Token) :=
  if b = 0x20 ∨ b = 0x09 ∨ b = 0x0A ∨ b = 0x0D then some (.blank, [])
  else if isIdentifierStart b then some (.ident [b], [])
  else if b = 0x2F then some (.slash, [])
  else (punctuation? b).map fun t ↦ (.blank, [t])

/-- One byte: the mode after it, and the tokens it ends. -/
def step : Mode → UInt8 → Option (Mode × List Token)
  | .blank, b => start b
  | .ident name, b =>
    if isIdentifierByte b then some (.ident (name ++ [b]), [])
    else (start b).map fun r ↦ (r.1, .ident name :: r.2)
  | .slash, b =>
    if b = 0x2F then some (.line, []) else if b = 0x2A then some (.block, []) else none
  | .line, b =>
    if b = 0 then none else some (if b = 0x0A ∨ b = 0x0D then .blank else .line, [])
  | .block, b => if b = 0 then none else some (if b = 0x2A then .star else .block, [])
  | .star, b =>
    if b = 0 then none
    else some (if b = 0x2F then .blank else if b = 0x2A then .star else .block, [])

/-- The mode after a piece of text, and the tokens that end in it. -/
def lexFrom : Mode → Bytes → Option (Mode × List Token)
  | mode, [] => some (mode, [])
  | mode, b :: s => do
    let (mode, ts) ← step mode b
    let (mode, us) ← lexFrom mode s
    some (mode, ts ++ us)

/-- The tokens of a text. -/
def lex (s : Bytes) : Option (List Token) := do
  let (mode, ts) ← lexFrom .blank s
  match mode with
  | .blank | .line => some ts
  | .ident name => some (ts ++ [.ident name])
  | .slash | .block | .star => none

/-! ### Declarations -/

/-- A field: its name and type, with or without `(deprecated)`. -/
structure FieldDecl where
  name : Bytes
  vector : Bool
  base : Bytes
  deprecated : Bool
  deriving DecidableEq, Repr

/-- A table and its fields, in order. -/
structure TableDecl where
  name : Bytes
  fields : List FieldDecl
  deriving DecidableEq, Repr

/-- The vtable slot of a declared field, by its position from 0. -/
def fieldSlot (i : Nat) : Nat := 4 + 2 * i

/-- The tokens of a field, `name : type ;`. -/
def FieldDecl.tokens (f : FieldDecl) : List Token :=
  [Token.ident f.name, Token.colon] ++
    (if f.vector then [Token.openBracket, Token.ident f.base, Token.closeBracket]
      else [Token.ident f.base]) ++
    (if f.deprecated then [Token.openParen, Token.ident (lit "deprecated"), Token.closeParen]
      else []) ++
    [Token.semicolon]

/-- The tokens of a table. -/
def TableDecl.tokens (t : TableDecl) : List Token :=
  [Token.ident (lit "table"), Token.ident t.name, Token.openBrace] ++
    t.fields.flatMap FieldDecl.tokens ++ [Token.closeBrace]

/-- The text declares these tables and nothing else. -/
def Declares (text : Bytes) (tables : List TableDecl) : Prop :=
  lex text = some (tables.flatMap TableDecl.tokens)

instance (text : Bytes) (tables : List TableDecl) : Decidable (Declares text tables) :=
  inferInstanceAs (Decidable (_ = _))

/-- A table of one field, with a comment behind it. -/
example : Declares (lit "table A \x7b x:[int] (deprecated); // y:int;\n\x7d")
    [⟨lit "A", [⟨lit "x", true, lit "int", true⟩]⟩] := by
  decide +kernel

/-! ### The grammar is unambiguous -/

private theorem field_tokens_cancel {f g : FieldDecl} {ts us : List Token}
    (h : f.tokens ++ ts = g.tokens ++ us) : f = g ∧ ts = us := by
  obtain ⟨fname, fvector, fbase, fdeprecated⟩ := f
  obtain ⟨gname, gvector, gbase, gdeprecated⟩ := g
  cases fvector <;> cases gvector <;> cases fdeprecated <;> cases gdeprecated <;>
    simp_all [FieldDecl.tokens]

/-- As many fields, read from the start of the same tokens, are the same fields. -/
theorem fields_tokens_cancel {fs gs : List FieldDecl} {ts us : List Token}
    (hlen : fs.length = gs.length)
    (h : fs.flatMap FieldDecl.tokens ++ ts = gs.flatMap FieldDecl.tokens ++ us) :
    fs = gs ∧ ts = us := by
  induction fs generalizing gs with
  | nil =>
    cases gs with
    | nil => exact ⟨rfl, h⟩
    | cons g gs => cases hlen
  | cons f fs ih =>
    cases gs with
    | nil => cases hlen
    | cons g gs =>
      rw [List.flatMap_cons, List.flatMap_cons, List.append_assoc, List.append_assoc] at h
      obtain ⟨rfl, hrest⟩ := field_tokens_cancel h
      obtain ⟨rfl, hts⟩ := ih (Nat.succ.inj hlen) hrest
      exact ⟨rfl, hts⟩

private theorem fields_tokens_close {fs gs : List FieldDecl} {ts us : List Token}
    (h : fs.flatMap FieldDecl.tokens ++ .closeBrace :: ts =
      gs.flatMap FieldDecl.tokens ++ .closeBrace :: us) : fs = gs ∧ ts = us := by
  induction fs generalizing gs with
  | nil =>
    cases gs with
    | nil => exact ⟨rfl, (List.cons.inj h).2⟩
    | cons g gs => simp [FieldDecl.tokens] at h
  | cons f fs ih =>
    cases gs with
    | nil => simp [FieldDecl.tokens] at h
    | cons g gs =>
      rw [List.flatMap_cons, List.flatMap_cons, List.append_assoc, List.append_assoc] at h
      obtain ⟨rfl, hrest⟩ := field_tokens_cancel h
      obtain ⟨rfl, hts⟩ := ih hrest
      exact ⟨rfl, hts⟩

private theorem tables_tokens_injective {l r : List TableDecl}
    (h : l.flatMap TableDecl.tokens = r.flatMap TableDecl.tokens) : l = r := by
  induction l generalizing r with
  | nil =>
    cases r with
    | nil => rfl
    | cons => simp [TableDecl.tokens] at h
  | cons t l ih =>
    cases r with
    | nil => simp [TableDecl.tokens] at h
    | cons u r =>
      obtain ⟨tname, tfields⟩ := t
      obtain ⟨uname, ufields⟩ := u
      simp only [List.flatMap_cons, TableDecl.tokens, List.append_assoc, List.cons_append,
        List.nil_append, List.cons.injEq, Token.ident.injEq, true_and] at h
      obtain ⟨rfl, hrest⟩ := h
      obtain ⟨rfl, htables⟩ := fields_tokens_close hrest
      rw [ih htables]

/-- A text declares one list of tables. -/
theorem Declares.unique {text : Bytes} {l r : List TableDecl} (hl : Declares text l)
    (hr : Declares text r) : l = r :=
  tables_tokens_injective (Option.some.inj (hl.symm.trans hr))

/-! ### Pieces of text -/

/-- A text read in two pieces. -/
theorem lexFrom_append {mode mode' mode'' : Mode} {s t : Bytes} {ts us : List Token}
    (hs : lexFrom mode s = some (mode', ts)) (ht : lexFrom mode' t = some (mode'', us)) :
    lexFrom mode (s ++ t) = some (mode'', ts ++ us) := by
  induction s generalizing mode ts with
  | nil =>
    cases hs
    exact ht
  | cons b s ih =>
    simp only [lexFrom, Option.bind_eq_bind, Option.bind_eq_some_iff] at hs
    obtain ⟨⟨m, vs⟩, hb, ⟨m', ws⟩, hrest, hr⟩ := hs
    cases hr
    simp only [List.cons_append, lexFrom, Option.bind_eq_bind, hb, Option.bind_some, ih hrest,
      List.append_assoc]

/-- What is read of a text in two pieces is read of each piece. -/
theorem lexFrom_append_eq_some {mode mode'' : Mode} {s t : Bytes} {vs : List Token}
    (h : lexFrom mode (s ++ t) = some (mode'', vs)) :
    ∃ mode' ts us, lexFrom mode s = some (mode', ts) ∧ lexFrom mode' t = some (mode'', us) ∧
      vs = ts ++ us := by
  induction s generalizing mode vs with
  | nil => exact ⟨mode, [], vs, rfl, h, rfl⟩
  | cons b s ih =>
    simp only [List.cons_append, lexFrom, Option.bind_eq_bind, Option.bind_eq_some_iff] at h
    obtain ⟨⟨m, ws⟩, hb, ⟨m', xs⟩, hrest, hr⟩ := h
    cases hr
    obtain ⟨mode', ts, us, hs, ht, rfl⟩ := ih hrest
    refine ⟨mode', ws ++ ts, us, ?_, ht, (List.append_assoc ..).symm⟩
    simp only [lexFrom, Option.bind_eq_bind, hb, Option.bind_some, hs]

/-- Pieces that are each read between tokens. -/
theorem lexFrom_flatMap {α : Type} {l : List α} {f : α → Bytes} {g : α → List Token}
    (h : ∀ a ∈ l, lexFrom .blank (f a) = some (.blank, g a)) :
    lexFrom .blank (l.flatMap f) = some (.blank, l.flatMap g) := by
  induction l with
  | nil => rfl
  | cons a l ih =>
    obtain ⟨ha, hl⟩ := List.forall_mem_cons.mp h
    rw [List.flatMap_cons, List.flatMap_cons]
    exact lexFrom_append ha (ih hl)

/-- A text that is read to the end, between tokens. -/
theorem lex_of_lexFrom {s : Bytes} {ts : List Token} (h : lexFrom .blank s = some (.blank, ts)) :
    lex s = some ts := by
  simp only [lex, h]
  rfl

/-! ### Identifiers -/

private theorem lexFrom_ident_append {name s : Bytes} (hs : s.all isIdentifierByte = true) :
    lexFrom (.ident name) s = some (.ident (name ++ s), []) := by
  induction s generalizing name with
  | nil => rw [List.append_nil]; rfl
  | cons b s ih =>
    rw [List.all_cons, Bool.and_eq_true] at hs
    simp only [lexFrom, step, hs.1, if_true, Option.bind_eq_bind, Option.bind_some, ih hs.2,
      List.append_assoc, List.singleton_append, List.nil_append]

private theorem start_identifier {b : UInt8} (hb : isIdentifierStart b = true) :
    start b = some (.ident [b], []) := by
  have hblank : ¬ (b = 0x20 ∨ b = 0x09 ∨ b = 0x0A ∨ b = 0x0D) := by
    rintro (rfl | rfl | rfl | rfl) <;> exact absurd hb (by decide)
  rw [start, if_neg hblank, if_pos hb]

/-- An identifier between tokens is read whole. -/
theorem lexFrom_identifier {s : Bytes} (hs : isIdentifier s = true) :
    lexFrom .blank s = some (.ident s, []) := by
  cases s with
  | nil => cases hs
  | cons b s =>
    rw [isIdentifier, Bool.and_eq_true] at hs
    simp only [lexFrom, step, start_identifier hs.1, Option.bind_eq_bind, Option.bind_some,
      lexFrom_ident_append hs.2, List.nil_append, List.singleton_append]

/-- The identifier being read is one so far. -/
private def Mode.Identified : Mode → Prop
  | .ident name => isIdentifier name = true
  | _ => True

/-- The names among the tokens are identifiers. -/
private def Identified (ts : List Token) : Prop :=
  ∀ name, Token.ident name ∈ ts → isIdentifier name = true

private theorem start_identified {b : UInt8} {mode : Mode} {ts : List Token}
    (h : start b = some (mode, ts)) : mode.Identified ∧ Identified ts := by
  unfold start at h
  split_ifs at h with hblank hident hslash
  · cases h
    exact ⟨trivial, fun _ hn ↦ nomatch hn⟩
  · cases h
    exact ⟨by simp [Mode.Identified, isIdentifier, hident], fun _ hn ↦ nomatch hn⟩
  · cases h
    exact ⟨trivial, fun _ hn ↦ nomatch hn⟩
  · obtain ⟨t, ht, h⟩ := Option.map_eq_some_iff.mp h
    cases h
    refine ⟨trivial, fun name hn ↦ ?_⟩
    rw [← List.mem_singleton.mp hn] at ht
    simp [punctuation?, ite_eq_iff] at ht

private theorem isIdentifier_snoc {name : Bytes} {b : UInt8} (hn : isIdentifier name = true)
    (hb : isIdentifierByte b = true) : isIdentifier (name ++ [b]) = true := by
  cases name with
  | nil => cases hn
  | cons c name => simp_all [isIdentifier]

private theorem step_identified {mode mode' : Mode} {b : UInt8} {ts : List Token}
    (hm : mode.Identified) (h : step mode b = some (mode', ts)) :
    mode'.Identified ∧ Identified ts := by
  cases mode with
  | blank => exact start_identified h
  | ident name =>
    rw [step] at h
    split_ifs at h with hb
    · cases h
      exact ⟨isIdentifier_snoc hm hb, fun _ hn ↦ nomatch hn⟩
    · obtain ⟨⟨m, us⟩, hstart, h⟩ := Option.map_eq_some_iff.mp h
      cases h
      obtain ⟨hm', hus⟩ := start_identified hstart
      refine ⟨hm', fun n hn ↦ ?_⟩
      rcases List.mem_cons.mp hn with hn | hn
      · cases hn
        exact hm
      · exact hus n hn
  | slash | line | block | star =>
    rw [step] at h
    split_ifs at h <;> cases h <;> exact ⟨trivial, fun _ hn ↦ nomatch hn⟩

private theorem lexFrom_identified {mode mode' : Mode} {s : Bytes} {ts : List Token}
    (hm : mode.Identified) (h : lexFrom mode s = some (mode', ts)) :
    mode'.Identified ∧ Identified ts := by
  induction s generalizing mode ts with
  | nil =>
    cases h
    exact ⟨hm, fun _ hn ↦ nomatch hn⟩
  | cons b s ih =>
    simp only [lexFrom, Option.bind_eq_bind, Option.bind_eq_some_iff] at h
    obtain ⟨⟨m, us⟩, hb, ⟨m', vs⟩, hrest, hr⟩ := h
    cases hr
    obtain ⟨hm', hus⟩ := step_identified hm hb
    obtain ⟨hlast, hvs⟩ := ih hm' hrest
    refine ⟨hlast, fun n hn ↦ ?_⟩
    rcases List.mem_append.mp hn with hn | hn
    · exact hus n hn
    · exact hvs n hn

private theorem lex_identified {s : Bytes} {ts : List Token} (h : lex s = some ts) :
    Identified ts := by
  simp only [lex, Option.bind_eq_bind, Option.bind_eq_some_iff] at h
  obtain ⟨⟨mode, us⟩, hus, h⟩ := h
  have hblank : Mode.Identified .blank := trivial
  obtain ⟨hm, hu⟩ := lexFrom_identified hblank hus
  cases mode with
  | blank | line =>
    cases h
    exact hu
  | ident name =>
    cases h
    intro n hn
    rcases List.mem_append.mp hn with hn | hn
    · exact hu n hn
    · cases List.mem_singleton.mp hn
      exact hm
  | _ => cases h

/-- Declared names are identifiers. -/
theorem Declares.identifiers {text : Bytes} {tables : List TableDecl} (h : Declares text tables)
    {t : TableDecl} (ht : t ∈ tables) :
    isIdentifier t.name = true ∧ ∀ f ∈ t.fields, isIdentifier f.name = true := by
  have hall := lex_identified h
  constructor
  · apply hall
    exact List.mem_flatMap.mpr ⟨t, ht, by simp [TableDecl.tokens]⟩
  · intro f hf
    apply hall
    refine List.mem_flatMap.mpr ⟨t, ht, ?_⟩
    simp only [TableDecl.tokens, List.mem_append, List.mem_flatMap]
    exact .inl (.inr ⟨f, hf, by simp [FieldDecl.tokens]⟩)

/-! ### Comments -/

/-- The mode after a piece of text of which nothing is read. -/
def skip : Mode → Bytes → Option Mode
  | mode, [] => some mode
  | mode, b :: s =>
    match step mode b with
    | some (mode, []) => skip mode s
    | _ => none

/-- A text skipped is one that gives no token. -/
theorem skip_eq_some {mode mode' : Mode} {s : Bytes} :
    skip mode s = some mode' ↔ lexFrom mode s = some (mode', []) := by
  induction s generalizing mode with
  | nil => simp [skip, lexFrom]
  | cons b s ih =>
    rw [skip, lexFrom]
    cases hb : step mode b with
    | none => simp
    | some r =>
      obtain ⟨m, ts⟩ := r
      cases ts with
      | nil =>
        simp only [ih, Option.bind_eq_bind, Option.bind_some, List.nil_append]
        cases lexFrom m s <;> simp
      | cons t ts => simp [Option.bind_eq_some_iff]

/-- A text is skipped part by part. -/
theorem skip_append (mode : Mode) (s t : Bytes) :
    skip mode (s ++ t) = (skip mode s).bind fun mode' ↦ skip mode' t := by
  induction s generalizing mode with
  | nil => rfl
  | cons b s ih =>
    rw [List.cons_append, skip, skip]
    split
    · exact ih _
    · rfl

/-- Texts that do alike in every mode do so after each other. -/
theorem skip_congr {s s' t t' : Bytes} (hs : ∀ mode, skip mode s = skip mode s')
    (ht : ∀ mode, skip mode t = skip mode t') (mode : Mode) :
    skip mode (s ++ t) = skip mode (s' ++ t') := by
  rw [skip_append, skip_append, hs]
  congr 1
  funext mode'
  exact ht mode'

/-- Lists of texts that do alike. -/
theorem skip_flatMap_congr {α : Type} {f g : α → Bytes}
    (h : ∀ a mode, skip mode (f a) = skip mode (g a)) (l : List α) (mode : Mode) :
    skip mode (l.flatMap f) = skip mode (l.flatMap g) := by
  induction l generalizing mode with
  | nil => rfl
  | cons a l ih =>
    rw [List.flatMap_cons, List.flatMap_cons]
    exact skip_congr (h a) ih mode

/-- The byte neither ends a comment nor begins its end. -/
def isInert (b : UInt8) : Bool := b != 0 && b != 0x0A && b != 0x0D && b != 0x2A

/-- Inert text in a comment stays in it. -/
theorem skip_inert {s : Bytes} (hs : s.all isInert = true) :
    skip .line s = some .line ∧ skip .block s = some .block := by
  induction s with
  | nil => exact ⟨rfl, rfl⟩
  | cons b s ih =>
    rw [List.all_cons, Bool.and_eq_true] at hs
    obtain ⟨hb, hs⟩ := hs
    simp only [isInert, bne_iff_ne, ne_eq, Bool.and_eq_true] at hb
    simp [skip, step, hb, ih hs]

/-- A blank and a visible byte that go on inertly do as a comma: they end all but comments. -/
theorem skip_visible {b : UInt8} {s : Bytes} (hb : skip .blank [b] = none)
    (hs : (b :: s).all isInert = true) (mode : Mode) :
    skip mode (0x20 :: b :: s) = skip mode [0x2C] := by
  obtain ⟨hline, hblock⟩ := skip_inert hs
  cases mode with
  | blank =>
    have hblank : skip .blank (b :: s) = none := by
      rw [← List.singleton_append, skip_append, hb]
      rfl
    exact hblank
  | ident name => rfl
  | slash => rfl
  | line => exact hline
  | block => exact hblock
  | star => exact hblock

/-- The start of a line comment, then inert text. -/
theorem skip_commentStart {s : Bytes} (hs : s.all isInert = true) (mode : Mode) :
    skip mode (0x20 :: 0x20 :: 0x2F :: 0x2F :: s) = skip mode [0x20, 0x2F, 0x2F] := by
  obtain ⟨hline, hblock⟩ := skip_inert hs
  cases mode with
  | blank => exact hline
  | ident name => rfl
  | slash => rfl
  | line => exact hline
  | block => exact hblock
  | star => exact hblock

/-- Put into a line comment each, the pairs of names are not read: nothing of them is outside the
comments. -/
def Commented (pairs : List (Bytes × Bytes)) : Prop :=
  skip .blank (pairs.flatMap fun p ↦ lit " //" ++ p.1 ++ lit "," ++ p.2 ++ lit ",\n") =
    some .blank

/-- Names on one line, without NUL, are not read. -/
theorem commented_of_line {pairs : List (Bytes × Bytes)}
    (h : ∀ p ∈ pairs, ∀ b ∈ p.1 ++ p.2, b ≠ 0 ∧ b ≠ 0x0A ∧ b ≠ 0x0D) : Commented pairs := by
  have hline : ∀ s : Bytes, (∀ b ∈ s, b ≠ 0 ∧ b ≠ 0x0A ∧ b ≠ 0x0D) → skip .line s = some .line := by
    intro s hs
    induction s with
    | nil => rfl
    | cons b s ih =>
      obtain ⟨hb, hs⟩ := List.forall_mem_cons.mp hs
      simp [skip, step, hb, ih hs]
  unfold Commented
  induction pairs with
  | nil => rfl
  | cons p pairs ih =>
    obtain ⟨hp, hpairs⟩ := List.forall_mem_cons.mp h
    have h1 := hline p.1 fun b hb ↦ hp b (List.mem_append_left _ hb)
    have h2 := hline p.2 fun b hb ↦ hp b (List.mem_append_right _ hb)
    have hstart : skip .blank (lit " //") = some .line := by decide
    have hcomma : skip .line (lit ",") = some .line := by decide
    have hend : skip .line (lit ",\n") = some .blank := by decide
    simp only [List.flatMap_cons, skip_append, hstart, h1, hcomma, h2, hend, Option.bind_some]
    exact ih hpairs

end ObDump.FlatBuffers.SchemaText
