import ObDump.Base.Decimal
import ObDump.Json.Value

/-!
# JSON texts

Library `Json`. A byte-at-a-time reader for JSON texts (RFC 8259). Its state is the
stack of containers still open and what may come next, so the state after any prefix
of a text is meaningful: a text written in pieces can be followed piece by piece. The
tree it yields keeps the members of an object in text order, repeats included.
-/

namespace ObDump.JsonText

open Base

/-- What a JSON text says: numbers as their lexemes, members in order of appearance. -/
inductive Tree where
  | null
  | bool (b : Bool)
  | num (lexeme : Bytes)
  | str (s : Bytes)
  | arr (xs : List Tree)
  | obj (ms : List (Bytes × Tree))
  deriving Repr, BEq, Inhabited

/-- An open container. Elements and members are held last first; an object also holds the
name whose value is still to come. -/
inductive Frame where
  | arr (elems : List Tree)
  | obj (members : List (Bytes × Tree)) (name : Option Bytes)
  deriving Repr, BEq, Inhabited

/-- Position inside a number. -/
inductive NumPart where
  | minus | zero | int | point | frac | exp | expSign | expDigits
  deriving DecidableEq, Repr

/-- Position inside a string. `unicode n v hi` has read `n` hex digits of value `v`; `hi` is
a high surrogate waiting for its low half. -/
inductive StrPart where
  | plain
  | escape
  | unicode (n v : Nat) (hi : Option Nat)
  | lowEscape (hi : Nat)
  | lowUnicode (hi : Nat)
  deriving DecidableEq, Repr

/-- What may come next. -/
inductive Mode where
  /-- A value must begin. -/
  | value
  /-- After `[`: a value or `]`. -/
  | firstValue
  /-- After an opening brace: a name or the closing brace. -/
  | firstName
  /-- After `,` in an object: a name. -/
  | nextName
  /-- After a name: `:`. -/
  | colon
  /-- After a value in a container: `,` or the closing bracket. -/
  | after
  /-- The whole value is complete: only white space. -/
  | done (v : Tree)
  /-- Inside a string; `acc` is what it spells so far, last byte first. -/
  | string (isName : Bool) (part : StrPart) (acc : Bytes)
  /-- Inside a number; `acc` is the lexeme so far, last byte first. -/
  | number (part : NumPart) (acc : Bytes)
  /-- Inside `true`, `false` or `null`, with the bytes still to come. -/
  | literal (rest : Bytes) (v : Tree)
  deriving Repr, BEq

/-- The reader's state. -/
structure State where
  mode : Mode
  stack : List Frame
  deriving Repr, BEq

/-- White space between tokens. -/
def isWs (b : UInt8) : Bool := b = 0x20 || b = 0x0A || b = 0x0D || b = 0x09

/-- Value of a hexadecimal digit of either case. -/
def hexValue (b : UInt8) : Option Nat :=
  if 0x30 ≤ b ∧ b ≤ 0x39 then some (b.toNat - 0x30)
  else if 0x61 ≤ b ∧ b ≤ 0x66 then some (b.toNat - 0x61 + 10)
  else if 0x41 ≤ b ∧ b ≤ 0x46 then some (b.toNat - 0x41 + 10)
  else none

/-- UTF-8 bytes of a code point. -/
def utf8Encode (c : Nat) : Bytes :=
  if c < 0x80 then [UInt8.ofNat c]
  else if c < 0x800 then [UInt8.ofNat (0xC0 + c / 0x40), UInt8.ofNat (0x80 + c % 0x40)]
  else if c < 0x10000 then
    [UInt8.ofNat (0xE0 + c / 0x1000), UInt8.ofNat (0x80 + c / 0x40 % 0x40),
      UInt8.ofNat (0x80 + c % 0x40)]
  else
    [UInt8.ofNat (0xF0 + c / 0x40000), UInt8.ofNat (0x80 + c / 0x1000 % 0x40),
      UInt8.ofNat (0x80 + c / 0x40 % 0x40), UInt8.ofNat (0x80 + c % 0x40)]

/-- The next position inside a number, if the byte continues it. -/
def NumPart.next (p : NumPart) (b : UInt8) : Option NumPart :=
  match p with
  | .minus => if b = 0x30 then some .zero else if isDigit b then some .int else none
  | .zero => if b = 0x2E then some .point else if b = 0x65 || b = 0x45 then some .exp else none
  | .int =>
    if isDigit b then some .int else if b = 0x2E then some .point
    else if b = 0x65 || b = 0x45 then some .exp else none
  | .point => if isDigit b then some .frac else none
  | .frac =>
    if isDigit b then some .frac else if b = 0x65 || b = 0x45 then some .exp else none
  | .exp =>
    if b = 0x2B || b = 0x2D then some .expSign
    else if isDigit b then some .expDigits else none
  | .expSign => if isDigit b then some .expDigits else none
  | .expDigits => if isDigit b then some .expDigits else none

/-- A number may end here. -/
def NumPart.complete : NumPart → Bool
  | .zero | .int | .frac | .expDigits => true
  | _ => false

/-- Hand a completed value to the innermost open container. -/
def complete (v : Tree) : List Frame → Option State
  | [] => some ⟨.done v, []⟩
  | .arr es :: S => some ⟨.after, .arr (v :: es) :: S⟩
  | .obj ms (some k) :: S => some ⟨.after, .obj ((k, v) :: ms) none :: S⟩
  | .obj _ none :: _ => none

/-- `]`. -/
def closeArr : List Frame → Option State
  | .arr es :: S => complete (.arr es.reverse) S
  | _ => none

/-- The closing brace. -/
def closeObj : List Frame → Option State
  | .obj ms none :: S => complete (.obj ms.reverse) S
  | _ => none

/-- The first byte of a value. -/
def beginValue (S : List Frame) (b : UInt8) : Option State :=
  if b = 0x7B then some ⟨.firstName, .obj [] none :: S⟩
  else if b = 0x5B then some ⟨.firstValue, .arr [] :: S⟩
  else if b = 0x22 then some ⟨.string false .plain [], S⟩
  else if b = 0x2D then some ⟨.number .minus [b], S⟩
  else if b = 0x30 then some ⟨.number .zero [b], S⟩
  else if isDigit b then some ⟨.number .int [b], S⟩
  else if b = 0x74 then some ⟨.literal (lit "rue") (.bool true), S⟩
  else if b = 0x66 then some ⟨.literal (lit "alse") (.bool false), S⟩
  else if b = 0x6E then some ⟨.literal (lit "ull") .null, S⟩
  else none

/-- The first byte of a member name. -/
def beginName (S : List Frame) (b : UInt8) : Option State :=
  if b = 0x22 then some ⟨.string true .plain [], S⟩ else none

/-- After a value in a container. -/
def afterStep (S : List Frame) (b : UInt8) : Option State :=
  if isWs b then some ⟨.after, S⟩
  else if b = 0x2C then
    match S with
    | .arr _ :: _ => some ⟨.value, S⟩
    | .obj _ none :: _ => some ⟨.nextName, S⟩
    | _ => none
  else if b = 0x5D then closeArr S
  else if b = 0x7D then closeObj S
  else none

/-- The closing quote. -/
def endString (isName : Bool) (s : Bytes) (S : List Frame) : Option State :=
  if isName then
    match S with
    | .obj ms none :: S' => some ⟨.colon, .obj ms (some s) :: S'⟩
    | _ => none
  else complete (.str s) S

/-- The byte an escape letter stands for. -/
def escapeByte (b : UInt8) : Option UInt8 :=
  if b = 0x22 || b = 0x5C || b = 0x2F then some b
  else if b = 0x62 then some 0x08
  else if b = 0x66 then some 0x0C
  else if b = 0x6E then some 0x0A
  else if b = 0x72 then some 0x0D
  else if b = 0x74 then some 0x09
  else none

/-- The four hex digits of a `\u` escape are read. A lone surrogate is an error. -/
def endUnicode (v : Nat) (acc : Bytes) : Option Nat → Option (StrPart × Bytes)
  | none =>
    if 0xD800 ≤ v ∧ v ≤ 0xDBFF then some (.lowEscape v, acc)
    else if 0xDC00 ≤ v ∧ v ≤ 0xDFFF then none
    else some (.plain, (utf8Encode v).reverse ++ acc)
  | some hi =>
    if 0xDC00 ≤ v ∧ v ≤ 0xDFFF then
      some (.plain, (utf8Encode (0x10000 + (hi - 0xD800) * 0x400 + (v - 0xDC00))).reverse ++ acc)
    else none

/-- One byte inside a string that does not end it. -/
def strStep (part : StrPart) (acc : Bytes) (b : UInt8) : Option (StrPart × Bytes) :=
  match part with
  | .plain =>
    if b = 0x5C then some (.escape, acc)
    else if b < 0x20 then none
    else some (.plain, b :: acc)
  | .escape =>
    if b = 0x75 then some (.unicode 0 0 none, acc)
    else (escapeByte b).map (fun c ↦ (.plain, c :: acc))
  | .unicode n v hi =>
    match hexValue b with
    | none => none
    | some d =>
      if n < 3 then some (.unicode (n + 1) (v * 16 + d) hi, acc)
      else endUnicode (v * 16 + d) acc hi
  | .lowEscape hi => if b = 0x5C then some (.lowUnicode hi, acc) else none
  | .lowUnicode hi => if b = 0x75 then some (.unicode 0 0 (some hi), acc) else none

/-- One byte. -/
def step (s : State) (b : UInt8) : Option State :=
  match s.mode with
  | .value => if isWs b then some s else beginValue s.stack b
  | .firstValue =>
    if isWs b then some s else if b = 0x5D then closeArr s.stack else beginValue s.stack b
  | .firstName =>
    if isWs b then some s else if b = 0x7D then closeObj s.stack else beginName s.stack b
  | .nextName => if isWs b then some s else beginName s.stack b
  | .colon => if isWs b then some s else if b = 0x3A then some ⟨.value, s.stack⟩ else none
  | .after => afterStep s.stack b
  | .done _ => if isWs b then some s else none
  | .string isName part acc =>
    if part = .plain ∧ b = 0x22 then endString isName acc.reverse s.stack
    else (strStep part acc b).map (fun r ↦ ⟨.string isName r.1 r.2, s.stack⟩)
  | .number part acc =>
    match part.next b with
    | some part' => some ⟨.number part' (b :: acc), s.stack⟩
    | none =>
      -- A number has no closing byte: the byte after it is read again in the next state.
      if part.complete then
        match complete (.num acc.reverse) s.stack with
        | some ⟨.after, S⟩ => afterStep S b
        | some ⟨.done v, S⟩ => if isWs b then some ⟨.done v, S⟩ else none
        | _ => none
      else none
  | .literal rest v =>
    match rest with
    | [] => none
    | c :: rest' =>
      if b = c then
        if rest' = [] then complete v s.stack else some ⟨.literal rest' v, s.stack⟩
      else none

/-- Before a text. -/
def start : State := ⟨.value, []⟩

/-- All bytes in turn. -/
def run (s : State) (t : Bytes) : Option State := t.foldlM step s

/-- The value a finished run has read; a number at top level ends with the text. -/
def finish : State → Option Tree
  | ⟨.done v, []⟩ => some v
  | ⟨.number part acc, []⟩ => if part.complete then some (.num acc.reverse) else none
  | _ => none

/-- The tree of a well-formed JSON text: well-formed UTF-8 that is one JSON value. -/
def parse (t : Bytes) : Option Tree :=
  if Utf8.valid t then (run start t).bind finish else none

mutual

/-- The value a tree denotes when `num` reads a number's lexeme. A repeated member name
keeps its last value. -/
def Tree.value (num : Bytes → Json) : Tree → Json
  | .null => .null
  | .bool b => .bool b
  | .num lexeme => num lexeme
  | .str s => .str s
  | .arr xs => .arr (Tree.values num xs)
  | .obj ms => .object (Tree.memberValues num ms)
termination_by structural t => t

/-- The values of the elements. -/
def Tree.values (num : Bytes → Json) : List Tree → List Json
  | [] => []
  | x :: xs => Tree.value num x :: Tree.values num xs
termination_by structural xs => xs

/-- The values of the members. -/
def Tree.memberValues (num : Bytes → Json) : List (Bytes × Tree) → List (Bytes × Json)
  | [] => []
  | (k, v) :: ms => (k, Tree.value num v) :: Tree.memberValues num ms
termination_by structural ms => ms

end

/-- The JSON value of a text. -/
def read (num : Bytes → Json) (t : Bytes) : Option Json := (parse t).map (Tree.value num)

example : parse (lit "\x7b\"a\": [1, -2.5e3], \"a\":null\x7d\n") =
    some (.obj [(lit "a", .arr [.num (lit "1"), .num (lit "-2.5e3")]), (lit "a", .null)]) := by
  rfl

example : parse (lit "[\"\\ud83d\\ude00\\n\"]") =
    some (.arr [.str [0xF0, 0x9F, 0x98, 0x80, 0x0A]]) := by
  rfl

end ObDump.JsonText
