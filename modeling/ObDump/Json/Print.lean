import ObDump.Json.Library
import ObDump.Json.TextRuns

/-!
# A printer for JSON values

Library `Json`. `reference` is an instance of the library's interface: it prints as the
library documents, compact or indented, reads with the text reader, and meets
`Documented`. Of the floating-point numbers it knows 1.5, and prints any other as `0.0`.
-/

namespace ObDump

open Base

namespace Json

/-! ### Printing -/

/-- A byte of a string, escaped where it has to be. -/
def escape (b : UInt8) : Bytes :=
  if b = 0x22 then lit "\\\""
  else if b = 0x5C then lit "\\\\"
  else if b = 0x08 then lit "\\b"
  else if b = 0x09 then lit "\\t"
  else if b = 0x0A then lit "\\n"
  else if b = 0x0C then lit "\\f"
  else if b = 0x0D then lit "\\r"
  else if b < 0x20 then
    lit "\\u00" ++ [digit (b.toNat / 16), if b.toNat % 16 < 10 then digit (b.toNat % 16)
      else UInt8.ofNat (0x57 + b.toNat % 16)]
  else [b]

/-- A quoted string. -/
def quote (s : Bytes) : Bytes := lit "\"" ++ s.flatMap escape ++ lit "\""

/-- Line break and indentation at a depth; nothing in a compact text. -/
def newline (indent : Option Nat) (depth : Nat) : Bytes :=
  match indent with
  | none => []
  | some n => 0x0A :: List.replicate (n * depth) 0x20

/-- The text of a floating-point number. -/
def floatText (bits : UInt64) : Bytes :=
  if bits = 0x3FF8000000000000 then lit "1.5" else lit "0.0"

/-- Between a member's name and its value. -/
def colon (indent : Option Nat) : Bytes := if indent = none then lit ":" else lit ": "

mutual

/-- The text of a value. -/
def print (indent : Option Nat) (depth : Nat) : Json → Bytes
  | .null => lit "null"
  | .bool b => if b then lit "true" else lit "false"
  | .int n => intText n
  | .float64 bits => floatText bits
  | .str s => quote s
  | .arr [] => lit "[]"
  | .arr (x :: xs) =>
    lit "[" ++ newline indent (depth + 1) ++ print indent (depth + 1) x ++
      printElems indent (depth + 1) xs ++ newline indent depth ++ lit "]"
  | .obj [] => lit "\x7b\x7d"
  | .obj ((k, v) :: ms) =>
    lit "\x7b" ++ newline indent (depth + 1) ++ quote k ++ colon indent ++
      print indent (depth + 1) v ++ printMembers indent (depth + 1) ms ++
      newline indent depth ++ lit "\x7d"
termination_by structural j => j

/-- The elements after the first. -/
def printElems (indent : Option Nat) (depth : Nat) : List Json → Bytes
  | [] => []
  | x :: xs => lit "," ++ newline indent depth ++ print indent depth x ++
      printElems indent depth xs
termination_by structural xs => xs

/-- The members after the first. -/
def printMembers (indent : Option Nat) (depth : Nat) : List (Bytes × Json) → Bytes
  | [] => []
  | (k, v) :: ms => lit "," ++ newline indent depth ++ quote k ++ colon indent ++
      print indent depth v ++ printMembers indent depth ms
termination_by structural ms => ms

end

mutual

/-- What the printed text says. -/
def tree : Json → JsonText.Tree
  | .null => .null
  | .bool b => .bool b
  | .int n => .num (intText n)
  | .float64 bits => .num (floatText bits)
  | .str s => .str s
  | .arr xs => .arr (trees xs)
  | .obj ms => .obj (memberTrees ms)
termination_by structural j => j

/-- The trees of the elements. -/
def trees : List Json → List JsonText.Tree
  | [] => []
  | x :: xs => tree x :: trees xs
termination_by structural xs => xs

/-- The trees of the members. -/
def memberTrees : List (Bytes × Json) → List (Bytes × JsonText.Tree)
  | [] => []
  | (k, v) :: ms => (k, tree v) :: memberTrees ms
termination_by structural ms => ms

end

example : print (some 2) 0 (.obj [(lit "a", .arr [.int 1, .str [0x0A]]), (lit "b", .obj [])]) =
    lit "\x7b\n  \"a\": [\n    1,\n    \"\\n\"\n  ],\n  \"b\": \x7b\x7d\n\x7d" := rfl

/-! ### Reading the printed text -/

open JsonText

/-- What may follow a value inside a text: white space, a comma or a closing bracket. -/
private def Ends (t : Bytes) : Prop :=
  ∃ b r, t = b :: r ∧ (isWs b = true ∨ b = 0x2C ∨ b = 0x5D ∨ b = 0x7D)

private theorem run_escape (isName : Bool) (acc : Bytes) (S : List Frame) (b : UInt8) :
    run ⟨.string isName .plain acc, S⟩ (escape b) =
      some ⟨.string isName .plain (b :: acc), S⟩ := by
  by_cases hlow : b < 0x20
  · have hn : b.toNat < 32 := UInt8.lt_iff_toNat_lt.mp hlow
    obtain ⟨n, hb⟩ : ∃ n, b = UInt8.ofNat n ∧ n < 32 := ⟨b.toNat, by simp, hn⟩
    obtain ⟨rfl, hn⟩ := hb
    interval_cases n <;> rfl
  by_cases hq : b = 0x22
  · subst hq
    rfl
  by_cases hs : b = 0x5C
  · subst hs
    rfl
  have hne : ∀ c : UInt8, c < 0x20 → b ≠ c := by
    rintro c hc rfl
    exact hlow hc
  have he : escape b = [b] := by
    simp only [escape, hq, hs, hlow, hne 0x08 (by decide), hne 0x09 (by decide),
      hne 0x0A (by decide), hne 0x0C (by decide), hne 0x0D (by decide), if_false]
  rw [he, run_cons]
  simp only [step, hq, and_false, if_false, strStep, hs, hlow, Option.map_some, Option.bind_some,
    run_nil]

private theorem run_escapes (isName : Bool) (acc : Bytes) (S : List Frame) (s : Bytes) :
    run ⟨.string isName .plain acc, S⟩ (s.flatMap escape) =
      some ⟨.string isName .plain (s.reverse ++ acc), S⟩ := by
  induction s generalizing acc with
  | nil => rfl
  | cons b s ih =>
    rw [List.flatMap_cons, run_append, run_escape, Option.bind_some, ih]
    simp

private theorem run_quote (isName : Bool) (s : Bytes) (S : List Frame) {m : State}
    (hm : step m 0x22 = some ⟨.string isName .plain [], S⟩) :
    run m (quote s) = endString isName s S := by
  have hopen : run m (lit "\"") = some ⟨.string isName .plain [], S⟩ := by
    change run m [0x22] = _
    rw [run_cons, hm]
    rfl
  have hclose : run ⟨.string isName .plain (s.reverse ++ []), S⟩ (lit "\"") =
      endString isName s S := by
    change run _ [0x22] = _
    rw [run_cons]
    simp only [step, List.append_nil, List.reverse_reverse, and_self, if_true, run_nil]
    exact Option.bind_fun_some _
  rw [quote, run_append, run_append, hopen, Option.bind_some, run_escapes, Option.bind_some, hclose]

private theorem run_newline {s : State} (hs : ∀ b, isWs b = true → step s b = some s)
    (indent : Option Nat) (depth : Nat) (t : Bytes) :
    run s (newline indent depth ++ t) = run s t := by
  have hw : ∀ b ∈ newline indent depth, isWs b = true := by
    intro b hb
    cases indent with
    | none => simp [newline] at hb
    | some n =>
      rcases List.mem_cons.mp hb with rfl | hb
      · rfl
      · rw [(List.mem_replicate.mp hb).2]
        rfl
  rw [run_append, run_spaces hs hw]
  rfl

/-! Numbers have no closing byte, so they are read together with the byte that follows. -/

private theorem number_end {S : List Frame} (hS : Awaits S) {part : NumPart}
    (hp : part.complete = true) (acc : Bytes) {b : UInt8} (hb : part.next b = none) :
    step ⟨.number part acc, S⟩ b = (complete (.num acc.reverse) S).bind (step · b) := by
  simp only [step, hb, hp, if_true]
  rcases S with _ | ⟨es | ⟨ms, _ | k⟩, S⟩
  · rfl
  · rfl
  · exact absurd hS id
  · rfl

private theorem next_of_ends (part : NumPart) {b : UInt8}
    (hb : isWs b = true ∨ b = 0x2C ∨ b = 0x5D ∨ b = 0x7D) : part.next b = none := by
  have hd : b = 0x20 ∨ b = 0x0A ∨ b = 0x0D ∨ b = 0x09 ∨ b = 0x2C ∨ b = 0x5D ∨ b = 0x7D := by
    simpa [isWs, or_assoc] using hb
  rcases hd with rfl | rfl | rfl | rfl | rfl | rfl | rfl <;> cases part <;> rfl

private theorem run_number {S : List Frame} (hS : Awaits S) {part : NumPart}
    (hp : part.complete = true) {s : State} {t acc rest : Bytes} (hrest : Ends rest)
    (ht : run s t = some ⟨.number part acc, S⟩) :
    run s (t ++ rest) = (complete (.num acc.reverse) S).bind (run · rest) := by
  obtain ⟨b, r, rfl, hb⟩ := hrest
  rw [run_append, ht, Option.bind_some, run_cons, number_end hS hp acc (next_of_ends part hb),
    Option.bind_assoc]
  simp only [run_cons]

private theorem run_digits (S : List Frame) (acc : Bytes) {ds : Bytes}
    (h : ∀ b ∈ ds, isDigit b = true) :
    run ⟨.number .int acc, S⟩ ds = some ⟨.number .int (ds.reverse ++ acc), S⟩ := by
  induction ds generalizing acc with
  | nil => rfl
  | cons b ds ih =>
    have hb := h b List.mem_cons_self
    rw [run_cons]
    simp only [step, NumPart.next, hb, if_true, Option.bind_some]
    rw [ih (b :: acc) fun c hc ↦ h c (List.mem_cons_of_mem _ hc)]
    simp

private theorem digit_ne {b : UInt8} (h : isDigit b = true) :
    isWs b = false ∧ b ≠ 0x7B ∧ b ≠ 0x5B ∧ b ≠ 0x22 ∧ b ≠ 0x2D ∧ b ≠ 0x5D := by
  have hlo : 0x30 ≤ b.toNat := by
    simp only [isDigit, Bool.and_eq_true, decide_eq_true_eq, UInt8.le_iff_toNat_le] at h
    exact h.1
  have hhi : b.toNat ≤ 0x39 := by
    simp only [isDigit, Bool.and_eq_true, decide_eq_true_eq, UInt8.le_iff_toNat_le] at h
    exact h.2
  have hne : ∀ c : UInt8, c.toNat < 0x30 ∨ 0x39 < c.toNat → b ≠ c := by
    rintro c hc rfl
    omega
  refine ⟨?_, hne _ (by decide), hne _ (by decide), hne _ (by decide), hne _ (by decide),
    hne _ (by decide)⟩
  simp [isWs, hne 0x20 (by decide), hne 0x0A (by decide), hne 0x0D (by decide),
    hne 0x09 (by decide)]

private theorem run_natText (S : List Frame) (acc : Bytes) {s : State} (n : Nat)
    (hzero : step s 0x30 = some ⟨.number .zero (0x30 :: acc), S⟩)
    (hdigit : ∀ b, isDigit b = true → b ≠ 0x30 →
      step s b = some ⟨.number .int (b :: acc), S⟩) :
    ∃ part, part.complete = true ∧
      run s (natText n) = some ⟨.number part ((natText n).reverse ++ acc), S⟩ := by
  rcases Nat.eq_zero_or_pos n with rfl | hn
  · refine ⟨.zero, rfl, ?_⟩
    change run s [0x30] = _
    rw [run_cons, hzero]
    rfl
  · obtain ⟨b, t, hb, hd, hne⟩ := natText_head hn
    have ht : ∀ c ∈ t, isDigit c = true := fun c hc ↦
      isDigit_of_mem_natText c (hb ▸ List.mem_cons_of_mem _ hc)
    refine ⟨.int, rfl, ?_⟩
    rw [hb, run_cons, hdigit b hd hne, Option.bind_some, run_digits S _ ht]
    simp

private theorem run_intText (S : List Frame) (n : Int) :
    ∃ part, part.complete = true ∧
      run ⟨.value, S⟩ (intText n) = some ⟨.number part (intText n).reverse, S⟩ := by
  have hvalue : ∀ b, isDigit b = true → b ≠ 0x30 →
      step ⟨.value, S⟩ b = some ⟨.number .int [b], S⟩ := by
    intro b hd hne
    obtain ⟨hw, h1, h2, h3, h4, -⟩ := digit_ne hd
    simp only [step, hw, beginValue, h1, h2, h3, h4, hne, hd, if_false, if_true,
      Bool.false_eq_true]
  unfold intText
  split
  · obtain ⟨part, hp, hr⟩ := run_natText S [0x2D] (s := ⟨.number .minus [0x2D], S⟩) n.natAbs rfl
      (by
        intro b hd hne
        simp only [step, NumPart.next, hd, hne, if_false, if_true])
    refine ⟨part, hp, ?_⟩
    rw [run_cons]
    change run ⟨.number .minus [0x2D], S⟩ (natText n.natAbs) = _
    rw [hr]
    simp
  · obtain ⟨part, hp, hr⟩ := run_natText S [] (s := ⟨.value, S⟩) n.natAbs rfl hvalue
    exact ⟨part, hp, by rw [hr, List.append_nil]⟩

/-! Values -/

private theorem ends_newline (indent : Option Nat) (depth : Nat) {b : UInt8} (t : Bytes)
    (hb : b = 0x2C ∨ b = 0x5D ∨ b = 0x7D) : Ends (newline indent depth ++ b :: t) := by
  cases indent with
  | none => exact ⟨b, t, rfl, .inr hb⟩
  | some n => exact ⟨0x0A, _, rfl, .inl rfl⟩

private theorem ends_elems (indent : Option Nat) (depth depth' : Nat) (xs : List Json) (t : Bytes) :
    Ends (printElems indent depth xs ++ (newline indent depth' ++ 0x5D :: t)) := by
  cases xs with
  | nil => exact ends_newline indent depth' t (.inr (.inl rfl))
  | cons x xs => exact ⟨0x2C, _, rfl, .inr (.inl rfl)⟩

private theorem ends_members (indent : Option Nat) (depth depth' : Nat)
    (ms : List (Bytes × Json)) (t : Bytes) :
    Ends (printMembers indent depth ms ++ (newline indent depth' ++ 0x7D :: t)) := by
  cases ms with
  | nil => exact ends_newline indent depth' t (.inr (.inr rfl))
  | cons e ms => exact ⟨0x2C, _, rfl, .inr (.inl rfl)⟩

private theorem print_head (indent : Option Nat) (depth : Nat) (j : Json) :
    ∃ b t, print indent depth j = b :: t ∧ isWs b = false ∧ b ≠ 0x5D := by
  cases j with
  | null => exact ⟨_, _, rfl, rfl, by decide⟩
  | bool b => cases b <;> exact ⟨_, _, rfl, rfl, by decide⟩
  | int n =>
    rw [print, intText]
    split
    · exact ⟨_, _, rfl, rfl, by decide⟩
    · rcases Nat.eq_zero_or_pos n.natAbs with h0 | hn
      · rw [h0]
        exact ⟨_, _, rfl, rfl, by decide⟩
      · obtain ⟨b, t, hb, hd, -⟩ := natText_head hn
        exact ⟨b, t, hb, (digit_ne hd).1, (digit_ne hd).2.2.2.2.2⟩
  | float64 bits =>
    rw [print, floatText]
    split <;> exact ⟨_, _, rfl, rfl, by decide⟩
  | str s => exact ⟨_, _, rfl, rfl, by decide⟩
  | arr xs => cases xs <;> exact ⟨_, _, rfl, rfl, by decide⟩
  | obj ms => rcases ms with _ | ⟨⟨k, v⟩, ms⟩ <;> exact ⟨_, _, rfl, rfl, by decide⟩

private theorem run_firstValue_print (indent : Option Nat) (depth : Nat) (j : Json)
    (S : List Frame) (rest : Bytes) :
    run ⟨.firstValue, S⟩ (print indent depth j ++ rest) =
      run ⟨.value, S⟩ (print indent depth j ++ rest) := by
  obtain ⟨b, t, hb, hw, hc⟩ := print_head indent depth j
  rw [hb, List.cons_append, run_cons, run_cons]
  simp only [step, hw, hc, Bool.false_eq_true, if_false]

private theorem step_ws_of {m : Mode} (hm : m = .value ∨ m = .firstValue ∨ m = .firstName ∨
    m = .nextName ∨ m = .after) (S : List Frame) :
    ∀ b, isWs b = true → step ⟨m, S⟩ b = some ⟨m, S⟩ := by
  intro b hb
  rcases hm with rfl | rfl | rfl | rfl | rfl <;> simp [step, afterStep, hb]

private theorem run_member {indent : Option Nat} {depth : Nat} {k : Bytes} {v : Json}
    {ms : List (Bytes × Tree)} {S : List Frame} {m : State} {rest : Bytes}
    (hm : step m 0x22 = some ⟨.string true .plain [], .obj ms none :: S⟩)
    (hv : run ⟨.value, .obj ms (some k) :: S⟩ (print indent depth v ++ rest) =
      (complete (tree v) (.obj ms (some k) :: S)).bind (run · rest)) :
    run m (quote k ++ colon indent ++ print indent depth v ++ rest) =
      run ⟨.after, .obj ((k, tree v) :: ms) none :: S⟩ rest := by
  have hcolon : run ⟨.colon, .obj ms (some k) :: S⟩ (colon indent) =
      some ⟨.value, .obj ms (some k) :: S⟩ := by
    unfold colon
    split <;> rfl
  rw [List.append_assoc, run_append, run_append, run_quote true k _ hm]
  change ((some ⟨.colon, .obj ms (some k) :: S⟩ : Option State).bind _).bind _ = _
  rw [Option.bind_some, hcolon, Option.bind_some, hv]
  rfl

private theorem run_word {w : Bytes} {v : Tree} {S : List Frame}
    (h : run ⟨.value, S⟩ w = (complete v S).bind some) (rest : Bytes) :
    run ⟨.value, S⟩ (w ++ rest) = (complete v S).bind (run · rest) := by
  rw [run_append, h, Option.bind_fun_some]

private theorem run_openArr (S : List Frame) (t : Bytes) :
    run ⟨.value, S⟩ (lit "[" ++ t) = run ⟨.firstValue, .arr [] :: S⟩ t := rfl

private theorem run_openObj (S : List Frame) (t : Bytes) :
    run ⟨.value, S⟩ (lit "\x7b" ++ t) = run ⟨.firstName, .obj [] none :: S⟩ t := rfl

private theorem run_closeArr (es : List Tree) (S : List Frame) (t : Bytes) :
    run ⟨.after, .arr es :: S⟩ (lit "]" ++ t) =
      (complete (.arr es.reverse) S).bind (run · t) := rfl

private theorem run_closeObj (ms : List (Bytes × Tree)) (S : List Frame) (t : Bytes) :
    run ⟨.after, .obj ms none :: S⟩ (lit "\x7d" ++ t) =
      (complete (.obj ms.reverse) S).bind (run · t) := rfl

private theorem run_commaArr (es : List Tree) (S : List Frame) (t : Bytes) :
    run ⟨.after, .arr es :: S⟩ (lit "," ++ t) = run ⟨.value, .arr es :: S⟩ t := rfl

private theorem run_commaObj (ms : List (Bytes × Tree)) (S : List Frame) (t : Bytes) :
    run ⟨.after, .obj ms none :: S⟩ (lit "," ++ t) = run ⟨.nextName, .obj ms none :: S⟩ t := rfl

mutual

private theorem run_print (indent : Option Nat) (depth : Nat) (j : Json) {S : List Frame}
    (hS : Awaits S) {rest : Bytes} (hrest : Ends rest) :
    run ⟨.value, S⟩ (print indent depth j ++ rest) =
      (complete (tree j) S).bind (run · rest) := by
  match j with
  | .null => exact run_word rfl rest
  | .bool true => exact run_word rfl rest
  | .bool false => exact run_word rfl rest
  | .int n =>
    obtain ⟨part, hp, hr⟩ := run_intText S n
    rw [print, run_number hS hp hrest hr, List.reverse_reverse]
    rfl
  | .float64 bits =>
    have hr : run ⟨.value, S⟩ (floatText bits) =
        some ⟨.number .frac (floatText bits).reverse, S⟩ := by
      unfold floatText
      split <;> rfl
    rw [print, run_number hS rfl hrest hr, List.reverse_reverse]
    rfl
  | .str s =>
    rw [print, run_append, run_quote false s S rfl]
    rfl
  | .arr [] => exact run_word rfl rest
  | .obj [] => exact run_word rfl rest
  | .arr (x :: xs) =>
    have hx := run_print indent (depth + 1) x (S := .arr [] :: S) trivial
      (ends_elems indent (depth + 1) depth xs rest)
    have hxs := run_printElems indent (depth + 1) xs [tree x] (S := S)
      (ends_newline indent depth rest (.inr (.inl rfl)))
    simp only [print, List.append_assoc]
    rw [run_openArr, run_newline (step_ws_of (.inr (.inl rfl)) _), run_firstValue_print]
    refine hx.trans ?_
    change run ⟨.after, .arr [tree x] :: S⟩ _ = _
    rw [hxs, run_newline (step_ws_of (.inr (.inr (.inr (.inr rfl)))) _)]
    refine (run_closeArr _ S rest).trans ?_
    rw [List.reverse_append, List.reverse_reverse]
    rfl
  | .obj ((k, v) :: ms) =>
    have hv := run_print indent (depth + 1) v (S := .obj [] (some k) :: S) trivial
      (ends_members indent (depth + 1) depth ms rest)
    have hms := run_printMembers indent (depth + 1) ms [(k, tree v)] (S := S)
      (ends_newline indent depth rest (.inr (.inr rfl)))
    have hmember := run_member (k := k) (m := ⟨.firstName, .obj [] none :: S⟩) rfl hv
    simp only [print, List.append_assoc] at hmember ⊢
    rw [run_openObj, run_newline (step_ws_of (.inr (.inr (.inl rfl))) _)]
    refine hmember.trans ?_
    rw [hms, run_newline (step_ws_of (.inr (.inr (.inr (.inr rfl)))) _)]
    refine (run_closeObj _ S rest).trans ?_
    rw [List.reverse_append, List.reverse_reverse]
    rfl
termination_by structural j

private theorem run_printElems (indent : Option Nat) (depth : Nat) (xs : List Json)
    (es : List Tree) {S : List Frame} {rest : Bytes} (hrest : Ends rest) :
    run ⟨.after, .arr es :: S⟩ (printElems indent depth xs ++ rest) =
      run ⟨.after, .arr ((trees xs).reverse ++ es) :: S⟩ rest := by
  match xs with
  | [] => rfl
  | x :: xs =>
    have hend : Ends (printElems indent depth xs ++ rest) := by
      cases xs with
      | nil => exact hrest
      | cons y ys => exact ⟨0x2C, _, rfl, .inr (.inl rfl)⟩
    have hx := run_print indent depth x (S := .arr es :: S) trivial hend
    have hxs := run_printElems indent depth xs (tree x :: es) (S := S) hrest
    simp only [printElems, List.append_assoc]
    rw [run_commaArr, run_newline (step_ws_of (.inl rfl) _), hx]
    refine hxs.trans ?_
    rw [trees, List.reverse_cons, List.append_assoc]
    rfl
termination_by structural xs

private theorem run_printMembers (indent : Option Nat) (depth : Nat) (ms : List (Bytes × Json))
    (done : List (Bytes × Tree)) {S : List Frame} {rest : Bytes} (hrest : Ends rest) :
    run ⟨.after, .obj done none :: S⟩ (printMembers indent depth ms ++ rest) =
      run ⟨.after, .obj ((memberTrees ms).reverse ++ done) none :: S⟩ rest := by
  match ms with
  | [] => rfl
  | (k, v) :: ms =>
    have hend : Ends (printMembers indent depth ms ++ rest) := by
      cases ms with
      | nil => exact hrest
      | cons e ms => exact ⟨0x2C, _, rfl, .inr (.inl rfl)⟩
    have hv := run_print indent depth v (S := .obj done (some k) :: S) trivial hend
    have hms := run_printMembers indent depth ms ((k, tree v) :: done) (S := S) hrest
    have hmember := run_member (k := k) (m := ⟨.nextName, .obj done none :: S⟩) rfl hv
    simp only [printMembers, List.append_assoc] at hmember ⊢
    rw [run_commaObj, run_newline (step_ws_of (.inr (.inr (.inr (.inl rfl)))) _), hmember, hms]
    rw [memberTrees, List.reverse_cons, List.append_assoc]
    rfl
termination_by structural ms

end

private theorem finish_of_ws {m : State} {v : Tree} (h : step m 0x0A = some ⟨.done v, []⟩)
    (h' : step m 0x20 = some ⟨.done v, []⟩) : finish m = some v := by
  obtain ⟨mode, S⟩ := m
  cases mode with
  | done w =>
    cases h
    rfl
  | number part acc =>
    have hn : part.next 0x0A = none := next_of_ends part (.inl (by decide))
    simp only [step, hn] at h
    by_cases hp : part.complete = true
    · rw [if_pos hp] at h
      rcases S with _ | ⟨es | ⟨ms, _ | k⟩, S⟩
      · cases h
        simp [finish, hp]
      · cases h
      · cases h
      · cases h
    · rw [if_neg hp] at h
      cases h
  | string isName part acc => cases part <;> simp [step, strStep, escapeByte, hexValue] at h
  | literal rest w =>
    cases rest with
    | nil => cases h
    | cons c rest =>
      simp only [step] at h h'
      split at h
      · next hc =>
        rw [← hc, if_neg (by decide)] at h'
        cases h'
      · cases h
  | _ => cases h

private theorem run_step_of_print (indent : Option Nat) (j : Json) {b : UInt8}
    (hb : isWs b = true) : (run start (print indent 0 j)).bind (step · b) =
      some ⟨.done (tree j), []⟩ := by
  have hends : Ends [b] := ⟨b, [], rfl, .inl hb⟩
  have hr := run_print indent 0 j (S := []) trivial hends
  rw [run_append] at hr
  simp only [run_cons, run_nil, Option.bind_fun_some] at hr
  rw [start, hr]
  change step ⟨.done (tree j), []⟩ b = _
  simp only [step, hb, if_true]

/-- The printed text of a value is a JSON text, of that value's tree. -/
theorem parse_print (indent : Option Nat) {j : Json}
    (hu : Utf8.valid (print indent 0 j) = true) :
    JsonText.parse (print indent 0 j) = some (tree j) := by
  obtain ⟨m, hm, h⟩ := Option.bind_eq_some_iff.mp
    (run_step_of_print indent j (b := 0x0A) (by decide))
  obtain ⟨m', hm', h'⟩ := Option.bind_eq_some_iff.mp
    (run_step_of_print indent j (b := 0x20) (by decide))
  cases hm.symm.trans hm'
  rw [JsonText.parse, if_pos hu, hm]
  exact finish_of_ws h h'

/-! ### Encoding of the printed text -/

private theorem escape_ascii : ∀ n : Fin 128,
    (escape (UInt8.ofNat n.val)).all (· < 0x80) = true := by
  decide

private theorem run_utf8_escape {q q' : Utf8.State} {b : UInt8} (h : Utf8.step q b = some q') :
    Utf8.run q (escape b) = some q' := by
  by_cases hb : b < 0x80
  · obtain ⟨rfl, rfl⟩ := Utf8.step_of_lt hb h
    have ha := escape_ascii ⟨b.toNat, UInt8.lt_iff_toNat_lt.mp hb⟩
    rw [UInt8.ofNat_toNat, List.all_eq_true] at ha
    exact Utf8.valid_iff.mp (Utf8.valid_of_ascii fun c hc ↦ by simpa using ha c hc)
  · have hne : ∀ c : UInt8, c < 0x80 → b ≠ c := by
      rintro c hc rfl
      exact hb hc
    have hlow : ¬ b < 0x20 := fun h ↦ hb (UInt8.lt_trans h (by decide))
    have he : escape b = [b] := by
      simp only [escape, hne 0x22 (by decide), hne 0x5C (by decide), hne 0x08 (by decide),
        hne 0x09 (by decide), hne 0x0A (by decide), hne 0x0C (by decide), hne 0x0D (by decide),
        hlow, if_false]
    rw [he]
    change (Utf8.step q b).bind some = _
    rw [Option.bind_fun_some, h]

private theorem run_utf8_escapes {q q' : Utf8.State} {s : Bytes} (h : Utf8.run q s = some q') :
    Utf8.run q (s.flatMap escape) = some q' := by
  induction s generalizing q with
  | nil => exact h
  | cons b s ih =>
    obtain ⟨m, hm, hs⟩ := Option.bind_eq_some_iff.mp
      (show (Utf8.step q b).bind (Utf8.run · s) = some q' from h)
    rw [List.flatMap_cons, Utf8.run_append, run_utf8_escape hm]
    exact ih hs

private theorem valid_lit {s : Bytes} (h : s.all (· < 0x80) = true) : Utf8.valid s = true :=
  Utf8.valid_of_ascii fun b hb ↦ by simpa using List.all_eq_true.mp h b hb

private theorem valid_quote {s : Bytes} (h : Utf8.valid s = true) :
    Utf8.valid (quote s) = true := by
  have he : Utf8.valid (s.flatMap escape) = true :=
    Utf8.valid_iff.mpr (run_utf8_escapes (Utf8.valid_iff.mp h))
  exact Utf8.valid_append (Utf8.valid_append (valid_lit (by decide)) he) (valid_lit (by decide))

private theorem valid_newline (indent : Option Nat) (depth : Nat) :
    Utf8.valid (newline indent depth) = true := by
  cases indent with
  | none => rfl
  | some n =>
    refine Utf8.valid_of_ascii fun b hb ↦ ?_
    rcases List.mem_cons.mp hb with rfl | hb
    · decide
    · rw [(List.mem_replicate.mp hb).2]
      decide

private theorem valid_colon (indent : Option Nat) : Utf8.valid (colon indent) = true := by
  unfold colon
  split <;> exact valid_lit (by decide)

private theorem valid_intText (n : Int) : Utf8.valid (intText n) = true := by
  have hd : ∀ b ∈ natText n.natAbs, b < 0x80 := by
    intro b hb
    have h := isDigit_of_mem_natText b hb
    simp only [isDigit, Bool.and_eq_true, decide_eq_true_eq] at h
    exact UInt8.lt_of_le_of_lt h.2 (by decide)
  refine Utf8.valid_of_ascii fun b hb ↦ ?_
  unfold intText at hb
  split at hb
  · rcases List.mem_cons.mp hb with rfl | hb
    · decide
    · exact hd b hb
  · exact hd b hb

mutual

private theorem valid_print (indent : Option Nat) (depth : Nat) (j : Json)
    (h : j.encodable = true) : Utf8.valid (print indent depth j) = true := by
  match j with
  | .null => exact valid_lit rfl
  | .bool true => exact valid_lit rfl
  | .bool false => exact valid_lit rfl
  | .int n => exact valid_intText n
  | .float64 bits =>
    rw [print, floatText]
    split <;> exact valid_lit rfl
  | .str s => exact valid_quote h
  | .arr [] => exact valid_lit rfl
  | .obj [] => exact valid_lit rfl
  | .arr (x :: xs) =>
    simp only [encodable, encodableElems, Bool.and_eq_true] at h
    have hx := valid_print indent (depth + 1) x h.1
    have hxs := valid_printElems indent (depth + 1) xs h.2
    rw [print]
    exact Utf8.valid_append (Utf8.valid_append (Utf8.valid_append (Utf8.valid_append
      (Utf8.valid_append (valid_lit (by decide)) (valid_newline _ _)) hx) hxs)
      (valid_newline _ _)) (valid_lit (by decide))
  | .obj ((k, v) :: ms) =>
    simp only [encodable, encodableMembers, Bool.and_eq_true] at h
    have hv := valid_print indent (depth + 1) v h.1.2
    have hms := valid_printMembers indent (depth + 1) ms h.2
    rw [print]
    exact Utf8.valid_append (Utf8.valid_append (Utf8.valid_append (Utf8.valid_append
      (Utf8.valid_append (Utf8.valid_append (Utf8.valid_append (valid_lit (by decide))
      (valid_newline _ _)) (valid_quote h.1.1)) (valid_colon _)) hv) hms)
      (valid_newline _ _)) (valid_lit (by decide))
termination_by structural j

private theorem valid_printElems (indent : Option Nat) (depth : Nat) (xs : List Json)
    (h : encodableElems xs = true) : Utf8.valid (printElems indent depth xs) = true := by
  match xs with
  | [] => rfl
  | x :: xs =>
    simp only [encodableElems, Bool.and_eq_true] at h
    have hx := valid_print indent depth x h.1
    have hxs := valid_printElems indent depth xs h.2
    rw [printElems]
    exact Utf8.valid_append (Utf8.valid_append (Utf8.valid_append (valid_lit (by decide))
      (valid_newline _ _)) hx) hxs
termination_by structural xs

private theorem valid_printMembers (indent : Option Nat) (depth : Nat) (ms : List (Bytes × Json))
    (h : encodableMembers ms = true) : Utf8.valid (printMembers indent depth ms) = true := by
  match ms with
  | [] => rfl
  | (k, v) :: ms =>
    simp only [encodableMembers, Bool.and_eq_true] at h
    have hv := valid_print indent depth v h.1.2
    have hms := valid_printMembers indent depth ms h.2
    rw [printMembers]
    exact Utf8.valid_append (Utf8.valid_append (Utf8.valid_append (Utf8.valid_append
      (Utf8.valid_append (valid_lit (by decide)) (valid_newline _ _)) (valid_quote h.1.1))
      (valid_colon _)) hv) hms
termination_by structural ms

end

end Json

/-! ### The library instance -/

namespace Nlohmann

/-- Value of a number's lexeme: an integer, 1.5, or a floating-point zero for any other. -/
def referenceNumber (lexeme : Bytes) : Json :=
  match lexeme with
  | 0x2D :: ds => if ds.all isDigit then .int (-(decimal ds)) else .float64 0
  | ds =>
    if ds.all isDigit then .int (decimal ds)
    else .float64 (if ds = lit "1.5" then 0x3FF8000000000000 else 0)

/-- The interface on the reader and the printer above. -/
def reference : Nlohmann where
  parse t :=
    match JsonText.read referenceNumber t with
    | some v => if v.encodable then .ok v else .error .parseError
    | none => .error .parseError
  dump indent v := if v.encodable then .ok (v.print indent 0) else .error .typeError
  number := referenceNumber
  castInt _ := BitVec.intMin 32

private theorem reference_dump_eq_ok {indent : Option Nat} {v : Json} {t : Bytes} :
    reference.dump indent v = .ok t ↔ v.encodable = true ∧ v.print indent 0 = t := by
  simp only [reference]
  by_cases he : v.encodable = true
  · rw [if_pos he, Except.ok.injEq, and_iff_right he]
  · rw [if_neg he]
    simp [he]

private theorem parse_reference_dump {indent : Option Nat} {v : Json} {t : Bytes}
    (h : reference.dump indent v = .ok t) : JsonText.parse t = some v.tree := by
  obtain ⟨he, rfl⟩ := reference_dump_eq_ok.mp h
  exact Json.parse_print indent (Json.valid_print indent 0 v he)

/-- The instance reads back the values that its numbers' lexemes denote. -/
theorem reference_inverseOn_iff {S : Json → Prop} :
    reference.InverseOn S ↔
      ∀ v, S v → v.encodable = true → JsonText.Tree.value referenceNumber v.tree = v := by
  constructor
  · intro h v hv he
    have hd : reference.dump none v = .ok (v.print none 0) := reference_dump_eq_ok.mpr ⟨he, rfl⟩
    have hr := h v hv none _ hd
    rw [JsonText.read, parse_reference_dump hd, Option.map_some] at hr
    exact Option.some.inj hr
  · intro h v hv indent t ht
    rw [JsonText.read, parse_reference_dump ht, Option.map_some]
    exact congrArg some (h v hv (reference_dump_eq_ok.mp ht).1)

/-- The lexeme of an integer is read as that integer. -/
theorem referenceNumber_intText (n : Int) : referenceNumber (intText n) = .int n := by
  have hdigits : ∀ m : Nat, (natText m).all isDigit = true := by
    intro m
    exact List.all_eq_true.mpr fun b hb ↦ isDigit_of_mem_natText b hb
  unfold intText
  split
  · rw [referenceNumber, if_pos (hdigits _), decimal_natText]
    congr 1
    omega
  · unfold referenceNumber
    split
    · next ds hds =>
      have hm : (0x2D : UInt8) ∈ natText n.natAbs := by
        rw [hds]
        exact List.mem_cons_self
      exact absurd (isDigit_of_mem_natText 0x2D hm) (by decide)
    · rw [if_pos (hdigits _), decimal_natText]
      congr 1
      omega

/-- The instance reads back every truth value, integer and string. -/
theorem reference_inverseOn_leaf {S : Json → Prop}
    (h : ∀ v, S v → (∃ b, v = .bool b) ∨ (∃ n, v = .int n) ∨ ∃ s, v = .str s) :
    reference.InverseOn S := by
  rw [reference_inverseOn_iff]
  intro v hv _
  rcases h v hv with ⟨b, rfl⟩ | ⟨n, rfl⟩ | ⟨s, rfl⟩
  · rfl
  · exact referenceNumber_intText n
  · rfl

private theorem values_trees {xs : List Json}
    (h : ∀ x ∈ xs, JsonText.Tree.value referenceNumber x.tree = x) :
    JsonText.Tree.values referenceNumber (Json.trees xs) = xs := by
  induction xs with
  | nil => rfl
  | cons x xs ih =>
    obtain ⟨hx, hxs⟩ := List.forall_mem_cons.mp h
    rw [Json.trees, JsonText.Tree.values, hx, ih hxs]

private theorem memberValues_trees {ms : List (Bytes × Json)}
    (h : ∀ e ∈ ms, JsonText.Tree.value referenceNumber e.2.tree = e.2) :
    JsonText.Tree.memberValues referenceNumber (Json.memberTrees ms) = ms := by
  induction ms with
  | nil => rfl
  | cons e ms ih =>
    obtain ⟨he, hms⟩ := List.forall_mem_cons.mp h
    rw [Json.memberTrees, JsonText.Tree.memberValues, he, ih hms]

/-- The instance behaves as documented. -/
theorem reference_documented : reference.Documented where
  parse_encodable := by
    intro t v h
    simp only [reference] at h
    split at h
    · split at h
      · next he =>
        cases h
        exact he
      · cases h
    · cases h
  dump_ok_iff := by
    intro indent v
    simp [reference_dump_eq_ok]
  dump_text := by
    intro indent v t h
    exact ⟨_, parse_reference_dump h⟩
  dump_object := by
    intro indent ms t h
    exact ⟨_, parse_reference_dump h⟩
  inverse_array := by
    intro xs h
    rw [reference_inverseOn_iff] at h ⊢
    rintro v rfl he
    have hx : ∀ x ∈ xs, JsonText.Tree.value referenceNumber x.tree = x :=
      fun x hx ↦ h x hx ((Json.encodable_arr xs).mp he x hx)
    exact congrArg Json.arr (values_trees hx)
  inverse_object := by
    intro ms ho h
    rw [reference_inverseOn_iff] at h ⊢
    rintro v rfl he
    have hm : ∀ e ∈ ms, JsonText.Tree.value referenceNumber e.2.tree = e.2 :=
      fun e hm ↦ h e.2 (List.mem_map_of_mem hm) ((Json.encodable_obj ms).mp he e hm).2
    have hv : JsonText.Tree.value referenceNumber (Json.obj ms).tree =
        Json.object (JsonText.Tree.memberValues referenceNumber (Json.memberTrees ms)) := rfl
    rw [hv, memberValues_trees hm, Json.object, Members.insertAll_self ho]

end Nlohmann

end ObDump
