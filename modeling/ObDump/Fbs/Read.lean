import ObDump.Fbs.Layout
import ObDump.Schema.Declared

/-!
# Reading a generated schema

Library `Fbs`. The text of `src/fbs_gen.cpp:107–149` read as the schema language reads it. Names
are put into the text as they are: one that is no identifier is not read as itself, and a line
break in the name of a relation ends the comment it stands in.
-/

namespace ObDump

open Base FlatBuffers SchemaText

/-! ### Fields -/

private theorem isIdentifier_fbsTypeName (type : PropertyType) (isUnsigned : Bool) :
    isIdentifier (fbsTypeName type isUnsigned) = true := by
  cases type <;> cases isUnsigned <;> decide

private theorem externalTypeName_inert {code : Int} {ext : Bytes}
    (h : externalTypeName code = some ext) : ext.all isInert = true := by
  unfold externalTypeName at h
  split at h <;> cases h <;> decide

private theorem skip_fbsField_comment (p : PropertyDef) :
    skip .blank (p.fbsField.comment ++ lit "\n") = some .blank := by
  unfold PropertyDef.fbsField
  dsimp only
  split_ifs
  · decide +kernel
  · decide +kernel
  · cases hext : externalTypeName p.externalType with
    | none => decide
    | some ext =>
      have hstart : skip .blank (lit "  // external type: ") = some .line := by decide +kernel
      have hend : skip .line (lit "\n") = some .blank := by decide
      simp only [skip_append, hstart, (skip_inert (externalTypeName_inert hext)).1, hend,
        Option.bind_some]

private theorem isIdentifier_reserved {id : Int} (h : 0 ≤ id) :
    isIdentifier (placeholder id).name = true := by
  have hdigits : (intText id).all isIdentifierByte = true := by
    rw [intText, if_neg (by omega), List.all_eq_true]
    intro b hb
    rw [isIdentifierByte, Bool.or_eq_true]
    exact .inr (isDigit_of_mem_natText b hb)
  have hstart : isIdentifier (lit "_reserved_" ++ intText id) =
      (lit "_reserved_" ++ intText id).tail.all isIdentifierByte := rfl
  rw [placeholder, hstart]
  rw [show (lit "_reserved_" ++ intText id).tail = (lit "_reserved_").tail ++ intText id from rfl,
    List.all_append, hdigits]
  decide

private theorem lexFrom_field {f : FbsField} (hname : isIdentifier f.name = true)
    (hbase : isIdentifier f.base = true)
    (hcomment : skip .blank (f.comment ++ lit "\n") = some .blank) :
    lexFrom .blank f.text = some (.blank, f.decl.tokens) := by
  obtain ⟨name, vector, base, deprecated, comment⟩ := f
  have hindent : lexFrom .blank (lit "  ") = some (.blank, []) := by decide
  have hcolon : lexFrom (.ident name) (lit ":") = some (.blank, [.ident name, .colon]) := rfl
  have hopen : lexFrom .blank (lit "[") = some (.blank, [.openBracket]) := by decide
  have hclose : lexFrom (.ident base) (lit "]") = some (.blank, [.ident base, .closeBracket]) :=
    rfl
  have hdeprecated : lexFrom .blank (lit " (deprecated)") =
      some (.blank, [.openParen, .ident (lit "deprecated"), .closeParen]) := by decide
  have hdeprecated' : lexFrom (.ident base) (lit " (deprecated)") =
      some (.blank, [.ident base, .openParen, .ident (lit "deprecated"), .closeParen]) := rfl
  have hend : lexFrom .blank (lit ";") = some (.blank, [.semicolon]) := by decide
  have hend' : lexFrom (.ident base) (lit ";") = some (.blank, [.ident base, .semicolon]) := rfl
  have htype := lexFrom_identifier hbase
  have hhead := lexFrom_append (lexFrom_append hindent (lexFrom_identifier hname)) hcolon
  have htail := skip_eq_some.mp hcomment
  -- The type ends in an identifier or a bracket, and the line goes on with an attribute or not.
  have hline : ∀ (ty dep : Bytes) (ts : List Token),
      lexFrom .blank (ty ++ dep ++ lit ";") = some (.blank, ts) →
      lexFrom .blank (lit "  " ++ name ++ lit ":" ++ ty ++ dep ++ lit ";" ++ comment ++ lit "\n") =
        some (.blank, [.ident name, .colon] ++ ts) := by
    intro ty dep ts h
    have hall := lexFrom_append (lexFrom_append hhead h) htail
    simpa only [List.append_assoc, List.nil_append, List.append_nil] using hall
  cases vector <;> cases deprecated
  · exact hline base [] [.ident base, .semicolon] (by
      rw [List.append_nil]
      exact lexFrom_append htype hend')
  · exact hline _ _ _ (lexFrom_append (lexFrom_append htype hdeprecated') hend)
  · exact hline _ [] _ (by
      rw [List.append_nil]
      exact lexFrom_append (lexFrom_append (lexFrom_append hopen htype) hclose) hend)
  · exact hline _ _ _ (lexFrom_append
      (lexFrom_append (lexFrom_append (lexFrom_append hopen htype) hclose) hdeprecated) hend)

/-! ### Relations -/

/-- The name in a relation's comment for its target. -/
def targetName (schema : Schema) (rel : RelationDef) : Bytes :=
  match schema.find rel.targetEntityId with
  | some target => target.name
  | none => lit "?"

/-- What the comments of an entity's table name: its relations, each with its target. -/
def commentNames (schema : Schema) (entity : EntityDef) : List (Bytes × Bytes) :=
  entity.relations.map fun rel ↦ (rel.name, targetName schema rel)

private theorem intText_inert (n : Int) : (intText n).all isInert = true := by
  have hdigit : ∀ b, isDigit b = true → isInert b = true := by
    intro b hb
    have hne : b ≠ 0 ∧ b ≠ 0x0A ∧ b ≠ 0x0D ∧ b ≠ 0x2A := by
      refine ⟨?_, ?_, ?_, ?_⟩ <;> rintro rfl <;> exact absurd hb (by decide)
    simp [isInert, hne]
  have hdigits : (natText n.natAbs).all isInert = true := by
    rw [List.all_eq_true]
    intro b hb
    exact hdigit b (isDigit_of_mem_natText b hb)
  unfold intText
  split
  · rw [List.all_cons, hdigits]
    decide
  · exact hdigits

private theorem skip_relationId (id : Int) (mode : Mode) :
    skip mode (lit " (relation id " ++ intText id ++ lit ") -> ") = skip mode (lit ",") := by
  have htext : lit " (relation id " ++ intText id ++ lit ") -> " =
      0x20 :: 0x28 :: (lit "relation id " ++ intText id ++ lit ") -> ") := rfl
  rw [htext]
  apply skip_visible (by decide)
  simp only [List.all_cons, List.all_append, intText_inert]
  decide

private theorem skip_relationEnd (mode : Mode) :
    skip mode (lit " — not a table field, see docs/BACKLOG.md\n") = skip mode (lit ",\n") := by
  have htext : lit " — not a table field, see docs/BACKLOG.md\n" =
      lit " — not a table field, see docs/BACKLOG.md" ++ lit "\n" := by decide +kernel
  have hcomma : lit ",\n" = lit "," ++ lit "\n" := by decide
  rw [htext, hcomma]
  apply skip_congr _ fun _ ↦ rfl
  exact skip_visible (b := 0xE2) (by decide) (by decide +kernel)

private theorem skip_writeRelation (schema : Schema) (rel : RelationDef) (mode : Mode) :
    skip mode (writeRelation schema rel) =
      skip mode (lit " //" ++ rel.name ++ lit "," ++ targetName schema rel ++ lit ",\n") := by
  have htext : writeRelation schema rel = lit "  // ToMany relation: " ++ rel.name ++
      (lit " (relation id " ++ intText rel.id ++ lit ") -> ") ++ targetName schema rel ++
        lit " — not a table field, see docs/BACKLOG.md\n" := by
    have hdef : writeRelation schema rel = lit "  // ToMany relation: " ++ rel.name ++
        lit " (relation id " ++ intText rel.id ++ lit ") -> " ++ targetName schema rel ++
          lit " — not a table field, see docs/BACKLOG.md\n" := rfl
    rw [hdef]
    simp only [List.append_assoc]
  have hstart : ∀ mode, skip mode (lit "  // ToMany relation: ") = skip mode (lit " //") :=
    skip_commentStart (by decide +kernel)
  rw [htext]
  exact skip_congr (skip_congr (skip_congr (skip_congr hstart fun _ ↦ rfl)
    (skip_relationId rel.id)) fun _ ↦ rfl) skip_relationEnd mode

private theorem commented_iff (schema : Schema) (entity : EntityDef) :
    Commented (commentNames schema entity) ↔
      lexFrom .blank (entity.relations.flatMap (writeRelation schema)) = some (.blank, []) := by
  rw [← skip_eq_some, Commented, commentNames, List.flatMap_map,
    skip_flatMap_congr (skip_writeRelation schema)]

private theorem comments_end (schema : Schema) (rels : List RelationDef) :
    rels.flatMap (writeRelation schema) = [] ∨
      ∃ s, rels.flatMap (writeRelation schema) = s ++ lit "\n" := by
  induction rels with
  | nil => exact .inl rfl
  | cons rel rels ih =>
    refine .inr ?_
    have htext : lit " — not a table field, see docs/BACKLOG.md\n" =
        lit " — not a table field, see docs/BACKLOG.md" ++ lit "\n" := by decide +kernel
    rw [List.flatMap_cons]
    rcases ih with hnil | ⟨s, hs⟩
    · rw [hnil, List.append_nil, writeRelation, htext, ← List.append_assoc]
      exact ⟨_, rfl⟩
    · rw [hs, ← List.append_assoc]
      exact ⟨_, rfl⟩

/-! ### Tables -/

/-- The names of an entity can be told in a schema: it and its properties are called by
identifiers, and the comments of its relations hold their names. -/
structure EntityDef.NamesTold (schema : Schema) (entity : EntityDef) : Prop where
  name : isIdentifier entity.name = true
  properties : ∀ p ∈ entity.properties, isIdentifier p.name = true
  relations : Commented (commentNames schema entity)

section

variable {schema : Schema} {entity : EntityDef}

private theorem mem_of_lookup_byId {id : Int} {p : PropertyDef}
    (h : Members.lookup (byId entity) id = some p) : p ∈ entity.properties := by
  rcases Members.mem_or_lookup_of_insertAll h with hm | hnil
  · obtain ⟨q, hq, heq⟩ := List.mem_map.mp hm
    cases heq
    exact hq
  · cases hnil.2

private theorem lexFrom_fbsFields (hp : ∀ p ∈ entity.properties, isIdentifier p.name = true) :
    lexFrom .blank ((fbsFields entity).flatMap FbsField.text) =
      some (.blank, ((fbsFields entity).map FbsField.decl).flatMap FieldDecl.tokens) := by
  rw [List.flatMap_map]
  apply lexFrom_flatMap
  intro f hf
  obtain ⟨id, hid, rfl⟩ := List.mem_map.mp hf
  cases hl : Members.lookup (byId entity) id with
  | none =>
    obtain ⟨i, -, rfl⟩ := List.mem_map.mp hid
    exact lexFrom_field (f := placeholder _) (isIdentifier_reserved (by omega)) rfl rfl
  | some p =>
    exact lexFrom_field (hp p (mem_of_lookup_byId hl)) (isIdentifier_fbsTypeName _ _)
      (skip_fbsField_comment p)

private theorem lexFrom_head (hname : isIdentifier entity.name = true)
    (hp : ∀ p ∈ entity.properties, isIdentifier p.name = true) :
    lexFrom .blank (lit "table " ++ entity.name ++ lit " \x7b\n" ++
        (fbsFields entity).flatMap FbsField.text) =
      some (.blank, [.ident (lit "table"), .ident entity.name, .openBrace] ++
        ((fbsFields entity).map FbsField.decl).flatMap FieldDecl.tokens) := by
  have htable : lexFrom .blank (lit "table ") = some (.blank, [.ident (lit "table")]) := by decide
  have hbrace : lexFrom (.ident entity.name) (lit " \x7b\n") =
      some (.blank, [.ident entity.name, .openBrace]) := rfl
  exact lexFrom_append (lexFrom_append (lexFrom_append htable (lexFrom_identifier hname)) hbrace)
    (lexFrom_fbsFields hp)

end

/-- The table of an entity. -/
def EntityDef.tableDecl (entity : EntityDef) : TableDecl :=
  ⟨entity.name, (fbsFields entity).map FbsField.decl⟩

section

variable {schema : Schema} {entity : EntityDef}

/-- A table whose names can be told is read as the entity's. -/
theorem lexFrom_writeTable (h : entity.NamesTold schema) :
    lexFrom .blank (writeTable schema entity) = some (.blank, entity.tableDecl.tokens) := by
  have hend : lexFrom .blank (lit "\x7d\n\n") = some (.blank, [.closeBrace]) := by decide
  have hall := lexFrom_append (lexFrom_append (lexFrom_head h.name h.properties)
    ((commented_iff schema entity).mp h.relations)) hend
  rw [writeTable_eq, tableText, hall]
  simp only [List.append_nil]
  rfl

private theorem comments_mode {mode : Mode} {ts : List Token}
    (h : lexFrom .blank (entity.relations.flatMap (writeRelation schema)) = some (mode, ts)) :
    mode = .blank ∨ mode = .block := by
  rcases comments_end schema entity.relations with hnil | ⟨s, hs⟩
  · rw [hnil] at h
    cases h
    exact .inl rfl
  · rw [hs] at h
    obtain ⟨mode', ts', us, -, hline, -⟩ := lexFrom_append_eq_some h
    cases mode' <;> cases hline <;> simp

private theorem commented_of_declares (hname : isIdentifier entity.name = true)
    (hp : ∀ p ∈ entity.properties, isIdentifier p.name = true) {t : TableDecl}
    (h : Declares (writeTable schema entity) [t])
    (hlen : ((fbsFields entity).map FbsField.decl).length = t.fields.length) :
    Commented (commentNames schema entity) := by
  -- A token outside the comments would make one field more.
  rw [Declares, writeTable_eq, tableText, lex, Option.bind_eq_bind, Option.bind_eq_some_iff] at h
  obtain ⟨⟨mode, ts⟩, hlex, hfinal⟩ := h
  obtain ⟨mode', vs, us, hpre, hend, rfl⟩ := lexFrom_append_eq_some hlex
  obtain ⟨mode'', hs, cs, hhead, hcomments, rfl⟩ := lexFrom_append_eq_some hpre
  rw [lexFrom_head hname hp] at hhead
  cases hhead
  rcases comments_mode hcomments with rfl | rfl
  · cases hend
    have htokens : entity.name = t.name ∧
        ((fbsFields entity).map FbsField.decl).flatMap FieldDecl.tokens ++ cs =
          t.fields.flatMap FieldDecl.tokens ++ [] := by
      simpa [TableDecl.tokens, ← List.append_assoc] using hfinal
    obtain ⟨-, rfl⟩ := fields_tokens_cancel hlen htokens.2
    exact (commented_iff schema entity).mpr hcomments
  -- A block comment would go on to the end.
  · cases hend
    cases hfinal

end

private theorem TableMatches.length_eq {entity : EntityDef} {fs gs : List FieldDecl}
    (hf : TableMatches entity fs) (hg : TableMatches entity gs) : fs.length = gs.length := by
  obtain ⟨hfle, hfmem⟩ := hf.length
  obtain ⟨hgle, hgmem⟩ := hg.length
  have hle : fs.length ≤ gs.length := by
    rcases hfmem with h0 | ⟨p, hp, hid⟩
    · omega
    · have := hgle p hp
      omega
  have hge : gs.length ≤ fs.length := by
    rcases hgmem with h0 | ⟨p, hp, hid⟩
    · omega
    · have := hfle p hp
      omega
  omega

/-- The text declares one table for each entity, in the order of the ids: the one that the
entity's own text declares, under the entity's name and with fields that match it. -/
def SchemaMatches (schema : Schema) (text : Bytes) : Prop :=
  ∃ tables, Declares text tables ∧ List.Forall₂ (fun e t ↦ Declares (writeTable schema e) [t] ∧
    t.name = e.name ∧ TableMatches e t.fields) schema.all tables

/-- For an accepted model with distinct property ids from 1 to 32766, the generated schema, as it
is read, describes the layout the decoder reads exactly when every name can be told in it. -/
theorem generateFbs_matches_iff (nl : Nlohmann) (modelJson : Bytes) (schema : Schema)
    (h : Schema.parse nl modelJson = .ok schema)
    (hd : ∀ e ∈ schema.entities, (e.properties.map PropertyDef.id).Nodup)
    (hr : ∀ e ∈ schema.entities, ∀ p ∈ e.properties, 1 ≤ p.id ∧ p.id ≤ 32766) :
    (∃ text, generateFbs nl modelJson = .ok text ∧ SchemaMatches schema text) ↔
      ∀ e ∈ schema.entities, e.NamesTold schema := by
  constructor
  · rintro ⟨text, -, tables, -, htables⟩ e he
    obtain ⟨t, -, ⟨hdecl, hname, hmatch⟩, -⟩ :=
      exists_and_of_forall₂ htables htables (Schema.mem_all_iff.mpr he)
    obtain ⟨hident, hfields⟩ := hdecl.identifiers List.mem_cons_self
    have hp : ∀ p ∈ e.properties, isIdentifier p.name = true := by
      intro p hp
      obtain ⟨f, hf, hfp⟩ := hmatch.position p hp
      rw [← hfp.name]
      exact hfields f (List.mem_of_getElem? hf)
    rw [hname] at hident
    have hlen := (tableMatches_fbsFields (hd e he) (hr e he)).length_eq hmatch
    exact ⟨hident, hp, commented_of_declares hident hp hdecl hlen⟩
  · intro hnames
    have hall : ∀ e ∈ schema.all, e.NamesTold schema :=
      fun e he ↦ hnames e (Schema.mem_all_iff.mp he)
    have hheader : lexFrom .blank fbsHeader = some (.blank, []) := by decide +kernel
    refine ⟨fbsHeader ++ schema.all.flatMap (writeTable schema), by rw [generateFbs, h]; rfl,
      schema.all.map EntityDef.tableDecl, ?_, ?_⟩
    · rw [Declares, List.flatMap_map]
      exact lex_of_lexFrom (lexFrom_append hheader
        (lexFrom_flatMap fun e he ↦ lexFrom_writeTable (hall e he)))
    · apply List.forall₂_map_right_iff.mpr
      apply List.forall₂_same.mpr
      intro e he
      have hmem := Schema.mem_all_iff.mp he
      refine ⟨?_, rfl, tableMatches_fbsFields (hd e hmem) (hr e hmem)⟩
      rw [Declares, List.flatMap_singleton]
      exact lex_of_lexFrom (lexFrom_writeTable (hall e he))

/-- A model with a retired id and a relation. -/
private def linkModel : Bytes :=
  lit "\x7b\"entities\":[\x7b\"id\":\"1:5\",\"name\":\"Note\",\"properties\":[" ++
    lit "\x7b\"id\":\"2:6\",\"name\":\"text\",\"type\":9\x7d]," ++
    lit "\"relations\":[\x7b\"id\":\"1:7\",\"name\":\"links to\",\"targetId\":\"1:5\"\x7d]\x7d]\x7d"

private def linkEntity : EntityDef :=
  ⟨1, lit "Note", [⟨2, lit "text", .string, false, 0⟩], [⟨1, lit "links to", 1⟩]⟩

private theorem linkModel_entities :
    (Schema.parse .reference linkModel).map Schema.entities = .ok [linkEntity] := by
  decide +kernel

/-- The generated schema of that model. -/
theorem generateFbs_matches_iff_sample : ∃ schema text,
    Schema.parse .reference linkModel = .ok schema ∧
      generateFbs .reference linkModel = .ok text ∧ SchemaMatches schema text := by
  obtain ⟨⟨_, hd⟩, hparse, rfl⟩ := Schema.parse_of_entities linkModel_entities
  have hpairs : commentNames ⟨[linkEntity], hd⟩ linkEntity = [(lit "links to", lit "Note")] := rfl
  have hnames : linkEntity.NamesTold ⟨[linkEntity], hd⟩ := by
    refine ⟨by decide, List.forall_mem_singleton.mpr (by decide), ?_⟩
    rw [hpairs]
    exact commented_of_line (by decide +kernel)
  obtain ⟨text, htext, hmatch⟩ := (generateFbs_matches_iff .reference linkModel _ hparse
    (List.forall_mem_singleton.mpr (by decide)) (List.forall_mem_singleton.mpr (by decide))).mpr
    (List.forall_mem_singleton.mpr hnames)
  exact ⟨_, text, hparse, htext, hmatch⟩

/-! ### A name that is no identifier -/

/-- A model with one property, whose name goes on behind a line break. -/
private def splitModel : Bytes :=
  lit "\x7b\"entities\":[\x7b\"id\":\"1:5\",\"name\":\"Plant\",\"properties\":[" ++
    lit "\x7b\"id\":\"1:6\",\"name\":\"a:int;\\n  b\",\"type\":5\x7d]\x7d]\x7d"

private def splitEntity : EntityDef :=
  ⟨1, lit "Plant", [⟨1, lit "a:int;\n  b", .int, false, 0⟩], []⟩

private theorem splitModel_entities :
    (Schema.parse .reference splitModel).map Schema.entities = .ok [splitEntity] := by
  decide +kernel

/-- The one property is written as two fields. -/
theorem generateFbs_splits_property : ∃ schema text,
    Schema.parse .reference splitModel = .ok schema ∧ schema.entities = [splitEntity] ∧
      (splitEntity.properties.map PropertyDef.id).Nodup ∧
      (∀ p ∈ splitEntity.properties, 1 ≤ p.id ∧ p.id ≤ 32766) ∧
      generateFbs .reference splitModel = .ok text ∧
      Declares text [⟨lit "Plant", [⟨lit "a", false, lit "int", false⟩,
        ⟨lit "b", false, lit "int", false⟩]⟩] ∧
      ¬ SchemaMatches schema text := by
  obtain ⟨⟨_, hd⟩, hparse, rfl⟩ := Schema.parse_of_entities splitModel_entities
  have hdecl : Declares (fbsHeader ++ writeTable ⟨[splitEntity], hd⟩ splitEntity)
      [⟨lit "Plant", [⟨lit "a", false, lit "int", false⟩,
        ⟨lit "b", false, lit "int", false⟩]⟩] := by
    have htable : writeTable ⟨[splitEntity], hd⟩ splitEntity =
        lit "table Plant \x7b\n  a:int;\n  b:int;\n\x7d\n\n" := rfl
    rw [htable]
    decide +kernel
  have htext : generateFbs .reference splitModel =
      .ok (fbsHeader ++ writeTable ⟨[splitEntity], hd⟩ splitEntity) := by
    have hall : Schema.all ⟨[splitEntity], hd⟩ = [splitEntity] := List.mergeSort_singleton _
    rw [generateFbs, hparse, ok_bind, hall, List.flatMap_singleton]
    rfl
  refine ⟨_, _, hparse, rfl, by decide, by decide, htext, hdecl, ?_⟩
  rintro ⟨tables, htables, hmatches⟩
  rw [htables.unique hdecl] at hmatches
  obtain ⟨e, he, -, -, hmatch⟩ := exists_of_forall₂ hmatches List.mem_cons_self
  rw [List.mem_singleton.mp (Schema.mem_all_iff.mp he)] at hmatch
  -- There are two fields, and the largest id is 1.
  rcases hmatch.length.2 with h0 | ⟨p, hp, hid⟩
  · cases h0
  · rw [List.mem_singleton.mp hp] at hid
    exact absurd hid (by decide)

end ObDump
