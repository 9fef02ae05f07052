import NodeFactory.Proofs.LayoutFreeTypes

/-!
# Parsing passes over the layout

Statements are read alike from lexemes that are alike. So what is read from a text depends on the
kinds and texts of its lexemes, on which brackets begin a line and on which angle brackets stand
together, and on nothing else of its layout (`parse_passes_over_layout`).
-/

namespace NodeFactory

open Parse

section Statements

variable {m m' : Relocation}

theorem heritageType_respects : Respects m m' true true (Same m m') heritageType heritageType := by
  unfold heritageType
  refine .cursor fun c c' hc => entityName_respects.bind fun name name' hname => ?_
  refine (typeArgs_respects typeExpr_respects).bind fun args args' hargs => ?_
  refine .placed hc.start fun span span' hspan => ?_
  simp_all [Same]

theorem heritageWord?_respects : Respects m m' true true Eq heritageWord? heritageWord? := by
  unfold heritageWord?
  exact .eat (.pure rfl) (.eat (.pure rfl) (.pure rfl))

theorem heritage_respects : Respects m m' true true (Same m m') heritage heritage := by
  unfold heritage
  refine repeatFrom_respects (S := Same m m') ?_ .nil
  intro clauses clauses' hclauses
  refine .cursor fun c c' hc => heritageWord?_respects.bind fun word word' hword => ?_
  subst hword
  split
  · refine (separated_respects heritageType_respects).bind fun types types' htypes => ?_
    refine .placed hc.start fun span span' hspan => .inl ?_
    refine hclauses.concat ?_
    simp_all [Same]
  · exact .pure (.inr hclauses)

theorem interfaceDecl_respects :
    Respects m m' true true (Same m m') interfaceDecl interfaceDecl := by
  unfold interfaceDecl
  refine (expect_respects _).seq fun _ _ _ => ident_respects.bind fun name name' hname => ?_
  refine (typeParams_respects typeExpr_respects).bind fun params params' hparams => ?_
  refine heritage_respects.bind fun heritage heritage' hheritage => ?_
  refine (members_respects typeExpr_respects).bind fun members members' hmembers => .pure ?_
  simp_all [Same]

theorem aliasDecl_respects : Respects m m' true true (Same m m') aliasDecl aliasDecl := by
  unfold aliasDecl
  refine (expect_respects _).seq fun _ _ _ => ident_respects.bind fun name name' hname => ?_
  refine (typeParams_respects typeExpr_respects).bind fun params params' hparams => ?_
  refine (expect_respects _).seq fun _ _ _ => typeExpr_respects.bind fun type type' htype => ?_
  refine (eat_respects _).discard.bind fun _ _ _ => .pure ?_
  simp_all [Same]

theorem enumMember_respects : Respects m m' true true (Same m m') enumMember enumMember := by
  unfold enumMember
  refine .cursor fun c c' hc => propertyName_respects.bind fun name name' hname => ?_
  refine constExpr_respects.optional _ fun value value' hvalue => .placed hc.start fun span span' hspan => ?_
  have hcomments := hc.comments
  simp_all [Same]

theorem enumStep_respects {members members' : List EnumMember} (hmembers : Same m m' members members') :
    Respects m m' true true (Sum.LiftRel (Same m m') (Same m m')) (enumStep members) (enumStep members') := by
  refine .eat (.pure (.inr hmembers)) (enumMember_respects.bind fun _ _ hmember => ?_)
  have hmore := hmembers.concat hmember
  exact .eat (.pure (.inl hmore)) ((expect_respects _).bind fun _ _ _ => .pure (.inr hmore))

theorem enumDecl_respects (isConst : Bool) :
    Respects m m' true true (Same m m') (enumDecl isConst) (enumDecl isConst) := by
  rw [enumDecl_eq]
  refine (expect_respects _).seq fun _ _ _ => ident_respects.bind fun name name' hname => ?_
  refine (expect_respects _).seq fun _ _ _ => ?_
  refine (repeatFrom_respects (fun _ _ => enumStep_respects) .nil).bind fun members members' hmembers => ?_
  refine .pure ?_
  simp_all [Same]

theorem modifiers_respects : Respects m m' true true Eq modifiers modifiers := by
  unfold modifiers
  refine repeatFrom_respects (S := Eq) ?_ rfl
  rintro isConst _ rfl
  refine .cursor fun c c' hc => ?_
  simp only [hc.kind, hc.kindAt]
  split
  · exact next_respects.seq fun _ _ _ => .pure (.inl rfl)
  · exact next_respects.seq fun _ _ _ => .pure (.inl rfl)
  · exact next_respects.seq fun _ _ _ => .pure (.inl rfl)
  · exact next_respects.seq fun _ _ _ => .pure (.inl rfl)
  · exact .ite (fun _ => next_respects.seq fun _ _ _ => .pure (.inl rfl)) fun _ => .pure (.inr rfl)
  · exact .pure (.inr rfl)

/-- Declarations are given as functions of where they stand. -/
def SameAt (m m' : Relocation) (make make' : Placement → Statement) : Prop :=
  ∀ place place', Same m m' place place' → Same m m' (make place) (make' place')

variable {body body' : Parse (List Statement)}
  (hbody : Respects m m' true true (Same m m') body body')
include hbody

theorem namespaceDecl_respects :
    Respects m m' true true (SameAt m m') (namespaceDecl body) (namespaceDecl body') := by
  refine next_respects.seq fun _ _ _ => entityName_respects.bind fun name name' hname => ?_
  refine (expect_respects _).seq fun _ _ _ => hbody.bind fun body body' hbody => ?_
  refine .pure fun place place' hplace => ?_
  simp_all [Same]

theorem declaration_respects (isConst : Bool) :
    Respects m m' true true (SameAt m m') (declaration body isConst) (declaration body' isConst) := by
  have hskipped : Respects m m' true true (SameAt m m') declaration.skipped declaration.skipped := by
    refine skipBalanced_respects.bind fun _ _ _ => .pure fun place place' hplace => ?_
    simp_all [Same]
  unfold declaration
  refine .cursor fun c c' hc => ?_
  simp only [hc.kind, hc.kindAt]
  refine .ite (fun _ => hskipped) fun _ => ?_
  split
  · exact namespaceDecl_respects hbody
  · exact namespaceDecl_respects hbody
  · refine interfaceDecl_respects.bind fun decl decl' hdecl => .pure fun place place' hplace => ?_
    simp_all [Same]
  · refine aliasDecl_respects.bind fun decl decl' hdecl => .pure fun place place' hplace => ?_
    simp_all [Same]
  · refine (enumDecl_respects isConst).bind fun decl decl' hdecl =>
      .pure fun place place' hplace => ?_
    simp_all [Same]
  · exact hskipped

theorem statement?_respects :
    Respects m m' true true (Same m m') (statement? body) (statement? body') := by
  unfold statement?
  refine .cursor fun c c' hc => ?_
  refine .eat (.pure .none) ?_
  simp only [hc.kind, Bool.false_eq_true, if_false]
  refine .ite (fun _ => (unexpected_respects (R := fun _ _ => False)).bind fun _ _ h => h.elim)
    fun _ => ?_
  refine modifiers_respects.bind fun isConst isConst' hisConst => ?_
  subst hisConst
  refine (declaration_respects hbody isConst).bind fun make make' hmake => ?_
  refine .placed hc.start fun span span' hspan => Same.some ?_
  have hplace : Same m m' (⟨span, c.comments⟩ : Placement) ⟨span', c'.comments⟩ := by
    have hcomments := hc.comments
    simp_all [Same]
  exact hmake _ _ hplace

end Statements

section Whole

variable {m m' : Relocation}

theorem statementsUntil_respects (closing : TokenKind) :
    Respects m m' true true (Same m m') (statementsUntil closing) (statementsUntil closing) := by
  unfold statementsUntil
  refine fix_respects (I := Eq) ?_ rfl
  rintro call call' hcall closing _ rfl
  refine repeatFrom_respects (S := Same m m') ?_ .nil
  intro statements statements' hstatements
  refine .eat (.pure (.inr hstatements)) (.isAt fun _ => .ite (fun _ => ?_) fun _ => ?_)
  · refine .cursor fun c c' hc => (report_respects hc.unexpected).bind fun _ _ _ => ?_
    exact .pure (.inr hstatements)
  · refine .attempt (statement?_respects (hcall _ _ rfl)) (fun statement statement' hstatement => ?_)
      fun _ _ herror => ?_
    · refine .pure (.inl ?_)
      cases statement <;> cases statement' <;> simp_all [Same]
    · refine (report_respects herror).bind fun _ _ _ => (recover_respects _).bind fun _ _ _ => ?_
      exact .pure (.inl hstatements)

end Whole

section Texts

/-- The lexemes of a text. -/
def lexemesOf (text : List Char) : List Lexeme := Lexeme.ofTokens (Token.tokenize text)

/-- A text has no malformed pieces. -/
def HasNoMalformed (text : List Char) : Prop :=
  ∀ token ∈ Token.tokenize text, token.kind.isMalformed = false

/-- For each lexeme, whether it is an angle bracket that is continued by the next. -/
def joints : List Lexeme → List Bool
  | [] => []
  | lexeme :: lexemes => lexeme.joins lexemes :: joints lexemes

/-- Two texts have the same lexemes, and their layouts agree where it matters: in which brackets
begin a line, and in which angle brackets stand together. -/
structure DifferInLayout (text text' : List Char) : Prop where
  kinds : (lexemesOf text).map Lexeme.kind = (lexemesOf text').map Lexeme.kind
  texts : (lexemesOf text).map Lexeme.text = (lexemesOf text').map Lexeme.text
  brackets : (lexemesOf text).map (fun lexeme => lexeme.kind == .openBracket && lexeme.startsLine)
    = (lexemesOf text').map fun lexeme => lexeme.kind == .openBracket && lexeme.startsLine
  angles : joints (lexemesOf text) = joints (lexemesOf text')

theorem agree_of_maps : ∀ {lexemes lexemes' : List Lexeme},
    lexemes.map Lexeme.kind = lexemes'.map Lexeme.kind →
    lexemes.map Lexeme.text = lexemes'.map Lexeme.text →
    lexemes.map (fun lexeme => lexeme.kind == .openBracket && lexeme.startsLine)
      = lexemes'.map (fun lexeme => lexeme.kind == .openBracket && lexeme.startsLine) →
    joints lexemes = joints lexemes' →
      Agree .erasing .erasing true lexemes lexemes'
  | [], [], _, _, _, _ => .nil
  | [], _ :: _, h, _, _, _ => by simp at h
  | _ :: _, [], h, _, _, _ => by simp at h
  | lexeme :: lexemes, lexeme' :: lexemes', hkinds, htexts, hbrackets, hangles => by
    simp only [List.map_cons, List.cons.injEq, joints] at hkinds htexts hbrackets hangles
    refine .cons ⟨hkinds.1, htexts.1, rfl, fun _ => rfl, fun _ hkind => ?_⟩ hangles.1
      (agree_of_maps hkinds.2 htexts.2 hbrackets.2 hangles.2)
    simpa [← hkinds.1, hkind] using hbrackets.1

theorem HasNoMalformed.errors {text : List Char} (h : HasNoMalformed text) :
    (Token.tokenize text).filterMap ParseError.ofToken? = [] := by
  rw [List.filterMap_eq_nil_iff]
  intro token hmem
  have hkind := h token hmem
  unfold ParseError.ofToken?
  split <;> simp_all [TokenKind.isMalformed]

/-- What is read from a text without malformed pieces, and the errors that are found in it, depend
on its layout in nothing but their positions and the comments. -/
theorem parse_passes_over_layout {text text' : List Char} (h : HasNoMalformed text)
    (h' : HasNoMalformed text') (hlayout : DifferInLayout text text') :
    (Schema.parse text).statements.map (relocate .erasing)
        = (Schema.parse text').statements.map (relocate .erasing)
      ∧ (Schema.parse text).errors.map (relocate .erasing)
        = (Schema.parse text').errors.map (relocate .erasing) := by
  have hstart : Alike .erasing .erasing true (Cursor.ofTokens (Token.tokenize text))
      (Cursor.ofTokens (Token.tokenize text')) := by
    refine ⟨?_, fun _ => rfl, rfl, ?_⟩
    · exact agree_of_maps hlayout.kinds hlayout.texts hlayout.brackets hlayout.angles
    · unfold Cursor.ofTokens
      rw [h.errors, h'.errors]
      exact .nil
  have hrun := statementsUntil_respects .endOfFile _ _ hstart
  unfold Schema.parse
  generalize statementsUntil .endOfFile (Cursor.ofTokens (Token.tokenize text)) = result at hrun ⊢
  generalize statementsUntil .endOfFile (Cursor.ofTokens (Token.tokenize text')) = result' at hrun ⊢
  cases hrun with
  | ok hstatements hend => exact ⟨hstatements, hend.errors⟩
  | error herror hend => exact ⟨rfl, hend.errors.concat herror⟩

/-- An interface and an enum, on one line. -/
def onOneLine : List Char :=
  "interface A{x:B<C[]>} enum E{F=8>>1}".toList

/-- The same with comments and on several lines. -/
def onSeveralLines : List Char :=
  "// A
interface A {
  /* x */ x: B<C[ ]>
}

enum E {
  F = 8 >> 1 // half
}".toList

theorem parse_passes_over_lines :
    HasNoMalformed onOneLine ∧ HasNoMalformed onSeveralLines
      ∧ DifferInLayout onOneLine onSeveralLines
      ∧ (Schema.parse onOneLine).statements.map (relocate .erasing)
        = (Schema.parse onSeveralLines).statements.map (relocate .erasing)
      ∧ (Schema.parse onOneLine).errors.map (relocate .erasing)
        = (Schema.parse onSeveralLines).errors.map (relocate .erasing) := by
  have h : HasNoMalformed onOneLine := by
    unfold HasNoMalformed
    decide +kernel
  have h' : HasNoMalformed onSeveralLines := by
    unfold HasNoMalformed
    decide +kernel
  have hlayout : DifferInLayout onOneLine onSeveralLines := by
    constructor <;> decide +kernel
  exact ⟨h, h', hlayout, parse_passes_over_layout h h' hlayout⟩

end Texts

end NodeFactory
