import NodeFactory.Proofs.Overlooking
import NodeFactory.Proofs.ReadingOn

/-!
# Statements that overlook an insertion

Behind a mark lexemes that nest are put in. The statements before it are read as they are without them, with
the errors that are reported in them and what is skipped after these (`statementStep_overlooks`); so is the head
of a declaration in whose body the mark stands (`interfaceHead_overlooks`, `namespaceHead_overlooks`).
-/

namespace NodeFactory

open Parse

section Heads

variable {i : Insertion}

theorem heritageType_overlooks : Overlooks i heritageType heritageType := by
  unfold heritageType
  refine .here fun c c' hc => entityName_overlooks.bind fun name => ?_
  exact (typeArgs_overlooks typeExpr_overlooks).bind fun args => placed_overlooks _ hc.start

theorem heritageWord?_overlooks : Overlooks i heritageWord? heritageWord? := by
  unfold heritageWord?
  refine .eat fun _ => .ite (fun _ => .pure _) fun _ => ?_
  exact .eat fun _ => .ite (fun _ => .pure _) fun _ => .pure _

theorem heritage_overlooks : Overlooks i heritage heritage := by
  unfold heritage
  refine repeatFrom_overlooks (fun clauses => .here fun c c' hc => ?_) []
  refine heritageWord?_overlooks.bind fun word => ?_
  cases word with
  | none => exact .pure _
  | some word =>
    exact (separated_overlooks heritageType_overlooks).bind fun types => placed_overlooks _ hc.start

theorem interfaceHead_overlooks : Overlooks i interfaceHead interfaceHead := by
  unfold interfaceHead
  refine (expect_overlooks _).bind fun _ => ident_overlooks.bind fun name => ?_
  refine (typeParams_overlooks typeExpr_overlooks).bind fun params => ?_
  exact heritage_overlooks.bind fun heritage => .pure _

/-- A namespace up to the brace before its statements, that brace included. -/
def namespaceHead : Parse EntityName := do
  next
  let name ← entityName
  expect .openBrace
  return name

theorem namespaceHead_overlooks : Overlooks i namespaceHead namespaceHead := by
  unfold namespaceHead
  refine next_overlooks.bind fun _ => entityName_overlooks.bind fun name => ?_
  exact (expect_overlooks _).bind fun _ => .pure _

theorem modifiers_overlooks : Overlooks i modifiers modifiers := by
  unfold modifiers
  refine repeatFrom_overlooks (fun isConst => .here fun c c' hc => ?_) false
  have hnext : ∀ isConst, Overlooks i (do next; return .inl isConst : Parse (Bool ⊕ Bool))
      (do next; return .inl isConst) := fun isConst => next_overlooks.bind fun _ => .pure _
  simp only [hc.kind]
  split
  · exact hnext _
  · exact hnext _
  · exact hnext _
  · exact hnext _
  · rename_i hconst
    rw [hc.kindAt_one (by rw [hc.kind, hconst]; rfl)]
    exact .ite (fun _ => hnext _) fun _ => .pure _
  · exact .pure _

end Heads

section Declarations

variable {i : Insertion}

theorem interfaceDecl_overlooks : Overlooks i interfaceDecl interfaceDecl := by
  rw [interfaceDecl_eq]
  exact interfaceHead_overlooks.bind fun make => (members_overlooks typeExpr_overlooks).map

theorem aliasDecl_overlooks : Overlooks i aliasDecl aliasDecl := by
  unfold aliasDecl
  refine (expect_overlooks _).bind fun _ => ident_overlooks.bind fun name => ?_
  refine (typeParams_overlooks typeExpr_overlooks).bind fun params => (expect_overlooks _).bind fun _ => ?_
  exact typeExpr_overlooks.bind fun type => (eat_overlooks _).discard.bind fun _ => .pure _

theorem enumMember_overlooks : Overlooks i enumMember enumMember := by
  unfold enumMember
  refine .here fun c c' hc => propertyName_overlooks.bind fun name => ?_
  rw [hc.comments]
  exact constExpr_overlooks.optional _ fun value => placed_overlooks _ hc.start

theorem enumStep_overlooks (members : List EnumMember) : Overlooks i (enumStep members) (enumStep members) := by
  refine .eat fun _ => .ite (fun _ => .pure _) fun _ => enumMember_overlooks.bind fun member => ?_
  exact .eat fun _ => .ite (fun _ => .pure _) fun _ => (expect_overlooks _).bind fun _ => .pure _

theorem enumDecl_overlooks (isConst : Bool) : Overlooks i (enumDecl isConst) (enumDecl isConst) := by
  rw [enumDecl_eq]
  refine (expect_overlooks _).bind fun _ => ident_overlooks.bind fun name => (expect_overlooks _).bind fun _ => ?_
  exact (repeatFrom_overlooks enumStep_overlooks []).bind fun members => .pure _

variable {body body' : Parse (List Statement)} (hbody : Overlooks i body body')
include hbody

theorem namespaceDecl_overlooks : Overlooks i (namespaceDecl body) (namespaceDecl body') := by
  refine next_overlooks.bind fun _ => entityName_overlooks.bind fun name => ?_
  exact (expect_overlooks _).bind fun _ => hbody.bind fun _ => .pure _

theorem declaration_overlooks (isConst : Bool) :
    Overlooks i (declaration body isConst) (declaration body' isConst) := by
  have hskipped : Overlooks i declaration.skipped declaration.skipped := by
    unfold declaration.skipped
    exact skipBalanced_overlooks.bind fun _ => .pure _
  unfold declaration
  refine .here fun c c' hc => ?_
  cases hmark : c.kind.isMark with
  | true =>
    -- No declaration begins with a mark.
    rcases TokenKind.of_isMark hmark with h | h <;> simp only [← hc.kind, h, ite_self] <;> exact hskipped
  | false =>
    rw [hc.kindAt_one hmark, hc.kind]
    refine .ite (fun _ => hskipped) fun _ => ?_
    split
    · exact namespaceDecl_overlooks hbody
    · exact namespaceDecl_overlooks hbody
    · exact interfaceDecl_overlooks.bind fun _ => .pure _
    · exact aliasDecl_overlooks.bind fun _ => .pure _
    · exact (enumDecl_overlooks isConst).bind fun _ => .pure _
    · exact hskipped

theorem statement_overlooks : Overlooks i (statement? body) (statement? body') := by
  unfold statement?
  refine .here fun c c' hc => .eat fun _ => .ite (fun _ => .pure _) fun _ => ?_
  rw [hc.kind]
  refine .when (fun _ => unexpected_overlooks) ?_
  refine modifiers_overlooks.bind fun isConst => (declaration_overlooks hbody isConst).bind fun make => ?_
  rw [hc.comments]
  exact placed_overlooks _ hc.start

/-- A step over the statements up to a closing lexeme, with what is skipped after an error. -/
theorem statementStep_overlooks (closing : TokenKind) (statements : List Statement) :
    Overlooks i (statementStep body closing statements) (statementStep body' closing statements) := by
  unfold statementStep
  refine .eat fun _ => .ite (fun _ => .pure _) fun _ => .isAt fun _ => .ite (fun _ => ?_) fun _ => ?_
  · refine .here fun c c' hc => ?_
    rw [hc.unexpected]
    exact (report_overlooks _).bind fun _ => .pure _
  refine (statement_overlooks hbody).outcome.bind fun result => ?_
  cases result with
  | ok statement => exact .pure _
  | error error => exact (report_overlooks error).bind fun _ => (recover_overlooks _).bind fun _ => .pure _

omit hbody in
theorem statementsUntil_overlooks (closing : TokenKind) :
    Overlooks i (statementsUntil closing) (statementsUntil closing) := by
  unfold statementsUntil
  exact fix_overlooks (fun call call' hcall closing =>
    repeatFrom_overlooks (statementStep_overlooks (hcall .closeBrace) closing) []) closing

end Declarations

end NodeFactory
