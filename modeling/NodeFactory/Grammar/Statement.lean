import NodeFactory.Grammar.TypeExpr
import NodeFactory.Schema.Statement

/-!
# Reading statements

A statement is a declaration, or a run of lexemes that is skipped. An error in a statement is
reported, and reading goes on after the statement.
-/

namespace NodeFactory

namespace Parse

def heritageType : Parse HeritageType := do
  let start := (← cursor).start
  let name ← entityName
  let args ← typeArgs typeExpr
  return ⟨name, args, ← spanFrom start⟩

def heritageWord? : Parse (Option HeritageWord) := do
  if ← eat (.keyword .extendsKw) then return some .extending
  else if ← eat (.keyword .implementsKw) then return some .implementing
  else return none

def heritage : Parse (List HeritageClause) :=
  repeatFrom (fun clauses => do
    let start := (← cursor).start
    match ← heritageWord? with
    | some word =>
      let types ← separated heritageType
      return .inl (clauses ++ [⟨word, types, ← spanFrom start⟩])
    | none => return .inr clauses) []

def interfaceDecl : Parse Interface := do
  expect (.keyword .interfaceKw)
  let name ← ident
  let typeParams ← typeParams typeExpr
  let heritage ← heritage
  let members ← members typeExpr
  return { name, typeParams, heritage, members }

def aliasDecl : Parse TypeAlias := do
  expect (.keyword .typeKw)
  let name ← ident
  let typeParams ← typeParams typeExpr
  expect .assign
  let type ← typeExpr
  discard (eat .semicolon)
  return { name, typeParams, type }

def enumMember : Parse EnumMember := do
  let here ← cursor
  let name ← propertyName
  let value ← if ← eat .assign then some <$> constExpr else pure none
  return { name, value, span := ← spanFrom here.start, comments := here.comments }

def enumDecl (isConst : Bool) : Parse Enum := do
  expect (.keyword .enumKw)
  let name ← ident
  expect .openBrace
  let members ← repeatFrom (fun members => do
    if ← eat .closeBrace then return .inr members
    let members := members ++ [← enumMember]
    if ← eat .comma then return .inl members
    expect .closeBrace
    return .inr members) []
  return { name, isConst, members }

/-- Passes over the modifiers of a declaration and tells whether it is a constant enum. -/
def modifiers : Parse Bool :=
  repeatFrom (fun isConst => do
    let here ← cursor
    match here.kind with
    | .keyword .exportKw | .keyword .declareKw | .keyword .defaultKw | .keyword .abstractKw =>
      next
      return .inl isConst
    | .keyword .constKw =>
      if here.kindAt 1 == .keyword .enumKw then
        next
        return .inl true
      else return .inr isConst
    | _ => return .inr isConst) false

/-- The declaration that is next, given the action for the statements of a namespace. A word that
begins a declaration does so only before a name. -/
def declaration (body : Parse (List Statement)) (isConst : Bool) :
    Parse (Placement → Statement) := do
  let here ← cursor
  if !(here.kindAt 1).isName then skipped
  else
    match here.kind with
    | .keyword .namespaceKw | .keyword .moduleKw =>
      next
      let name ← entityName
      expect .openBrace
      let body ← body
      return fun place => .namespaceDecl place name body
    | .keyword .interfaceKw =>
      let decl ← interfaceDecl
      return fun place => .interfaceDecl place decl
    | .keyword .typeKw =>
      let decl ← aliasDecl
      return fun place => .aliasDecl place decl
    | .keyword .enumKw =>
      let decl ← enumDecl isConst
      return fun place => .enumDecl place decl
    | _ => skipped
where
  skipped : Parse (Placement → Statement) := do
    skipBalanced
    return .skipped

/-- One statement; a semicolon alone is none. -/
def statement? (body : Parse (List Statement)) : Parse (Option Statement) := do
  let here ← cursor
  if ← eat .semicolon then return none
  if here.kind.isClose then unexpected
  let isConst ← modifiers
  let make ← declaration body isConst
  return some (make ⟨← spanFrom here.start, here.comments⟩)

/-- The statements up to and with a closing lexeme. If the text ends before, that is reported and
the statements read so far are kept. -/
def statementsUntil : TokenKind → Parse (List Statement) :=
  fix fun statementsUntil closing =>
    repeatFrom (fun statements => do
      if ← eat closing then return .inr statements
      if ← isAt .endOfFile then
        report (← cursor).unexpected
        return .inr statements
      match ← outcome (statement? (statementsUntil .closeBrace)) with
      | .ok statement => return .inl (statements ++ statement.toList)
      | .error error =>
        report error
        recover closing
        return .inl statements) []

end Parse

/-- A text with the statements read from it and the errors found in it. -/
structure Schema where
  text : List Char
  statements : List Statement
  errors : List ParseError

/-- Reads a text. Whatever the errors, all statements that can be read are kept. -/
def Schema.parse (text : List Char) : Schema :=
  match Parse.statementsUntil .endOfFile (Cursor.ofTokens (Token.tokenize text)) with
  | .ok statements cursor => ⟨text, statements, cursor.errors⟩
  | .error error cursor => ⟨text, [], cursor.errors ++ [error]⟩

end NodeFactory
