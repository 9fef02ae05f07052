import NodeFactory.Grammar.Statement

/-!
# The parts of the grammar

A property of actions is shown of a production part by part. What a production goes on with after a lexeme that
may be missing is an action with a name here, and so is each step of a loop; the equations say that the
productions are made of these parts.
-/

namespace NodeFactory

open Parse

/-- An identifier of a name after the first. -/
def namePart (parts : List Ident) : Parse (List Ident ⊕ List Ident) := do
  if ← eat .dot then return .inl (parts ++ [← ident])
  else return .inr parts

theorem entityName_eq : entityName = (do
    let start := (← cursor).start
    let first ← ident
    let rest ← repeatFrom namePart []
    return ⟨first, rest, ← spanFrom start⟩) := rfl

section Types

/-- Passing over a word that says how a type parameter varies. -/
def varianceStep : Parse (Unit ⊕ Unit) := do
  if isVarianceWord (← cursor) then
    next
    return .inl ()
  else return .inr ()

/-- A type parameter from its name on. -/
def namedTypeParam (type : Parse TypeExpr) : Parse TypeParam := do
  let name ← ident
  let bound ← if ← eat (.keyword .extendsKw) then some <$> type else pure none
  let fallback ← if ← eat .assign then some <$> type else pure none
  return ⟨name, bound, fallback⟩

theorem typeParam_eq (type : Parse TypeExpr) : typeParam type = (do
    repeatFrom (fun _ => varianceStep) ()
    namedTypeParam type) := rfl

/-- A parameter whose name is next. -/
def namedParam (type : Parse TypeExpr) (rest : Bool) : Parse Param := do
  let name ← paramName
  let optional ← eat .question
  let type ← if ← eat .colon then some <$> type else pure none
  if ← eat .assign then discard constExpr
  return ⟨name, rest, optional, type⟩

theorem param_eq (type : Parse TypeExpr) : param type = (do
    let rest ← eat .ellipsis
    if (← isAt (.keyword .readonlyKw)) && ((← cursor).kindAt 1).isName then next
    namedParam type rest) := rfl

/-- What follows the brackets of an index signature or a mapped type. -/
def indexRest (type : Parse TypeExpr) : Parse MemberShape := do
  discard (eat .question)
  if ← eat .colon then discard type
  return .index

theorem indexMember_eq (type : Parse TypeExpr) : indexMember type = (do
    skipGroup .openBracket
    if (← isAt .openParen) || (← isAt .less) then
      discard (signature type)
      return .index
    else
      if (← isAt .plus) || (← isAt .minus) then next
      indexRest type) := rfl

/-- What follows the name of a member. -/
def memberAfterName (type : Parse TypeExpr) (name : Ident) (optional readonly : Bool) :
    Parse MemberShape := do
  if (← isAt .openParen) || (← isAt .less) then
    return .method name optional (← signature type)
  else
    let type ← if ← eat .colon then some <$> type else pure none
    return .property name optional readonly type

/-- A member whose name is next. -/
def memberFromName (type : Parse TypeExpr) (readonly : Bool) : Parse MemberShape := do
  let name ← propertyName
  let optional ← eat .question
  if !optional then discard (eat .exclamation)
  memberAfterName type name optional readonly

theorem namedMember_eq (type : Parse TypeExpr) : namedMember type = (do
    let here ← cursor
    let following := here.kindAt 1
    let readonly := here.kind == .keyword .readonlyKw &&
      (following.isName || following == .string || following == .number)
    if readonly then next
    memberFromName type readonly) := rfl

/-- One step of a list of members. -/
def memberStep (type : Parse TypeExpr) (members : List Member) :
    Parse (List Member ⊕ List Member) := do
  if ← eat .closeBrace then return .inr members
  if ← isAt .endOfFile then unexpected
  match ← Parse.outcome (member type) with
  | .ok member => return .inl (members ++ [member])
  | .error error =>
    report error
    recover .closeBrace
    return .inl members

theorem members_eq (type : Parse TypeExpr) :
    members type = (do expect .openBrace; repeatFrom (memberStep type) []) := rfl

/-- An element of a tuple without a label. -/
def unlabeledElement (type : Parse TypeExpr) : Parse TypeExpr := do
  let element ← type
  discard (eat .question)
  return element

theorem tupleElement_eq (type : Parse TypeExpr) : tupleElement type = (do
    discard (eat .ellipsis)
    let here ← cursor
    let isLabeled := here.kind.isName && (here.kindAt 1 == .colon ||
      (here.kindAt 1 == .question && here.kindAt 2 == .colon))
    if isLabeled then
      next
      discard (eat .question)
      expect .colon
    unlabeledElement type) := rfl

/-- A function type from its type parameters on. -/
def functionFrom (type : Parse TypeExpr) (isConstructor : Bool) (start : Nat) : Parse TypeExpr := do
  let typeParams ← typeParams type
  let params ← params type
  expect .fatArrow
  let returns ← returnType type
  return ⟨.function isConstructor ⟨typeParams, params, some returns⟩, ← spanFrom start⟩

/-- The arrow of a function type and what is behind it. -/
def arrowFrom (type : Parse TypeExpr) (isConstructor : Bool) (typeParams : List TypeParam)
    (params : List Param) (start : Nat) : Parse TypeExpr := do
  expect .fatArrow
  let returns ← returnType type
  return ⟨.function isConstructor ⟨typeParams, params, some returns⟩, ← spanFrom start⟩

theorem functionFrom_eq (type : Parse TypeExpr) (isConstructor : Bool) (start : Nat) :
    functionFrom type isConstructor start = (do
      let typeParams ← typeParams type
      let params ← params type
      arrowFrom type isConstructor typeParams params start) := rfl

theorem functionType_eq (type : Parse TypeExpr) (isConstructor : Bool) :
    functionType type isConstructor = (do
      let start := (← cursor).start
      if isConstructor then expect (.keyword .newKw)
      functionFrom type isConstructor start) := rfl

/-- The shape of a type without operators and suffixes, told by the lexeme that is next. -/
def primaryShape (type suffixed : Parse TypeExpr) (here : Cursor) : Parse TypeShape :=
  match here.kind with
  | .openParen => do
    next
    let inner ← type
    expect .closeParen
    return .paren inner
  | .openBrace => TypeShape.literal <$> members type
  | .openBracket => TypeShape.tuple <$> enclosed .openBracket (tupleElement type) .closeBracket
  | .string | .number | .template => do
    next
    return .literalValue
  | .minus =>
    if here.kindAt 1 == .number then do
      skip 2
      return .literalValue
    else primaryType.missing
  | .keyword .thisKw => do
    next
    return .this
  | .keyword .typeofKw => do
    next
    TypeShape.query <$> entityName
  | .keyword .keyofKw => do
    next
    TypeShape.keyof <$> suffixed
  | .keyword .readonlyKw => do
    next
    TypeExpr.shape <$> suffixed
  | .identifier => namedType type
  | _ => primaryType.missing

theorem primaryType_eq (type suffixed : Parse TypeExpr) : primaryType type suffixed = (do
    let here ← cursor
    let shape ← primaryShape type suffixed here
    return ⟨shape, ← spanFrom here.start⟩) := by
  unfold primaryType primaryShape
  refine congrArg (cursor >>= ·) (funext fun here => ?_)
  cases here.kind with
  | minus =>
    by_cases hnumber : (here.kindAt 1 == .number) = true
    · simp only [hnumber, if_true, bind_assoc, pure_bind]
    · simp only [hnumber, Bool.false_eq_true, if_false]
  | keyword word => cases word <;> simp only [bind_assoc, pure_bind]
  | _ => simp only [bind_assoc, pure_bind]

/-- Only behind a sign is the second lexeme looked at. -/
theorem primaryShape_congr {type suffixed : Parse TypeExpr} {c c' : Cursor} (hkind : c'.kind = c.kind)
    (hnext : c.kind = .minus → c'.kindAt 1 = c.kindAt 1) :
    primaryShape type suffixed c' = primaryShape type suffixed c := by
  unfold primaryShape
  rw [hkind]
  split
  case h_7 hminus => rw [hnext hminus]
  all_goals rfl

/-- Brackets behind a type, if they are on its line. -/
def suffixStep (type : Parse TypeExpr) (start : Nat) (object : TypeExpr) :
    Parse (TypeExpr ⊕ TypeExpr) := do
  let here ← cursor
  if here.kind == .openBracket && !here.startsLine then
    next
    let shape ←
      if ← eat .closeBracket then pure (.array object)
      else
        let index ← type
        expect .closeBracket
        pure (.indexed object index)
    return .inl ⟨shape, ← spanFrom start⟩
  else return .inr object

theorem suffixedType_eq (type suffixed : Parse TypeExpr) : suffixedType type suffixed = (do
    let start := (← cursor).start
    let primary ← primaryType type suffixed
    repeatFrom (suffixStep type start) primary) := rfl

/-- One more part behind an operator. -/
def operandStep (operator : TokenKind) (part : Parse TypeExpr) (parts : List TypeExpr) :
    Parse (List TypeExpr ⊕ List TypeExpr) := do
  if ← eat operator then return .inl (parts ++ [← part])
  else return .inr parts

theorem operands_eq (operator : TokenKind) (combine : List TypeExpr → TypeShape)
    (part : Parse TypeExpr) : operands operator combine part = (do
      let start := (← cursor).start
      let isLed ← eat operator
      let first ← part
      if !isLed && !(← isAt operator) then return first
      let parts ← repeatFrom (operandStep operator part) [first]
      return ⟨combine parts, ← spanFrom start⟩) := rfl

/-- What is read where no function type is next. -/
def constructorOrUnion (type suffixed : Parse TypeExpr) : Parse TypeExpr := do
  let here ← cursor
  if here.kind == .keyword .newKw then functionType type true else unionType type suffixed

theorem wholeType_eq (type suffixed : Parse TypeExpr) :
    wholeType type suffixed = functionOr type (constructorOrUnion type suffixed) := by
  funext c
  show (if c.startsFunction = true then functionType type false
    else if (c.kind == .keyword .newKw) = true then functionType type true
    else unionType type suffixed) c = (if c.startsFunction = true then functionType type false
    else constructorOrUnion type suffixed) c
  split
  · rfl
  · rfl

end Types

section Statements

/-- One step of the members of an enum. -/
def enumStep (members : List EnumMember) : Parse (List EnumMember ⊕ List EnumMember) := do
  if ← eat .closeBrace then return .inr members
  let members := members ++ [← enumMember]
  if ← eat .comma then return .inl members
  expect .closeBrace
  return .inr members

theorem enumDecl_eq (isConst : Bool) : enumDecl isConst = (do
    expect (.keyword .enumKw)
    let name ← ident
    expect .openBrace
    let members ← repeatFrom enumStep []
    return { name, isConst, members }) := rfl

/-- One step over the modifiers of a declaration. -/
def modifierStep (isConst : Bool) : Parse (Bool ⊕ Bool) := do
  let here ← cursor
  match here.kind with
  | .keyword .exportKw | .keyword .declareKw | .keyword .defaultKw | .keyword .abstractKw =>
    next
    return .inl isConst
  | .keyword .constKw =>
    if here.kindAt 1 == .keyword .enumKw then
      next
      return .inl true
    else return .inr isConst
  | _ => return .inr isConst

theorem modifiers_eq : modifiers = repeatFrom modifierStep false := rfl

/-- A namespace from its keyword on. -/
def namespaceDecl (body : Parse (List Statement)) : Parse (Placement → Statement) := do
  next
  let name ← entityName
  expect .openBrace
  let body ← body
  return fun place => .namespaceDecl place name body

/-- One step of the statements up to a closing lexeme. -/
def statementStep (body : Parse (List Statement)) (closing : TokenKind)
    (statements : List Statement) : Parse (List Statement ⊕ List Statement) := do
  if ← eat closing then return .inr statements
  if ← isAt .endOfFile then
    report (← cursor).unexpected
    return .inr statements
  match ← Parse.outcome (statement? body) with
  | .ok statement => return .inl (statements ++ statement.toList)
  | .error error =>
    report error
    recover closing
    return .inl statements

end Statements

end NodeFactory
