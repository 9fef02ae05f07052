import NodeFactory.Grammar.ConstExpr
import NodeFactory.Schema.TypeExpr

/-!
# Reading type expressions

The productions that a type is made of take the actions for the types inside them, whole ones and
ones without operators, as arguments; `typeAt` closes the circle. Inside a member list an error is
reported and the list is read on.
-/

namespace NodeFactory

/-- Whether a function type is next: type parameters, or a group followed by an arrow. -/
def Cursor.startsFunction (cursor : Cursor) : Bool :=
  match cursor.kind with
  | .less => true
  | .openParen =>
    match Parse.groupLength? 1 (cursor.rest.drop 1) with
    | some n => cursor.kindAt (n + 1) == .fatArrow
    | none => false
  | _ => false

namespace Parse

/-- A word that says how a type parameter varies, or that its arguments are constant. -/
def isVarianceWord (cursor : Cursor) : Bool :=
  (cursor.kind == .keyword .constKw || cursor.textAt 0 == ['i', 'n'] ||
    cursor.textAt 0 == ['o', 'u', 't']) && (cursor.kindAt 1).isName

def typeParam (type : Parse TypeExpr) : Parse TypeParam := do
  repeatFrom (fun (_ : Unit) => do
    if isVarianceWord (← cursor) then
      next
      return .inl ()
    else return .inr ()) ()
  let name ← ident
  let bound ← if ← eat (.keyword .extendsKw) then some <$> type else pure none
  let fallback ← if ← eat .assign then some <$> type else pure none
  return ⟨name, bound, fallback⟩

def typeParams (type : Parse TypeExpr) : Parse (List TypeParam) := do
  if ← isAt .less then enclosed .less (typeParam type) .greater else return []

def typeArgs (type : Parse TypeExpr) : Parse (List TypeExpr) := do
  if ← isAt .less then enclosed .less type .greater else return []

/-- The name of a parameter; a pattern is skipped and has the empty name. -/
def paramName : Parse Ident := do
  let opening ← kind
  if opening == .openBrace || opening == .openBracket then
    let start := (← cursor).start
    skipGroup opening
    return ⟨"", ← spanFrom start⟩
  else ident

def param (type : Parse TypeExpr) : Parse Param := do
  let rest ← eat .ellipsis
  if (← isAt (.keyword .readonlyKw)) && ((← cursor).kindAt 1).isName then next
  let name ← paramName
  let optional ← eat .question
  let type ← if ← eat .colon then some <$> type else pure none
  if ← eat .assign then discard constExpr
  return ⟨name, rest, optional, type⟩

def params (type : Parse TypeExpr) : Parse (List Param) :=
  enclosed .openParen (param type) .closeParen

/-- A return type, which may narrow a parameter: `x is T`. -/
def returnType (type : Parse TypeExpr) : Parse TypeExpr := do
  let here ← cursor
  let isPredicate := (here.kind == .identifier || here.kind == .keyword .thisKw) &&
    here.kindAt 1 == .identifier && here.textAt 1 == ['i', 's']
  if isPredicate then
    let param ← ident
    next
    let narrowed ← type
    return ⟨.predicate param narrowed, ← spanFrom here.start⟩
  else type

/-- Type parameters, parameters and a return type that may be missing. -/
def signature (type : Parse TypeExpr) : Parse Signature := do
  let typeParams ← typeParams type
  let params ← params type
  let returns ← if ← eat .colon then some <$> returnType type else pure none
  return ⟨typeParams, params, returns⟩

/-- A member that begins with a bracket: an index signature, a mapped type, or a method with a
computed name. -/
def indexMember (type : Parse TypeExpr) : Parse MemberShape := do
  skipGroup .openBracket
  if (← isAt .openParen) || (← isAt .less) then
    discard (signature type)
  else
    if (← isAt .plus) || (← isAt .minus) then next
    discard (eat .question)
    if ← eat .colon then discard type
  return .index

/-- A property or a method. `readonly` is a modifier only if a name follows it. -/
def namedMember (type : Parse TypeExpr) : Parse MemberShape := do
  let here ← cursor
  let following := here.kindAt 1
  let readonly := here.kind == .keyword .readonlyKw &&
    (following.isName || following == .string || following == .number)
  if readonly then next
  let name ← propertyName
  let optional ← eat .question
  if !optional then discard (eat .exclamation)
  if (← isAt .openParen) || (← isAt .less) then
    return .method name optional (← signature type)
  else
    let type ← if ← eat .colon then some <$> type else pure none
    return .property name optional readonly type

def memberShape (type : Parse TypeExpr) : Parse MemberShape := do
  let here ← cursor
  match here.kind with
  | .openBracket => indexMember type
  | .openParen | .less => return .call (← signature type)
  | .keyword .newKw =>
    if here.kindAt 1 == .openParen || here.kindAt 1 == .less then
      next
      return .construct (← signature type)
    else namedMember type
  | _ => namedMember type

/-- The separator after a member may be a semicolon, a comma or nothing. -/
def member (type : Parse TypeExpr) : Parse Member := do
  let here ← cursor
  let shape ← memberShape type
  unless ← eat .semicolon do discard (eat .comma)
  return ⟨shape, ← spanFrom here.start, here.comments⟩

/-- The members between braces. A member that cannot be read is reported and skipped. -/
def members (type : Parse TypeExpr) : Parse (List Member) := do
  expect .openBrace
  repeatFrom (fun members => do
    if ← eat .closeBrace then return .inr members
    if ← isAt .endOfFile then unexpected
    match ← outcome (member type) with
    | .ok member => return .inl (members ++ [member])
    | .error error =>
      report error
      recover .closeBrace
      return .inl members) []

/-- An element of a tuple; a label before it is passed over. -/
def tupleElement (type : Parse TypeExpr) : Parse TypeExpr := do
  discard (eat .ellipsis)
  let here ← cursor
  let isLabeled := here.kind.isName && (here.kindAt 1 == .colon ||
    (here.kindAt 1 == .question && here.kindAt 2 == .colon))
  if isLabeled then
    next
    discard (eat .question)
    expect .colon
  let element ← type
  discard (eat .question)
  return element

def functionType (type : Parse TypeExpr) (isConstructor : Bool) : Parse TypeExpr := do
  let start := (← cursor).start
  if isConstructor then expect (.keyword .newKw)
  let typeParams ← typeParams type
  let params ← params type
  expect .fatArrow
  let returns ← returnType type
  return ⟨.function isConstructor ⟨typeParams, params, some returns⟩, ← spanFrom start⟩

/-- A name used as a type: a literal, a predefined type, or a reference. The name of a predefined
type that is followed by a dot is a reference. -/
def namedType (type : Parse TypeExpr) : Parse TypeShape := do
  let here ← cursor
  let name := here.textAt 0
  if name == ['t', 'r', 'u', 'e'] || name == ['f', 'a', 'l', 's', 'e'] then
    next
    return .literalValue
  match KeywordType.ofName? name with
  | some keyword =>
    if here.kindAt 1 == .dot then reference
    else
      next
      return .keyword keyword
  | none => reference
where
  reference : Parse TypeShape := do
    let name ← entityName
    return .reference name (← typeArgs type)

/-- A type without operators and suffixes. `readonly` leaves the shape of the type after it. -/
def primaryType (type suffixed : Parse TypeExpr) : Parse TypeExpr := do
  let here ← cursor
  let shape ←
    match here.kind with
    | .openParen =>
      next
      let inner ← type
      expect .closeParen
      pure (.paren inner)
    | .openBrace => TypeShape.literal <$> members type
    | .openBracket =>
      TypeShape.tuple <$> enclosed .openBracket (tupleElement type) .closeBracket
    | .string | .number | .template =>
      next
      pure .literalValue
    | .minus =>
      if here.kindAt 1 == .number then
        skip 2
        pure .literalValue
      else missing
    | .keyword .thisKw =>
      next
      pure .this
    | .keyword .typeofKw =>
      next
      TypeShape.query <$> entityName
    | .keyword .keyofKw =>
      next
      TypeShape.keyof <$> suffixed
    | .keyword .readonlyKw =>
      next
      TypeExpr.shape <$> suffixed
    | .identifier => namedType type
    | _ => missing
  return ⟨shape, ← spanFrom here.start⟩
where
  missing : Parse TypeShape := do
    modify fun cursor => cursor.expect [.identifier, .openParen, .openBrace, .openBracket]
    unexpected

/-- A type with brackets after it: an array, or the type of a property. A bracket at the beginning
of a line belongs to the next member. -/
def suffixedType (type suffixed : Parse TypeExpr) : Parse TypeExpr := do
  let start := (← cursor).start
  let primary ← primaryType type suffixed
  repeatFrom (fun object => do
    let here ← cursor
    if here.kind == .openBracket && !here.startsLine then
      next
      let shape ←
        if ← eat .closeBracket then pure (.array object)
        else
          let index ← type
          expect .closeBracket
          pure (.indexed object index)
      return .inl ⟨shape, ← spanFrom start⟩
    else return .inr object) primary

/-- Parts joined by an operator, which may also stand before the first; a single part without it
stands for itself. -/
def operands (operator : TokenKind) (combine : List TypeExpr → TypeShape)
    (part : Parse TypeExpr) : Parse TypeExpr := do
  let start := (← cursor).start
  let isLed ← eat operator
  let first ← part
  if !isLed && !(← isAt operator) then return first
  let parts ← repeatFrom (fun parts => do
    if ← eat operator then return .inl (parts ++ [← part])
    else return .inr parts) [first]
  return ⟨combine parts, ← spanFrom start⟩

/-- A function type where one is next, and otherwise what `other` reads. -/
def functionOr (type other : Parse TypeExpr) : Parse TypeExpr := do
  if (← cursor).startsFunction then functionType type false else other

def intersectionType (type suffixed : Parse TypeExpr) : Parse TypeExpr :=
  operands .ampersand .intersection (functionOr type (suffixedType type suffixed))

def unionType (type suffixed : Parse TypeExpr) : Parse TypeExpr :=
  operands .bar .union (functionOr type (intersectionType type suffixed))

def wholeType (type suffixed : Parse TypeExpr) : Parse TypeExpr := do
  let here ← cursor
  if here.startsFunction then functionType type false
  else if here.kind == .keyword .newKw then functionType type true
  else unionType type suffixed

/-- The places of a type in the grammar. -/
inductive TypeLevel where
  /-- Any type. -/
  | whole
  /-- A type without operators. -/
  | suffixed
deriving DecidableEq

def typeAt : TypeLevel → Parse TypeExpr :=
  fix fun typeAt level =>
    match level with
    | .whole => wholeType (typeAt .whole) (typeAt .suffixed)
    | .suffixed => suffixedType (typeAt .whole) (typeAt .suffixed)

def typeExpr : Parse TypeExpr := typeAt .whole

end Parse

end NodeFactory
