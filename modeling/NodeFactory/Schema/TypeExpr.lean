import NodeFactory.Schema.Name

/-!
# Type expressions

Types, the members of type literals and the signatures of functions are defined together, because
each can contain the others.
-/

namespace NodeFactory

open Text

inductive KeywordType where
  | any
  | unknown
  | never
  | void
  | undefined
  | null
  | string
  | number
  | boolean
  | bigInt
  | symbol
  | object
deriving DecidableEq, Repr

/-- The predefined type that a name stands for, if any. -/
def KeywordType.ofName? : List Char → Option KeywordType
  | ['a', 'n', 'y'] => some any
  | ['u', 'n', 'k', 'n', 'o', 'w', 'n'] => some unknown
  | ['n', 'e', 'v', 'e', 'r'] => some never
  | ['v', 'o', 'i', 'd'] => some void
  | ['u', 'n', 'd', 'e', 'f', 'i', 'n', 'e', 'd'] => some undefined
  | ['n', 'u', 'l', 'l'] => some null
  | ['s', 't', 'r', 'i', 'n', 'g'] => some string
  | ['n', 'u', 'm', 'b', 'e', 'r'] => some number
  | ['b', 'o', 'o', 'l', 'e', 'a', 'n'] => some boolean
  | ['b', 'i', 'g', 'i', 'n', 't'] => some bigInt
  | ['s', 'y', 'm', 'b', 'o', 'l'] => some symbol
  | ['o', 'b', 'j', 'e', 'c', 't'] => some object
  | _ => none

mutual

inductive TypeShape where
  /-- A named type, `A.B<C>`. -/
  | reference (name : EntityName) (args : List TypeExpr)
  | union (parts : List TypeExpr)
  | intersection (parts : List TypeExpr)
  | array (element : TypeExpr)
  /-- The type of a property, `T[K]`. -/
  | indexed (object index : TypeExpr)
  | tuple (elements : List TypeExpr)
  | paren (inner : TypeExpr)
  | function (isConstructor : Bool) (signature : Signature)
  | literal (members : List Member)
  /-- A literal used as a type: a string, a number, a template, `true` or `false`. -/
  | literalValue
  | keyword (type : KeywordType)
  | this
  /-- The type of a value, `typeof a.b`. -/
  | query (name : EntityName)
  | keyof (type : TypeExpr)
  /-- A return type that narrows a parameter, `x is T`. -/
  | predicate (param : Ident) (type : TypeExpr)

structure TypeExpr where
  shape : TypeShape
  span : Span

inductive MemberShape where
  /-- A property has a type unless it is malformed. -/
  | property (name : Ident) (optional readonly : Bool) (type : Option TypeExpr)
  | method (name : Ident) (optional : Bool) (signature : Signature)
  | call (signature : Signature)
  | construct (signature : Signature)
  /-- An index signature, a mapped type or a method with a computed name: it has no name. -/
  | index

structure Member where
  shape : MemberShape
  span : Span
  comments : List Span

structure Signature where
  typeParams : List TypeParam
  params : List Param
  returns : Option TypeExpr

/-- A parameter written as a pattern has the empty name. -/
structure Param where
  name : Ident
  rest : Bool
  optional : Bool
  type : Option TypeExpr

structure TypeParam where
  name : Ident
  bound : Option TypeExpr
  fallback : Option TypeExpr

end

/-- The name under which a member is found. -/
def Member.name? (member : Member) : Option Ident :=
  match member.shape with
  | .property name .. | .method name .. => some name
  | .call _ | .construct _ | .index => none

end NodeFactory
