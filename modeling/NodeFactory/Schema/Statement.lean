import NodeFactory.Schema.ConstExpr
import NodeFactory.Schema.TypeExpr

/-!
# Statements

A schema is a list of statements. Only declarations are represented; everything else is kept as a
span of text that was skipped.
-/

namespace NodeFactory

open Text

inductive HeritageWord where
  | extending
  | implementing
deriving DecidableEq, Repr

/-- One of the types that a clause names, with its type arguments. -/
structure HeritageType where
  name : EntityName
  args : List TypeExpr
  span : Span

structure HeritageClause where
  word : HeritageWord
  types : List HeritageType
  span : Span

structure Interface where
  name : Ident
  typeParams : List TypeParam
  heritage : List HeritageClause
  members : List Member

structure TypeAlias where
  name : Ident
  typeParams : List TypeParam
  type : TypeExpr

structure EnumMember where
  name : Ident
  value : Option ConstExpr
  span : Span
  comments : List Span

structure Enum where
  name : Ident
  isConst : Bool
  members : List EnumMember

/-- Where a statement stands and which comments lead it. -/
structure Placement where
  span : Span
  comments : List Span
deriving DecidableEq, Repr

inductive Statement where
  | namespaceDecl (place : Placement) (name : EntityName) (body : List Statement)
  | interfaceDecl (place : Placement) (decl : Interface)
  | aliasDecl (place : Placement) (decl : TypeAlias)
  | enumDecl (place : Placement) (decl : Enum)
  | skipped (place : Placement)

def Statement.place : Statement → Placement
  | namespaceDecl place .. | interfaceDecl place _ | aliasDecl place _ | enumDecl place _
  | skipped place => place

end NodeFactory
