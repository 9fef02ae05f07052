import NodeFactory.Text.Span

/-!
# Names

A declaration is named by an identifier, and referred to by a name of one or more identifiers joined
by dots.
-/

namespace NodeFactory

open Text

/-- A name and where it is written. The span of a quoted property name includes the quotes. -/
structure Ident where
  name : String
  span : Span
deriving DecidableEq, Repr

structure EntityName where
  first : Ident
  rest : List Ident
  span : Span
deriving DecidableEq, Repr

namespace EntityName

def parts (name : EntityName) : List Ident :=
  name.first :: name.rest

/-- The rightmost identifier. -/
def last (name : EntityName) : Ident :=
  name.rest.getLast?.getD name.first

def text (name : EntityName) : String :=
  ".".intercalate (name.parts.map Ident.name)

end EntityName

end NodeFactory
