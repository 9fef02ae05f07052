import NodeFactory.Symbol.ConstantValue

/-!
# Binding

Statements are bound in order. A namespace with a dotted name declares each part inside the one
before. The value of an enum member is found before the member is declared, so that an initializer
sees only what comes before it.
-/

namespace NodeFactory.SymbolTable

/-- The value of an enum member. Without an initializer it is one more than the member before, and
zero for the first. -/
def memberValue (table : SymbolTable) (enum : SymbolId) (previous : Option (Option Binary64))
    (member : EnumMember) : Option Binary64 :=
  match member.value, previous with
  | some value, _ => table.evaluate (some enum) value
  | none, some previous => previous.map fun value => value.add 1
  | none, none => some 0

/-- Declares the members of an enum; `previous` is the value of the member before, if there is
one. -/
def bindMembers (enum : SymbolId) (previous : Option (Option Binary64)) (table : SymbolTable) :
    List EnumMember → SymbolTable
  | [] => table
  | member :: members =>
    let value := table.memberValue enum previous member
    let (table, id) :=
      table.declare (some enum) member.name.name (.memberDecl member) member.comments
    bindMembers enum (some value) (table.setValue id value) members

/-- Declares the parts of a namespace name, each inside the one before, and gives the innermost
scope. -/
def bindPath (comments : List Text.Span) (scope : Option SymbolId) (table : SymbolTable) :
    List Ident → SymbolTable × Option SymbolId
  | [] => (table, scope)
  | part :: parts =>
    let (table, id) := table.declare scope part.name .namespaceDecl comments
    bindPath comments (some id) table parts

mutual

def bindStatement (scope : Option SymbolId) (table : SymbolTable) : Statement → SymbolTable
  | .namespaceDecl place name body =>
    let (table, inner) := bindPath place.comments scope table name.parts
    bindStatements inner table body
  | .interfaceDecl place decl =>
    (table.declare scope decl.name.name (.interfaceDecl decl) place.comments).1
  | .aliasDecl place decl =>
    (table.declare scope decl.name.name (.aliasDecl decl) place.comments).1
  | .enumDecl place decl =>
    let (table, enum) := table.declare scope decl.name.name (.enumDecl decl) place.comments
    bindMembers enum none table decl.members
  | .skipped _ => table

def bindStatements (scope : Option SymbolId) (table : SymbolTable) : List Statement → SymbolTable
  | [] => table
  | statement :: statements =>
    bindStatements scope (bindStatement scope table statement) statements

end

/-- The symbols of a list of statements in the file scope. -/
def ofStatements (statements : List Statement) : SymbolTable :=
  bindStatements none empty statements

end NodeFactory.SymbolTable
