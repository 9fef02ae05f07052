import NodeFactory.Symbol.Table

/-!
# Name resolution

The first part of a name is looked up in a scope and then outwards; every further part is looked up
among the names bound inside the symbol before it. Inside a declaration its type parameters hide the
declarations of their name.
-/

namespace NodeFactory.SymbolTable

/-- Looks a name up inside a symbol and outwards. -/
def lookupFrom (table : SymbolTable) (name : String) (id : SymbolId) : Option SymbolId :=
  match table.symbols[id]? with
  | none => none
  | some symbol =>
    match symbol.exports.lookup name with
    | some found => some found
    | none =>
      match symbol.parent with
      | none => table.globals.lookup name
      | some parent => if parent < id then table.lookupFrom name parent else none
termination_by id

def lookup (table : SymbolTable) (scope : Option SymbolId) (name : String) : Option SymbolId :=
  match scope with
  | none => table.globals.lookup name
  | some id => table.lookupFrom name id

/-- The symbol that a name refers to from a scope. -/
def resolve (table : SymbolTable) (scope : Option SymbolId) (name : EntityName) :
    Option SymbolId := do
  let first ← table.lookup scope name.first.name
  name.rest.foldlM (fun id part => (table.exports id).lookup part.name) first

/-- The symbol that a type name refers to inside a declaration; a type parameter is no symbol. -/
def resolveType (table : SymbolTable) (site : DeclId) (name : EntityName) : Option SymbolId := do
  let decl ← table.declarations[site]?
  if name.rest.isEmpty &&
      decl.node.typeParams.any (fun param => param.name.name == name.first.name) then
    none
  else table.resolve decl.scope name

end NodeFactory.SymbolTable
