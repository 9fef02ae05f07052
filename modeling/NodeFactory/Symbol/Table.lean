import NodeFactory.Schema.Statement

/-!
# Symbols

Declarations of one name in one scope share a symbol. Symbols and declarations are numbered in the
order in which they are made, and a scope keeps its names in the order in which they were bound. The
scope of a symbol is made before the symbol, so the chain of enclosing scopes ends.
-/

namespace NodeFactory

open Text

/-- The number of a symbol. -/
abbrev SymbolId := Nat

/-- The number of a declaration. -/
abbrev DeclId := Nat

/-- The names bound in a scope, in the order of binding. -/
abbrev Bindings := List (String × SymbolId)

inductive SymbolKind where
  | namespaceKind
  | interfaceKind
  | aliasKind
  | enumKind
  | memberKind
deriving DecidableEq, Repr

/-- What is declared. -/
inductive DeclNode where
  | namespaceDecl
  | interfaceDecl (decl : Interface)
  | aliasDecl (decl : TypeAlias)
  | enumDecl (decl : Enum)
  | memberDecl (member : EnumMember)

def DeclNode.kind : DeclNode → SymbolKind
  | namespaceDecl => .namespaceKind
  | interfaceDecl _ => .interfaceKind
  | aliasDecl _ => .aliasKind
  | enumDecl _ => .enumKind
  | memberDecl _ => .memberKind

def DeclNode.typeParams : DeclNode → List TypeParam
  | interfaceDecl decl => decl.typeParams
  | aliasDecl decl => decl.typeParams
  | _ => []

/-- A scope is the file, or the symbol of a namespace or an enum. -/
structure Declaration where
  node : DeclNode
  symbol : SymbolId
  scope : Option SymbolId
  comments : List Span

structure Symbol where
  name : String
  /-- The kind of the first declaration. -/
  kind : SymbolKind
  declarations : List DeclId
  parent : Option SymbolId
  exports : Bindings
  /-- The constant that an enum member stands for. -/
  value : Option Binary64

structure SymbolTable where
  symbols : Array Symbol
  declarations : Array Declaration
  globals : Bindings

namespace SymbolTable

def empty : SymbolTable := ⟨#[], #[], []⟩

/-- The names bound inside a symbol. -/
def exports (table : SymbolTable) (id : SymbolId) : Bindings :=
  (table.symbols[id]?.map Symbol.exports).getD []

def bindings (table : SymbolTable) : Option SymbolId → Bindings
  | none => table.globals
  | some id => table.exports id

/-- Binds a name in a scope. -/
def bind (table : SymbolTable) (scope : Option SymbolId) (name : String) (id : SymbolId) :
    SymbolTable :=
  match scope with
  | none => { table with globals := table.globals ++ [(name, id)] }
  | some scope =>
    { table with
      symbols := table.symbols.modify scope fun symbol =>
        { symbol with exports := symbol.exports ++ [(name, id)] } }

/-- The symbol of a name in a scope, made with the given kind if there is none yet. -/
def intern (table : SymbolTable) (scope : Option SymbolId) (name : String) (kind : SymbolKind) :
    SymbolTable × SymbolId :=
  match (table.bindings scope).lookup name with
  | some id => (table, id)
  | none =>
    let id := table.symbols.size
    let symbol : Symbol :=
      { name, kind, declarations := [], parent := scope, exports := [], value := none }
    ({ table with symbols := table.symbols.push symbol }.bind scope name id, id)

/-- Adds a declaration of a name to a scope, and gives the symbol it belongs to. -/
def declare (table : SymbolTable) (scope : Option SymbolId) (name : String) (node : DeclNode)
    (comments : List Span) : SymbolTable × SymbolId :=
  let (table, id) := table.intern scope name node.kind
  let decl := table.declarations.size
  ({ table with
      declarations := table.declarations.push { node, symbol := id, scope, comments }
      symbols := table.symbols.modify id fun symbol =>
        { symbol with declarations := symbol.declarations ++ [decl] } }, id)

def setValue (table : SymbolTable) (id : SymbolId) (value : Option Binary64) : SymbolTable :=
  { table with symbols := table.symbols.modify id fun symbol => { symbol with value } }

def symbolName (table : SymbolTable) (id : SymbolId) : String :=
  (table.symbols[id]?.map Symbol.name).getD ""

/-- The declarations of a symbol with their numbers, in order. -/
def declarationsOf (table : SymbolTable) (id : SymbolId) : List (DeclId × Declaration) :=
  ((table.symbols[id]?.map Symbol.declarations).getD []).filterMap fun decl =>
    (table.declarations[decl]?).map (decl, ·)

def firstDeclaration? (table : SymbolTable) (id : SymbolId) : Option (DeclId × Declaration) :=
  (table.declarationsOf id).head?

end SymbolTable

end NodeFactory
