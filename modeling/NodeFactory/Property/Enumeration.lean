import NodeFactory.Memo
import NodeFactory.Property.Basic
import NodeFactory.Symbol.Resolution

/-!
# The properties of a type

An interface has the members of all its declarations, and then the properties of the types it
extends that it does not have yet. An alias has the properties of its type: those of all parts of
an intersection, and those that all parts of a union share.
-/

namespace NodeFactory

/-- What is remembered about the properties of symbols. -/
abbrev PropertyMemo := Memo SymbolId (List Property)

namespace Property

/-- A search for properties. -/
abbrev Search := Memo.Search SymbolId (List Property)

/-- An inquiry about the properties of symbols. -/
abbrev Enumeration := Inquiry SymbolId (List Property)

mutual

/-- The properties of a type written inside a declaration. -/
def ofType (table : SymbolTable) (site : DeclId) : TypeExpr → Enumeration (List Property)
  | ⟨.reference name _, _⟩ =>
    match table.resolveType site name with
    | some id => .question id
    | none => return []
  | ⟨.paren inner, _⟩ => ofType table site inner
  | ⟨.literal members, _⟩ => return ofMembers none site members
  | ⟨.intersection parts, _⟩ => return (← ofTypes table site parts).foldl merge []
  | ⟨.union parts, _⟩ => return common (← ofTypes table site parts)
  | _ => return []

def ofTypes (table : SymbolTable) (site : DeclId) :
    List TypeExpr → Enumeration (List (List Property))
  | [] => return []
  | type :: types => return (← ofType table site type) :: (← ofTypes table site types)

end

/-- The interface declarations of a symbol, in order. -/
def interfacesOf (table : SymbolTable) (id : SymbolId) : List (DeclId × Interface) :=
  (table.declarationsOf id).filterMap fun (decl, declaration) =>
    match declaration.node with
    | .interfaceDecl interface => some (decl, interface)
    | _ => none

/-- The members that the interface declarations of a symbol declare, the first of each name. -/
def declared (table : SymbolTable) (id : SymbolId) : List Property :=
  merge [] ((interfacesOf table id).flatMap fun (decl, interface) =>
    interface.members.filterMap (ofMember? (some id) decl))

/-- The symbols that the interface declarations of a symbol extend, in order. -/
def bases (table : SymbolTable) (id : SymbolId) : List SymbolId :=
  (interfacesOf table id).flatMap fun (decl, interface) =>
    let clauses := interface.heritage.filter fun clause => clause.word == .extending
    (clauses.flatMap HeritageClause.types).filterMap fun type =>
      table.resolveType decl type.name

/-- How the properties of a symbol are found from those of others. -/
def rule (table : SymbolTable) (id : SymbolId) : Enumeration (List Property) :=
  match table.symbols[id]?.map Symbol.kind with
  | some .interfaceKind =>
    (bases table id).foldlM (fun properties base => return merge properties (← .question base))
      (declared table id)
  | some .aliasKind =>
    match table.firstDeclaration? id with
    | some (decl, ⟨.aliasDecl typeAlias, _, _, _⟩) => ofType table decl typeAlias.type
    | _ => return []
  | _ => return []

/-- The properties of a symbol, through chains of symbols up to a depth. -/
def search (table : SymbolTable) (depth : Nat) : SymbolId → Search (List Property) :=
  Memo.search table.symbolName (rule table) depth

/-- The properties of a symbol. -/
def ofSymbol (table : SymbolTable) : SymbolId → Search (List Property) :=
  search table (table.symbols.size + 1)

end Property

end NodeFactory
