import NodeFactory.Memo
import NodeFactory.Symbol.Resolution

/-!
# Subtypes

A declaration descends from a target if one of the types it names does: an interface names the
types of its first heritage clause, an alias the references in its type, directly or as parts of a
union. A name descends from the target if it refers to the target, or if the first declaration of
the symbol that it refers to descends from it.
-/

namespace NodeFactory

mutual

/-- The references that a type consists of, through unions. -/
def TypeExpr.heads : TypeExpr → List EntityName
  | ⟨.reference name _, _⟩ => [name]
  | ⟨.union parts, _⟩ => TypeExpr.headsOfParts parts
  | _ => []

def TypeExpr.headsOfParts : List TypeExpr → List EntityName
  | [] => []
  | part :: parts => part.heads ++ TypeExpr.headsOfParts parts

end

/-- The names of the types that a declaration descends from. -/
def DeclNode.supertypes : DeclNode → List EntityName
  | interfaceDecl decl =>
    ((decl.heritage.head?.map HeritageClause.types).getD []).map HeritageType.name
  | aliasDecl decl => decl.type.heads
  | _ => []

namespace SymbolTable

/-- The symbols that names refer to inside a declaration. -/
def resolveAll (table : SymbolTable) (site : DeclId) (names : List EntityName) : List SymbolId :=
  names.filterMap (table.resolveType site)

/-- The symbols that a declaration descends from directly. -/
def supertypes (table : SymbolTable) (decl : DeclId) : List SymbolId :=
  match table.declarations[decl]? with
  | some declaration => table.resolveAll decl declaration.node.supertypes
  | none => []

/-- The symbols that the first declaration of a symbol descends from directly. -/
def symbolSupertypes (table : SymbolTable) (id : SymbolId) : List SymbolId :=
  match table.firstDeclaration? id with
  | some (decl, _) => table.supertypes decl
  | none => []

end SymbolTable

/-- What is remembered about whether a symbol descends from a target. -/
abbrev SubtypeMemo := Memo (SymbolId × SymbolId) Bool

namespace Subtype

/-- A search for descent. -/
abbrev Search := Memo.Search (SymbolId × SymbolId) Bool

/-- An inquiry about whether symbols descend from targets. -/
abbrev Descent := Inquiry (SymbolId × SymbolId) Bool

/-- Whether one of the symbols is the target or descends from it; the first that does decides. -/
def anyReaches (target : SymbolId) (ids : List SymbolId) : Descent Bool :=
  ids.anyM fun id => if id = target then return true else .question (id, target)

/-- How the descent of a symbol from a target is found from that of others. -/
def rule (table : SymbolTable) (key : SymbolId × SymbolId) : Descent Bool :=
  anyReaches key.2 (table.symbolSupertypes key.1)

/-- Whether a symbol descends from a target, through chains of symbols up to a depth. -/
def search (table : SymbolTable) (depth : Nat) : SymbolId × SymbolId → Search Bool :=
  Memo.search (fun key => table.symbolName key.1) (rule table) depth

/-- Carries out an inquiry about descent. -/
def find (table : SymbolTable) (descent : Descent α) : Search α :=
  descent.run (search table (table.symbols.size + 1))

/-- Whether a declaration descends from a target; without a target it does not. -/
def ofDecl (table : SymbolTable) (decl : DeclId) : Option SymbolId → Search Bool
  | some target => find table (anyReaches target (table.supertypes decl))
  | none => return false

/-- Whether a type written inside a declaration descends from a target. -/
def ofType (table : SymbolTable) (type : TypeExpr) (site : DeclId) :
    Option SymbolId → Search Bool
  | some target => find table (anyReaches target (table.resolveAll site type.heads))
  | none => return false

end Subtype

end NodeFactory
