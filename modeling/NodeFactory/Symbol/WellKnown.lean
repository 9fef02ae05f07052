import NodeFactory.Config.Basic
import NodeFactory.Symbol.Table

/-!
# Well-known declarations

Classification starts from four interfaces and the kind enum, which are found by name among all
declarations. Of several declarations of a name the last counts. An interface counts for the first
of the four names that it has.
-/

namespace NodeFactory

structure WellKnown where
  node : Option SymbolId := none
  nodeArray : Option SymbolId := none
  modifiersArray : Option SymbolId := none
  declaration : Option SymbolId := none
  kindEnum : Option SymbolId := none
deriving DecidableEq, Repr

namespace WellKnown

/-- Takes one more declaration into account. -/
def note (names : WellKnownNames) (found : WellKnown) (decl : Declaration) : WellKnown :=
  match decl.node with
  | .interfaceDecl interface =>
    let name := interface.name.name
    if name = names.node then { found with node := some decl.symbol }
    else if name = names.nodeArray then { found with nodeArray := some decl.symbol }
    else if name = names.modifiersArray then { found with modifiersArray := some decl.symbol }
    else if name = names.declaration then { found with declaration := some decl.symbol }
    else found
  | .enumDecl enum =>
    if enum.name.name = names.kindEnum then { found with kindEnum := some decl.symbol } else found
  | _ => found

/-- The well-known declarations of a table, nested ones included. -/
def find (table : SymbolTable) (names : WellKnownNames) : WellKnown :=
  table.declarations.foldl (note names) {}

end WellKnown

end NodeFactory
