import NodeFactory.Field.Selection
import NodeFactory.Kind.Annotation
import NodeFactory.Kind.Basic
import NodeFactory.Property.Enumeration

/-!
# The kinds of a schema

The comments that lead an interface or an alias name the kinds it declares; the metadata add to
those of the first declaration of a symbol. The kinds are listed by their constants, and kinds of
equal constants in the order in which they were found.
-/

namespace NodeFactory

/-- What both searches remember while kinds are discovered. -/
structure DiscoveryMemo where
  properties : PropertyMemo
  subtypes : SubtypeMemo

namespace DiscoveryMemo

def empty : DiscoveryMemo := ⟨.empty, .empty⟩

abbrev Search := EStateM CyclicType DiscoveryMemo

def onProperties (search : Property.Search α) : Search α := fun memo =>
  match search memo.properties with
  | .ok value properties => .ok value { memo with properties }
  | .error cycle properties => .error cycle { memo with properties }

def onSubtypes (search : Subtype.Search α) : Search α := fun memo =>
  match search memo.subtypes with
  | .ok value subtypes => .ok value { memo with subtypes }
  | .error cycle subtypes => .error cycle { memo with subtypes }

end DiscoveryMemo

namespace Model

open DiscoveryMemo

/-- The kinds that the comments of a declaration name, as often as they name them. Names that are no
members of the kind enum are passed over. -/
def annotatedKinds (model : Model) (kindEnum : SymbolId) (decl : Declaration) : List SymbolId :=
  let tag := model.config.annotations.kind.toList
  let enum := model.config.wellKnown.kindEnum.toList
  (decl.comments.flatMap fun span => Annotation.find tag enum (model.textOf span)).filterMap
    fun (member, _) => (model.table.exports kindEnum).lookup member

/-- The kinds that the metadata list for the name of a declared symbol. -/
def metadataKinds (model : Model) (kindEnum : SymbolId) (decl : Declaration) : List SymbolId :=
  let names := model.config.metadata.kinds.find? (model.table.symbolName decl.symbol)
  (names.getD []).filterMap fun name => (model.table.exports kindEnum).lookup name

/-- Adds a kind that is not listed yet. -/
def addKind (kinds : List SymbolId) (kind : SymbolId) : List SymbolId :=
  if kinds.contains kind then kinds else kinds ++ [kind]

/-- The kinds that a declaration declares. Only interfaces and aliases declare any. -/
def declaredKinds (model : Model) (kindEnum : SymbolId) (id : DeclId) (decl : Declaration) :
    List SymbolId :=
  match decl.node with
  | .interfaceDecl _ | .aliasDecl _ =>
    let annotated := model.annotatedKinds kindEnum decl
    if ((model.table.firstDeclaration? decl.symbol).map Prod.fst) == some id then
      (model.metadataKinds kindEnum decl).foldl addKind annotated
    else annotated
  | _ => []

/-- A kind with the fields that its functions take. -/
def buildKind (model : Model) (symbol : SymbolId) (isDeclaration : Bool)
    (properties : List Property) (kind : SymbolId) : Search NodeKind := do
  let name := model.table.symbolName kind
  let declaringType := model.table.symbolName symbol
  let selection ← onSubtypes
    (model.select { kind := name, declaringType, isDeclaration } properties)
  return {
    name
    value := (model.table.symbols[kind]?).bind Symbol.value
    symbol
    declaringType
    fields := selection.fields
    hasChildren := selection.fields.any fun field => field.fieldClass.isChild
    requiredCount := selection.requiredCount }

/-- The kinds that a declaration declares, built. -/
def kindsOf (model : Model) (kindEnum : SymbolId) (id : DeclId) (decl : Declaration) :
    Search (List NodeKind) := do
  let kinds := model.declaredKinds kindEnum id decl
  if kinds.isEmpty then return []
  let isDeclaration ← onSubtypes (model.isDeclaration decl.symbol)
  let properties ← onProperties (Property.ofSymbol model.table decl.symbol)
  kinds.mapM (model.buildKind decl.symbol isDeclaration properties)

/-- The kinds of declarations that are numbered from `id`, in the order in which they are found. -/
def discoverFrom (model : Model) (kindEnum : SymbolId) (id : DeclId) :
    List Declaration → Search (List NodeKind)
  | [] => return []
  | decl :: decls => do
    let kinds ← model.kindsOf kindEnum id decl
    let others ← model.discoverFrom kindEnum (id + 1) decls
    return kinds ++ others

/-- All kinds of a schema, in the order of their constants. -/
def kinds (model : Model) (kindEnum : SymbolId) : Except CyclicType (List NodeKind) :=
  match model.discoverFrom kindEnum 0 model.table.declarations.toList .empty with
  | .ok kinds _ => .ok (kinds.mergeSort fun a b => NodeKind.valueLe a.value b.value)
  | .error cycle _ => .error cycle

end Model

end NodeFactory
