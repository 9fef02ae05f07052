import NodeFactory.Field.Basic
import NodeFactory.Model
import NodeFactory.Property.Basic
import NodeFactory.Subtype

/-!
# The fields of a kind

A property becomes a field unless it is excluded, has no type, or is neither a child nor marked for
the constructor. Fields keep the order of the properties, except that those listed for the kind come
first.
-/

namespace NodeFactory

/-- Whether a text occurs in another; the empty text occurs everywhere. -/
def occursIn (part : List Char) : List Char → Bool
  | [] => part.isEmpty
  | c :: cs => part.isPrefixOf (c :: cs) || occursIn part cs

namespace Model

/-- The class of a type written inside a declaration. An array is recognized by its name alone. -/
def classify (model : Model) (type : TypeExpr) (site : DeclId) : Subtype.Search FieldClass := do
  let named :=
    match type.shape with
    | .reference name _ => model.table.resolveType site name
    | _ => none
  if named.isSome && named == model.wellKnown.nodeArray then return .nodeArray
  if named.isSome && named == model.wellKnown.modifiersArray then return .modifiersArray
  if ← Subtype.ofType model.table type site model.wellKnown.node then return .node
  return .plain

/-- Whether the first declaration of a symbol descends from the declaration marker. -/
def isDeclaration (model : Model) (id : SymbolId) : Subtype.Search Bool :=
  match model.table.firstDeclaration? id with
  | some (decl, _) => Subtype.ofDecl model.table decl model.wellKnown.declaration
  | none => return false

/-- What the fields are selected for. -/
structure Target where
  kind : String
  declaringType : String
  isDeclaration : Bool
deriving DecidableEq, Repr

/-- Whether a property is dropped: by the table for the kind, or else by the first rule for its name
or owner that applies. -/
def isExcluded (model : Model) (target : Target) (property : Property) : Bool :=
  let rules := model.config.fields
  if model.config.memberExcludes.contains target.kind property.name then true
  else if rules.modifierFields.contains property.name then
    !target.isDeclaration || rules.modifierExemptTypes.contains target.declaringType
  else if property.name = rules.optionalMarkerField then
    rules.optionalMarkerExemptTypes.contains target.declaringType
  else
    (model.wellKnown.node.isSome && property.owner == model.wellKnown.node) ||
      property.name == rules.parentField

/-- Whether a property is only passed to the constructor: a leading comment or the metadata say
so. -/
def isFactoryOnly (model : Model) (declaringType : String) (property : Property) : Bool :=
  let tag := model.config.annotations.factoryParam.toList
  property.comments.any (fun span => occursIn tag (model.textOf span)) ||
    ((model.config.metadata.factoryParams.find? declaringType).getD []).contains property.name

/-- The field that a property becomes, if any. -/
def fieldOf? (model : Model) (target : Target) (property : Property) :
    Subtype.Search (Option Field) := do
  if model.isExcluded target property then return none
  let some type := property.type | return none
  let fieldClass ← model.classify type property.site
  let isFactoryOnly := model.isFactoryOnly target.declaringType property
  if !fieldClass.isChild && !isFactoryOnly then return none
  return some {
    name := property.name
    typeText := String.ofList (model.textOf type.span)
    isOptional := property.optional
    fieldClass
    isFactoryOnly }

/-- The fields that properties become, in their order. -/
def fieldsOf (model : Model) (target : Target) : List Property → Subtype.Search (List Field)
  | [] => return []
  | property :: properties => do
    let field ← model.fieldOf? target property
    let fields ← model.fieldsOf target properties
    return field.toList ++ fields

/-- Whether a field does not come after another: by the places in the list for the kind, and fields
without a place last. -/
def precedes (model : Model) (kind : String) (a b : Field) : Bool :=
  let place (field : Field) := model.config.memberOrder.position? kind field.name
  match place a, place b with
  | some i, some j => i ≤ j
  | none, some _ => false
  | _, none => true

/-- The number of fields up to and with the last that is not optional. -/
def requiredCount (fields : List Field) : Nat :=
  (fields.reverse.dropWhile Field.isOptional).length

/-- The selected fields in their final order, and how many of them an argument list must have,
counted before they are put in this order. -/
structure Selection where
  fields : List Field
  requiredCount : Nat
deriving DecidableEq, Repr

def select (model : Model) (target : Target) (properties : List Property) :
    Subtype.Search Selection := do
  let fields ← model.fieldsOf target properties
  return ⟨fields.mergeSort (model.precedes target.kind), requiredCount fields⟩

end Model

end NodeFactory
