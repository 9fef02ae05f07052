import NodeFactory.Config.Basic
import NodeFactory.Kind.Basic

/-!
# The functions made for a kind

The constructor of a kind takes its fields and stores each once. The updater takes the fields that
are compared; if one differs from the node, it constructs a node from them and from the other
fields of the old node, and otherwise it gives the node itself. Here the functions are data; how
they are written is another matter.
-/

namespace NodeFactory

structure Parameter where
  name : String
  type : String
deriving DecidableEq, Repr

def Parameter.ofField (field : Field) : Parameter :=
  ⟨field.paramName, field.typeText⟩

/-- How a constructor stores a parameter in the node. -/
inductive Store where
  | field (name param : String)
  /-- Through the helper that keeps the flags of the modifiers with the node. -/
  | modifiers (param : String)
deriving DecidableEq, Repr

def Store.ofField (field : Field) : Store :=
  match field.fieldClass with
  | .modifiersArray => .modifiers field.paramName
  | _ => .field field.name field.paramName

/-- A function that makes a node. All its parameters may be left out. -/
structure Constructor where
  kind : String
  declaringType : String
  parameters : List Parameter
  stores : List Store
deriving DecidableEq, Repr

def Constructor.ofKind (kind : NodeKind) : Constructor where
  kind := kind.name
  declaringType := kind.declaringType
  parameters := kind.fields.map Parameter.ofField
  stores := kind.fields.map Store.ofField

/-- A condition of an updater: the parameter differs from the field of the node. -/
structure Comparison where
  param : String
  field : String
deriving DecidableEq, Repr

def Comparison.ofField (field : Field) : Comparison :=
  ⟨field.paramName, field.name⟩

/-- What an updater passes to the constructor. -/
inductive Argument where
  | param (name : String)
  /-- A field of the old node. -/
  | oldField (name : String)
deriving DecidableEq, Repr

def Argument.ofField (field : Field) : Argument :=
  if field.isFactoryOnly then .oldField field.name else .param field.paramName

/-- A function that changes fields of a node. -/
structure Updater where
  kind : String
  declaringType : String
  parameters : List Parameter
  comparisons : List Comparison
  arguments : List Argument
deriving DecidableEq, Repr

/-- The fields that an updater compares. -/
def NodeKind.compared (kind : NodeKind) : List Field :=
  kind.fields.filter fun field => !field.isFactoryOnly

/-- The updater of a kind that has children and a field to compare. -/
def Updater.ofKind? (kind : NodeKind) : Option Updater :=
  if kind.hasChildren && !kind.compared.isEmpty then
    some {
      kind := kind.name
      declaringType := kind.declaringType
      parameters := kind.compared.map Parameter.ofField
      comparisons := kind.compared.map Comparison.ofField
      arguments := kind.fields.map Argument.ofField }
  else none

end NodeFactory
