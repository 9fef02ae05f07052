/-!
# Fields

A field of a node kind becomes a parameter of the functions made for the kind. Its class says
whether it holds child nodes, and how it is stored.
-/

namespace NodeFactory

inductive FieldClass where
  | plain
  | node
  | nodeArray
  | modifiersArray
deriving DecidableEq, Repr

namespace FieldClass

def isChild : FieldClass → Bool
  | plain => false
  | node | nodeArray | modifiersArray => true

def describe : FieldClass → String
  | plain => "plain"
  | node => "node"
  | nodeArray => "node array"
  | modifiersArray => "modifiers array"

end FieldClass

structure Field where
  name : String
  /-- The declared type, as it is written in the schema. -/
  typeText : String
  isOptional : Bool
  fieldClass : FieldClass
  /-- Passed to the constructor, but not compared by the updater. -/
  isFactoryOnly : Bool
deriving DecidableEq, Repr

/-- The name of the parameter for a field. In a function `arguments` has a meaning of its own. -/
def Field.paramName (field : Field) : String :=
  if field.name = "arguments" then "_arguments" else field.name

end NodeFactory
