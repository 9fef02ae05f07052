import NodeFactory.Binary64.Decimal
import NodeFactory.Field.Basic
import NodeFactory.Symbol.Table

/-!
# Node kinds

A kind is a member of the kind enum for which functions are made, with the type that declares its
shape and the fields that its functions take.
-/

namespace NodeFactory

structure NodeKind where
  name : String
  /-- The constant of the enum member. -/
  value : Option Binary64
  symbol : SymbolId
  declaringType : String
  fields : List Field
  hasChildren : Bool
  requiredCount : Nat
deriving DecidableEq

/-- A line for a field, as listings show it. -/
def Field.describe (field : Field) : String :=
  let mark := if field.isOptional then "?" else ""
  let only := if field.isFactoryOnly then ", factory only" else ""
  s!"    {field.name}{mark}: {field.typeText} [{field.fieldClass.describe}{only}]\n"

namespace NodeKind

/-- The lines that list a kind and its fields. -/
def describe (kind : NodeKind) : String :=
  let value := match kind.value with
    | some value => " = " ++ value.toText
    | none => ""
  s!"{kind.name}{value} ({kind.declaringType}, min arguments {kind.requiredCount})\n" ++
    String.join (kind.fields.map Field.describe)

/-- Whether a constant does not come after another: in the total order of numbers, and an absent one
last. -/
def valueLe : Option Binary64 → Option Binary64 → Bool
  | some a, some b => a.rank ≤ b.rank
  | none, some _ => false
  | _, none => true

end NodeKind

end NodeFactory
