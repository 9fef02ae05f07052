import NodeFactory.Grammar.Statement
import NodeFactory.Kind.Discovery

/-!
# Analysis of a schema

A schema is analyzed if it can be read without errors and declares the kind enum.
-/

namespace NodeFactory

inductive AnalysisError where
  | parse (errors : List ParseError)
  | missingKindEnum (name : String)
  | cyclicType (name : String)
deriving DecidableEq, Repr

def AnalysisError.message : AnalysisError → String
  | parse errors => s!"schema has {errors.length} parse error(s)"
  | missingKindEnum name => s!"kind enumeration \x60{name}\x60 not found"
  | cyclicType name => s!"type \x60{name}\x60 is defined in terms of itself"

/-- The kinds of the schema with a text, in the order of their constants. -/
def analyze (config : Config) (text : List Char) : Except AnalysisError (List NodeKind) :=
  let schema := Schema.parse text
  if !schema.errors.isEmpty then .error (.parse schema.errors)
  else
    let model := Model.ofSchema config schema
    match model.wellKnown.kindEnum with
    | none => .error (.missingKindEnum config.wellKnown.kindEnum)
    | some kindEnum =>
      match model.kinds kindEnum with
      | .ok kinds => .ok kinds
      | .error cycle => .error (.cyclicType cycle.name)

end NodeFactory
