import NodeFactory.Config.Basic
import NodeFactory.Grammar.Statement
import NodeFactory.Symbol.Binding
import NodeFactory.Symbol.WellKnown

/-!
# Models

A model is what classification works on: the text of a schema, its bound declarations, and the
settings with the declarations they name.
-/

namespace NodeFactory

open Text

structure Model where
  config : Config
  text : List Char
  table : SymbolTable
  wellKnown : WellKnown

namespace Model

/-- The model of a schema; whether the schema has errors makes no difference. -/
def ofSchema (config : Config) (schema : Schema) : Model :=
  let table := SymbolTable.ofStatements schema.statements
  { config, text := schema.text, table, wellKnown := .find table config.wellKnown }

/-- The text that a span covers. -/
def textOf (model : Model) (span : Span) : List Char :=
  slice model.text span

end Model

end NodeFactory
