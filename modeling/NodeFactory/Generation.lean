import NodeFactory.Analysis
import NodeFactory.Factory.File

/-!
# Generation

The factory file of a schema is the file for the kinds that its analysis finds.
-/

namespace NodeFactory

def generate (config : Config) (text : List Char) : Except AnalysisError String :=
  (analyze config text).map (renderFile config)

end NodeFactory
