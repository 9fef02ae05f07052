import NodeFactory.CommandLine.Arguments
import NodeFactory.CommandLine.FileStore
import NodeFactory.Config.Reading
import NodeFactory.Generation
import NodeFactory.Text.Location

/-!
# Running a command

A command reads the settings, then the schema, and then compares, writes or lists. It is run on
whatever files a `FileStore` gives access to, and ends with an outcome, of which the report is the
text and the exit code.
-/

namespace NodeFactory

open Text

inductive Failure where
  | unreadableConfig (path : String) (error : FileError)
  | invalidConfig (path : String)
  | unreadableSchema (path : String) (error : FileError)
  | parse (path : String) (text : List Char) (errors : List ParseError)
  | analysis (path : String) (error : AnalysisError)
  | noDirectory (path : String) (error : FileError)
  | unwritable (path : String) (error : FileError)
  | unreadableOutput (path : String) (error : FileError)
  | outOfDate (path : String)

namespace Failure

def quote (path : String) : String := s!"\x60{path}\x60"

/-- What is printed: for errors in the text of a schema a line for each, and a line that closes. -/
def message : Failure → String
  | unreadableConfig path error => s!"failed to read config {quote path}: {error.message}"
  | invalidConfig path => s!"invalid config {quote path}"
  | unreadableSchema path error => s!"failed to read schema {quote path}: {error.message}"
  | parse path text errors =>
    let lines := errors.map fun error =>
      let location := (Location.ofOffset text error.span.start).describe
      s!"{path}:{location}: {error.message}\n"
    String.join lines ++ s!"failed to parse schema {quote path}"
  | analysis path error => s!"failed to process {quote path}: {error.message}"
  | noDirectory path error => s!"failed to create {quote path}: {error.message}"
  | unwritable path error => s!"failed to write {quote path}: {error.message}"
  | unreadableOutput path error => s!"failed to read output {quote path}: {error.message}"
  | outOfDate path => s!"{quote path} is out of date, run {quote updating} to update it"
where
  /-- The command that brings a factory file up to date. -/
  updating : String := "factorygen generate"

def ofAnalysis (path : String) (text : List Char) : AnalysisError → Failure
  | .parse errors => .parse path text errors
  | error => .analysis path error

end Failure

inductive Outcome where
  | done (output : String)
  | failed (failure : Failure)
  /-- The arguments give no command. -/
  | misused

structure Report where
  exitCode : Nat
  stdout : String
  stderr : String
deriving DecidableEq, Repr

def Outcome.report : Outcome → Report
  | done output => ⟨0, output, ""⟩
  | failed failure => ⟨1, "", failure.message ++ "\n"⟩
  | misused => ⟨2, "", "usage: factorygen [generate|check|dump] [OPTIONS]\n"⟩

namespace Command

/-- Where a schema is read from if no input is given. -/
def defaultInput : String := "src/compiler/types.ts"

/-- Where a factory file is written if no output is given. -/
def defaultOutput : String := "src/compiler/factory.generated.ts"

variable {m : Type → Type} [Monad m]

def readConfig (store : FileStore m) : Option String → ExceptT Failure m Config
  | none => return {}
  | some path => do
    let text ← (store.readText path).adapt (.unreadableConfig path)
    match Config.parse? text.toList with
    | some config => return config
    | none => throw (.invalidConfig path)

/-- Reads a schema and applies a function such as `analyze` to it. -/
def process (store : FileStore m) (path : String)
    (run : List Char → Except AnalysisError α) : ExceptT Failure m α := do
  let text ← (store.readText path).adapt (.unreadableSchema path)
  match run text.toList with
  | .ok result => return result
  | .error error => throw (.ofAnalysis path text.toList error)

/-- Writes a file, and makes the directories that it lies in. -/
def writeOutput (store : FileStore m) (path text : String) : ExceptT Failure m Unit := do
  if let some directory := FileStore.parent? path then
    (store.makeDirectories directory).adapt (.noDirectory directory)
  (store.writeText path text).adapt (.unwritable path)

/-- Fails unless the file at a path has a text; a file that is missing has none. -/
def compareOutput (store : FileStore m) (path text : String) : ExceptT Failure m Unit := do
  match ← (store.readText path).run with
  | .ok present => if present != text then throw (.outOfDate path)
  | .error .notFound => throw (.outOfDate path)
  | .error error => throw (.unreadableOutput path error)

/-- Carries a command out and gives what it prints. -/
def execute (store : FileStore m) (command : Command) : ExceptT Failure m String := do
  let input := command.input.getD defaultInput
  let output := command.output.getD defaultOutput
  let config ← readConfig store command.config
  match command.verb with
  | .generate =>
    writeOutput store output (← process store input (generate config))
    return ""
  | .check =>
    compareOutput store output (← process store input (generate config))
    return ""
  | .dump =>
    let kinds ← process store input (analyze config)
    return String.join (kinds.map NodeKind.describe)

/-- Runs the command that arguments give. -/
def run (store : FileStore m) (arguments : List String) : m Outcome := do
  match ofArguments? arguments with
  | none => return .misused
  | some command =>
    match ← (command.execute store).run with
    | .ok output => return .done output
    | .error failure => return .failed failure

end Command

end NodeFactory
