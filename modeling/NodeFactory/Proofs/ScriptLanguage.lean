import NodeFactory.Factory.File

/-!
# The language of the functions

The functions of the factory file are written in a small language of variables, objects with fields,
and calls. A function runs in a scope of variables and on a heap of objects. A variable of a block
is there from the beginning of the block, but has no value before its declaration is carried out. A
variable hides the function of its name, and no value can be called.

Flags are sets of 32 bits. What is no number counts as the empty set where bits are combined.
-/

namespace NodeFactory.Script

section Syntax

/-- A variable, or a field of what a path leads to. -/
structure Path where
  root : String
  fields : List String
deriving DecidableEq

structure Call where
  function : String
  typeArgument : Option String
  arguments : List Path
deriving DecidableEq

inductive Expr where
  | read (path : Path)
  | result (call : Call)
deriving DecidableEq

inductive Operator where
  | set
  | union
  | inter
deriving DecidableEq

inductive Target where
  | var (name : String)
  | field (object name : String)
deriving DecidableEq

inductive Action where
  | declare (name : String) (value : Expr)
  | assign (target : Target) (operator : Operator) (value : Path)
  | invoke (call : Call)
  | give (value : Expr)
deriving DecidableEq

inductive Condition where
  | holds (path : Path)
  /-- The function is called with at least one argument. -/
  | hasArguments
  /-- Two paths of one of the pairs lead to different values. -/
  | differs (pairs : List (Path × Path))
deriving DecidableEq

inductive Statement where
  | act (action : Action)
  | cond (condition : Condition) (body : List Action)
  | blank
deriving DecidableEq

structure Function where
  name : String
  parameters : List String
  body : List Statement
deriving DecidableEq

def Path.var (name : String) : Path := ⟨name, []⟩

end Syntax

section Text

def Path.text (path : Path) : String :=
  path.fields.foldl (fun text field => text ++ "." ++ field) path.root

def Call.text (call : Call) : String :=
  let typeArgument := match call.typeArgument with
    | some type => "<" ++ type ++ ">"
    | none => ""
  call.function ++ typeArgument ++ "(" ++ ", ".intercalate (call.arguments.map Path.text) ++ ")"

def Expr.text : Expr → String
  | read path => path.text
  | result call => call.text

def Operator.text : Operator → String
  | set => " = "
  | union => " |= "
  | inter => " &= "

def Target.text : Target → String
  | var name => name
  | field object name => object ++ "." ++ name

def Action.text : Action → String
  | declare name value => "let " ++ name ++ " = " ++ value.text ++ ";"
  | assign target operator value => target.text ++ operator.text ++ value.text ++ ";"
  | invoke call => call.text ++ ";"
  | give value => "return " ++ value.text ++ ";"

/-- The pieces of a condition, each after its separator. -/
def Condition.pieces : Condition → List (String × String)
  | holds path => [("", path.text)]
  | hasArguments => [("", "arguments.length")]
  | differs pairs => separatedBy " || " (pairs.map fun (a, b) => a.text ++ " !== " ++ b.text)

def Condition.text (condition : Condition) : String :=
  String.join (condition.pieces.map fun (separator, piece) => separator ++ piece)

/-- Writes the line that begins a block. Comparisons are broken like parameter lists. -/
def Condition.render (config : Config) (condition : Condition) (out : IndentedText) :
    IndentedText :=
  match condition with
  | differs _ =>
    let list := Wrapping.writeAll config.output.columnWrap ⟨out.write "if (", false⟩
      condition.pieces
    Wrapping.finish { list with out := list.out.write ") \x7b" }
  | _ => out.line ("if (" ++ condition.text ++ ") \x7b")

/-- Writes a statement with the indentation of the file. -/
def Statement.render (config : Config) (out : IndentedText) : Statement → IndentedText
  | act action => out.line action.text
  | cond condition body =>
    let out := (condition.render config out).indent
    (body.foldl (fun out action => out.line action.text) out).outdent.line "\x7d"
  | blank => out.startLine.endLine

/-- The lines of a statement in a function, indented by four spaces to a level. -/
def Statement.lines : Statement → List String
  | act action => ["    " ++ action.text]
  | cond condition body => ["    if (" ++ condition.text ++ ") \x7b"]
    ++ body.map (fun action => "        " ++ action.text) ++ ["    \x7d"]
  | blank => [""]

end Text

section Values

inductive Value where
  | undefined
  | object (id : Nat)
  | number (bits : BitVec 32)
deriving DecidableEq

namespace Value

def isTruthy : Value → Bool
  | undefined => false
  | object _ => true
  | number bits => bits ≠ 0

def bits : Value → BitVec 32
  | number bits => bits
  | _ => 0

end Value

def Operator.apply (old new : Value) : Operator → Value
  | set => new
  | union => .number (old.bits ||| new.bits)
  | inter => .number (old.bits &&& new.bits)

/-- The fields of objects. Those numbered from `next` do not exist yet. -/
structure Heap where
  next : Nat
  field : Nat → String → Value

namespace Heap

def set (heap : Heap) (id : Nat) (name : String) (value : Value) : Heap where
  next := heap.next
  field other key := if other = id ∧ key = name then value else heap.field other key

/-- A new object, whose fields are undefined and which has no flags. -/
def new (heap : Heap) : Heap where
  next := heap.next + 1
  field id key :=
    if id = heap.next then (if key = "flags" then .number 0 else .undefined)
    else heap.field id key

end Heap

end Values

section Runs

inductive Failure where
  | notDefined (name : String)
  | notCallable (name : String)
  | noFields
  /-- Calls are nested more deeply than is looked. -/
  | tooDeep
deriving DecidableEq

abbrev Exec := EStateM Failure Heap

/-- The variables that are there, innermost first; one without a value is not declared yet. -/
abbrev Scope := List (String × Option Value)

/-- What a function finds outside of it. -/
structure Context where
  globals : List (String × Value)
  call : String → List Value → Exec Value

/-- Where actions lead: behind them, with the variables as they are then, or out of the function. -/
inductive Flow where
  | next (scope : Scope)
  | done (value : Value)

def Scope.set : Scope → String → Value → Scope
  | [], _, _ => []
  | (name', old) :: scope, name, value =>
    if name' = name then (name', some value) :: scope else (name', old) :: set scope name value

def Action.declared? : Action → Option (String × Option Value)
  | declare name _ => some (name, none)
  | _ => none

/-- The variables of a block as it begins. -/
def declared (body : List Action) : Scope :=
  body.filterMap Action.declared?

variable (context : Context)

def readVar (scope : Scope) (name : String) : Exec Value :=
  match scope.lookup name with
  | some (some value) => pure value
  | some none => throw (.notDefined name)
  | none =>
    match context.globals.lookup name with
    | some value => pure value
    | none => throw (.notDefined name)

def readField (value : Value) (name : String) : Exec Value :=
  match value with
  | .undefined => throw .noFields
  | .object id => fun heap => .ok (heap.field id name) heap
  | .number _ => pure .undefined

def writeField (object : Value) (name : String) (value : Value) : Exec Unit :=
  match object with
  | .undefined => throw .noFields
  | .object id => fun heap => .ok () (heap.set id name value)
  | .number _ => pure ()

def Path.read (scope : Scope) (path : Path) : Exec Value := do
  path.fields.foldlM readField (← readVar context scope path.root)

def Call.run (scope : Scope) (call : Call) : Exec Value := do
  let arguments ← call.arguments.mapM (Path.read context scope)
  if (scope.lookup call.function).isSome then throw (.notCallable call.function)
  context.call call.function arguments

def Expr.run (scope : Scope) : Expr → Exec Value
  | read path => path.read context scope
  | result call => call.run context scope

def Target.assign (scope : Scope) (operator : Operator) (value : Path) : Target → Exec Scope
  | var name => do
    let old ← readVar context scope name
    return scope.set name (operator.apply old (← value.read context scope))
  | field object name => do
    let object ← readVar context scope object
    let old ← readField object name
    writeField object name (operator.apply old (← value.read context scope))
    return scope

def Action.run (scope : Scope) : Action → Exec Flow
  | declare name value => return .next (scope.set name (← value.run context scope))
  | assign target operator value => return .next (← target.assign context scope operator value)
  | invoke call => do
    let _ ← call.run context scope
    return .next scope
  | give value => return .done (← value.run context scope)

def runActions (scope : Scope) : List Action → Exec Flow
  | [] => return .next scope
  | action :: actions => do
    match ← action.run context scope with
    | .next scope => runActions scope actions
    | .done value => return .done value

/-- Runs a block, behind which its own variables are gone. -/
def runBlock (scope : Scope) (body : List Action) : Exec Flow := do
  match ← runActions context (declared body ++ scope) body with
  | .next scope => return .next (scope.drop (declared body).length)
  | .done value => return .done value

/-- The first pair of paths to different values decides. -/
def anyDiffers (scope : Scope) : List (Path × Path) → Exec Bool
  | [] => return false
  | (a, b) :: pairs => do
    let value ← a.read context scope
    if value ≠ (← b.read context scope) then return true
    anyDiffers scope pairs

def Condition.run (scope : Scope) (arguments : List Value) : Condition → Exec Bool
  | holds path => return (← path.read context scope).isTruthy
  | hasArguments => return !arguments.isEmpty
  | differs pairs => anyDiffers context scope pairs

def Statement.run (scope : Scope) (arguments : List Value) : Statement → Exec Flow
  | act action => action.run context scope
  | cond condition body => do
    if ← condition.run context scope arguments then runBlock context scope body
    else return .next scope
  | blank => return .next scope

def runStatements (arguments : List Value) (scope : Scope) : List Statement → Exec Flow
  | [] => return .next scope
  | statement :: statements => do
    match ← statement.run context scope arguments with
    | .next scope => runStatements arguments scope statements
    | .done value => return .done value

/-- The parameters of a function with what it is called with; one that is left out is undefined. -/
def bindParameters : List String → List Value → Scope
  | [], _ => []
  | name :: names, values =>
    (name, some (values.headD .undefined)) :: bindParameters names values.tail

def Statement.action? : Statement → Option Action
  | act action => some action
  | _ => none

/-- The variables of a body as it begins, those of its blocks aside. -/
def declaredIn (body : List Statement) : Scope :=
  declared (body.filterMap Statement.action?)

def Function.run (function : Function) (arguments : List Value) : Exec Value := do
  let scope := declaredIn function.body ++ bindParameters function.parameters arguments
  match ← runStatements context arguments scope function.body with
  | .next _ => return .undefined
  | .done value => return value

end Runs

/-- The functions of a file, and the variables that are there besides. -/
structure Program where
  functions : List Function
  globals : List (String × Value)

def createNode : Exec Value :=
  fun heap => .ok (.object heap.next) heap.new

/-- Calls the last function of a name, or the one that makes nodes; calls nest up to a depth. -/
def Program.call (program : Program) : Nat → String → List Value → Exec Value
  | 0, _, _ => throw .tooDeep
  | depth + 1, name, arguments =>
    match program.functions.reverse.find? fun function => function.name = name with
    | some function => function.run ⟨program.globals, program.call depth⟩ arguments
    | none => if name = "createNode" then createNode else throw (.notDefined name)

end NodeFactory.Script
