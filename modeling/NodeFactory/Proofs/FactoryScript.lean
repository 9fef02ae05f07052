import NodeFactory.Proofs.ScriptLanguage

/-!
# The functions as scripts

The helpers, constructors and updaters are functions of the script language. What the factory file
has between the header of a function and its closing brace is the body of the script, statement by
statement (`constructor_render`, `updater_render`), and the text of the helpers is that of their
scripts (`helperText_eq`).
-/

namespace NodeFactory

open Script

namespace Script

def setModifiers : Function where
  name := "setModifiers"
  parameters := ["node", "modifiers"]
  body := [.cond (.holds (.var "modifiers")) [
    .assign (.field "node" "flags") .union ⟨"modifiers", ["flags"]⟩,
    .assign (.field "node" "modifiers") .set (.var "modifiers")]]

def updateFrom : Function where
  name := "updateFrom"
  parameters := ["oldNode", "newNode"]
  body := [
    .act (.declare "flags" (.read ⟨"oldNode", ["flags"]⟩)),
    .cond (.holds ⟨"oldNode", ["modifiers"]⟩) [
      .assign (.var "flags") .inter ⟨"oldNode", ["modifiers", "flags"]⟩],
    .blank,
    .cond (.holds ⟨"newNode", ["modifiers"]⟩) [
      .assign (.var "flags") .union ⟨"newNode", ["modifiers", "flags"]⟩],
    .blank,
    .act (.assign (.field "newNode" "flags") .set (.var "flags")),
    .act (.assign (.field "newNode" "pos") .set ⟨"oldNode", ["pos"]⟩),
    .act (.assign (.field "newNode" "end") .set ⟨"oldNode", ["end"]⟩),
    .act (.assign (.field "newNode" "parent") .set ⟨"oldNode", ["parent"]⟩),
    .act (.give (.read (.var "newNode")))]

end Script

def Store.action : Store → Action
  | field name param => .assign (.field "node" name) .set (.var param)
  | modifiers param => .invoke ⟨"setModifiers", none, [.var "node", .var param]⟩

/-- Several parameters are stored only if there are arguments. -/
def storing (stores : List Store) : List Script.Statement :=
  if 1 < stores.length then [.cond .hasArguments (stores.map Store.action)]
  else stores.map fun store => .act store.action

def Constructor.creating (config : Config) (function : Constructor) : Call :=
  ⟨"createNode", some function.declaringType, [⟨config.wellKnown.kindEnum, [function.kind]⟩]⟩

def Constructor.script (config : Config) (function : Constructor) : Function where
  name := "create" ++ function.kind
  parameters := function.parameters.map Parameter.name
  body :=
    if function.stores.isEmpty then [.act (.give (.result (function.creating config)))]
    else .act (.declare "node" (.result (function.creating config)))
      :: (NodeFactory.storing function.stores ++ [.act (.give (.read (.var "node")))])

def Argument.path : Argument → Script.Path
  | param name => .var name
  | oldField name => ⟨"node", [name]⟩

def Comparison.paths (comparison : Comparison) : Script.Path × Script.Path :=
  (.var comparison.param, ⟨"node", [comparison.field]⟩)

def Updater.script (function : Updater) : Function where
  name := "update" ++ function.kind
  parameters := "node" :: function.parameters.map Parameter.name
  body := [
    .cond (.differs (function.comparisons.map Comparison.paths)) [
      .declare "newNode" (.result ⟨"create" ++ function.kind, none,
        function.arguments.map Argument.path⟩),
      .give (.result ⟨"updateFrom", none, [.var "node", .var "newNode"]⟩)],
    .act (.give (.read (.var "node")))]

/-- The functions of a kind, behind the helpers that they call. The kind enum is an object. -/
def NodeKind.program (config : Config) (kind : NodeKind) (kindEnum : Nat) : Program where
  functions := setModifiers :: updateFrom :: (Constructor.ofKind kind).script config
    :: (Updater.ofKind? kind).toList.map Updater.script
  globals := [(config.wellKnown.kindEnum, .object kindEnum)]

section Written

variable (config : Config)

theorem store_text (store : Store) : store.action.text = store.text := by
  cases store with
  | field name param =>
    change "node" ++ "." ++ name ++ " = " ++ param ++ ";" = "node." ++ name ++ " = " ++ param ++ ";"
    simp
  | modifiers param =>
    change "setModifiers" ++ "" ++ "(" ++ ("node" ++ ", " ++ param) ++ ")" ++ ";"
      = "setModifiers(node, " ++ param ++ ");"
    simp [← String.toList_inj]

theorem creating_text (function : Constructor) :
    (function.creating config).text ++ ";" = function.creation config := by
  change "createNode" ++ ("<" ++ function.declaringType ++ ">") ++ "("
      ++ (config.wellKnown.kindEnum ++ "." ++ function.kind) ++ ")" ++ ";"
    = "createNode<" ++ function.declaringType ++ ">(" ++ config.wellKnown.kindEnum ++ "."
      ++ function.kind ++ ");"
  simp [← String.toList_inj]

theorem storing_render (function : Constructor) (out : IndentedText) :
    (storing function.stores).foldl (Script.Statement.render config) out
      = function.storing out := by
  unfold storing Constructor.storing
  split
  · simp only [List.foldl_cons, List.foldl_nil, Script.Statement.render, List.foldl_map, store_text]
    rfl
  · simp only [List.foldl_map, Script.Statement.render, store_text]

theorem constructor_render (function : Constructor) (out : IndentedText) :
    function.render config out
      = (((function.script config).body.foldl (Script.Statement.render config)
        (function.header config out).indent).outdent.line "\x7d") := by
  unfold Constructor.render Constructor.body Constructor.script
  simp only []
  split
  · rw [List.foldl_cons, List.foldl_nil, Script.Statement.render, Action.text, Expr.text,
      String.append_assoc, creating_text]
  · rw [List.foldl_cons, List.foldl_append, storing_render, Script.Statement.render, Action.text,
      Expr.text, String.append_assoc, creating_text]
    rfl

theorem argument_text (argument : Argument) : argument.path.text = argument.text := by
  cases argument with
  | param name => rfl
  | oldField name =>
    change "node" ++ "." ++ name = "node." ++ name
    simp

theorem comparison_text (comparison : Comparison) :
    comparison.paths.1.text ++ " !== " ++ comparison.paths.2.text
      = s!"{comparison.param} !== node.{comparison.field}" := by
  change comparison.param ++ " !== " ++ ("node" ++ "." ++ comparison.field)
    = comparison.param ++ " !== node." ++ comparison.field
  simp [← String.toList_inj]

theorem condition_render (function : Updater) (out : IndentedText) :
    (Condition.differs (function.comparisons.map Comparison.paths)).render config out
      = function.condition config out := by
  unfold Condition.render Condition.pieces Updater.condition
  simp only [List.map_map, Function.comp_def, comparison_text]

theorem construction_text (function : Updater) :
    (Action.declare "newNode" (.result ⟨"create" ++ function.kind, none,
        function.arguments.map Argument.path⟩)).text
      = "let newNode = create" ++ function.kind ++ "("
        ++ ", ".intercalate (function.arguments.map Argument.text) ++ ");" := by
  have harguments : (function.arguments.map Argument.path).map Script.Path.text
      = function.arguments.map Argument.text := by
    simp only [List.map_map, Function.comp_def, argument_text]
  change "let " ++ "newNode" ++ " = " ++ ("create" ++ function.kind ++ "" ++ "("
    ++ ", ".intercalate ((function.arguments.map Argument.path).map Script.Path.text) ++ ")")
    ++ ";" = _
  rw [harguments]
  simp [← String.toList_inj]

theorem updater_render (function : Updater) (out : IndentedText) :
    function.render config out
      = ((function.script.body.foldl (Script.Statement.render config)
        (function.header config out).indent).outdent.line "\x7d") := by
  unfold Updater.render Updater.script
  simp only [List.foldl_cons, List.foldl_nil, Script.Statement.render, condition_render,
    construction_text]
  rfl

theorem helperText_eq (names : WellKnownNames) :
    helperText names = "\n".intercalate (
      ["function setModifiers(node: " ++ names.node ++ ", modifiers: " ++ names.modifiersArray
        ++ ") \x7b"]
      ++ setModifiers.body.flatMap Script.Statement.lines ++ ["\x7d"]
      ++ ["function updateFrom<T extends " ++ names.node ++ ">(oldNode: T, newNode: T): T \x7b"]
      ++ updateFrom.body.flatMap Script.Statement.lines ++ ["\x7d"]) := by
  rfl

end Written

end NodeFactory
