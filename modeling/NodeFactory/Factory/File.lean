import NodeFactory.Factory.Function
import NodeFactory.Factory.IndentedText
import NodeFactory.Text.CharClass
import NodeFactory.Text.Span

/-!
# The factory file

The file holds, inside the namespaces of the settings, two helpers and the functions of each kind
in order. Parameter lists and conditions are broken before a piece that would reach the wrap
column; the lines that continue one are indented one level more.
-/

namespace NodeFactory

open Text

/-- A list that is being written, and whether its line was broken. -/
structure Wrapping where
  out : IndentedText
  isBroken : Bool
deriving DecidableEq, Repr

namespace Wrapping

/-- Writes a piece, on a new line if it would reach the wrap column. The first break indents. -/
def write (columnWrap : Nat) (list : Wrapping) (piece : String) : Wrapping :=
  if columnWrap ≤ list.out.column + piece.length then
    let out := list.out.endLine
    let out := if list.isBroken then out else out.indent
    ⟨out.write piece, true⟩
  else { list with out := list.out.write piece }

/-- Writes pieces, each after its separator, which stays on the line before. -/
def writeAll (columnWrap : Nat) (list : Wrapping) (pieces : List (String × String)) : Wrapping :=
  pieces.foldl (fun list (separator, piece) =>
    write columnWrap { list with out := list.out.write separator } piece) list

/-- Ends the line, and the indentation of continued lines with it. -/
def finish (list : Wrapping) : IndentedText :=
  if list.isBroken then list.out.endLine.outdent else list.out.endLine

end Wrapping

/-- Pieces with the separators between them. -/
def separatedBy (separator : String) : List String → List (String × String)
  | [] => []
  | piece :: pieces => ("", piece) :: pieces.map (separator, ·)

/-- The end of the header of a function that gives a node. -/
def headerEnd (declaringType : String) : String :=
  "): " ++ declaringType ++ " \x7b"

namespace Store

def text : Store → String
  | field name param => s!"node.{name} = {param};"
  | modifiers param => s!"setModifiers(node, {param});"

end Store

namespace Argument

def text : Argument → String
  | param name => name
  | oldField name => "node." ++ name

end Argument

namespace Constructor

def header (config : Config) (function : Constructor) (out : IndentedText) : IndentedText :=
  let parameters := function.parameters.map fun param => s!"{param.name}?: {param.type}"
  let pieces := separatedBy ", " parameters ++ [("", headerEnd function.declaringType)]
  let out := out.write s!"export function create{function.kind}("
  (Wrapping.writeAll config.output.columnWrap ⟨out, false⟩ pieces).finish

/-- The call that makes a node without fields. -/
def creation (config : Config) (function : Constructor) : String :=
  s!"createNode<{function.declaringType}>({config.wellKnown.kindEnum}.{function.kind});"

/-- The lines that store the parameters; a call without arguments stores none of several. -/
def storing (function : Constructor) (out : IndentedText) : IndentedText :=
  if 1 < function.stores.length then
    let out := (out.line "if (arguments.length) \x7b").indent
    let out := function.stores.foldl (fun out store => out.line store.text) out
    out.outdent.line "\x7d"
  else function.stores.foldl (fun out store => out.line store.text) out

def body (config : Config) (function : Constructor) (out : IndentedText) : IndentedText :=
  if function.stores.isEmpty then out.line ("return " ++ function.creation config)
  else
    let out := out.line ("let node = " ++ function.creation config)
    (function.storing out).line "return node;"

def render (config : Config) (function : Constructor) (out : IndentedText) : IndentedText :=
  let out := (function.header config out).indent
  (function.body config out).outdent.line "\x7d"

end Constructor

namespace Updater

def header (config : Config) (function : Updater) (out : IndentedText) : IndentedText :=
  let parameters := function.parameters.map fun param => (", ", s!"{param.name}: {param.type}")
  let pieces := parameters ++ [("", headerEnd function.declaringType)]
  let out := out.write s!"export function update{function.kind}(node: {function.declaringType}"
  (Wrapping.writeAll config.output.columnWrap ⟨out, false⟩ pieces).finish

def condition (config : Config) (function : Updater) (out : IndentedText) : IndentedText :=
  let comparisons := function.comparisons.map fun comparison =>
    s!"{comparison.param} !== node.{comparison.field}"
  let list := Wrapping.writeAll config.output.columnWrap ⟨out.write "if (", false⟩
    (separatedBy " || " comparisons)
  Wrapping.finish { list with out := list.out.write ") \x7b" }

def render (config : Config) (function : Updater) (out : IndentedText) : IndentedText :=
  let arguments := ", ".intercalate (function.arguments.map Argument.text)
  let out := (function.header config out).indent
  let out := (function.condition config out).indent
  let out := out.line s!"let newNode = create{function.kind}({arguments});"
  let out := out.line "return updateFrom(node, newNode);"
  let out := (out.outdent.line "\x7d").line "return node;"
  out.outdent.line "\x7d"

end Updater

/-- The lines of a text. A line feed ends one, with a carriage return directly before it. -/
def splitLines : List Char → List (List Char)
  | [] => []
  | '\n' :: cs => [] :: splitLines cs
  | '\r' :: '\n' :: cs => [] :: splitLines cs
  | c :: cs =>
    match splitLines cs with
    | [] => [[c]]
    | line :: lines => (c :: line) :: lines

/-- The helpers that the functions call, indented by four spaces to a level. -/
def helperText (names : WellKnownNames) : String :=
  let node := names.node
  let modifiers := names.modifiersArray
  "\n".intercalate [
    s!"function setModifiers(node: {node}, modifiers: {modifiers}) \x7b",
    "    if (modifiers) \x7b",
    "        node.flags |= modifiers.flags;",
    "        node.modifiers = modifiers;",
    "    \x7d",
    "\x7d",
    s!"function updateFrom<T extends {node}>(oldNode: T, newNode: T): T \x7b",
    "    let flags = oldNode.flags;",
    "    if (oldNode.modifiers) \x7b",
    "        flags &= oldNode.modifiers.flags;",
    "    \x7d",
    "",
    "    if (newNode.modifiers) \x7b",
    "        flags |= newNode.modifiers.flags;",
    "    \x7d",
    "",
    "    newNode.flags = flags;",
    "    newNode.pos = oldNode.pos;",
    "    newNode.end = oldNode.end;",
    "    newNode.parent = oldNode.parent;",
    "    return newNode;",
    "\x7d"]

/-- Writes the lines of the helpers with the indentation of the file. An empty line is indented like
the line before it, whose depth is `depth`. -/
def renderHelperLines (depth : Nat) (out : IndentedText) : List (List Char) → IndentedText
  | [] => out
  | line :: lines =>
    let text := line.dropWhile isWhiteSpace
    let depth := if text.isEmpty then depth
      else byteLength (line.takeWhile isWhiteSpace) / 4
    let inner := out.times depth IndentedText.indent
    let inner := if text.isEmpty then inner.startLine.endLine
      else inner.line (String.ofList text)
    renderHelperLines depth (inner.times depth IndentedText.outdent) lines

def renderHelpers (config : Config) (out : IndentedText) : IndentedText :=
  renderHelperLines 0 out (splitLines (helperText config.wellKnown).toList)

/-- Writes the functions of a kind. The root kind has none. -/
def NodeKind.render (config : Config) (out : IndentedText) (kind : NodeKind) : IndentedText :=
  if kind.name = config.output.rootKind then out
  else
    let out := (Constructor.ofKind kind).render config out
    match Updater.ofKind? kind with
    | some function => function.render config out
    | none => out

/-- Opens a namespace; every one but the outermost is exported. -/
def openNamespace (exported : String) (out : IndentedText) (name : String) : IndentedText :=
  (out.line s!"{exported}namespace {name} \x7b").indent

def openNamespaces (out : IndentedText) : List String → IndentedText
  | [] => out
  | name :: names => names.foldl (openNamespace "export ") (openNamespace "" out name)

/-- The beginning of the file, up to the functions of the first kind. -/
def renderHeader (config : Config) : IndentedText :=
  let output := config.output
  let out := (IndentedText.empty output.newLine.text output.indentSize).line
    "// <auto-generated />"
  let out := output.references.foldl (fun out path =>
    out.line s!"/// <reference path=\"{path}\" />") out
  renderHelpers config (openNamespaces out output.namespaces)

/-- The factory file for kinds, in their order. -/
def renderFile (config : Config) (kinds : List NodeKind) : String :=
  let out := kinds.foldl (NodeKind.render config) (renderHeader config)
  (out.times config.output.namespaces.length fun out => out.outdent.line "\x7d").text

end NodeFactory
