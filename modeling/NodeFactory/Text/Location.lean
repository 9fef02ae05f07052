import NodeFactory.Text.Span

/-!
# Lines and columns

A line ends at a line feed, at a carriage return, and once at the pair of both. Lines and columns
count from one, and a column counts characters. An offset past the end stands for the end.
-/

namespace NodeFactory.Text

structure Location where
  line : Nat
  column : Nat
  offset : Nat
deriving DecidableEq, Repr

namespace Location

/-- The line and column reached from `line` and `column` by reading the characters. A carriage
return directly before a line feed leaves the end of the line to the line feed. -/
def advance (line column : Nat) : List Char → Nat × Nat
  | [] => (line, column)
  | c :: cs =>
    if c = '\r' ∧ cs.head? = some '\n' then advance line column cs
    else if c = '\n' ∨ c = '\r' then advance (line + 1) 1 cs
    else advance line (column + 1) cs

/-- The location of a byte offset. Inside a character it is the location after that character. -/
def ofOffset (text : List Char) (offset : Nat) : Location :=
  let stop := min offset (byteLength text)
  let (line, column) := advance 1 1 (takeBytes stop text)
  { line, column, offset := stop }

/-- Line and column, as an error message states them. -/
def describe (location : Location) : String :=
  s!"{location.line}:{location.column}"

/-- Line, column and byte offset. -/
def describeFully (location : Location) : String :=
  s!"{location.line}:{location.column}({location.offset})"

end Location

end NodeFactory.Text
