/-!
# Indented text

Text is written line by line. The indentation of a line is written with its first piece, so that the
level may still change at the beginning of a line. The column is where the next piece goes, counting
characters from one.
-/

namespace NodeFactory

structure IndentedText where
  text : String
  newLine : String
  indentSize : Nat
  /-- How many levels a line is indented. -/
  level : Nat
  /-- The characters on the line, indentation included. -/
  lineLength : Nat
  /-- Whether nothing is written on the line. -/
  isLineStart : Bool
deriving DecidableEq, Repr

namespace IndentedText

def empty (newLine : String) (indentSize : Nat) : IndentedText :=
  { text := "", newLine, indentSize, level := 0, lineLength := 0, isLineStart := true }

/-- The spaces before a line at the level. -/
def margin (out : IndentedText) : Nat :=
  out.level * out.indentSize

/-- Writes the indentation if nothing is written on the line. -/
def startLine (out : IndentedText) : IndentedText :=
  if out.isLineStart then
    { out with
      text := out.text ++ String.ofList (List.replicate out.margin ' ')
      lineLength := out.margin
      isLineStart := false }
  else out

/-- Writes a piece on the line; an empty piece leaves even the indentation unwritten. -/
def write (out : IndentedText) (piece : String) : IndentedText :=
  if piece = "" then out
  else
    let out := out.startLine
    { out with text := out.text ++ piece, lineLength := out.lineLength + piece.length }

/-- Ends the line if anything is written on it. -/
def endLine (out : IndentedText) : IndentedText :=
  if out.isLineStart then out
  else { out with text := out.text ++ out.newLine, lineLength := 0, isLineStart := true }

def indent (out : IndentedText) : IndentedText :=
  { out with level := out.level + 1 }

/-- One level less; at the margin nothing changes. -/
def outdent (out : IndentedText) : IndentedText :=
  { out with level := out.level - 1 }

def column (out : IndentedText) : Nat :=
  (if out.isLineStart then out.margin else out.lineLength) + 1

/-- Writes a piece and ends the line. -/
def line (out : IndentedText) (piece : String) : IndentedText :=
  (out.write piece).endLine

/-- Applies a step `n` times. -/
def times (n : Nat) (step : IndentedText → IndentedText) (out : IndentedText) : IndentedText :=
  match n with
  | 0 => out
  | n + 1 => times n step (step out)

end IndentedText

end NodeFactory
