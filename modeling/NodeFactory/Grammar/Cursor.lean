import NodeFactory.Grammar.Lexeme
import NodeFactory.Grammar.ParseError

/-!
# The reading position

A cursor stands before the lexemes that are still to be read. It remembers where the last lexeme
ended, the kinds of token that were looked for here in vain, and the errors reported so far.
-/

namespace NodeFactory

open Text

structure Cursor where
  rest : List Lexeme
  /-- How many lexemes are left. -/
  size : Nat
  size_eq : size = rest.length
  /-- The end of the last lexeme read. -/
  lastEnd : Nat
  /-- The kinds looked for since the last lexeme was read, in order. -/
  expected : List TokenKind
  errors : List ParseError

namespace Cursor

/-- The cursor before the first of the tokens; malformed ones are reported at once. -/
def ofTokens (tokens : List Token) : Cursor where
  rest := Lexeme.ofTokens tokens
  size := (Lexeme.ofTokens tokens).length
  size_eq := rfl
  lastEnd := 0
  expected := []
  errors := tokens.filterMap ParseError.ofToken?

/-- The lexeme after `n` others. -/
def peek? (cursor : Cursor) (n : Nat) : Option Lexeme :=
  cursor.rest[n]?

/-- The kind of the lexeme after `n` others, `endOfFile` if there is none. -/
def kindAt (cursor : Cursor) (n : Nat) : TokenKind :=
  ((cursor.peek? n).map Lexeme.kind).getD .endOfFile

def kind (cursor : Cursor) : TokenKind := cursor.kindAt 0

/-- The text of the lexeme after `n` others. -/
def textAt (cursor : Cursor) (n : Nat) : List Char :=
  ((cursor.peek? n).map Lexeme.text).getD []

/-- Reads one lexeme, if one is left. What was looked for before it no longer counts. -/
def next (cursor : Cursor) : Cursor :=
  match h : cursor.rest with
  | [] => { cursor with expected := [] }
  | lexeme :: lexemes =>
    { rest := lexemes
      size := cursor.size - 1
      size_eq := by simp [cursor.size_eq, h]
      lastEnd := lexeme.span.stop
      expected := []
      errors := cursor.errors }

/-- Reads `n` lexemes. -/
def skip : Nat → Cursor → Cursor
  | 0, cursor => cursor
  | n + 1, cursor => skip n cursor.next

def expect (cursor : Cursor) (kinds : List TokenKind) : Cursor :=
  { cursor with expected := cursor.expected ++ kinds }

def report (cursor : Cursor) (error : ParseError) : Cursor :=
  { cursor with errors := cursor.errors ++ [error] }

/-- The error that the next lexeme is not what was looked for. At the end it has an empty span. -/
def unexpected (cursor : Cursor) : ParseError :=
  match cursor.peek? 0 with
  | some lexeme => .unexpectedToken cursor.expected lexeme.kind lexeme.span
  | none => .unexpectedToken cursor.expected .endOfFile ⟨cursor.lastEnd, cursor.lastEnd⟩

/-- Where the next lexeme begins. -/
def start (cursor : Cursor) : Nat :=
  ((cursor.peek? 0).map fun lexeme => lexeme.span.start).getD cursor.lastEnd

/-- The comments that lead the next lexeme. -/
def comments (cursor : Cursor) : List Span :=
  ((cursor.peek? 0).map Lexeme.comments).getD []

def startsLine (cursor : Cursor) : Bool :=
  ((cursor.peek? 0).map Lexeme.startsLine).getD false

end Cursor

end NodeFactory
