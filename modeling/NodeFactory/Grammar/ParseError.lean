import NodeFactory.Token.Basic

/-!
# Parse errors

A text has lexical errors, one for each malformed piece, and errors of the grammar. The latter say
which kinds of token were looked for in vain at the place where another one was found.
-/

namespace NodeFactory

open Text

inductive ParseError where
  | unexpectedToken (expected : List TokenKind) (found : TokenKind) (span : Span)
  | unterminatedComment (span : Span)
  | unterminatedString (span : Span)
  | unknownToken (span : Span)
deriving DecidableEq, Repr

namespace ParseError

def span : ParseError → Span
  | unexpectedToken _ _ span | unterminatedComment span | unterminatedString span
  | unknownToken span => span

/-- The text of an error. Kinds that were looked for stand in the order in which they were tried,
as often as they were tried. -/
def message : ParseError → String
  | unexpectedToken expected found _ =>
    let kinds := ", ".intercalate (expected.map TokenKind.describe)
    s!"unexpected token (expected {kinds}, found {found.describe})"
  | unterminatedComment _ => "unterminated block comment"
  | unterminatedString _ => "unterminated string literal"
  | unknownToken _ => "unknown token"

/-- The error that a malformed piece of text is reported as. -/
def ofToken? (token : Token) : Option ParseError :=
  match token.kind with
  | .unterminatedComment => some (.unterminatedComment token.span)
  | .unterminatedString => some (.unterminatedString token.span)
  | .unknown => some (.unknownToken token.span)
  | _ => none

end ParseError

end NodeFactory
