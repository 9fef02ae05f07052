import NodeFactory.Token.Basic

/-!
# Lexemes

The grammar reads the tokens that are not trivia, each with the gap of trivia before it. The gap
decides which comments lead a declaration and whether the token continues the line before it.
-/

namespace NodeFactory

open Text

structure Lexeme where
  token : Token
  /-- The trivia between the lexeme before and this one. -/
  gap : List Token
  /-- Whether no lexeme comes before. -/
  isFirst : Bool
deriving DecidableEq, Repr

namespace Lexeme

def kind (lexeme : Lexeme) : TokenKind := lexeme.token.kind

def span (lexeme : Lexeme) : Span := lexeme.token.span

def text (lexeme : Lexeme) : List Char := lexeme.token.text

/-- The comments of the gap that do not trail the lexeme before: those after the first end of line,
and all of them where no lexeme comes before. -/
def comments (lexeme : Lexeme) : List Span :=
  let leading :=
    if lexeme.isFirst then lexeme.gap
    else lexeme.gap.dropWhile fun token => token.kind != .endOfLine
  (leading.filter fun token => token.kind.isComment).map Token.span

def startsLine (lexeme : Lexeme) : Bool :=
  lexeme.gap.any fun token => token.kind == .endOfLine

/-- Whether the lexeme stands directly after the lexeme before. -/
def isGlued (lexeme : Lexeme) : Bool :=
  lexeme.gap.isEmpty

/-- The lexemes among tokens that follow a gap. -/
def ofTokensFrom (isFirst : Bool) (gap : List Token) : List Token → List Lexeme
  | [] => []
  | token :: tokens =>
    if token.kind.isTrivia then ofTokensFrom isFirst (gap ++ [token]) tokens
    else ⟨token, gap, isFirst⟩ :: ofTokensFrom false [] tokens

/-- The lexemes of a text, given by its tokens; malformed pieces do not interrupt a gap. -/
def ofTokens (tokens : List Token) : List Lexeme :=
  ofTokensFrom true [] (tokens.filter fun token => !token.kind.isMalformed)

end Lexeme

end NodeFactory
