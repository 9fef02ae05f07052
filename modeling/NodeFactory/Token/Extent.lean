import NodeFactory.Text.CharClass
import NodeFactory.Token.Kind

/-!
# How far a token reaches

A token begins with a character and takes a number of the characters after it. `extent` gives its
kind and that number, so that cutting a text into tokens can lose nothing. Each function here
counts characters of the text that follows the point where it starts.
-/

namespace NodeFactory.Token

open Text

/-- The length of the longest initial run of characters of a class. -/
def runLength (p : Char → Bool) (cs : List Char) : Nat :=
  (cs.takeWhile p).length

/-- Digits of a number may be grouped by underscores anywhere. -/
def digitsLength (cs : List Char) : Nat :=
  runLength (fun c => isDecimalDigit c || c == '_') cs

def hexDigitsLength (cs : List Char) : Nat :=
  runLength (fun c => isHexDigit c || c == '_') cs

def signLength : List Char → Nat
  | c :: _ => if c = '+' ∨ c = '-' then 1 else 0
  | [] => 0

/-- An exponent is `e` or `E`, a sign that may be missing, and digits that may be missing. -/
def exponentLength : List Char → Nat
  | c :: cs =>
    if c = 'e' ∨ c = 'E' then
      let sign := signLength cs
      1 + sign + digitsLength (cs.drop sign)
    else 0
  | [] => 0

/-- A fraction is a dot and digits, unless a second dot follows the first. -/
def fractionLength : List Char → Nat
  | '.' :: '.' :: _ => 0
  | '.' :: cs => 1 + digitsLength cs
  | _ => 0

/-- Whole digits, a fraction and an exponent. -/
def decimalLength (cs : List Char) : Nat :=
  let whole := digitsLength cs
  let fraction := fractionLength (cs.drop whole)
  whole + fraction + exponentLength (cs.drop (whole + fraction))

/-- What belongs to a number after its first digit. A leading zero may announce a base; digits of
the wrong base are taken here and rejected when the number is read. -/
def numberLength (first : Char) : List Char → Nat
  | [] => 0
  | c :: cs =>
    if first = '0' ∧ c ∈ ['b', 'B', 'o', 'O'] then 1 + digitsLength cs
    else if first = '0' ∧ c ∈ ['x', 'X'] then 1 + hexDigitsLength cs
    else decimalLength (c :: cs)

/-- The length up to and with the first `*/`. -/
def commentEnd? : List Char → Option Nat
  | [] => none
  | '*' :: '/' :: _ => some 2
  | _ :: cs => (commentEnd? cs).map (· + 1)

/-- Whether a closing quote is found, and the length up to and with it. A backslash takes the
character after it along. A character at which the literal `breaks` ends it unterminated, and is
still part of it. -/
def quotedExtent (quote : Char) (breaks : Char → Bool) : List Char → Bool × Nat
  | [] => (false, 0)
  | c :: cs =>
    if c = quote then (true, 1)
    else if breaks c then (false, 1)
    else if c = '\\' then
      match cs with
      | [] => (false, 1)
      | _ :: rest =>
        let (closed, n) := quotedExtent quote breaks rest
        (closed, n + 2)
    else
      let (closed, n) := quotedExtent quote breaks cs
      (closed, n + 1)

def quotedToken (kind : TokenKind) : Bool × Nat → TokenKind × Nat
  | (true, n) => (kind, n)
  | (false, n) => (.unterminatedString, n)

/-- The kind of a token that is a single character. -/
def punctuation : Char → TokenKind
  | ',' => .comma
  | ';' => .semicolon
  | '(' => .openParen
  | ')' => .closeParen
  | '{' => .openBrace
  | '}' => .closeBrace
  | '[' => .openBracket
  | ']' => .closeBracket
  | '@' => .atSign
  | '~' => .tilde
  | '?' => .question
  | ':' => .colon
  | '!' => .exclamation
  | '<' => .less
  | '>' => .greater
  | '&' => .ampersand
  | '|' => .bar
  | '+' => .plus
  | '-' => .minus
  | '*' => .star
  | '%' => .percent
  | '^' => .caret
  | _ => .unknown

def slashExtent : List Char → TokenKind × Nat
  | '/' :: cs => (.lineComment, 1 + runLength (fun c => !isLineBreak c) cs)
  | '*' :: cs =>
    match commentEnd? cs with
    | some n => (.blockComment, 1 + n)
    | none => (.unterminatedComment, 1 + cs.length)
  | _ => (.slash, 0)

def equalsExtent : List Char → TokenKind × Nat
  | '>' :: _ => (.fatArrow, 1)
  | _ => (.assign, 0)

/-- A dot begins an ellipsis, a number without whole digits, or stands alone. -/
def dotExtent : List Char → TokenKind × Nat
  | '.' :: '.' :: _ => (.ellipsis, 2)
  | c :: cs =>
    if isDecimalDigit c then
      let digits := digitsLength (c :: cs)
      (.number, digits + exponentLength ((c :: cs).drop digits))
    else (.dot, 0)
  | [] => (.dot, 0)

def nameKind (name : List Char) : TokenKind :=
  match Keyword.ofName? name with
  | some word => .keyword word
  | none => .identifier

/-- The kind of the token that begins with `c`, and how many of the characters `cs` after it
belong to it. -/
def extent (c : Char) (cs : List Char) : TokenKind × Nat :=
  if c = '/' then slashExtent cs
  else if c = '=' then equalsExtent cs
  else if c = '.' then dotExtent cs
  else if isLineBreak c then (.endOfLine, runLength isLineBreak cs)
  else if isBlank c then (.blank, runLength isBlank cs)
  else if isNameStart c then
    let n := runLength isNameContinue cs
    (nameKind (c :: cs.take n), n)
  else if isDecimalDigit c then (.number, numberLength c cs)
  else if c = '"' ∨ c = '\x27' then quotedToken .string (quotedExtent c isLineBreak cs)
  else if c = '\x60' then quotedToken .template (quotedExtent c (fun _ => false) cs)
  else (punctuation c, 0)

end NodeFactory.Token
