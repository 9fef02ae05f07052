/-!
# Kinds of token

Keywords, punctuation and literals are what the grammar reads; comments, blanks and ends of line
are trivia, which separate tokens and carry comments. Three kinds stand for text that is no token
at all. `endOfFile` is the kind found after the last token; no piece of text has it.
-/

namespace NodeFactory

inductive Keyword where
  | exportKw
  | declareKw
  | defaultKw
  | abstractKw
  | constKw
  | namespaceKw
  | moduleKw
  | interfaceKw
  | typeKw
  | enumKw
  | extendsKw
  | implementsKw
  | readonlyKw
  | newKw
  | typeofKw
  | keyofKw
  | thisKw
deriving DecidableEq, Repr

namespace Keyword

/-- The names that are keywords. -/
def names : List (List Char × Keyword) :=
  [(['e', 'x', 'p', 'o', 'r', 't'], exportKw),
    (['d', 'e', 'c', 'l', 'a', 'r', 'e'], declareKw),
    (['d', 'e', 'f', 'a', 'u', 'l', 't'], defaultKw),
    (['a', 'b', 's', 't', 'r', 'a', 'c', 't'], abstractKw),
    (['c', 'o', 'n', 's', 't'], constKw),
    (['n', 'a', 'm', 'e', 's', 'p', 'a', 'c', 'e'], namespaceKw),
    (['m', 'o', 'd', 'u', 'l', 'e'], moduleKw),
    (['i', 'n', 't', 'e', 'r', 'f', 'a', 'c', 'e'], interfaceKw),
    (['t', 'y', 'p', 'e'], typeKw),
    (['e', 'n', 'u', 'm'], enumKw),
    (['e', 'x', 't', 'e', 'n', 'd', 's'], extendsKw),
    (['i', 'm', 'p', 'l', 'e', 'm', 'e', 'n', 't', 's'], implementsKw),
    (['r', 'e', 'a', 'd', 'o', 'n', 'l', 'y'], readonlyKw),
    (['n', 'e', 'w'], newKw),
    (['t', 'y', 'p', 'e', 'o', 'f'], typeofKw),
    (['k', 'e', 'y', 'o', 'f'], keyofKw),
    (['t', 'h', 'i', 's'], thisKw)]

/-- The keyword that a name spells, if any. -/
def ofName? (name : List Char) : Option Keyword :=
  names.lookup name

def text : Keyword → String
  | exportKw => "export"
  | declareKw => "declare"
  | defaultKw => "default"
  | abstractKw => "abstract"
  | constKw => "const"
  | namespaceKw => "namespace"
  | moduleKw => "module"
  | interfaceKw => "interface"
  | typeKw => "type"
  | enumKw => "enum"
  | extendsKw => "extends"
  | implementsKw => "implements"
  | readonlyKw => "readonly"
  | newKw => "new"
  | typeofKw => "typeof"
  | keyofKw => "keyof"
  | thisKw => "this"

theorem ofName?_text (keyword : Keyword) : ofName? keyword.text.toList = some keyword := by
  cases keyword <;> decide

theorem eq_text_of_mem : ∀ entry ∈ names, entry.1 = entry.2.text.toList := by
  decide

/-- A name that spells a keyword is its text. -/
theorem eq_text_of_ofName? {name : List Char} {keyword : Keyword} (h : ofName? name = some keyword) :
    name = keyword.text.toList := by
  obtain ⟨before, after, hnames, -⟩ := List.lookup_eq_some_iff.1 h
  exact eq_text_of_mem (name, keyword) (by rw [hnames]; exact List.mem_append_cons_self)

end Keyword

inductive TokenKind where
  | keyword (word : Keyword)
  | identifier
  | number
  | string
  | template
  | fatArrow
  | ellipsis
  | comma
  | semicolon
  | dot
  | openParen
  | closeParen
  | openBrace
  | closeBrace
  | openBracket
  | closeBracket
  | atSign
  | tilde
  | question
  | colon
  | assign
  | exclamation
  | less
  | greater
  | ampersand
  | bar
  | plus
  | minus
  | star
  | slash
  | percent
  | caret
  | lineComment
  | blockComment
  | blank
  | endOfLine
  | unterminatedComment
  | unterminatedString
  | unknown
  | endOfFile
deriving DecidableEq, Repr

namespace TokenKind

/-- Trivia lie between the tokens that the grammar reads. -/
def isTrivia : TokenKind → Bool
  | lineComment | blockComment | blank | endOfLine => true
  | _ => false

def isComment : TokenKind → Bool
  | lineComment | blockComment => true
  | _ => false

def isKeyword : TokenKind → Bool
  | keyword _ => true
  | _ => false

/-- A keyword is still a valid name of a property or a declaration. -/
def isName : TokenKind → Bool
  | identifier | keyword _ => true
  | _ => false

def isOpen : TokenKind → Bool
  | openParen | openBrace | openBracket => true
  | _ => false

def isClose : TokenKind → Bool
  | closeParen | closeBrace | closeBracket => true
  | _ => false

/-- Text that is no token: it is reported and then passed over. -/
def isMalformed : TokenKind → Bool
  | unterminatedComment | unterminatedString | unknown => true
  | _ => false

/-- How an error message names the kind. -/
def describe : TokenKind → String
  | keyword word => word.text
  | identifier => "identifier"
  | number => "number literal"
  | string => "string literal"
  | template => "template literal"
  | fatArrow => "=>"
  | ellipsis => "..."
  | comma => ","
  | semicolon => ";"
  | dot => "."
  | openParen => "("
  | closeParen => ")"
  | openBrace => "\x7b"
  | closeBrace => "\x7d"
  | openBracket => "["
  | closeBracket => "]"
  | atSign => "@"
  | tilde => "~"
  | question => "?"
  | colon => ":"
  | assign => "="
  | exclamation => "!"
  | less => "<"
  | greater => ">"
  | ampersand => "&"
  | bar => "|"
  | plus => "+"
  | minus => "-"
  | star => "*"
  | slash => "/"
  | percent => "%"
  | caret => "^"
  | lineComment => "line comment"
  | blockComment => "block comment"
  | blank => "whitespace"
  | endOfLine => "end of line"
  | unterminatedComment => "unterminated block comment"
  | unterminatedString => "unterminated string"
  | unknown => "unknown token"
  | endOfFile => "end of file"

end TokenKind

end NodeFactory
