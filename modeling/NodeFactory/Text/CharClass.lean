import NodeFactory.Text.NameStart
import NodeFactory.Text.NameContinue

/-!
# Character classes of the schema language

Line breaks and blanks are told apart, because a line break ends a line comment and separates
members while a blank does neither. Names follow the Unicode identifier profile, extended by `$`
and by a leading `_`; every character that begins a name continues one too
(`isNameContinue_of_isNameStart`).
-/

namespace NodeFactory.Text

/-- Whether a code point lies in one of the ranges, which are in ascending order. -/
def inRanges (code : Nat) : List (Nat × Nat) → Bool
  | [] => false
  | (low, high) :: ranges => low ≤ code && (code ≤ high || inRanges code ranges)

/-- A line feed, a carriage return, and the line and paragraph separators end a line. -/
def isLineBreak (c : Char) : Bool :=
  c == '\n' || c == '\r' || c == '\u2028' || c == '\u2029'

/-- White space inside a line, the byte order mark and the zero width space included. -/
def isBlank (c : Char) : Bool :=
  let code := c.toNat
  code == 0x09 || code == 0x0B || code == 0x0C || code == 0x20 || code == 0x85 || code == 0xA0 ||
    code == 0x1680 || (0x2000 ≤ code && code ≤ 0x200B) || code == 0x202F || code == 0x205F ||
    code == 0x3000 || code == 0xFEFF

def isNameStart (c : Char) : Bool :=
  c == '_' || c == '$' || inRanges c.toNat nameStartRanges

def isNameContinue (c : Char) : Bool :=
  isNameStart c || inRanges c.toNat nameMarkRanges

/-- The Unicode property White_Space, line breaks included. -/
def isWhiteSpace (c : Char) : Bool :=
  let code := c.toNat
  (0x09 ≤ code && code ≤ 0x0D) || code == 0x20 || code == 0x85 || code == 0xA0 ||
    code == 0x1680 || (0x2000 ≤ code && code ≤ 0x200A) || code == 0x2028 || code == 0x2029 ||
    code == 0x202F || code == 0x205F || code == 0x3000

def isDecimalDigit (c : Char) : Bool :=
  '0' ≤ c && c ≤ '9'

def isHexDigit (c : Char) : Bool :=
  isDecimalDigit c || ('a' ≤ c && c ≤ 'f') || ('A' ≤ c && c ≤ 'F')

theorem isNameContinue_of_isNameStart {c : Char} (h : isNameStart c = true) :
    isNameContinue c = true := by
  simp [isNameContinue, h]

end NodeFactory.Text
