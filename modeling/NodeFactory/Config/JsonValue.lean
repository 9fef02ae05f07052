import NodeFactory.Text.CharClass

/-!
# Strict JSON

The reader takes exactly the texts of RFC 8259: no comments, no trailing commas, no control
characters in strings, and no escape of half a surrogate pair. Numbers keep their text, and objects
keep their fields in order, repeated ones included.
-/

namespace NodeFactory

inductive JsonValue where
  | null
  | bool (value : Bool)
  | number (text : List Char)
  | string (text : String)
  | array (items : List JsonValue)
  | object (fields : List (String × JsonValue))

namespace JsonValue

open Text

/-- Reads a value from the beginning of a text and leaves the rest. -/
abbrev Reader (α : Type) := List Char → Option (α × List Char)

/-- A reader that may call itself where less text is left. -/
def fix (body : Reader α → Reader α) : Reader α := fun cs =>
  body (fun rest => if _ : rest.length < cs.length then fix body rest else none) cs
termination_by cs => cs.length

def isSpace (c : Char) : Bool :=
  c == ' ' || c == '\t' || c == '\n' || c == '\r'

def skipSpace (cs : List Char) : List Char :=
  cs.dropWhile isSpace

def hexValue (c : Char) : Nat :=
  if isDecimalDigit c then c.toNat - 0x30
  else if 'a' ≤ c then c.toNat - 0x61 + 10
  else c.toNat - 0x41 + 10

/-- A unit of four hexadecimal digits. -/
def readUnit : Reader Nat
  | a :: b :: c :: d :: rest =>
    if [a, b, c, d].all isHexDigit then
      some ([a, b, c, d].foldl (fun unit digit => unit * 16 + hexValue digit) 0, rest)
    else none
  | _ => none

/-- The character of an escape by its units: one, or two that form a surrogate pair. -/
def readUnicode (cs : List Char) : Option (Char × List Char) := do
  let (unit, rest) ← readUnit cs
  if 0xD800 ≤ unit ∧ unit < 0xDC00 then
    match rest with
    | '\\' :: 'u' :: rest =>
      let (low, rest) ← readUnit rest
      if 0xDC00 ≤ low ∧ low < 0xE000 then
        some (Char.ofNat (0x10000 + (unit - 0xD800) * 0x400 + (low - 0xDC00)), rest)
      else none
    | _ => none
  else if 0xDC00 ≤ unit ∧ unit < 0xE000 then none
  else some (Char.ofNat unit, rest)

/-- What follows a backslash. -/
def readEscape : Reader Char
  | '\"' :: rest => some ('\"', rest)
  | '\\' :: rest => some ('\\', rest)
  | '/' :: rest => some ('/', rest)
  | 'b' :: rest => some ('\x08', rest)
  | 'f' :: rest => some ('\x0C', rest)
  | 'n' :: rest => some ('\n', rest)
  | 'r' :: rest => some ('\r', rest)
  | 't' :: rest => some ('\t', rest)
  | 'u' :: rest => readUnicode rest
  | _ => none

/-- The rest of a string after its opening quote. -/
def readChars : Reader (List Char) :=
  fix fun again cs =>
    match cs with
    | [] => none
    | '\"' :: rest => some ([], rest)
    | '\\' :: rest => do
      let (c, rest) ← readEscape rest
      let (chars, rest) ← again rest
      some (c :: chars, rest)
    | c :: rest =>
      if c.toNat < 0x20 then none
      else do
        let (chars, rest) ← again rest
        some (c :: chars, rest)

/-- A string whose opening quote is read. -/
def readString (cs : List Char) : Option (String × List Char) :=
  (readChars cs).map fun (chars, rest) => (String.ofList chars, rest)

/-- At least one digit. -/
def readDigits (cs : List Char) : Option (List Char × List Char) :=
  let digits := cs.takeWhile isDecimalDigit
  if digits.isEmpty then none else some (digits, cs.dropWhile isDecimalDigit)

/-- A whole number, which has no zeros before it. -/
def readWhole : Reader (List Char)
  | '0' :: rest => some (['0'], rest)
  | cs => readDigits cs

def readFraction : Reader (List Char)
  | '.' :: rest => (readDigits rest).map fun (digits, rest) => ('.' :: digits, rest)
  | cs => some ([], cs)

def readExponent : Reader (List Char)
  | mark :: rest =>
    if mark = 'e' ∨ mark = 'E' then
      match rest with
      | '+' :: rest => (readDigits rest).map fun (digits, rest) => (mark :: '+' :: digits, rest)
      | '-' :: rest => (readDigits rest).map fun (digits, rest) => (mark :: '-' :: digits, rest)
      | rest => (readDigits rest).map fun (digits, rest) => (mark :: digits, rest)
    else some ([], mark :: rest)
  | [] => some ([], [])

def readNumber (cs : List Char) : Option (List Char × List Char) := do
  let (sign, rest) := match cs with
    | '-' :: rest => (['-'], rest)
    | _ => ([], cs)
  let (whole, rest) ← readWhole rest
  let (fraction, rest) ← readFraction rest
  let (exponent, rest) ← readExponent rest
  some (sign ++ whole ++ fraction ++ exponent, rest)

/-- Items separated by commas, up to and with the closing character. -/
def readItems (item : Reader α) (closing : Char) : Reader (List α) :=
  fix fun again cs => do
    let (first, rest) ← item cs
    match skipSpace rest with
    | c :: rest =>
      if c = closing then some ([first], rest)
      else if c = ',' then do
        let (items, rest) ← again rest
        some (first :: items, rest)
      else none
    | [] => none

/-- Items up to and with the closing character; there may be none. -/
def readList (item : Reader α) (closing : Char) (cs : List Char) : Option (List α × List Char) :=
  match skipSpace cs with
  | c :: rest => if c = closing then some ([], rest) else readItems item closing (c :: rest)
  | [] => none

def readField (value : Reader JsonValue) (cs : List Char) :
    Option ((String × JsonValue) × List Char) := do
  match skipSpace cs with
  | '\"' :: rest =>
    let (key, rest) ← readString rest
    match skipSpace rest with
    | ':' :: rest =>
      let (field, rest) ← value rest
      some ((key, field), rest)
    | _ => none
  | _ => none

/-- Reads one value, after white space. -/
def readValue : Reader JsonValue :=
  fix fun value cs =>
    match skipSpace cs with
    | '\"' :: rest => (readString rest).map fun (text, rest) => (.string text, rest)
    | '[' :: rest => (readList value ']' rest).map fun (items, rest) => (.array items, rest)
    | '{' :: rest =>
      (readList (readField value) '}' rest).map fun (fields, rest) => (.object fields, rest)
    | 't' :: 'r' :: 'u' :: 'e' :: rest => some (.bool true, rest)
    | 'f' :: 'a' :: 'l' :: 's' :: 'e' :: rest => some (.bool false, rest)
    | 'n' :: 'u' :: 'l' :: 'l' :: rest => some (.null, rest)
    | rest => (readNumber rest).map fun (text, rest) => (.number text, rest)

/-- The value of a whole text; only white space may follow it. -/
def parse? (text : List Char) : Option JsonValue := do
  let (value, rest) ← readValue text
  if rest.all isSpace then some value else none

end JsonValue

end NodeFactory
