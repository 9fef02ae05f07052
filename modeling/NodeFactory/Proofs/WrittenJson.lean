import Mathlib.Data.List.Basic
import NodeFactory.Config.JsonValue

/-!
# Written values

A value may be written in many ways: with white space between its parts, with escapes in its strings, and its
numbers with a fraction or an exponent (`Writes`). The reader takes each of them for the value that it writes
(`parse?_of_writes`), and it refuses what goes on behind an array or an object (`parse?_of_trailing`).
-/

namespace NodeFactory.JsonValue

open Text

/-- White space, of the four characters that may stand between the parts of a value. -/
def IsBlank (cs : List Char) : Prop :=
  ∀ c ∈ cs, c = ' ' ∨ c = '\t' ∨ c = '\n' ∨ c = '\r'

/-- A hexadecimal digit, in lower or upper case. -/
inductive WritesDigit : Nat → Char → Prop
  | lower {digit : Nat} : digit < 16 → WritesDigit digit digit.digitChar
  | upper {digit : Nat} : digit < 16 → WritesDigit digit digit.digitChar.toUpper

/-- The four hexadecimal digits of a unit of sixteen bits. -/
inductive WritesUnit : Nat → List Char → Prop
  | digits {a b c d : Nat} {p q r s : Char} : WritesDigit a p → WritesDigit b q → WritesDigit c r →
      WritesDigit d s → WritesUnit (a * 4096 + b * 256 + c * 16 + d) [p, q, r, s]

/-- The letters that a backslash may stand before, and the characters they stand for. -/
def shortEscapes : List (Char × Char) :=
  [('\"', '\"'), ('\\', '\\'), ('/', '/'), ('b', '\x08'), ('f', '\x0C'), ('n', '\n'), ('r', '\r'), ('t', '\t')]

/-- A character as it may stand in a string: itself, escaped by a letter, or escaped by its units. -/
inductive WritesChar (c : Char) : List Char → Prop
  | itself : 0x20 ≤ c.toNat → c ≠ '\"' → c ≠ '\\' → WritesChar c [c]
  | short {letter : Char} : (letter, c) ∈ shortEscapes → WritesChar c ['\\', letter]
  | unit {digits : List Char} : WritesUnit c.toNat digits → WritesChar c ('\\' :: 'u' :: digits)
  | pair {high low : List Char} : 0x10000 ≤ c.toNat →
      WritesUnit (0xD800 + (c.toNat - 0x10000) / 0x400) high →
      WritesUnit (0xDC00 + (c.toNat - 0x10000) % 0x400) low →
      WritesChar c ('\\' :: 'u' :: (high ++ '\\' :: 'u' :: low))

inductive WritesChars : List Char → List Char → Prop
  | nil : WritesChars [] []
  | cons {c : Char} {chars piece text : List Char} : WritesChar c piece → WritesChars chars text →
      WritesChars (c :: chars) (piece ++ text)

/-- A string between its quotes. -/
inductive WritesString (string : String) : List Char → Prop
  | quoted {text : List Char} : WritesChars string.toList text → WritesString string ('\"' :: (text ++ ['\"']))

structure IsDigits (cs : List Char) : Prop where
  ne_nil : cs ≠ []
  all : ∀ c ∈ cs, isDecimalDigit c = true

inductive IsWhole : List Char → Prop
  | zero : IsWhole ['0']
  | digits {cs : List Char} : IsDigits cs → cs.head? ≠ some '0' → IsWhole cs

inductive IsFraction : List Char → Prop
  | none : IsFraction []
  | digits {cs : List Char} : IsDigits cs → IsFraction ('.' :: cs)

inductive IsExponent : List Char → Prop
  | none : IsExponent []
  | plain {mark : Char} {cs : List Char} : mark = 'e' ∨ mark = 'E' → IsDigits cs → IsExponent (mark :: cs)
  | signed {mark sign : Char} {cs : List Char} : mark = 'e' ∨ mark = 'E' → sign = '+' ∨ sign = '-' →
      IsDigits cs → IsExponent (mark :: sign :: cs)

/-- A number, which may have a sign, a fraction and an exponent, but no zeros before it. -/
inductive IsNumber : List Char → Prop
  | unsigned {whole fraction exponent : List Char} : IsWhole whole → IsFraction fraction →
      IsExponent exponent → IsNumber (whole ++ fraction ++ exponent)
  | negative {whole fraction exponent : List Char} : IsWhole whole → IsFraction fraction →
      IsExponent exponent → IsNumber ('-' :: (whole ++ fraction ++ exponent))

/-- A text with white space around it. -/
structure Padded where
  before : List Char
  text : List Char
  after : List Char
  blank_before : IsBlank before
  blank_after : IsBlank after

def Padded.chars (padded : Padded) : List Char :=
  padded.before ++ (padded.text ++ padded.after)

/-- An item of an array with its text. -/
structure Item where
  value : JsonValue
  padded : Padded

/-- A field of an object with the texts of its key and of its value. -/
structure Field where
  key : String
  paddedKey : Padded
  value : JsonValue
  paddedValue : Padded

def Field.entry (field : Field) : String × JsonValue :=
  (field.key, field.value)

def Field.chars (field : Field) : List Char :=
  field.paddedKey.chars ++ ':' :: field.paddedValue.chars

/-- Parts separated by commas, between an opening and a closing character. -/
def enclose (opening closing : Char) (blank : List Char) (parts : List (List Char)) : List Char :=
  opening :: (blank ++ ([','].intercalate parts ++ [closing]))

/-- The texts of a value. -/
inductive Writes : JsonValue → List Char → Prop
  | null : Writes .null ['n', 'u', 'l', 'l']
  | yes : Writes (.bool true) ['t', 'r', 'u', 'e']
  | no : Writes (.bool false) ['f', 'a', 'l', 's', 'e']
  | number {text : List Char} : IsNumber text → Writes (.number text) text
  | string {string : String} {text : List Char} : WritesString string text → Writes (.string string) text
  | array {blank : List Char} {items : List Item} : IsBlank blank →
      (∀ item ∈ items, Writes item.value item.padded.text) →
      Writes (.array (items.map Item.value)) (enclose '[' ']' blank (items.map fun item => item.padded.chars))
  | object {blank : List Char} {fields : List Field} : IsBlank blank →
      (∀ field ∈ fields, WritesString field.key field.paddedKey.text) →
      (∀ field ∈ fields, Writes field.value field.paddedValue.text) →
      Writes (.object (fields.map Field.entry)) (enclose '\x7b' '\x7d' blank (fields.map Field.chars))

section Spaces

variable {blank cs : List Char}

theorem all_isSpace : cs.all isSpace = true ↔ IsBlank cs := by
  simp only [List.all_eq_true, isSpace, Bool.or_eq_true, beq_iff_eq, or_assoc, IsBlank]

theorem skipSpace_blank (h : IsBlank blank) : skipSpace (blank ++ cs) = skipSpace cs :=
  List.dropWhile_append_of_pos (List.all_eq_true.1 (all_isSpace.2 h))

theorem skipSpace_cons {c : Char} (h : isSpace c = false) : skipSpace (c :: cs) = c :: cs :=
  List.dropWhile_cons_of_neg (by simp [h])

end Spaces

section Strings

variable {rest : List Char}

theorem WritesDigit.reads {digit : Nat} {c : Char} (h : WritesDigit digit c) :
    isHexDigit c = true ∧ hexValue c = digit ∧ digit < 16 := by
  have hdigits : ∀ digit < 16, isHexDigit digit.digitChar = true ∧ hexValue digit.digitChar = digit
      ∧ isHexDigit digit.digitChar.toUpper = true ∧ hexValue digit.digitChar.toUpper = digit := by decide
  cases h with
  | lower hlt => exact ⟨(hdigits digit hlt).1, (hdigits digit hlt).2.1, hlt⟩
  | upper hlt => exact ⟨(hdigits digit hlt).2.2.1, (hdigits digit hlt).2.2.2, hlt⟩

theorem readUnit_of_writes {unit : Nat} {text : List Char} (h : WritesUnit unit text) :
    readUnit (text ++ rest) = some (unit, rest) := by
  obtain ⟨ha, hb, hc, hd⟩ := h
  simp only [List.cons_append, List.nil_append, readUnit, List.all_cons, List.all_nil, List.foldl_cons,
    List.foldl_nil, ha.reads, hb.reads, hc.reads, hd.reads, Bool.and_self, if_true]
  congr 2
  omega

/-- A character that one unit gives is no half of a pair. -/
theorem toNat_not_surrogate (c : Char) : c.toNat < 0xD800 ∨ 0xE000 ≤ c.toNat := by
  have h : c.toNat.isValidChar := c.valid
  unfold Nat.isValidChar at h
  omega

theorem toNat_lt (c : Char) : c.toNat < 0x110000 := by
  have h : c.toNat.isValidChar := c.valid
  unfold Nat.isValidChar at h
  omega

theorem readUnicode_of_unit {c : Char} {text : List Char} (h : WritesUnit c.toNat text) :
    readUnicode (text ++ rest) = some (c, rest) := by
  have hrange := toNat_not_surrogate c
  simp only [readUnicode, readUnit_of_writes h, Option.bind_eq_bind, Option.bind_some]
  rw [if_neg (by omega), if_neg (by omega), Char.ofNat_toNat]

theorem readUnicode_of_units {unit unit' : Nat} {high low : List Char} (hhigh : WritesUnit unit high)
    (hlow : WritesUnit unit' low) (hunit : 0xD800 ≤ unit ∧ unit < 0xDC00)
    (hunit' : 0xDC00 ≤ unit' ∧ unit' < 0xE000) :
    readUnicode (high ++ '\\' :: 'u' :: low ++ rest)
      = some (Char.ofNat (0x10000 + (unit - 0xD800) * 0x400 + (unit' - 0xDC00)), rest) := by
  simp only [List.append_assoc, List.cons_append, readUnicode, readUnit_of_writes hhigh, Option.bind_eq_bind,
    Option.bind_some]
  rw [if_pos hunit]
  simp only [readUnit_of_writes hlow, Option.bind_some]
  rw [if_pos hunit']

theorem readUnicode_of_pair {c : Char} {high low : List Char} (hc : 0x10000 ≤ c.toNat)
    (hhigh : WritesUnit (0xD800 + (c.toNat - 0x10000) / 0x400) high)
    (hlow : WritesUnit (0xDC00 + (c.toNat - 0x10000) % 0x400) low) :
    readUnicode (high ++ '\\' :: 'u' :: low ++ rest) = some (c, rest) := by
  have hlt := toNat_lt c
  rw [readUnicode_of_units hhigh hlow (by omega) (by omega)]
  have hvalue : 0x10000 + (0xD800 + (c.toNat - 0x10000) / 0x400 - 0xD800) * 0x400
      + (0xDC00 + (c.toNat - 0x10000) % 0x400 - 0xDC00) = c.toNat := by omega
  rw [hvalue, Char.ofNat_toNat]

theorem readEscape_of_short {letter c : Char} (h : (letter, c) ∈ shortEscapes) :
    readEscape (letter :: rest) = some (c, rest) := by
  simp only [shortEscapes, List.mem_cons, List.not_mem_nil, or_false, Prod.mk.injEq] at h
  rcases h with ⟨rfl, rfl⟩ | ⟨rfl, rfl⟩ | ⟨rfl, rfl⟩ | ⟨rfl, rfl⟩ | ⟨rfl, rfl⟩ | ⟨rfl, rfl⟩ | ⟨rfl, rfl⟩
    | ⟨rfl, rfl⟩
  all_goals rfl

/-- A reader that calls itself is its body, which sees it only behind where it began. -/
theorem fix_eq {α : Type} (body : Reader α → Reader α) (cs : List Char) :
    fix body cs = body (fun rest => if rest.length < cs.length then fix body rest else none) cs := by
  rw [fix]
  simp only [dite_eq_ite]

theorem readChars_quote : readChars ('\"' :: rest) = some ([], rest) := by
  rw [readChars, fix_eq]
  rfl

theorem readChars_escape {c : Char} {chars text behind : List Char} (h : readEscape text = some (c, behind))
    (hlength : behind.length ≤ text.length) (hbehind : readChars behind = some (chars, rest)) :
    readChars ('\\' :: text) = some (c :: chars, rest) := by
  rw [readChars, fix_eq]
  show ((readEscape text).bind fun escape =>
    (if escape.2.length < text.length + 1 then readChars escape.2 else none).bind fun read =>
      some (escape.1 :: read.1, read.2)) = _
  rw [h, Option.bind_some]
  show ((if behind.length < text.length + 1 then readChars behind else none).bind fun read =>
    some (c :: read.1, read.2)) = _
  rw [if_pos (Nat.lt_succ_of_le hlength), hbehind, Option.bind_some]

theorem readChars_itself {c : Char} {chars text : List Char} (hc : 0x20 ≤ c.toNat) (hquote : c ≠ '\"')
    (hslash : c ≠ '\\') (h : readChars text = some (chars, rest)) :
    readChars (c :: text) = some (c :: chars, rest) := by
  rw [readChars, fix_eq]
  simp only [List.length_cons, Nat.lt_succ_self, if_true]
  rw [if_neg (by omega)]
  show ((readChars text).bind fun read => some (c :: read.1, read.2)) = _
  rw [h, Option.bind_some]

theorem readChars_of_writesChar {c : Char} {chars piece text : List Char} (hpiece : WritesChar c piece)
    (h : readChars text = some (chars, rest)) : readChars (piece ++ text) = some (c :: chars, rest) := by
  cases hpiece with
  | itself hc hquote hslash => exact readChars_itself hc hquote hslash h
  | short hletter => exact readChars_escape (readEscape_of_short hletter) (by simp) h
  | unit hunit => exact readChars_escape (readUnicode_of_unit hunit) (by simp; omega) h
  | pair hc hhigh hlow => exact readChars_escape (readUnicode_of_pair hc hhigh hlow) (by simp; omega) h

theorem readChars_of_writes {chars text : List Char} (h : WritesChars chars text) :
    readChars (text ++ '\"' :: rest) = some (chars, rest) := by
  induction h with
  | nil => exact readChars_quote
  | cons hpiece _ ih =>
    rw [List.append_assoc]
    exact readChars_of_writesChar hpiece ih

/-- Plain characters may stand as they are. -/
theorem writesChars_plain : ∀ {chars : List Char}, (∀ c ∈ chars, 0x20 ≤ c.toNat ∧ c ≠ '\"' ∧ c ≠ '\\') →
    WritesChars chars chars
  | [], _ => .nil
  | c :: chars, h => by
    obtain ⟨⟨hc, hquote, hslash⟩, hchars⟩ := List.forall_mem_cons.1 h
    exact .cons (.itself hc hquote hslash) (writesChars_plain hchars)

theorem readString_of_writes {string : String} {text : List Char} (h : WritesChars string.toList text) :
    readString (text ++ '\"' :: rest) = some (string, rest) := by
  rw [readString, readChars_of_writes h, Option.map_some]
  show some (String.ofList string.toList, rest) = _
  rw [String.ofList_toList]

end Strings

section Numbers

/-- The characters that may stand behind a value: white space, a comma or a closing bracket. -/
def followers : List Char :=
  [' ', '\t', '\n', '\r', ',', ']', '\x7d']

def Follows (rest : List Char) : Prop :=
  ∀ c ∈ rest.head?, c ∈ followers

/-- A text that does not begin with a character of a class. -/
def BeginsWithout (p : Char → Bool) (rest : List Char) : Prop :=
  ∀ c ∈ rest.head?, p c = false

variable {cs rest : List Char}

theorem Follows.beginsWithout (h : Follows rest) {p : Char → Bool}
    (hp : followers.any p = false) : BeginsWithout p rest :=
  fun c hmem => eq_false_of_ne_true (List.any_eq_false.1 hp c (h c hmem))

theorem readDigits_of_isDigits (h : IsDigits cs) (hrest : BeginsWithout isDecimalDigit rest) :
    readDigits (cs ++ rest) = some (cs, rest) := by
  have hnone : rest.takeWhile isDecimalDigit = [] ∧ rest.dropWhile isDecimalDigit = rest := by
    cases rest with
    | nil => exact ⟨rfl, rfl⟩
    | cons c rest =>
      have hc : ¬isDecimalDigit c = true := by simp [hrest c rfl]
      exact ⟨List.takeWhile_cons_of_neg hc, List.dropWhile_cons_of_neg hc⟩
  rw [readDigits, List.takeWhile_append_of_pos h.all, List.dropWhile_append_of_pos h.all, hnone.1, hnone.2,
    List.append_nil]
  simp only [List.isEmpty_iff, h.ne_nil, if_false]

theorem readWhole_of_isWhole (h : IsWhole cs) (hrest : BeginsWithout isDecimalDigit rest) :
    readWhole (cs ++ rest) = some (cs, rest) := by
  cases h with
  | zero => rfl
  | digits hdigits hhead =>
    rw [readWhole, readDigits_of_isDigits hdigits hrest]
    intro rest' heq
    cases cs with
    | nil => exact hdigits.ne_nil rfl
    | cons c cs =>
      obtain ⟨rfl, -⟩ := List.cons.inj heq
      exact hhead rfl

theorem readFraction_of_isFraction (h : IsFraction cs) (hrest : BeginsWithout isDecimalDigit rest)
    (hpoint : BeginsWithout (· == '.') rest) : readFraction (cs ++ rest) = some (cs, rest) := by
  cases h with
  | none =>
    rw [List.nil_append, readFraction]
    rintro rest' rfl
    cases hpoint '.' rfl
  | digits hdigits => rw [List.cons_append, readFraction, readDigits_of_isDigits hdigits hrest, Option.map_some]

theorem readExponent_of_isExponent (h : IsExponent cs) (hrest : BeginsWithout isDecimalDigit rest)
    (hmark : BeginsWithout (fun c => c == 'e' || c == 'E') rest) :
    readExponent (cs ++ rest) = some (cs, rest) := by
  unfold readExponent
  cases h with
  | none =>
    cases rest with
    | nil => rfl
    | cons c rest =>
      have hc := hmark c rfl
      exact if_neg (by simpa using hc)
  | plain hmark hdigits =>
    obtain ⟨c, cs, rfl⟩ := List.exists_cons_of_ne_nil hdigits.ne_nil
    have hc := hdigits.all c List.mem_cons_self
    refine (if_pos hmark).trans ?_
    split
    case h_1 heq | h_2 heq =>
      obtain ⟨rfl, -⟩ := List.cons.inj heq
      cases hc
    case h_3 =>
      show (readDigits (c :: cs ++ rest)).map _ = _
      rw [readDigits_of_isDigits hdigits hrest, Option.map_some]
  | signed hmark hsign hdigits =>
    refine (if_pos hmark).trans ?_
    rcases hsign with rfl | rfl
    all_goals
      show (readDigits (_ ++ rest)).map _ = _
      rw [readDigits_of_isDigits hdigits hrest, Option.map_some]

theorem BeginsWithout.append {p : Char → Bool} (h : BeginsWithout p cs) (hrest : BeginsWithout p rest) :
    BeginsWithout p (cs ++ rest) := by
  cases cs with
  | nil => exact hrest
  | cons c cs => exact h

theorem IsFraction.beginsWithout (h : IsFraction cs) : BeginsWithout isDecimalDigit cs := by
  cases h with
  | none => exact nofun
  | digits => rintro c ⟨⟩; rfl

theorem IsExponent.beginsWithout {p : Char → Bool} (h : IsExponent cs) (hp : p 'e' = false ∧ p 'E' = false) :
    BeginsWithout p cs := by
  cases h with
  | none => exact nofun
  | plain hmark | signed hmark => rintro c ⟨⟩; rcases hmark with rfl | rfl <;> simp [hp]

theorem IsWhole.head (h : IsWhole cs) : ∃ c digits, cs = c :: digits ∧ isDecimalDigit c = true := by
  cases h with
  | zero => exact ⟨'0', [], rfl, rfl⟩
  | digits hdigits _ =>
    obtain ⟨c, digits, rfl⟩ := List.exists_cons_of_ne_nil hdigits.ne_nil
    exact ⟨c, digits, rfl, hdigits.all c List.mem_cons_self⟩

/-- The three parts of a number, one behind the other. -/
theorem readParts {whole fraction exponent : List Char} (hwhole : IsWhole whole)
    (hfraction : IsFraction fraction) (hexponent : IsExponent exponent) (hrest : Follows rest) :
    readWhole (whole ++ fraction ++ exponent ++ rest) = some (whole, fraction ++ exponent ++ rest)
      ∧ readFraction (fraction ++ exponent ++ rest) = some (fraction, exponent ++ rest)
      ∧ readExponent (exponent ++ rest) = some (exponent, rest) := by
  have hdigit : BeginsWithout isDecimalDigit rest := hrest.beginsWithout (by decide)
  have hpoint : BeginsWithout (· == '.') rest := hrest.beginsWithout (by decide)
  have hmark : BeginsWithout (fun c => c == 'e' || c == 'E') rest := hrest.beginsWithout (by decide)
  have hexponentDigit := (hexponent.beginsWithout (by decide)).append hdigit
  refine ⟨?_, ?_, readExponent_of_isExponent hexponent hdigit hmark⟩
  · rw [List.append_assoc, List.append_assoc, List.append_assoc]
    exact readWhole_of_isWhole hwhole (hfraction.beginsWithout.append hexponentDigit)
  · rw [List.append_assoc]
    exact readFraction_of_isFraction hfraction hexponentDigit
      ((hexponent.beginsWithout (by decide)).append hpoint)

theorem readNumber_of_isNumber (h : IsNumber cs) (hrest : Follows rest) :
    readNumber (cs ++ rest) = some (cs, rest) := by
  unfold readNumber
  cases h with
  | negative hwhole hfraction hexponent =>
    obtain ⟨hw, hf, he⟩ := readParts hwhole hfraction hexponent hrest
    simp only [List.cons_append, hw, hf, he, Option.bind_eq_bind, Option.bind_some, List.nil_append]
  | unsigned hwhole hfraction hexponent =>
    obtain ⟨hw, hf, he⟩ := readParts hwhole hfraction hexponent hrest
    obtain ⟨c, digits, rfl, hc⟩ := hwhole.head
    split
    next hsign =>
      split at hsign
      case h_1 heq =>
        obtain ⟨rfl, -⟩ := List.cons.inj heq
        cases hc
      case h_2 =>
        obtain ⟨rfl, rfl⟩ := Prod.mk.inj hsign
        simp only [hw, hf, he, Option.bind_eq_bind, Option.bind_some, List.nil_append]

end Numbers

section Lists

variable {α β : Type} {rest : List Char} {n : Nat}

/-- A reader takes a text for a value, where less than some number of characters are left. -/
def Takes (reader : Reader α) (n : Nat) (value : α) (text : List Char) : Prop :=
  ∀ ⦃before rest : List Char⦄, IsBlank before → Follows rest → (before ++ (text ++ rest)).length < n →
    reader (before ++ (text ++ rest)) = some (value, rest)

/-- A text that begins with nothing that may stand behind a value. -/
def Begins (text : List Char) : Prop :=
  ∃ c cs, text = c :: cs ∧ c ∉ followers

theorem follows_blank {blank : List Char} (h : IsBlank blank) (hrest : Follows rest) :
    Follows (blank ++ rest) := by
  cases blank with
  | nil => exact hrest
  | cons c blank =>
    rintro d ⟨⟩
    rcases h c List.mem_cons_self with rfl | rfl | rfl | rfl <;> decide

theorem readItems_last {item : Reader α} {closing : Char} {value : α} {text : List Char}
    (h : item text = some (value, rest)) {behind : List Char} (hrest : skipSpace rest = closing :: behind) :
    readItems item closing text = some ([value], behind) := by
  rw [readItems, fix_eq]
  simp only [h, Option.bind_eq_bind, Option.bind_some, hrest, if_true]

theorem readItems_comma {item : Reader α} {closing : Char} (hclosing : ',' ≠ closing) {value : α}
    {values : List α} {text : List Char} (h : item text = some (value, rest)) {behind : List Char}
    (hrest : skipSpace rest = ',' :: behind) (hlength : behind.length < text.length) {last : List Char}
    (hbehind : readItems item closing behind = some (values, last)) :
    readItems item closing text = some (value :: values, last) := by
  rw [readItems, fix_eq]
  simp only [h, Option.bind_eq_bind, Option.bind_some, hrest, if_neg hclosing, if_true, if_pos hlength]
  show ((readItems item closing behind).bind fun read => some (value :: read.1, read.2)) = _
  rw [hbehind, Option.bind_some]

theorem intercalate_cons {first : List Char} {parts : List (List Char)} :
    [','].intercalate (first :: parts) = first ++ parts.flatMap (',' :: ·) := by
  induction parts generalizing first with
  | nil => rw [List.intercalate_singleton, List.flatMap_nil, List.append_nil]
  | cons part parts ih => simp [List.intercalate_cons_cons, ih]

theorem intercalate_chars {padded : β → Padded} (first : β) (parts : List β) (behind : List Char) :
    [','].intercalate ((first :: parts).map fun part => (padded part).chars) ++ behind
      = (padded first).before ++ ((padded first).text ++ ((padded first).after
        ++ (parts.flatMap (fun part => ',' :: (padded part).chars) ++ behind))) := by
  rw [List.map_cons, intercalate_cons, List.flatMap_map, Padded.chars]
  simp only [List.append_assoc]

theorem follows_cons {c : Char} (hc : c ∈ followers) : Follows (c :: rest) := by
  rintro d ⟨⟩
  exact hc

variable {item : Reader α} {closing : Char} (hclosing : closing = ']' ∨ closing = '\x7d') {value : β → α}
  {padded : β → Padded}
include hclosing

/-- What stands behind the first of several items: white space, and the others or the closing character. -/
theorem follows_parts (first : β) (parts : List β) :
    Follows ((padded first).after
      ++ (parts.flatMap (fun part => ',' :: (padded part).chars) ++ closing :: rest)) := by
  refine follows_blank (padded first).blank_after ?_
  cases parts with
  | nil => exact follows_cons (by rcases hclosing with rfl | rfl <;> decide)
  | cons part parts => exact follows_cons (by decide)

theorem readItems_of_takes {first : β} {parts : List β}
    (hparts : ∀ part ∈ first :: parts, Takes item n (value part) (padded part).text) {before : List Char}
    (hbefore : IsBlank before) {text : List Char}
    (htext : text = before ++ ((padded first).text ++ ((padded first).after
      ++ (parts.flatMap (fun part => ',' :: (padded part).chars) ++ closing :: rest))))
    (hlength : text.length < n) :
    readItems item closing text = some ((first :: parts).map value, rest) := by
  have hspace : isSpace closing = false := by rcases hclosing with rfl | rfl <;> rfl
  induction parts generalizing first before text with
  | nil =>
    have hfirst := hparts first List.mem_cons_self hbefore (follows_parts hclosing first []) (htext ▸ hlength)
    rw [htext]
    refine readItems_last hfirst ?_
    rw [skipSpace_blank (padded first).blank_after]
    exact skipSpace_cons hspace
  | cons part parts ih =>
    have hfirst := hparts first List.mem_cons_self hbefore (follows_parts hclosing first (part :: parts))
      (htext ▸ hlength)
    have hothers := fun part hmem => hparts part (List.mem_cons_of_mem first hmem)
    have hcons : (part :: parts).flatMap (fun part => ',' :: (padded part).chars) ++ closing :: rest
        = ',' :: ((padded part).before ++ ((padded part).text ++ ((padded part).after
          ++ (parts.flatMap (fun part => ',' :: (padded part).chars) ++ closing :: rest)))) := by
      rw [List.flatMap_cons, List.append_assoc, List.cons_append, Padded.chars, List.append_assoc,
        List.append_assoc]
    rw [hcons] at htext hfirst
    subst htext
    simp only [List.length_append, List.length_cons] at hlength
    refine readItems_comma (by rcases hclosing with rfl | rfl <;> decide) hfirst ?_ ?_
      (ih hothers (padded part).blank_before rfl ?_)
    · rw [skipSpace_blank (padded first).blank_after]
      exact skipSpace_cons rfl
    all_goals
      simp only [List.length_append, List.length_cons]
      omega

theorem readList_of_takes (value : β → α) {parts : List β}
    (hparts : ∀ part ∈ parts, Takes item n (value part) (padded part).text ∧ Begins (padded part).text)
    {blank text : List Char} (hblank : IsBlank blank)
    (htext : text = blank ++ ([','].intercalate (parts.map fun part => (padded part).chars) ++ closing :: rest))
    (hlength : text.length < n) : readList item closing text = some (parts.map value, rest) := by
  have hspace : isSpace closing = false := by rcases hclosing with rfl | rfl <;> rfl
  subst htext
  unfold readList
  cases parts with
  | nil =>
    rw [skipSpace_blank hblank, List.map_nil, List.intercalate_nil, List.nil_append, skipSpace_cons hspace]
    exact if_pos rfl
  | cons first parts =>
    obtain ⟨c, cs, htext, hc⟩ := (hparts first List.mem_cons_self).2
    have hc' : isSpace c = false ∧ c ≠ closing := by
      simp only [followers, List.mem_cons, List.not_mem_nil, or_false, not_or] at hc
      refine ⟨by simp [isSpace, hc], ?_⟩
      rcases hclosing with rfl | rfl
      · exact hc.2.2.2.2.2.1
      · exact hc.2.2.2.2.2.2
    have hall := fun part hmem => (hparts part hmem).1
    rw [intercalate_chars] at hlength ⊢
    generalize htail : (padded first).after
      ++ (parts.flatMap (fun part => ',' :: (padded part).chars) ++ closing :: rest) = tail at hlength ⊢
    have hskip : skipSpace (blank ++ ((padded first).before ++ ((padded first).text ++ tail)))
        = (padded first).text ++ tail := by
      rw [skipSpace_blank hblank, skipSpace_blank (padded first).blank_before, htext, List.cons_append]
      exact skipSpace_cons hc'.1
    have hlength' : ((padded first).text ++ tail).length < n := by
      simp only [List.length_append] at hlength ⊢
      omega
    have hitems := readItems_of_takes hclosing hall (List.forall_mem_nil _)
      (by rw [htail, List.nil_append]) hlength'
    rw [hskip]
    rw [htext] at hitems ⊢
    exact (if_neg hc'.2).trans hitems

end Lists

section Values

variable {n : Nat} {rest : List Char} {value : JsonValue} {text : List Char}

/-- A field as one text with white space around it. -/
def Field.padded (field : Field) : Padded where
  before := field.paddedKey.before
  text := field.paddedKey.text ++ (field.paddedKey.after
    ++ ':' :: (field.paddedValue.before ++ field.paddedValue.text))
  after := field.paddedValue.after
  blank_before := field.paddedKey.blank_before
  blank_after := field.paddedValue.blank_after

theorem Field.chars_padded (field : Field) : field.padded.chars = field.chars := by
  simp only [chars, padded, Padded.chars, List.append_assoc, List.cons_append]

theorem Begins.append (h : Begins text) : Begins (text ++ rest) := by
  obtain ⟨c, cs, rfl, hc⟩ := h
  exact ⟨c, cs ++ rest, rfl, hc⟩

theorem WritesString.begins {string : String} (h : WritesString string text) : Begins text := by
  obtain ⟨⟩ := h
  exact ⟨'\"', _, rfl, by decide⟩

theorem readField_takes {reader : Reader JsonValue} {field : Field}
    (hkey : WritesString field.key field.paddedKey.text)
    (hvalue : Takes reader n field.value field.paddedValue.text) :
    Takes (readField reader) n field.entry field.padded.text := by
  intro before rest hbefore hrest hlength
  simp only [Field.padded, List.append_assoc, List.cons_append] at hlength ⊢
  generalize field.paddedKey.text = text at hkey hlength ⊢
  obtain ⟨hchars⟩ := hkey
  simp only [List.cons_append, List.append_assoc, List.nil_append] at hlength ⊢
  rw [readField, skipSpace_blank hbefore, skipSpace_cons rfl]
  simp only [readString_of_writes hchars, Option.bind_eq_bind, Option.bind_some]
  rw [skipSpace_blank field.paddedKey.blank_after, skipSpace_cons rfl]
  show ((reader (field.paddedValue.before ++ (field.paddedValue.text ++ rest))).bind fun read =>
    some ((field.key, read.1), read.2)) = _
  rw [hvalue field.paddedValue.blank_before hrest, Option.bind_some]
  · rfl
  · simp only [List.length_append, List.length_cons] at hlength ⊢
    omega

theorem IsNumber.begins (h : IsNumber text) :
    ∃ c cs, text = c :: cs ∧ (c = '-' ∨ isDecimalDigit c = true) := by
  cases h with
  | negative => exact ⟨_, _, rfl, .inl rfl⟩
  | unsigned hwhole =>
    obtain ⟨c, digits, rfl, hc⟩ := hwhole.head
    exact ⟨c, _, rfl, .inr hc⟩

theorem Writes.begins (h : Writes value text) : Begins text := by
  cases h with
  | null | yes | no | array | object => exact ⟨_, _, rfl, by decide⟩
  | string hstring => exact hstring.begins
  | number hnumber =>
    obtain ⟨c, cs, rfl, hc⟩ := hnumber.begins
    refine ⟨c, cs, rfl, fun hmem => ?_⟩
    simp only [followers, List.mem_cons, List.not_mem_nil, or_false] at hmem
    rcases hmem with rfl | rfl | rfl | rfl | rfl | rfl | rfl <;> revert hc <;> decide

theorem Begins.skipSpace_eq (h : Begins text) {before : List Char} (hbefore : IsBlank before)
    (rest : List Char) : skipSpace (before ++ (text ++ rest)) = text ++ rest := by
  obtain ⟨c, cs, rfl, hc⟩ := h
  simp only [followers, List.mem_cons, List.not_mem_nil, or_false, not_or] at hc
  rw [skipSpace_blank hbefore]
  exact skipSpace_cons (by simp [isSpace, hc])

/-- A reader that is only used where less is left. -/
def guarded (n : Nat) (reader : Reader JsonValue) : Reader JsonValue :=
  fun rest => if rest.length < n then reader rest else none

/-- A text is read for a value where what stands behind it is of some form. -/
def Reads (behind : List Char → Prop) (value : JsonValue) (text : List Char) : Prop :=
  ∀ ⦃before rest : List Char⦄, IsBlank before → behind rest →
    readValue (before ++ (text ++ rest)) = some (value, rest)

theorem Reads.takes (h : Reads Follows value text) (n : Nat) : Takes (guarded n readValue) n value text :=
  fun _ _ hbefore hrest hlength => (if_pos hlength).trans (h hbefore hrest)

theorem readValue_number {c : Char} {cs : List Char} (h : skipSpace text = c :: cs)
    (hc : c = '-' ∨ isDecimalDigit c = true) :
    readValue text = (readNumber (c :: cs)).map fun (text, rest) => (.number text, rest) := by
  rw [readValue, fix_eq, h]
  split
  case h_7 => rfl
  all_goals
    rename_i heq
    obtain ⟨rfl, -⟩ := List.cons.inj heq
    exact absurd hc (by decide)

theorem readValue_string {cs : List Char} (h : skipSpace text = '\"' :: cs) :
    readValue text = (readString cs).map fun (text, rest) => (.string text, rest) := by
  rw [readValue, fix_eq, h]
  rfl

theorem readValue_array {cs : List Char} (h : skipSpace text = '[' :: cs) :
    readValue text
      = (readList (guarded text.length readValue) ']' cs).map fun (items, rest) => (.array items, rest) := by
  rw [readValue, fix_eq, h]
  rfl

theorem readValue_object {cs : List Char} (h : skipSpace text = '\x7b' :: cs) :
    readValue text = (readList (readField (guarded text.length readValue)) '\x7d' cs).map
      fun (fields, rest) => (.object fields, rest) := by
  rw [readValue, fix_eq, h]
  rfl

theorem array_reads {blank : List Char} {items : List Item} (hblank : IsBlank blank)
    (hitems : ∀ item ∈ items, Writes item.value item.padded.text)
    (h : ∀ item ∈ items, Reads Follows item.value item.padded.text) :
    Reads (fun _ => True) (.array (items.map Item.value))
      (enclose '[' ']' blank (items.map fun item => item.padded.chars)) := by
  intro before rest hbefore _
  have hskip := (Writes.array hblank hitems).begins.skipSpace_eq hbefore rest
  simp only [enclose, List.cons_append, List.append_assoc, List.nil_append] at hskip ⊢
  rw [readValue_array hskip, readList_of_takes (.inl rfl) Item.value
    (fun item hmem => ⟨(h item hmem).takes _, (hitems item hmem).begins⟩) hblank rfl, Option.map_some]
  simp only [List.length_append, List.length_cons]
  omega

theorem object_reads {blank : List Char} {fields : List Field} (hblank : IsBlank blank)
    (hkeys : ∀ field ∈ fields, WritesString field.key field.paddedKey.text)
    (hvalues : ∀ field ∈ fields, Writes field.value field.paddedValue.text)
    (h : ∀ field ∈ fields, Reads Follows field.value field.paddedValue.text) :
    Reads (fun _ => True) (.object (fields.map Field.entry))
      (enclose '\x7b' '\x7d' blank (fields.map Field.chars)) := by
  intro before rest hbefore _
  have hskip := (Writes.object hblank hkeys hvalues).begins.skipSpace_eq hbefore rest
  have hfields : fields.map Field.chars = fields.map fun field => field.padded.chars :=
    List.map_congr_left fun field _ => field.chars_padded.symm
  simp only [enclose, List.cons_append, List.append_assoc, List.nil_append, hfields] at hskip ⊢
  rw [readValue_object hskip, readList_of_takes (.inr rfl) Field.entry
    (fun field hmem => ⟨readField_takes (hkeys field hmem) ((h field hmem).takes _), ?_⟩) hblank rfl,
    Option.map_some]
  · simp only [List.length_append, List.length_cons]
    omega
  · exact (hkeys field hmem).begins.append

/-- A text of a value is read for it, where the value may end. -/
theorem Writes.reads (h : Writes value text) : Reads Follows value text := by
  induction h with
  | null | yes | no =>
    intro before rest hbefore _
    rw [readValue, fix_eq, skipSpace_blank hbefore]
    rfl
  | number hnumber =>
    intro before rest hbefore hrest
    obtain ⟨c, cs, rfl, hc⟩ := hnumber.begins
    rw [readValue_number ((Writes.number hnumber).begins.skipSpace_eq hbefore rest) hc]
    exact congrArg (Option.map _) (readNumber_of_isNumber hnumber hrest)
  | string hstring =>
    intro before rest hbefore _
    have hskip := hstring.begins.skipSpace_eq hbefore rest
    obtain ⟨hchars⟩ := hstring
    simp only [List.cons_append, List.append_assoc, List.nil_append] at hskip ⊢
    rw [readValue_string hskip, readString_of_writes hchars, Option.map_some]
  | array hblank hitems ih => exact fun _ _ hbefore _ => array_reads hblank hitems ih hbefore trivial
  | object hblank hkeys hvalues ih =>
    exact fun _ _ hbefore _ => object_reads hblank hkeys hvalues ih hbefore trivial

/-- Whether a value has parts, and so ends with a closing bracket. -/
def hasParts : JsonValue → Bool
  | .array _ | .object _ => true
  | _ => false

theorem Writes.readsParts (h : Writes value text) (hparts : value.hasParts = true) :
    Reads (fun _ => True) value text := by
  cases h with
  | null | yes | no | number | string => cases hparts
  | array hblank hitems => exact array_reads hblank hitems fun item hmem => (hitems item hmem).reads
  | object hblank hkeys hvalues =>
    exact object_reads hblank hkeys hvalues fun field hmem => (hvalues field hmem).reads

end Values

section Single

/-- A text without white space around it. -/
def Padded.bare (text : List Char) : Padded :=
  ⟨[], text, [], List.forall_mem_nil _, List.forall_mem_nil _⟩

theorem Padded.chars_bare (text : List Char) : (bare text).chars = text :=
  List.append_nil text

theorem writes_item {value : JsonValue} {text : List Char} (h : Writes value text) :
    Writes (.array [value]) (enclose '[' ']' [] [text]) := by
  have harray := @Writes.array [] [⟨value, .bare text⟩] (List.forall_mem_nil _) (List.forall_mem_singleton.2 h)
  rwa [List.map_singleton, List.map_singleton, Padded.chars_bare] at harray

theorem writes_field {key : String} {keyText text : List Char} {value : JsonValue}
    (hkey : WritesString key keyText) (h : Writes value text) :
    Writes (.object [(key, value)]) (enclose '\x7b' '\x7d' [] [keyText ++ ':' :: text]) := by
  have hobject := @Writes.object [] [⟨key, .bare keyText, value, .bare text⟩] (List.forall_mem_nil _)
    (List.forall_mem_singleton.2 hkey) (List.forall_mem_singleton.2 h)
  rwa [List.map_singleton, List.map_singleton, Field.chars, Padded.chars_bare, Padded.chars_bare] at hobject

end Single

section Documents

variable {value : JsonValue} {document : Padded} (h : Writes value document.text)
include h

/-- A value with white space around it is read. -/
theorem parse?_of_writes : parse? document.chars = some value := by
  have hfollows : Follows document.after := by
    rw [← List.append_nil document.after]
    exact follows_blank document.blank_after nofun
  have hall : document.after.all isSpace = true := all_isSpace.2 document.blank_after
  simp only [parse?, Padded.chars, h.reads document.blank_before hfollows, Option.bind_eq_bind, Option.bind_some,
    hall, if_true]

/-- Nothing but white space may follow an array or an object. -/
theorem parse?_of_trailing (hparts : value.hasParts = true) {trailing : List Char}
    (htrailing : ¬IsBlank trailing) : parse? (document.chars ++ trailing) = none := by
  have hall : ¬(document.after ++ trailing).all isSpace = true := by
    rw [List.all_append, Bool.and_eq_true]
    exact fun hall => htrailing (all_isSpace.1 hall.2)
  simp only [parse?, Padded.chars, List.append_assoc, h.readsParts hparts document.blank_before trivial,
    Option.bind_eq_bind, Option.bind_some, if_neg hall]

end Documents

end NodeFactory.JsonValue
