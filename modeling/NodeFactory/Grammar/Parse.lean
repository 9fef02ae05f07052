import NodeFactory.Grammar.Cursor
import NodeFactory.Schema.Name

/-!
# Reading actions

An action reads lexemes and gives a value or fails; in both cases it leaves a cursor, because what a
failed action has read stays read. Actions that read themselves again are made by `fix`, which
allows that only where fewer lexemes are left, so that every action ends.
-/

namespace NodeFactory

open Text

/-- An action on the cursor. -/
abbrev Parse := EStateM ParseError Cursor

namespace Parse

def cursor : Parse Cursor := get

/-- Fails because the next lexeme is not what was looked for. -/
def unexpected : Parse α := do
  throw (← cursor).unexpected

def next : Parse Unit := modify Cursor.next

def skip (n : Nat) : Parse Unit := modify (Cursor.skip n)

def kind : Parse TokenKind := return (← cursor).kind

def isAt (kind : TokenKind) : Parse Bool := return (← cursor).kind == kind

/-- Reads a lexeme of a kind if it is next, and otherwise notes that the kind was looked for. -/
def eat (kind : TokenKind) : Parse Bool := do
  if ← isAt kind then
    next
    return true
  else
    modify fun cursor => cursor.expect [kind]
    return false

def expect (kind : TokenKind) : Parse Unit := do
  unless ← eat kind do unexpected

/-- The span from `start` to the last lexeme read. -/
def spanFrom (start : Nat) : Parse Span :=
  return ⟨start, max (← cursor).lastEnd start⟩

/-- Runs an action and gives its failure as a value; what it has read stays read. -/
def outcome (action : Parse α) : Parse (Except ParseError α) := fun cursor =>
  match action cursor with
  | .ok value cursor => .ok (.ok value) cursor
  | .error error cursor => .ok (.error error) cursor

def report (error : ParseError) : Parse Unit := modify fun cursor => cursor.report error

/-- An action that may call itself, with another argument, where fewer lexemes are left; a call
that has read nothing fails. -/
def fix (body : (ι → Parse α) → ι → Parse α) (i : ι) : Parse α := fun cursor =>
  body (fun j later =>
    if _ : later.size < cursor.size then fix body j later else unexpected later) i cursor
termination_by cursor => cursor.size

/-- Repeats a step, which goes on with a new state or ends with a result. -/
def repeatFrom (step : σ → Parse (σ ⊕ α)) (state : σ) : Parse α :=
  fix (fun again state => do
    match ← step state with
    | .inl state => again state
    | .inr result => return result) state

/-- One or more items separated by commas. -/
def separated (item : Parse α) : Parse (List α) :=
  repeatFrom (fun items => do
    let items := items ++ [← item]
    return if ← eat .comma then .inl items else .inr items) []

/-- Items between an opening and a closing lexeme, separated by commas; the last may be followed by
one. -/
def enclosed (opening : TokenKind) (item : Parse α) (closing : TokenKind) : Parse (List α) := do
  expect opening
  repeatFrom (fun items => do
    if ← eat closing then return .inr items
    let items := items ++ [← item]
    if ← eat closing then return .inr items
    expect .comma
    return .inl items) []

/-- A name may also be spelled like a keyword. -/
def ident : Parse Ident := do
  match (← cursor).peek? 0 with
  | some lexeme =>
    if lexeme.kind.isName then
      next
      return ⟨String.ofList lexeme.text, lexeme.span⟩
    else missing
  | none => missing
where
  missing : Parse Ident := do
    modify fun cursor => cursor.expect [.identifier]
    unexpected

/-- The name of a property: an identifier, a string without its quotes, or a number. -/
def propertyName : Parse Ident := do
  match (← cursor).peek? 0 with
  | some lexeme =>
    match lexeme.kind with
    | .string =>
      next
      return ⟨String.ofList (lexeme.text.drop 1).dropLast, lexeme.span⟩
    | .number =>
      next
      return ⟨String.ofList lexeme.text, lexeme.span⟩
    | _ => ident
  | none => ident

/-- Identifiers joined by dots. -/
def entityName : Parse EntityName := do
  let start := (← cursor).start
  let first ← ident
  let rest ← repeatFrom (fun parts => do
    if ← eat .dot then return .inl (parts ++ [← ident])
    else return .inr parts) []
  return ⟨first, rest, ← spanFrom start⟩

/-- The lexemes up to and with the one that closes the group, of which `depth` levels are open. -/
def groupLength? : Nat → List Lexeme → Option Nat
  | 0, _ => some 0
  | _ + 1, [] => none
  | depth + 1, lexeme :: lexemes =>
    let depth :=
      if lexeme.kind.isOpen then depth + 2
      else if lexeme.kind.isClose then depth
      else depth + 1
    (groupLength? depth lexemes).map (· + 1)

/-- Skips a group with its delimiters, whatever their kinds. -/
def skipGroup (opening : TokenKind) : Parse Unit := do
  expect opening
  let rest := (← cursor).rest
  match groupLength? 1 rest with
  | some n => skip n
  | none =>
    skip rest.length
    unexpected

/-- The length of a balanced run of lexemes at a depth. It ends after a semicolon outside all
groups, or after the brace that closes the last one; a closing delimiter that closes nothing is not
part of it. -/
def balancedLength : Nat → List Lexeme → Nat
  | _, [] => 0
  | depth, lexeme :: lexemes =>
    if lexeme.kind.isClose then
      match depth with
      | 0 => 0
      | depth + 1 =>
        if depth = 0 ∧ lexeme.kind = .closeBrace then 1
        else balancedLength depth lexemes + 1
    else if lexeme.kind.isOpen then balancedLength (depth + 1) lexemes + 1
    else if lexeme.kind = .semicolon ∧ depth = 0 then 1
    else balancedLength depth lexemes + 1

def skipBalanced : Parse Unit := do
  skip (balancedLength 0 (← cursor).rest)

/-- Skips a balanced run after an error, and a closing delimiter that does not close the list being
read. -/
def recover (closing : TokenKind) : Parse Unit := do
  let n := balancedLength 0 (← cursor).rest
  skip n
  if n = 0 then
    let kind ← kind
    unless kind == closing || kind == .endOfFile do next

end Parse

end NodeFactory
