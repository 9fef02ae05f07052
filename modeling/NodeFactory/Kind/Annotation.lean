import NodeFactory.Text.CharClass
import NodeFactory.Text.Span

/-!
# Kind annotations

A comment names a kind by a tag, followed in parentheses by the kind enum, a dot and a member: white
space may stand before and inside the parentheses. Annotations are found from left to right and do
not overlap.
-/

namespace NodeFactory.Annotation

open Text

def isWordChar (c : Char) : Bool :=
  isDecimalDigit c || ('a' ≤ c && c ≤ 'z') || ('A' ≤ c && c ≤ 'Z') || c == '_'

/-- What follows a literal at the beginning of a text. -/
def afterLiteral? : List Char → List Char → Option (List Char)
  | [], cs => some cs
  | _ :: _, [] => none
  | l :: literal, c :: cs => if l = c then afterLiteral? literal cs else none

/-- What `next` finds after a run of white space, which may be empty: after the longest for which it
finds something. -/
def afterSpace (next : List Char → Option α) : List Char → Option α
  | [] => next []
  | c :: cs =>
    if isWhiteSpace c then (afterSpace next cs).or (next (c :: cs)) else next (c :: cs)

/-- A member name and the end of the annotation; returns the name and what follows. -/
def memberAndEnd? (cs : List Char) : Option (List Char × List Char) :=
  let member := cs.takeWhile isWordChar
  if member.isEmpty then none
  else
    afterSpace (fun rest => (afterLiteral? [')'] rest).map (member, ·)) (cs.dropWhile isWordChar)

/-- The member that an annotation at the beginning of a text names, and what follows the
annotation. -/
def here? (tag enum cs : List Char) : Option (List Char × List Char) := do
  let rest ← afterLiteral? tag cs
  let rest ← afterSpace (afterLiteral? ['(']) rest
  afterSpace (fun rest => (afterLiteral? (enum ++ ['.']) rest).bind memberAndEnd?) rest

/-- The annotations of a text that begins at byte `start`: the member each names, and where it
stands. -/
def findFrom (tag enum : List Char) (start : Nat) : List Char → List (String × Span)
  | [] => []
  | c :: cs =>
    match here? tag enum (c :: cs) with
    | some (member, rest) =>
      if _ : rest.length < (c :: cs).length then
        let stop := start + (byteLength (c :: cs) - byteLength rest)
        (String.ofList member, ⟨start, stop⟩) :: findFrom tag enum stop rest
      else []
    | none => findFrom tag enum (start + c.utf8Size) cs
termination_by cs => cs.length
decreasing_by
  · assumption
  · exact Nat.lt_succ_self cs.length

def find (tag enum text : List Char) : List (String × Span) :=
  findFrom tag enum 0 text

end NodeFactory.Annotation
