import NodeFactory.Grammar.Lexeme
import NodeFactory.Proofs.Outlines

/-!
# Where nodes are written

A node fills a run of lexemes: it begins with the first and ends with the last (`Fills`). The nodes
that it is made of lie within the run, one after the other, each filling a run of its own (`Within`).

A node with comments has those that lead its first lexeme. Of its parts only its name may be written
in that lexeme, so no node inside it has the same comments.
-/

namespace NodeFactory

open Text

/-- What a run of lexemes spans, given by its first and the others. -/
def Lexeme.spanTo (first : Lexeme) (rest : List Lexeme) : Span :=
  ⟨first.span.start,
    max (rest.foldl (fun _ lexeme => lexeme.span.stop) first.span.stop) first.span.start⟩

/-- Lexemes of which a semicolon is not the last. -/
def Unended (lexemes : List Lexeme) : Prop :=
  ∀ lexeme ∈ lexemes.getLast?, lexeme.kind ≠ .semicolon

/-- An identifier has no parts, and a name of a declaration is made of one or more words. A type does
not take the semicolon behind it. -/
def NodeSort.Fits (parts : List Outline) (lexemes : List Lexeme) : NodeSort → Prop
  | ident _ => parts = []
  | entityName => parts ≠ [] ∧ ∀ part ∈ parts, ∃ lexeme ∈ lexemes,
    lexeme.kind.isName = true ∧ part.sort = .ident (String.ofList lexeme.text)
  | type => Unended lexemes
  | _ => True

def Outline.IsIdent (outline : Outline) : Prop := ∃ name, outline.sort = .ident name

inductive Within : List Outline → List Lexeme → Prop
  | nil : Within [] []
  | skip {lexeme : Lexeme} {outlines : List Outline} {lexemes : List Lexeme} :
      Within outlines lexemes → Within outlines (lexeme :: lexemes)
  | plain {sort : NodeSort} {first : Lexeme} {rest lexemes : List Lexeme}
      {parts outlines : List Outline} :
      sort.comments? = none → sort.Fits parts (first :: rest) → Within parts (first :: rest) →
        Within outlines lexemes →
          Within (.node sort (first.spanTo rest) parts :: outlines) (first :: rest ++ lexemes)
  | led {sort : NodeSort} {first : Lexeme} {rest lexemes : List Lexeme}
      {name parts outlines : List Outline} :
      sort.comments? = some first.comments → (∀ part ∈ name, part.IsIdent) → Within name [first] →
        Within parts rest → Within outlines lexemes →
          Within (.node sort (first.spanTo rest) (name ++ parts) :: outlines)
            (first :: rest ++ lexemes)

/-- A node is written in lexemes, from the first to the last. -/
inductive Fills : Outline → List Lexeme → Prop
  | plain {sort : NodeSort} {first : Lexeme} {rest : List Lexeme} {parts : List Outline} :
      sort.comments? = none → sort.Fits parts (first :: rest) → Within parts (first :: rest) →
        Fills (.node sort (first.spanTo rest) parts) (first :: rest)
  | led {sort : NodeSort} {first : Lexeme} {rest : List Lexeme} {name parts : List Outline} :
      sort.comments? = some first.comments → (∀ part ∈ name, part.IsIdent) → Within name [first] →
        Within parts rest → Fills (.node sort (first.spanTo rest) (name ++ parts)) (first :: rest)

/-- Nodes lie within lexemes, after the first of them. -/
def Behind (outlines : List Outline) (lexemes : List Lexeme) : Prop :=
  ∃ first rest, lexemes = first :: rest ∧ Within outlines rest

/-- Nodes lie within lexemes, where at most a name is written in the first. -/
def LedBy (outlines : List Outline) (lexemes : List Lexeme) : Prop :=
  ∃ first rest name parts, lexemes = first :: rest ∧ outlines = name ++ parts
    ∧ (∀ part ∈ name, part.IsIdent) ∧ Within name [first] ∧ Within parts rest

section Combined

variable {outline : Outline} {outlines outlines' : List Outline} {xs ys : List Lexeme}

theorem Fills.ne_nil (h : Fills outline xs) : xs ≠ [] := by
  cases h <;> exact List.cons_ne_nil _ _

theorem Within.cons (h : Fills outline xs) (h' : Within outlines ys) :
    Within (outline :: outlines) (xs ++ ys) := by
  cases h with
  | plain hsort hfits hparts => exact .plain hsort hfits hparts h'
  | led hcomments hname hfirst hparts => exact .led hcomments hname hfirst hparts h'

theorem Within.single (h : Fills outline xs) : Within [outline] xs := by
  have := Within.cons h .nil
  rwa [List.append_nil] at this

/-- Nothing lies anywhere. -/
theorem Within.none : ∀ xs : List Lexeme, Within [] xs
  | [] => .nil
  | _ :: xs => .skip (Within.none xs)

theorem Within.append (h : Within outlines xs) (h' : Within outlines' ys) :
    Within (outlines ++ outlines') (xs ++ ys) := by
  induction h with
  | nil => exact h'
  | skip _ ih => exact .skip ih
  | plain hsort hfits hparts _ _ ih =>
    rw [List.append_assoc]
    exact .plain hsort hfits hparts ih
  | led hcomments hname hfirst hparts _ _ _ ih =>
    rw [List.append_assoc]
    exact .led hcomments hname hfirst hparts ih

/-- Lexemes may be added at both ends. -/
theorem Within.after (h : Within outlines ys) (xs : List Lexeme) : Within outlines (xs ++ ys) :=
  (Within.none xs).append h

theorem Within.before (h : Within outlines xs) (ys : List Lexeme) : Within outlines (xs ++ ys) := by
  have := h.append (Within.none ys)
  rwa [List.append_nil] at this

theorem Behind.within (h : Behind outlines xs) : Within outlines xs := by
  obtain ⟨first, rest, rfl, hrest⟩ := h
  exact .skip hrest

theorem Behind.ne_nil (h : Behind outlines xs) : xs ≠ [] := by
  obtain ⟨first, rest, rfl, -⟩ := h
  exact List.cons_ne_nil _ _

theorem Behind.append (h : Behind outlines xs) (h' : Within outlines' ys) :
    Behind (outlines ++ outlines') (xs ++ ys) := by
  obtain ⟨first, rest, rfl, hrest⟩ := h
  exact ⟨first, rest ++ ys, rfl, hrest.append h'⟩

theorem behind_of_ne_nil (hxs : xs ≠ []) (h : Within outlines ys) : Behind outlines (xs ++ ys) := by
  cases xs with
  | nil => exact absurd rfl hxs
  | cons first rest => exact ⟨first, rest ++ ys, rfl, h.after rest⟩

/-- Nodes may come first that take nothing if there are none of them. -/
theorem Behind.lead (h : (outlines = [] ∧ xs = []) ∨ Behind outlines xs) (h' : Behind outlines' ys) :
    Behind (outlines ++ outlines') (xs ++ ys) := by
  rcases h with ⟨rfl, rfl⟩ | h
  · exact h'
  · exact h.append h'.within

theorem Behind.ledBy (h : Behind outlines xs) : LedBy outlines xs := by
  obtain ⟨first, rest, rfl, hrest⟩ := h
  exact ⟨first, rest, [], outlines, rfl, rfl, nofun, .none _, hrest⟩

theorem LedBy.ne_nil (h : LedBy outlines xs) : xs ≠ [] := by
  obtain ⟨first, rest, _, _, rfl, -⟩ := h
  exact List.cons_ne_nil _ _

theorem LedBy.within (h : LedBy outlines xs) : Within outlines xs := by
  obtain ⟨first, rest, name, parts, rfl, rfl, -, hfirst, hrest⟩ := h
  exact hfirst.append hrest

theorem LedBy.append (h : LedBy outlines xs) (h' : Within outlines' ys) :
    LedBy (outlines ++ outlines') (xs ++ ys) := by
  obtain ⟨first, rest, name, parts, rfl, rfl, hname, hfirst, hrest⟩ := h
  exact ⟨first, rest ++ ys, name, parts ++ outlines', rfl, List.append_assoc _ _ _, hname, hfirst,
    hrest.append h'⟩

theorem LedBy.before (h : LedBy outlines xs) (ys : List Lexeme) : LedBy outlines (xs ++ ys) := by
  have := h.append (Within.none ys)
  rwa [List.append_nil] at this

end Combined

theorem Unended.nil : Unended [] := nofun

theorem Unended.after (h : Unended ys) (hne : ys ≠ []) (xs : List Lexeme) : Unended (xs ++ ys) := by
  intro lexeme hlast
  rw [List.getLast?_append, List.getLast?_eq_some_getLast hne, Option.some_or,
    ← List.getLast?_eq_some_getLast hne] at hlast
  exact h lexeme hlast

theorem Unended.append (h : Unended xs) (h' : Unended ys) : Unended (xs ++ ys) := by
  cases ys with
  | nil => rwa [List.append_nil]
  | cons first rest => exact h'.after (List.cons_ne_nil _ _) xs

section Read

variable {sort : NodeSort} {first : Lexeme} {rest : List Lexeme} {parts : List Outline}

@[simp] theorem Lexeme.spanTo_nil (first : Lexeme) : first.spanTo [] = first.span := by
  have hle : first.span.start ≤ first.span.stop := Nat.le_add_right _ _
  show (⟨first.span.start, max first.span.stop first.span.start⟩ : Span) = first.span
  rw [Nat.max_eq_left hle]

theorem Fills.ident {ident : Ident} (h : ident.span = first.spanTo rest) :
    Fills ident.outline (first :: rest) := by
  unfold Ident.outline
  rw [h]
  exact .plain rfl rfl (.none _)

theorem LedBy.fills (hsort : sort.comments? = some first.comments)
    (h : LedBy parts (first :: rest)) : Fills (.node sort (first.spanTo rest) parts) (first :: rest) := by
  obtain ⟨first', rest', name, others, hlexemes, rfl, hname, hfirst, hothers⟩ := h
  obtain ⟨rfl, rfl⟩ := List.cons.inj hlexemes
  exact .led hsort hname hfirst hothers

end Read

end NodeFactory
