import NodeFactory.Proofs.BareProperties
import NodeFactory.Proofs.InsertedStatements

/-!
# Index signatures and mapped members declare no property

An index signature or a mapped member is put into the body of an interface or of a type literal. No error is
added, the members that have a name stay as they are but for where they are, and there is one member without a
name more. In a whole text the interface gains that member and nothing else changes, so each symbol has the same
properties (`unnamed_member_adds`).

A `readonly` before the bracket is the exception: the grammar looks behind it for a name, an index signature has
none, and so the word itself becomes a property without a type (`readonly_index_declares`).
-/

namespace NodeFactory

open Parse Text

section Texts

variable {i : Insertion} {c c' d e e' f f' : Cursor} {text text' : List Char}
  {base added all all' : List Member}

/-- Only one cursor is parallel to another. -/
theorem Insertion.Parallel.unique (h : i.Parallel c d) (h' : i.Parallel c e) : d = e := by
  obtain ⟨ahead, hc, hd⟩ := h.rest
  obtain ⟨ahead', hc', he⟩ := h'.rest
  obtain rfl : ahead = ahead' := List.append_cancel_right (hc.symm.trans hc')
  exact Cursor.eq_of_fields (hd.trans he.symm) (h.lastEnd.symm.trans h'.lastEnd)
    (h.expected.symm.trans h'.expected) (h.errors.symm.trans h'.errors)

/-- Texts with the same lexemes, but that in one of them lexemes are put in. No malformed pieces come with
them. -/
structure Insertion.Fills (i : Insertion) (text text' : List Char) : Prop where
  lexemes : ∃ before, lexemesOf text = before ++ i.left ∧ lexemesOf text' = before ++ i.filled
  malformed : Same .erasing .erasing ((Token.tokenize text).filterMap ParseError.ofToken?)
    ((Token.tokenize text').filterMap ParseError.ofToken?)

theorem Insertion.Fills.parallel (h : i.Fills text text') :
    i.Parallel (Cursor.before 0 (lexemesOf text)) (Cursor.before 0 (lexemesOf text')) :=
  ⟨h.lexemes, rfl, rfl, rfl⟩

/-- A text is read from its first lexeme, with the malformed pieces as the first errors. -/
theorem parse_of_before {statements : List Statement}
    (h : statementsUntil .endOfFile (Cursor.before 0 (lexemesOf text)) = .ok statements d) :
    Schema.parse text
      = ⟨text, statements, (Token.tokenize text).filterMap ParseError.ofToken? ++ d.errors⟩ := by
  have hstart : Cursor.ofTokens (Token.tokenize text) = (Cursor.before 0 (lexemesOf text)).preceded
      ((Token.tokenize text).filterMap ParseError.ofToken?) :=
    Cursor.eq_of_fields rfl rfl rfl (List.append_nil _).symm
  have hrun := statementsUntil_indifferent .endOfFile
    ((Token.tokenize text).filterMap ParseError.ofToken?) (Cursor.before 0 (lexemesOf text))
  rw [h, ← hstart] at hrun
  exact parse_of_ok hrun

/-- What is put into the members of an interface is all that a text gains. -/
theorem parse_gains (hfills : i.Fills text text')
    (hway : LeadsTo .endOfFile (Cursor.before 0 (lexemesOf text)) e) (he : i.Parallel e e')
    (hall : members typeExpr e = .ok all f) (hall' : members typeExpr e' = .ok all' f')
    (hadds : AddsSame .erasing .erasing base (base ++ added) all all')
    (hf : Alike .erasing .erasing true f f') :
    GainIn added (Schema.parse text).statements (Schema.parse text').statements
      ∧ Same .erasing .erasing (Schema.parse text).errors (Schema.parse text').errors := by
  obtain ⟨e'', he'', hgains⟩ := hway.gains hfills.parallel he.size_le
  obtain rfl := he.unique he''
  obtain ⟨statements, statements', g, g', hrun, hrun', hgain, hg⟩ := hgains hall hall' hadds hf
  rw [parse_of_before hrun, parse_of_before hrun']
  refine ⟨hgain, ?_⟩
  rw [Same, relocate_append, relocate_append, hfills.malformed, hg.errors]

end Texts

section Unnamed

variable {i : Insertion} {text' : List Char} {modifier : Option Lexeme} {xs : List Lexeme} {e e' d f : Cursor}
  {base all : List Member}

/-- In the body of an interface or of a type literal an index signature or a mapped member is put in, behind the
opening brace or behind a semicolon that ends a member. The body has the same members, and the one put in; it ends
where it did, with the errors it had. If it is the body of an interface in a text, the text has the same
statements but that the interface gains that member, and every symbol has the same properties. With a `readonly`
before the bracket there is a property of that name besides. -/
theorem unnamed_member_adds (hindex : IsIndexMember xs)
    (hmodifier : ∀ lexeme ∈ modifier, lexeme.kind = .keyword .readonlyKw)
    (htext : ∀ lexeme ∈ xs, lexeme ∈ lexemesOf text') (hinserted : i.inserted = modifier.toList ++ xs)
    (hbehind : Agree .erasing .erasing false i.behind i.moved) (hbody : members typeExpr e = .ok all f)
    (hplace : BeforeMember e base d) (hd : d.rest = i.behind) (he : i.Parallel e e') :
    ∃ stray index behind behind' f',
      let all' := base ++ (stray ++ [index]) ++ behind'
      stray.map Member.shape = strayShapes modifier ∧ index.shape = .index
        ∧ all = base ++ behind ∧ Same .erasing .erasing behind behind'
        ∧ members typeExpr e' = .ok all' f' ∧ Alike .erasing .erasing true f f'
        ∧ primaryType typeExpr (typeAt .suffixed) e = .ok ⟨.literal all, ⟨e.start, max f.lastEnd e.start⟩⟩ f
        ∧ primaryType typeExpr (typeAt .suffixed) e'
          = .ok ⟨.literal all', ⟨e.start, max f'.lastEnd e.start⟩⟩ f'
        ∧ ∀ text : List Char, i.Fills text text' →
          LeadsTo .endOfFile (Cursor.before 0 (lexemesOf text)) e →
            let table := SymbolTable.ofStatements (Schema.parse text).statements
            let table' := SymbolTable.ofStatements (Schema.parse text').statements
            Same .erasing .erasing (Schema.parse text).errors (Schema.parse text').errors
              ∧ GainIn (stray ++ [index]) (Schema.parse text).statements (Schema.parse text').statements
              ∧ (modifier = none → Property.FoundAlike table table') := by
  have hopened : e.kind = .openBrace := by
    cases hplace with
    | first hkind => exact hkind
    | behind hkind => exact hkind
  have hviews : i.Views e e' := .inl he
  obtain ⟨stray, index, hstray, hshape, hrun⟩ :=
    members_inserted hplace he hd hindex hmodifier htext hinserted hbehind
  rw [hbody] at hrun
  generalize hbody' : members typeExpr e' = result at hrun
  cases hrun with
  | @ok _ all' _ f' hadds hf =>
  obtain ⟨behind, behind', hall, rfl, hsame⟩ := hadds
  refine ⟨stray, index, behind, behind', f', hstray, hshape, hall, hsame, rfl, hf,
    literal_of_members hopened hbody, ?_, fun text hfills hway => ?_⟩
  · rw [hviews.start]
    exact literal_of_members (hviews.kind ▸ hopened) hbody'
  · obtain ⟨hgain, herrors⟩ := parse_gains hfills hway he hbody hbody' ⟨behind, behind', hall, rfl, hsame⟩ hf
    refine ⟨herrors, hgain, fun hnone => Property.foundAlike_of_bare_eq ?_⟩
    have hadded : ∀ member ∈ stray ++ [index], member.shape = .index := by
      subst hnone
      rw [List.map_eq_nil_iff.1 hstray, List.nil_append]
      exact List.forall_mem_singleton.2 hshape
    rw [← SymbolTable.ofStatements_bare, hgain.bare_eq hadded, SymbolTable.ofStatements_bare]

end Unnamed

section Instances

/-- An action that gives a value leaves the cursor where its result says. -/
theorem ok_of_isOk {α : Type} {A : Parse α} {c : Cursor} (h : (NodeFactory.outcome (A c)).isOk = true) :
    ∃ value, A c = .ok value (leftBy (A c)) := by
  cases hrun : A c with
  | ok value d => exact ⟨value, rfl⟩
  | error error d =>
    rw [hrun] at h
    cases h

/-- The members of an interface, without and with a mapped member between them. -/
def twoMembers : List Char := "interface A{a:B;c:D;}".toList

def mappedBetween : List Char := "interface A{a:B;[k:E]?:F;c:D;}".toList

def mappedMember : List Lexeme := ((lexemesOf mappedBetween).drop 7).take 9

theorem mappedMember_isIndexMember : IsIndexMember mappedMember := by
  let lexemes := lexemesOf mappedBetween
  let opening := lexemes.get ⟨7, by decide +kernel⟩
  let inner := (lexemes.drop 8).take 3
  let closing := lexemes.get ⟨11, by decide +kernel⟩
  let question := lexemes.get ⟨12, by decide +kernel⟩
  let colon := lexemes.get ⟨13, by decide +kernel⟩
  let type := (lexemes.drop 14).take 1
  let semicolon := lexemes.get ⟨15, by decide +kernel⟩
  have hparts : mappedMember
      = opening :: (inner ++ closing :: ([question] ++ (colon :: type ++ [semicolon]))) := by decide +kernel
  rw [hparts]
  refine .mk ⟨by decide +kernel, by decide +kernel, ?_⟩ (.inr ⟨question, rfl, by decide +kernel⟩)
    (.inr ⟨colon, type, rfl, by decide +kernel, ?_⟩) (by decide +kernel)
  · show Matched (kindsIn ((lexemes.drop 8).take 3))
    decide +kernel
  · let c := Cursor.before colon.span.stop (type ++ [semicolon])
    obtain ⟨value, hvalue⟩ := ok_of_isOk (A := typeExpr) (c := c) (by decide +kernel)
    exact ⟨value, _, hvalue, by decide +kernel, by decide +kernel⟩

theorem mappedMember_mem : ∀ lexeme ∈ mappedMember, lexeme ∈ lexemesOf mappedBetween := fun _ hmem =>
  List.mem_of_mem_drop (List.mem_of_mem_take hmem)

/-- The mapped member is put in behind the first semicolon. -/
def mappedInsertion : Insertion where
  mark := (lexemesOf twoMembers).get ⟨6, by decide +kernel⟩
  inserted := mappedMember
  behind := (lexemesOf twoMembers).drop 7
  moved := (lexemesOf mappedBetween).drop 16
  marks := by decide +kernel
  nests := mappedMember_isIndexMember.nests fun lexeme hmem =>
    allGenuine_lexemesOf mappedBetween lexeme (mappedMember_mem lexeme hmem)
  kinds := by decide +kernel

theorem mappedMember_adds :
    IsIndexMember mappedMember ∧ mappedInsertion.Fills twoMembers mappedBetween
      ∧ ∃ index, index.shape = .index
        ∧ GainIn [index] (Schema.parse twoMembers).statements (Schema.parse mappedBetween).statements
        ∧ Same .erasing .erasing (Schema.parse twoMembers).errors (Schema.parse mappedBetween).errors
        ∧ Property.FoundAlike (SymbolTable.ofStatements (Schema.parse twoMembers).statements)
          (SymbolTable.ofStatements (Schema.parse mappedBetween).statements) := by
  have hfills : mappedInsertion.Fills twoMembers mappedBetween :=
    ⟨⟨(lexemesOf twoMembers).take 6, by decide +kernel, by decide +kernel⟩, by unfold Same; decide +kernel⟩
  let c := Cursor.before 0 (lexemesOf twoMembers)
  let start := leftBy (modifiers ((c.expect [.endOfFile]).expect [.semicolon]))
  let e := leftBy (interfaceHead start)
  let m := leftBy (memberShape typeExpr (e.next.expect [.closeBrace]))
  obtain ⟨isConst, hmodifiers⟩ := ok_of_isOk (A := modifiers)
    (c := (c.expect [.endOfFile]).expect [.semicolon]) (by decide +kernel)
  obtain ⟨make, hhead⟩ := ok_of_isOk (A := interfaceHead) (c := start) (by decide +kernel)
  obtain ⟨shape, hshape⟩ := ok_of_isOk (A := memberShape typeExpr) (c := e.next.expect [.closeBrace])
    (by decide +kernel)
  obtain ⟨all, hbody⟩ := ok_of_isOk (A := members typeExpr) (c := e) (by decide +kernel)
  have hsemicolon : m.kind = .semicolon := by decide +kernel
  have hplace : BeforeMember e ([] ++ [_]) m.next := .behind (by decide +kernel) (.done _ _)
    (.next (by decide +kernel) (by decide +kernel) hshape hsemicolon (member_of_shape hshape hsemicolon) (.done _))
  have hway : LeadsTo .endOfFile c e := .inInterface (.done _ _)
    ⟨by decide +kernel, by decide +kernel, by decide +kernel, by decide +kernel, hmodifiers, by decide +kernel⟩
    (by decide +kernel) hhead
  have he : mappedInsertion.Parallel e
      ⟨(lexemesOf mappedBetween).drop 2, _, rfl, e.lastEnd, e.expected, e.errors⟩ :=
    ⟨⟨((lexemesOf twoMembers).drop 2).take 4, by decide +kernel, by decide +kernel⟩, rfl, rfl, rfl⟩
  obtain ⟨stray, index, behind, behind', f', hstray, hindex, -, -, -, -, -, -, htexts⟩ :=
    @unnamed_member_adds mappedInsertion mappedBetween none mappedMember e _ m.next _ _ all
      mappedMember_isIndexMember nofun mappedMember_mem rfl
      (agree_of_maps (by decide +kernel) (by decide +kernel) (by decide +kernel) (by decide +kernel)).weaken
      hbody hplace (by decide +kernel) he
  obtain ⟨herrors, hgain, hfound⟩ := htexts twoMembers hfills hway
  obtain rfl := List.map_eq_nil_iff.1 hstray
  exact ⟨mappedMember_isIndexMember, hfills, index, hindex, hgain, herrors, hfound rfl⟩

/-- An interface without members, and with an index signature that begins with `readonly`. -/
def noMembers : List Char := "interface A{}".toList

def readonlyIndex : List Char := "interface A{readonly [k:B]:C;}".toList

/-- The properties of the first symbol of a text, by name. -/
def firstProperties (text : List Char) : Except CyclicType (List String) :=
  (NodeFactory.outcome (Property.ofSymbol (SymbolTable.ofStatements (Schema.parse text).statements) 0 .empty)).map
    Property.names

/-- Put in at the beginning, an index signature with a `readonly` adds a property of that name. -/
theorem readonly_index_declares :
    let lexemes := (lexemesOf noMembers).map Lexeme.text
    let lexemes' := (lexemesOf readonlyIndex).map Lexeme.text
    lexemes'.take 3 ++ lexemes'.drop 12 = lexemes
      ∧ (lexemes'.drop 3).take 9
        = ["readonly", "[", "k", ":", "B", "]", ":", "C", ";"].map String.toList
      ∧ (Schema.parse noMembers).errors = [] ∧ (Schema.parse readonlyIndex).errors = []
      ∧ firstProperties noMembers = .ok [] ∧ firstProperties readonlyIndex = .ok ["readonly"] :=
  ⟨by decide +kernel, by decide +kernel, by decide +kernel, by decide +kernel, by decide +kernel,
    by decide +kernel⟩

end Instances

end NodeFactory
