import NodeFactory.Proofs.LayoutFreeStatements
import NodeFactory.Proofs.Relexing
import NodeFactory.Proofs.TypeOrigins
import NodeFactory.Proofs.TypeSpans

/-!
# The text of a type denotes the type

In a text without errors, the piece that the type of a property or the return type of a method spans
denotes that type by itself, whatever surrounds it (`declaredType_denoted`). The type was read from
the lexemes of the piece; it is read from them again if nothing but a semicolon follows
(`IsReadFrom.readsAlone`), and so it is after `type X =` in another text (`ReadsAlone.denotes`).
-/

namespace NodeFactory

open Parse Text

/-- The declaration of `X` to be an alias of what is written. -/
def aliasText (written : List Char) : List Char := "type X = ".toList ++ written ++ [';']

/-- The declaration is read without errors, as an alias of a type that is the given one once both
are moved to one place. In the declaration it begins at byte 9. -/
def Denotes (written : List Char) (type : TypeExpr) : Prop :=
  (Schema.parse (aliasText written)).errors = []
    ∧ ∃ place type', (Schema.parse (aliasText written)).statements
        = [.aliasDecl place ⟨⟨"X", ⟨5, 6⟩⟩, [], type'⟩]
      ∧ relocate (.shift 9) type = relocate (.shift type.span.start) type'

namespace Token

theorem tokensFrom_of_extent {c : Char} {cs : List Char} {kind : TokenKind} {n : Nat} (start : Nat)
    (h : extent c cs = (kind, n)) : tokensFrom start (c :: cs)
      = ⟨kind, c :: cs.take n, start⟩ :: tokensFrom (start + byteLength (c :: cs.take n)) (cs.drop n) := by
  rw [tokensFrom_cons, h]

/-- The tokens before what is written. -/
def aliasHead : List Token :=
  [⟨.keyword .typeKw, ['t', 'y', 'p', 'e'], 0⟩, ⟨.blank, [' '], 4⟩, ⟨.identifier, ['X'], 5⟩,
    ⟨.blank, [' '], 6⟩, ⟨.assign, ['='], 7⟩, ⟨.blank, [' '], 8⟩]

theorem tokenize_alias {c : Char} (hc : isBlank c = false) (cs : List Char) :
    tokenize ("type X = ".toList ++ c :: cs) = aliasHead ++ tokensFrom 9 (c :: cs) := by
  have htype : extent 't' ("ype X = ".toList ++ c :: cs) = (.keyword .typeKw, 3) := rfl
  have hgap : extent ' ' ("X = ".toList ++ c :: cs) = (.blank, 0) := rfl
  have hname : extent 'X' (" = ".toList ++ c :: cs) = (.identifier, 0) := rfl
  have hgap' : extent ' ' ("= ".toList ++ c :: cs) = (.blank, 0) := rfl
  have hassign : extent '=' (" ".toList ++ c :: cs) = (.assign, 0) := rfl
  have hlast : extent ' ' (c :: cs) = (.blank, 0) := by
    have hrun : runLength isBlank (c :: cs) = 0 := by
      unfold runLength
      rw [List.takeWhile_cons_of_neg (by simp [hc]), List.length_nil]
    show (TokenKind.blank, runLength isBlank (c :: cs)) = _
    rw [hrun]
  show tokensFrom 0 ('t' :: ("ype X = ".toList ++ c :: cs)) = _
  rw [tokensFrom_of_extent _ htype]
  show _ :: tokensFrom 4 (' ' :: ("X = ".toList ++ c :: cs)) = _
  rw [tokensFrom_of_extent _ hgap]
  show _ :: _ :: tokensFrom 5 ('X' :: (" = ".toList ++ c :: cs)) = _
  rw [tokensFrom_of_extent _ hname]
  show _ :: _ :: _ :: tokensFrom 6 (' ' :: ("= ".toList ++ c :: cs)) = _
  rw [tokensFrom_of_extent _ hgap']
  show _ :: _ :: _ :: _ :: tokensFrom 7 ('=' :: (" ".toList ++ c :: cs)) = _
  rw [tokensFrom_of_extent _ hassign]
  show _ :: _ :: _ :: _ :: _ :: tokensFrom 8 (' ' :: c :: cs) = _
  rw [tokensFrom_of_extent _ hlast]
  rfl

end Token

section Runs

variable {c d : Cursor} {word name assign : Lexeme} {lexemes : List Lexeme}

theorem ident_of_isName (hrest : c.rest = name :: lexemes) (hname : name.kind.isName = true) :
    ident c = .ok ⟨String.ofList name.text, name.span⟩ c.next := by
  have hpeek : c.peek? 0 = some name := by rw [Cursor.peek?, hrest]; rfl
  unfold ident
  rw [bind_of_ok (rfl : cursor c = .ok c c), hpeek]
  dsimp only
  rw [if_pos hname]
  rfl

theorem typeParams_of_ne {type : Parse TypeExpr} (h : c.kind ≠ .less) :
    typeParams type c = .ok [] c := by
  show (if (c.kind == .less) = true then enclosed .less (typeParam type) .greater else pure []) c = _
  rw [if_neg (by simpa using h)]
  rfl

theorem modifiers_of_typeKw (h : c.kind = .keyword .typeKw) : modifiers c = .ok false c := by
  unfold modifiers
  refine repeatFrom_of_inr ?_
  rw [bind_of_ok (rfl : cursor c = .ok c c), h]
  rfl

variable (hrest : c.rest = word :: name :: assign :: lexemes) (hword : word.kind = .keyword .typeKw)
  (hname : name.kind.isName = true) (hassign : assign.kind = .assign) {type : TypeExpr}
  (htype : typeExpr c.next.next.next = .ok type d) (hend : d.kind = .semicolon)
include hrest hword hname hassign htype hend

theorem aliasDecl_of_rest :
    aliasDecl c = .ok ⟨⟨String.ofList name.text, name.span⟩, [], type⟩ d.next := by
  have hnext : c.next.rest = name :: assign :: lexemes := by rw [c.rest_next, hrest, List.tail_cons]
  have hnext' : c.next.next.rest = assign :: lexemes := by
    rw [c.next.rest_next, hnext, List.tail_cons]
  have hkind : c.kind = .keyword .typeKw := by rw [Cursor.kind_of_cons hrest, hword]
  have hkind' : c.next.next.kind = .assign := by rw [Cursor.kind_of_cons hnext', hassign]
  unfold aliasDecl
  rw [bind_of_ok (expect_of_kind hkind), bind_of_ok (ident_of_isName hnext hname),
    bind_of_ok (typeParams_of_ne (by rw [hkind']; decide)), bind_of_ok (expect_of_kind hkind'),
    bind_of_ok htype]
  have hsemicolon : discard (eat .semicolon) d = .ok () d.next :=
    map_eq_ok_iff.2 ⟨true, eat_of_kind hend, rfl⟩
  rw [bind_of_ok hsemicolon]
  rfl

theorem statement_of_rest (body : Parse (List Statement)) : ∃ place, statement? body c
    = .ok (some (.aliasDecl place ⟨⟨String.ofList name.text, name.span⟩, [], type⟩)) d.next := by
  have hkind : c.kind = .keyword .typeKw := by rw [Cursor.kind_of_cons hrest, hword]
  have hfollowing : (c.kindAt 1).isName = true := by
    rw [Cursor.kindAt, Cursor.peek?, hrest]
    exact hname
  have hrest' : (c.expect [.semicolon]).rest = word :: name :: assign :: lexemes := hrest
  have htype' : typeExpr (c.expect [.semicolon]).next.next.next = .ok type d := by
    rwa [c.next_expect]
  have hkind' : (c.expect [.semicolon]).kind = .keyword .typeKw := hkind
  have halias := aliasDecl_of_rest hrest' hword hname hassign htype' hend
  have hdeclaration : declaration body false (c.expect [.semicolon]) = .ok
      (fun place => .aliasDecl place ⟨⟨String.ofList name.text, name.span⟩, [], type⟩) d.next := by
    unfold declaration
    rw [bind_of_ok (rfl : cursor (c.expect [.semicolon]) = .ok (c.expect [.semicolon]) _)]
    have hfollowing' : ((c.expect [.semicolon]).kindAt 1).isName = true := hfollowing
    rw [if_neg (by simp [hfollowing']), hkind']
    dsimp only
    rw [bind_of_ok halias]
    rfl
  unfold statement?
  rw [bind_of_ok (rfl : cursor c = .ok c c), bind_of_ok (eat_of_ne (by rw [hkind]; decide))]
  have hclose : ¬ (TokenKind.keyword .typeKw).isClose = true := by decide
  rw [if_neg Bool.false_ne_true, hkind, if_neg hclose]
  dsimp only
  rw [bind_of_ok (modifiers_of_typeKw hkind'), bind_of_ok hdeclaration]
  exact ⟨_, rfl⟩

theorem statementsUntil_of_rest (hsize : d.size = 1) : ∃ place, statementsUntil .endOfFile c
    = .ok [.aliasDecl place ⟨⟨String.ofList name.text, name.span⟩, [], type⟩] d.next.next := by
  have hkind : c.kind ≠ .endOfFile := by
    rw [Cursor.kind_of_cons hrest, hword]
    decide
  have hrest' : (c.expect [.endOfFile]).rest = word :: name :: assign :: lexemes := hrest
  have htype' : typeExpr (c.expect [.endOfFile]).next.next.next = .ok type d := by
    rwa [c.next_expect]
  obtain ⟨place, hstatement⟩ := statement_of_rest hrest' hword hname hassign htype' hend
    (below c.size (statementsUntil .closeBrace))
  have houtcome := outcome_of_ok hstatement
  refine ⟨place, ?_⟩
  unfold statementsUntil at hstatement houtcome ⊢
  rw [fix_eq]
  generalize (⟨⟨String.ofList name.text, name.span⟩, [], type⟩ : TypeAlias) = decl at houtcome ⊢
  let first : List Statement := [.aliasDecl place decl]
  refine (repeatFrom_of_inl (?_ : _ = EStateM.Result.ok (Sum.inl first) d.next) ?_).trans
    (repeatFrom_of_inr ?_)
  · rw [bind_of_ok (eat_of_ne hkind), if_neg Bool.false_ne_true]
    rw [isAt_bind, bind_of_ok (rfl : cursor (c.expect [.endOfFile]) = .ok (c.expect [.endOfFile]) _)]
    have hbegun : ¬ ((c.expect [.endOfFile]).kind == .endOfFile) = true :=
      fun h => hkind (beq_iff_eq.1 h)
    rw [if_neg hbegun, bind_of_ok houtcome]
    rfl
  · rw [d.size_next, c.size_eq, hrest, hsize]
    simp
  · have hnil : d.next.rest = [] := by
      refine List.eq_nil_of_length_eq_zero ?_
      rw [← d.next.size_eq, d.size_next, hsize]
    have hend' : d.next.kind = .endOfFile := by
      rw [Cursor.kind, Cursor.kindAt, Cursor.peek?, hnil]
      rfl
    rw [bind_of_ok (eat_of_kind hend'), if_pos rfl]
    rfl

end Runs

section Aliases

variable {lexemes : List Lexeme} {start : Nat} {piece : List Char}

theorem tokenize_aliasText (h : Relexes lexemes start piece) : Token.tokenize (aliasText piece)
    = Token.aliasHead ++ Token.tokensFrom 9 (piece ++ [';']) := by
  obtain ⟨c, cs, hpiece, hblank⟩ := h.begins
  have htext : aliasText piece = "type X = ".toList ++ (piece ++ [';']) :=
    List.append_assoc _ piece _
  rw [htext, hpiece]
  exact Token.tokenize_alias hblank cs

theorem hasNoMalformed_aliasText (h : Relexes lexemes start piece) :
    HasNoMalformed (aliasText piece) := by
  have hhead : ∀ token ∈ Token.aliasHead, token.kind.isMalformed = false := by decide
  intro token hmem
  rw [tokenize_aliasText h] at hmem
  rcases List.mem_append.1 hmem with hmem | hmem
  · exact hhead token hmem
  · exact h.clean 9 token hmem

def aliasLexemes : List Lexeme :=
  [⟨⟨.keyword .typeKw, ['t', 'y', 'p', 'e'], 0⟩, [], true⟩,
    ⟨⟨.identifier, ['X'], 5⟩, [⟨.blank, [' '], 4⟩], false⟩,
    ⟨⟨.assign, ['='], 7⟩, [⟨.blank, [' '], 6⟩], false⟩]

theorem lexemesOf_aliasText (h : Relexes lexemes start piece) : lexemesOf (aliasText piece)
    = aliasLexemes ++ Lexeme.ofTokensFrom false [⟨.blank, [' '], 8⟩]
      (Token.tokensFrom 9 (piece ++ [';'])) := by
  rw [(hasNoMalformed_aliasText h).lexemesOf_eq, tokenize_aliasText h]
  rfl

end Aliases

section Whole

theorem allGenuine_lexemesOf (text : List Char) : AllGenuine (lexemesOf text) := by
  intro lexeme hmem htext
  have hmem' : lexeme.token ∈ Token.tokenize text :=
    (List.mem_filter.1 (Lexeme.token_of_mem hmem).1).1
  rcases htext with htext | htext
  · exact Token.kind_of_isNameStart hmem' htext (by decide)
  · exact Token.kind_of_isNameStart hmem' htext (by decide)

/-- From a piece of a text, with a semicolon after it, a type is read. -/
def ReadsAlone (type : TypeExpr) (piece : List Char) : Prop :=
  ∃ lexemes c d, Relexes lexemes type.span.start piece
    ∧ c.rest = lexemes ++ [Cut.semicolon ⟨0, type.span.start + byteLength piece⟩]
    ∧ c.expected = [] ∧ c.errors = [] ∧ typeExpr c = .ok type d
    ∧ d.rest = [Cut.semicolon ⟨0, type.span.start + byteLength piece⟩] ∧ d.errors = []

/-- A type that is read from a text is read alone from what it spans. -/
theorem IsReadFrom.readsAlone {text : List Char} (hclean : HasNoMalformed text) {type : TypeExpr}
    (h : IsReadFrom (lexemesOf text) type) : ReadsAlone type (slice text type.span) := by
  obtain ⟨c, d, hrun, hend, hexpected, ⟨before, hbefore⟩⟩ := h
  have hlocal : ∀ position, Local ⟨d.size, position⟩ (atLeast 1) typeExpr typeExpr c :=
    fun _ => typeExpr_local c
  obtain ⟨herrors, ⟨xs, hxs, hread⟩, -⟩ :=
    hlocal 0 type d hrun hend (Nat.le_refl _) fun _ => rfl
  have hgenuine : AllGenuine c.rest :=
    (allGenuine_append.1 (hbefore ▸ allGenuine_lexemesOf text)).2
  have hnests := hread.nests (allGenuine_append.1 (hxs.rest ▸ hgenuine)).1
  cases xs with
  | nil => exact absurd hread.least (Nat.not_succ_le_zero 0)
  | cons first rest =>
    obtain ⟨init, last, hinit⟩ : ∃ init last, first :: rest = init ++ [last] := by
      rcases List.eq_nil_or_concat (first :: rest) with h | ⟨init, last, h⟩
      · cases h
      · exact ⟨init, last, h.trans List.concat_eq_append⟩
    have hlast : (first :: rest).getLast? = some last := by rw [hinit, List.getLast?_concat]
    have hlexemes : lexemesOf text = before ++ (first :: rest ++ d.rest) := by
      rw [← hxs.rest, hbefore]
    obtain ⟨front, piece, back, htext, hstart, hstop, hrelexes⟩ :=
      exists_piece hclean hlexemes hlast (hnests.kind_getLast hlast)
    have hspan : type.span = ⟨byteLength front, byteLength front + byteLength piece⟩ := by
      have hfrom : c.start = byteLength front := by
        rw [Cursor.start, Cursor.peek?, hxs.rest]
        exact hstart
      have hto : d.lastEnd = byteLength front + byteLength piece := by
        rw [hxs.lastEnd, hinit, List.foldl_append, List.foldl_cons, hstop, List.foldl_nil]
      rw [typeExpr_spans c type d hrun, hfrom, hto, Nat.max_eq_left (Nat.le_add_right _ _)]
    have hslice : slice text type.span = piece := by rw [hspan, htext, slice_middle]
    rw [hslice]
    let cut : Cut := ⟨d.size, type.span.start + byteLength piece⟩
    have hagain := (hlocal cut.position type d hrun hend (Nat.le_refl _) fun _ => rfl).2.2 hgenuine
    refine ⟨first :: rest, cut.cursor c, cut.cursor d, hspan ▸ hrelexes, ?_, hexpected, herrors,
      hagain, ?_, hend⟩
    · have hlength : (first :: rest).length = c.size - cut.left :=
        (Nat.sub_eq_of_eq_add hxs.size_eq).symm
      rw [Cut.rest_cursor, hxs.rest, List.take_left' hlength]
      rfl
    · rw [Cut.rest_cursor, Nat.sub_self, List.take_zero]
      rfl

theorem ReadsAlone.denotes {piece : List Char} {type : TypeExpr} (h : ReadsAlone type piece) :
    Denotes piece type := by
  obtain ⟨lexemes, c, d, hrelexes, hc, hexpected, herrors, hrun, hd, hend⟩ := h
  have hclean := hasNoMalformed_aliasText hrelexes
  let first := Cursor.ofTokens (Token.tokenize (aliasText piece))
  let c' := first.next.next.next
  have hrest : first.rest = aliasLexemes ++ Lexeme.ofTokensFrom false [⟨.blank, [' '], 8⟩]
      (Token.tokensFrom 9 (piece ++ [';'])) := lexemesOf_aliasText hrelexes
  have hfirst : first.errors = [] := hclean.errors
  have hc' : c'.rest = Lexeme.ofTokensFrom false [⟨.blank, [' '], 8⟩]
      (Token.tokensFrom 9 (piece ++ [';'])) := by
    rw [Cursor.rest_next, Cursor.rest_next, Cursor.rest_next, hrest]
    rfl
  have halike : Alike (.shift 9) (.shift type.span.start) false c c' := by
    refine ⟨?_, fun h => ?_, ?_, ?_⟩
    · rw [hc, hc']
      exact hrelexes.agree 9 _
    · rcases h with h | h
      · cases h
      · rw [hc] at h
        exact absurd h (by simp)
    · rw [hexpected, Cursor.expected_next]
    · rw [herrors, Cursor.errors_next, Cursor.errors_next, Cursor.errors_next, hfirst]
      rfl
  have hrelated := typeExpr_respects c c' halike
  rw [hrun] at hrelated
  generalize hrun' : typeExpr c' = result at hrelated
  cases hrelated with
  | @ok _ type' _ d' htype hd' =>
    have hkind : d'.kind = .semicolon := by
      rw [← hd'.kind, Cursor.kind_of_cons hd]
      rfl
    have hsize : d'.size = 1 := by
      rw [← hd'.size_eq, d.size_eq, hd]
      rfl
    have hd'' : d'.errors = [] := by
      have herrors := hd'.errors
      rw [hend] at herrors
      exact List.map_eq_nil_iff.1 herrors.symm
    obtain ⟨place, hstatements⟩ := statementsUntil_of_rest hrest rfl rfl rfl hrun' hkind hsize
    have hparse : Schema.parse (aliasText piece)
        = ⟨aliasText piece, [.aliasDecl place ⟨⟨"X", ⟨5, 6⟩⟩, [], type'⟩], d'.next.next.errors⟩ := by
      unfold Schema.parse
      rw [hstatements]
      rfl
    rw [Denotes, hparse]
    refine ⟨?_, place, type', rfl, htype⟩
    rw [Cursor.errors_next, Cursor.errors_next, hd'']

/-- A type that a property has or a method returns, in a text without errors, is what the text that
it spans denotes by itself. -/
theorem declaredType_denoted {text : List Char} (h : (Schema.parse text).errors = [])
    {type : TypeExpr} (htype : type ∈ declaredTypes (Schema.parse text).statements) :
    Denotes (slice text type.span) type :=
  (IsReadFrom.readsAlone (hasNoMalformed_of_errors h) (declaredTypes_isRead h type htype)).denotes

/-- A property whose type is written over two lines, in a type that a method returns. -/
def nestedText : List Char :=
  "namespace n { interface A {
  f(): { x?: B |
    (y: C) => D[] } }
}".toList

theorem nestedType_denoted : (Schema.parse nestedText).errors = []
    ∧ ∃ type ∈ declaredTypes (Schema.parse nestedText).statements,
      slice nestedText type.span = "B |\n    (y: C) => D[]".toList
        ∧ Denotes (slice nestedText type.span) type := by
  have herrors : (Schema.parse nestedText).errors = [] := by decide +kernel
  have hfound : (declaredTypes (Schema.parse nestedText).statements).any
      (fun type => slice nestedText type.span == "B |\n    (y: C) => D[]".toList) = true := by
    decide +kernel
  obtain ⟨type, hmem, hslice⟩ := List.any_eq_true.1 hfound
  exact ⟨herrors, type, hmem, beq_iff_eq.1 hslice, declaredType_denoted herrors hmem⟩

end Whole

end NodeFactory
