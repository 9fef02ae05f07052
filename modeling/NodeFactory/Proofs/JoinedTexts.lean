import NodeFactory.Proofs.ClosingStatements
import NodeFactory.Proofs.JoinedTokens
import NodeFactory.Proofs.ParseProgress
import NodeFactory.Proofs.TypeText

/-!
# Schemas of texts that are joined

A text that follows another on a new line is read as it is alone (`parse_append`). Its first lexeme has
another gap before it, and the lexeme before it ended elsewhere; but the first lexeme is taken before
either is looked at (`statementStep_sameFrom`), and behind it the lexemes are those of the text alone,
moved.
-/

namespace NodeFactory

open Parse Text

section Beginnings

/-- Cursors before the same lexeme, with the same leading comments. The gap before it may be another one,
the lexeme before may have ended elsewhere, and others may have been looked for. -/
structure Cursor.StartsAs (c c' : Cursor) : Prop where
  lexemes : ∃ first first' rest, c.rest = first :: rest ∧ c'.rest = first' :: rest
    ∧ first.token = first'.token ∧ first.comments = first'.comments
  errors : c.errors = c'.errors

namespace Cursor.StartsAs

variable {c c' : Cursor} (h : c.StartsAs c')
include h

theorem size : c.size = c'.size := by
  obtain ⟨first, first', rest, hc, hc', -⟩ := h.lexemes
  rw [c.size_eq, c'.size_eq, hc, hc', List.length_cons, List.length_cons]

theorem next : c.next = c'.next := by
  obtain ⟨first, first', rest, hc, hc', htoken, -⟩ := h.lexemes
  have hspan : first.span = first'.span := congrArg Token.span htoken
  rw [next_of_cons hc, next_of_cons hc', hspan, h.errors]

theorem kindAt (n : Nat) : c.kindAt n = c'.kindAt n := by
  obtain ⟨first, first', rest, hc, hc', htoken, -⟩ := h.lexemes
  have hkind : first.kind = first'.kind := congrArg Token.kind htoken
  rw [Cursor.kindAt, peek?, hc, Cursor.kindAt, peek?, hc']
  cases n with
  | zero => exact hkind
  | succ n => rfl

theorem kind : c.kind = c'.kind := h.kindAt 0

theorem start : c.start = c'.start := by
  obtain ⟨first, first', rest, hc, hc', htoken, -⟩ := h.lexemes
  have hspan : first.span = first'.span := congrArg Token.span htoken
  rw [Cursor.start, peek?, hc, Cursor.start, peek?, hc']
  exact congrArg Span.start hspan

theorem comments : c.comments = c'.comments := by
  obtain ⟨first, first', rest, hc, hc', -, hcomments⟩ := h.lexemes
  rw [Cursor.comments, peek?, hc, Cursor.comments, peek?, hc']
  exact hcomments

theorem unexpected (hexpected : c.expected = c'.expected) : c.unexpected = c'.unexpected := by
  obtain ⟨first, first', rest, hc, hc', htoken, -⟩ := h.lexemes
  have hspan : first.span = first'.span := congrArg Token.span htoken
  have hkind : first.kind = first'.kind := congrArg Token.kind htoken
  rw [Cursor.unexpected, peek?, hc, Cursor.unexpected, peek?, hc', hexpected]
  show ParseError.unexpectedToken _ first.kind first.span = .unexpectedToken _ first'.kind first'.span
  rw [hspan, hkind]

theorem expect (kinds : List TokenKind) : (c.expect kinds).StartsAs (c'.expect kinds) :=
  ⟨h.lexemes, h.errors⟩

theorem report (error : ParseError) : (c.report error).StartsAs (c'.report error) :=
  ⟨h.lexemes, congrArg (· ++ [error]) h.errors⟩

theorem balancedLength_eq : balancedLength 0 c.rest = balancedLength 0 c'.rest := by
  obtain ⟨first, first', rest, hc, hc', htoken, -⟩ := h.lexemes
  have hkind : first.kind = first'.kind := congrArg Token.kind htoken
  rw [hc, hc', balancedLength.eq_def, balancedLength.eq_def]
  dsimp only
  rw [hkind]

theorem skip {n : Nat} (hn : 0 < n) : c.skip n = c'.skip n := by
  cases n with
  | zero => exact absurd hn (Nat.lt_irrefl 0)
  | succ n => rw [Cursor.skip, Cursor.skip, h.next]

end Cursor.StartsAs

variable {α β : Type} {c c' : Cursor}

/-- From two cursors an action comes to the same result, and to the same cursor. -/
def SameFrom (c c' : Cursor) (A : Parse α) : Prop := A c = A c'

theorem SameFrom.bind {A : Parse α} {B : α → Parse β} (h : SameFrom c c' A) : SameFrom c c' (A >>= B) := by
  show EStateM.bind A B c = EStateM.bind A B c'
  unfold EStateM.bind
  rw [h]

theorem SameFrom.ite {p : Prop} [Decidable p] {A B : Parse α} (hA : p → SameFrom c c' A)
    (hB : ¬ p → SameFrom c c' B) : SameFrom c c' (if p then A else B) := by
  by_cases hp : p
  · rw [if_pos hp]
    exact hA hp
  · rw [if_neg hp]
    exact hB hp

theorem SameFrom.here {f : Cursor → Parse α} (h : SameFrom c c' (f c)) (hlook : f c' = f c) :
    SameFrom c c' (cursor >>= f) := by
  show f c c = f c' c'
  rw [hlook]
  exact h

/-- From two cursors an action comes to the same, or gives a value and takes nothing. -/
def SameOrIdle (c c' : Cursor) (value : α) (A : Parse α) : Prop :=
  SameFrom c c' A ∨ A c = .ok value c ∧ A c' = .ok value c'

theorem SameOrIdle.here {f : Cursor → Parse α} {value : α} (h : SameOrIdle c c' value (f c))
    (hlook : f c' = f c) : SameOrIdle c c' value (cursor >>= f) := by
  rcases h with hsame | ⟨hidle, hidle'⟩
  · exact .inl (.here hsame hlook)
  · refine .inr ⟨hidle, ?_⟩
    show f c' c' = _
    rw [hlook, hidle']

section Taken

variable (h : c.StartsAs c')
include h

theorem next_sameFrom : SameFrom c c' next := congrArg (EStateM.Result.ok ()) h.next

theorem expect_sameFrom {kind : TokenKind} (hkind : c.kind = kind) : SameFrom c c' (expect kind) := by
  rw [SameFrom, expect_of_kind hkind, expect_of_kind (h.kind.symm.trans hkind), h.next]

theorem skipped_sameFrom (hclose : c.kind.isClose = false) : SameFrom c c' declaration.skipped := by
  obtain ⟨first, -, rest, hc, -⟩ := h.lexemes
  have hpos : 0 < balancedLength 0 c.rest := by
    rw [hc]
    exact balancedLength_pos 0 rest (by rwa [Cursor.kind_of_cons hc] at hclose)
  have hskip : SameFrom c c' skipBalanced := by
    show EStateM.Result.ok () (c.skip _) = .ok () (c'.skip _)
    rw [← h.balancedLength_eq, h.skip hpos]
  exact hskip.bind

/-- A closing delimiter is skipped if it closes nothing. -/
theorem recover_sameFrom (hclose : c.kind.isClose = true) : SameFrom c c' (recover .endOfFile) := by
  obtain ⟨first, -, rest, hc, -⟩ := h.lexemes
  have hzero : balancedLength 0 c.rest = 0 := by
    rw [Cursor.kind_of_cons hc] at hclose
    rw [hc]
    simp [balancedLength, hclose]
  have hend : c.kind ≠ .endOfFile := by
    intro hend
    rw [hend] at hclose
    cases hclose
  rw [SameFrom, recover_eq, recover_eq, ← h.balancedLength_eq, if_pos hzero, if_pos hzero, ← h.kind,
    if_neg (by simpa using hend), if_neg (by simpa using hend), h.next]

theorem declaration_sameFrom {body : Parse (List Statement)} (isConst : Bool)
    (hclose : c.kind.isClose = false) : SameFrom c c' (declaration body isConst) := by
  have hskipped := skipped_sameFrom h hclose
  unfold declaration
  refine .here (.ite (fun _ => hskipped) fun _ => ?_) ?_
  · split
    · exact (next_sameFrom h).bind
    · exact (next_sameFrom h).bind
    · rename_i hkind
      exact (expect_sameFrom h hkind).bind.bind
    · rename_i hkind
      exact (expect_sameFrom h hkind).bind.bind
    · rename_i hkind
      exact (expect_sameFrom h hkind).bind.bind
    · exact hskipped
  · simp only [← h.kind, ← h.kindAt]

theorem modifierStep_sameOrIdle (isConst : Bool) :
    SameOrIdle c c' (.inr isConst) (modifierStep isConst) := by
  have hnext : ∀ isConst' : Bool,
      SameOrIdle c c' (.inr isConst) (do next; return .inl isConst' : Parse (Bool ⊕ Bool)) :=
    fun _ => .inl (next_sameFrom h).bind
  have hidle : SameOrIdle c c' (.inr isConst) (return .inr isConst : Parse (Bool ⊕ Bool)) :=
    .inr ⟨rfl, rfl⟩
  unfold modifierStep
  refine .here ?_ (by simp only [← h.kind, ← h.kindAt])
  split
  · exact hnext _
  · exact hnext _
  · exact hnext _
  · exact hnext _
  · split
    · exact hnext _
    · exact hidle
  · exact hidle

/-- Modifiers are taken, or there are none. -/
theorem modifiers_sameOrIdle : SameOrIdle c c' false modifiers := by
  rw [modifiers_eq]
  rcases modifierStep_sameOrIdle h false with hsame | ⟨hidle, hidle'⟩
  · left
    rw [SameFrom, repeatFrom_eq, repeatFrom_eq, ← h.size]
    exact hsame.bind
  · exact .inr ⟨repeatFrom_of_inr hidle, repeatFrom_of_inr hidle'⟩

omit h in
/-- What a statement is where it is not an empty one. -/
theorem statement_of_ne {body : Parse (List Statement)} (hempty : c.kind ≠ .semicolon) :
    statement? body c = (if c.kind.isClose = true then unexpected else do
      let isConst ← modifiers
      let make ← declaration body isConst
      return some (make ⟨← spanFrom c.start, c.comments⟩)) (c.expect [.semicolon]) := by
  unfold statement?
  show (eat .semicolon >>= _) c = _
  rw [bind_of_ok (eat_of_ne hempty), if_neg Bool.false_ne_true]
  by_cases hclose : c.kind.isClose = true
  · rw [if_pos hclose, if_pos hclose]
    rfl
  · rw [if_neg hclose, if_neg hclose]

/-- A statement takes its first lexeme, unless that closes a group that is not open. -/
theorem statement_sameFrom (body : Parse (List Statement)) (hclose : c.kind.isClose = false) :
    SameFrom c c' (statement? body) := by
  by_cases hempty : c.kind = .semicolon
  · unfold statement?
    refine .here (.bind ?_) (by simp only [← h.kind, ← h.start, ← h.comments])
    rw [SameFrom, eat_of_kind hempty, eat_of_kind (h.kind.symm.trans hempty), h.next]
  have hexpect := h.expect [.semicolon]
  rw [SameFrom, statement_of_ne hempty, statement_of_ne (by rwa [← h.kind]), ← h.kind, ← h.start,
    ← h.comments, hclose, if_neg Bool.false_ne_true]
  rcases modifiers_sameOrIdle hexpect with hsame | ⟨hidle, hidle'⟩
  · exact hsame.bind
  · rw [bind_of_ok hidle, bind_of_ok hidle']
    exact (declaration_sameFrom hexpect false hclose).bind

omit h in
theorem statement_of_close (body : Parse (List Statement)) (hclose : c.kind.isClose = true) :
    statement? body c = .error (c.expect [.semicolon]).unexpected (c.expect [.semicolon]) := by
  have hempty : c.kind ≠ .semicolon := by
    intro hkind
    rw [hkind] at hclose
    cases hclose
  rw [statement_of_ne hempty, if_pos hclose]
  rfl

/-- A statement that is skipped after an error takes its first lexeme as well. -/
theorem statementStep_sameFrom (body : Parse (List Statement)) (statements : List Statement)
    (hexpected : c.expected = c'.expected) : SameFrom c c' (statementStep body .endOfFile statements) := by
  have hexpect := h.expect [.endOfFile]
  by_cases hend : c.kind = .endOfFile
  · rw [SameFrom, statementStep_of_closing hend, statementStep_of_closing (h.kind.symm.trans hend), h.next]
  have hend' : c'.kind ≠ .endOfFile := by rwa [← h.kind]
  by_cases hclose : c.kind.isClose = true
  · -- A closing delimiter fails before it is taken, and the recovery takes it.
    have hrun := statement_of_close body (c := c.expect [.endOfFile]) hclose
    have hrun' := statement_of_close body (c := c'.expect [.endOfFile]) (h.kind ▸ hclose)
    have herror := (hexpect.expect [.semicolon]).unexpected
      (congrArg (· ++ [.endOfFile] ++ [.semicolon]) hexpected)
    rw [SameFrom, statementStep_of_error hend hend hrun, statementStep_of_error hend' hend' hrun', herror]
    exact (recover_sameFrom ((hexpect.expect [.semicolon]).report _) hclose).bind
  · rw [SameFrom, statementStep_of_ne hend hend, statementStep_of_ne hend' hend']
    refine SameFrom.bind ?_
    unfold SameFrom Parse.outcome
    rw [statement_sameFrom hexpect body (eq_false_of_ne_true hclose)]

end Taken

end Beginnings

section Loops

variable {body : Parse (List Statement)} {closing : TokenKind} {c c' d : Cursor}

/-- What is read by a step is added to the statements before it, whatever they are. -/
theorem statementStep_append (base statements : List Statement) (c : Cursor) :
    statementStep body closing (base ++ statements) c
      = (Sum.map (base ++ ·) (base ++ ·) <$> statementStep body closing statements) c := by
  have hmap : ∀ {A : Parse (List Statement ⊕ List Statement)} {result m}, A c = .ok result m →
      (Sum.map (base ++ ·) (base ++ ·) <$> A) c = .ok (Sum.map (base ++ ·) (base ++ ·) result) m :=
    fun h => map_eq_ok_iff.2 ⟨_, h, rfl⟩
  by_cases hclosing : c.kind = closing
  · rw [statementStep_of_closing hclosing, hmap (statementStep_of_closing hclosing)]
    rfl
  by_cases hend : c.kind = .endOfFile
  · rw [statementStep_of_end hclosing hend, hmap (statementStep_of_end hclosing hend)]
    rfl
  cases hrun : statement? body (c.expect [closing]) with
  | ok statement m =>
    rw [statementStep_of_statement hclosing hend hrun, hmap (statementStep_of_statement hclosing hend hrun),
      List.append_assoc]
    rfl
  | error error m =>
    obtain ⟨e, hrecover⟩ := recover_ok closing (m.report error)
    have hstep : ∀ statements, statementStep body closing statements c = .ok (.inl statements) e := by
      intro statements
      rw [statementStep_of_error hclosing hend hrun, bind_of_ok (rfl : report error m = .ok () _),
        bind_of_ok hrecover]
      rfl
    rw [hstep, hmap (hstep statements)]
    rfl

theorem statementSteps_append {statements more : List Statement} (base : List Statement)
    (h : repeatFrom (statementStep body closing) statements c = .ok more d) :
    repeatFrom (statementStep body closing) (base ++ statements) c = .ok (base ++ more) d := by
  have hstep : ∀ {statements result c m}, statementStep body closing statements c = .ok result m →
      statementStep body closing (base ++ statements) c
        = .ok (Sum.map (base ++ ·) (base ++ ·) result) m := by
    intro statements result c m hstep
    rw [statementStep_append]
    exact map_eq_ok_iff.2 ⟨_, hstep, rfl⟩
  refine repeatFrom_induction (motive := fun statements c =>
    repeatFrom (statementStep body closing) (base ++ statements) c = .ok (base ++ more) d) ?_ ?_ h
  · exact fun statements c hlast => repeatFrom_of_inr (hstep hlast)
  · exact fun statements c _ m hfirst hlt _ ih => (repeatFrom_of_inl (hstep hfirst) hlt).trans ih

/-- Statements that are read in turn are read by the steps of the loop. -/
theorem ReadsInTurn.repeats {statements : List Statement}
    (h : ReadsInTurn (statementsUntil .closeBrace) closing c statements d) (base : List Statement) :
    repeatFrom (statementStep (statementsUntil .closeBrace) closing) base c
      = repeatFrom (statementStep (statementsUntil .closeBrace) closing) (base ++ statements) d := by
  induction h generalizing base with
  | done c => rw [List.append_nil]
  | next hclosing hend hstatement _ ih =>
    obtain ⟨xs, htook⟩ := (statement_takes (s := ⟨[], []⟩) (fun _ _ => statementsUntil_takes .closeBrace)
      (Nat.le_refl _)).ok _ _ hstatement
    have hlt := htook.reads.size_lt (htook.related.within hend).1
    rw [repeatFrom_of_inl (statementStep_of_statement hclosing hend hstatement) hlt, ih, List.append_assoc]

/-- Whatever the gap before the first lexeme, the same statements and errors are read. -/
theorem statements_of_sameBehindGap (h : SameBehindGap c.rest c'.rest) (hexpected : c.expected = c'.expected)
    (herrors : c.errors = c'.errors) (statements : List Statement) : ∃ more d d',
    repeatFrom (statementStep (statementsUntil .closeBrace) .endOfFile) statements c = .ok more d
      ∧ repeatFrom (statementStep (statementsUntil .closeBrace) .endOfFile) statements c' = .ok more d'
      ∧ d.errors = d'.errors := by
  generalize hrest : c.rest = lexemes at h
  generalize hrest' : c'.rest = lexemes' at h
  cases h with
  | nil =>
    have hend : ∀ {m : Cursor}, m.rest = [] → m.kind = .endOfFile := by
      intro m hm
      rw [Cursor.kind, Cursor.kindAt, Cursor.peek?, hm]
      rfl
    refine ⟨statements, c.next, c'.next, repeatFrom_of_inr (statementStep_of_closing (hend hrest)),
      repeatFrom_of_inr (statementStep_of_closing (hend hrest')), ?_⟩
    rw [c.errors_next, c'.errors_next, herrors]
  | cons htoken hcomments =>
    have hstarts : c.StartsAs c' := ⟨⟨_, _, _, hrest, hrest', htoken, hcomments⟩, herrors⟩
    have hsame : SameFrom c c' (repeatFrom (statementStep (statementsUntil .closeBrace) .endOfFile)
        statements) := by
      rw [SameFrom, repeatFrom_eq, repeatFrom_eq, ← hstarts.size]
      exact (statementStep_sameFrom hstarts _ statements hexpected).bind
    obtain ⟨more, d, hrun⟩ := (statementStep_advances .endOfFile).ends statementStep_ok statements c
    exact ⟨more, d, d, hrun, hsame.symm.trans hrun, rfl⟩

end Loops

section Moved

theorem Token.error_moved (distance : Nat) (token : Token) : ParseError.ofToken? (token.moved distance)
    = relocate (.shift distance) (ParseError.ofToken? token) := by
  have hkind : (token.moved distance).kind = token.kind := rfl
  unfold ParseError.ofToken?
  rw [hkind, Lexeme.span_moved]
  split <;> rfl

theorem Token.errors_moved (distance : Nat) (tokens : List Token) :
    (tokens.map (moved distance)).filterMap ParseError.ofToken?
      = relocate (.shift distance) (tokens.filterMap ParseError.ofToken?) := by
  rw [List.filterMap_map]
  show _ = List.map _ _
  rw [List.map_filterMap]
  exact List.filterMap_congr fun token _ => token.error_moved distance

theorem Lexeme.moved_zero : Lexeme.moved 0 = id := by
  funext ⟨token, gap, isFirst⟩
  show (⟨token.moved 0, gap.map (Token.moved 0), isFirst⟩ : Lexeme) = _
  rw [show Token.moved 0 = id from rfl, List.map_id]
  rfl

theorem parse_of_ok {text : List Char} {statements : List Statement} {d : Cursor}
    (h : statementsUntil .endOfFile (Cursor.ofTokens (Token.tokenize text)) = .ok statements d) :
    Schema.parse text = ⟨text, statements, d.errors⟩ := by
  unfold Schema.parse
  rw [h]

/-- The cursor before a text that is moved by a distance. -/
def Cursor.moved (distance : Nat) (text : List Char) : Cursor where
  rest := (lexemesOf text).map (Lexeme.moved distance)
  size := ((lexemesOf text).map (Lexeme.moved distance)).length
  size_eq := rfl
  lastEnd := distance
  expected := []
  errors := relocate (.shift distance) ((Token.tokenize text).filterMap ParseError.ofToken?)

theorem Cursor.moved_alike (distance : Nat) (text : List Char) : Alike (.shift 0) (.shift distance) true
    (moved distance text) (ofTokens (Token.tokenize text)) where
  rest := by
    refine Lexeme.agree_of_moved ?_
    show ((lexemesOf text).map (Lexeme.moved distance)).map (Lexeme.moved 0) = _
    rw [Lexeme.moved_zero, List.map_id]
    rfl
  lastEnd _ := (Nat.zero_add distance).symm
  expected := rfl
  errors := relocate_zero (relocate (.shift distance) (ofTokens (Token.tokenize text)).errors)

/-- A text is read alike at a distance. -/
theorem statementsUntil_moved (distance : Nat) (text : List Char) : ∃ d,
    statementsUntil .endOfFile (Cursor.moved distance text)
      = .ok (relocate (.shift distance) (Schema.parse text).statements) d
    ∧ d.errors = relocate (.shift distance) (Schema.parse text).errors := by
  have hrun := statementsUntil_respects .endOfFile _ _ (Cursor.moved_alike distance text)
  obtain ⟨d', hrun', -⟩ := parse_ends text
  have herrors : (Schema.parse text).errors = d'.errors := congrArg Schema.errors (parse_of_ok hrun')
  rw [hrun'] at hrun
  generalize statementsUntil .endOfFile (Cursor.moved distance text) = result at hrun ⊢
  cases hrun with
  | ok hstatements hend =>
    rename_i statements d
    have hstatements' := (relocate_zero statements).symm.trans hstatements
    have herrors' := (relocate_zero d.errors).symm.trans hend.errors
    exact ⟨d, by rw [hstatements'], by rw [herrors, herrors']⟩

end Moved

section Joined

variable {a b : List Char} {before : List Token} {last : Token}

/-- A text that ends a declaration has a lexeme for that at its end. -/
theorem ended_lexemesOf (hclean : HasNoMalformed a) (htokens : Token.tokenize a = before ++ [last])
    (hkind : last.kind = .semicolon ∨ last.kind = .closeBrace) :
    Ended (lexemesOf a) ∧ ∃ lexeme, lexeme.token = last ∧ (lexemesOf a).getLast? = some lexeme := by
  have htrivia : last.kind.isTrivia = false := by
    rcases hkind with hkind | hkind <;> rw [hkind] <;> rfl
  obtain ⟨lexeme, htoken, hlexeme⟩ := Lexeme.getLast?_ofTokensFrom htrivia before [] true
  have hmem : last ∈ Token.tokenize a := by
    rw [htokens]
    exact List.mem_append_right _ (List.mem_singleton_self _)
  rw [← htokens, ← hclean.lexemesOf_eq] at hlexeme
  refine ⟨⟨fun other hother => ?_, allGenuine_lexemesOf a⟩, lexeme, htoken, hlexeme⟩
  rw [hlexeme] at hother
  cases hother
  subst htoken
  rcases hkind with hkind | hkind
  · exact .inl ⟨hkind, Token.text_of_semicolon hmem hkind⟩
  · exact .inr ⟨hkind, Token.text_of_closeBrace hmem hkind⟩

theorem depthOf_lexemesOf (hclean : HasNoMalformed a)
    (hcount : (Token.tokenize a).countP (fun token => token.kind.isOpen)
      = (Token.tokenize a).countP fun token => token.kind.isClose) : depthOf (lexemesOf a) = 0 := by
  have hplain : ∀ kind : TokenKind, kind.isTrivia = true → kind.isOpen = false ∧ kind.isClose = false := by
    intro kind
    cases kind <;> simp [TokenKind.isTrivia, TokenKind.isOpen, TokenKind.isClose]
  rw [depthOf_eq_countP, hclean.lexemesOf_eq, Lexeme.countP_ofTokensFrom fun kind h => (hplain kind h).1,
    Lexeme.countP_ofTokensFrom fun kind h => (hplain kind h).2, hcount]
  omega

/-- The cursor before a text that another one follows on a new line. -/
theorem exists_sequel (hclean : HasNoMalformed a) (htokens : Token.tokenize a = before ++ [last])
    (hkind : last.kind = .semicolon ∨ last.kind = .closeBrace) (b : List Char) : ∃ s : Sequel,
    Cursor.ofTokens (Token.tokenize (a ++ '\n' :: b)) = (Cursor.ofTokens (Token.tokenize a)).extend s
      ∧ SameBehindGap s.lexemes (Cursor.moved (byteLength a + 1) b).rest
      ∧ s.errors = (Cursor.moved (byteLength a + 1) b).errors := by
  have hmem : ∀ token ∈ before ++ [last], token ∈ Token.tokenize a := fun token hmem => htokens ▸ hmem
  have hlast := hmem last (List.mem_append_right _ (List.mem_singleton_self _))
  have htrivia : last.kind.isTrivia = false := by
    rcases hkind with hkind | hkind <;> rw [hkind] <;> rfl
  obtain ⟨ending, hending, htext⟩ : ∃ ending, (ending = ';' ∨ ending = '}') ∧ last.text = [ending] := by
    rcases hkind with hkind | hkind
    · exact ⟨_, .inl rfl, Token.text_of_semicolon hlast hkind⟩
    · exact ⟨_, .inr rfl, Token.text_of_closeBrace hlast hkind⟩
  obtain ⟨newline, breaks, rest, hnewline, hbreaks, hb, hjoined⟩ := Token.tokenize_append hending htokens
    (fun token h => hclean token (hmem token (List.mem_append_left _ h))) htext b
  have herrors : ∀ token : Token, token.kind = .endOfLine → ParseError.ofToken? token = none := by
    intro token htoken
    rw [ParseError.ofToken?, htoken]
  have hkept : (Token.tokenize a).filter (fun token => !token.kind.isMalformed) = before ++ [last] := by
    rw [htokens]
    refine List.filter_eq_self.2 fun token h => ?_
    rw [hclean token (hmem token h)]
    rfl
  refine ⟨⟨_, (rest.map (Token.moved (byteLength a + 1))).filterMap ParseError.ofToken?⟩, ?_,
    hb ▸ sameBehindGap_newline hnewline hbreaks (byteLength a + 1) rest, ?_⟩
  · refine Cursor.eq_of_fields ?_ rfl rfl ?_
    · show Lexeme.ofTokens _ = Lexeme.ofTokens _ ++ _
      rw [hjoined, Lexeme.ofTokens, Lexeme.ofTokens, List.filter_append, hkept, List.append_assoc,
        List.singleton_append, Lexeme.ofTokensFrom_append htrivia]
    · show List.filterMap _ _ = _ ++ List.filterMap _ _
      rw [hjoined, List.filterMap_append, hclean.errors, List.filterMap_cons_none (herrors _ hnewline),
        List.nil_append, List.append_nil]
  · show List.filterMap _ _ = relocate _ (List.filterMap _ _)
    rw [Token.errors_moved, hb, List.filterMap_append,
      List.filterMap_eq_nil_iff.2 fun token h => herrors token (hbreaks token h), List.nil_append]

/-- An alias that is the last statement and does not end with a brace ends with a semicolon. -/
theorem aliasEnds_of_last (hclean : (Schema.parse a).errors = []) {lexeme : Lexeme}
    (hlast : (lexemesOf a).getLast? = some lexeme) (hend : lexeme.IsEnd)
    (halias : ∀ place decl, (Schema.parse a).statements.getLast? = some (.aliasDecl place decl) →
      ∀ token ∈ Token.tokenize a, token.span.stop = place.span.stop → token.kind ≠ .closeBrace) :
    ∀ value ∈ (Schema.parse a).statements.getLast?, AliasEnds (lexemesOf a) value := by
  rintro value hvalue place decl rfl other hother
  rw [hlast] at hother
  cases hother
  rcases hend with ⟨hkind, -⟩ | ⟨hkind, -⟩
  · exact hkind
  rcases (parse_tiles hclean).last (lexemes_inOrder a) lexeme hlast with halone | ⟨node, hnode, hstop⟩
  · obtain ⟨-, -, -, -, hkind'⟩ := halone
    rw [hkind] at hkind'
    cases hkind'
  · obtain ⟨init, hinit⟩ := List.getLast?_eq_some_iff.1 (Option.mem_def.1 hvalue)
    rw [hinit, outlines_append, outlines_cons, outlines_statement, outline_aliasDecl, outlines_nil,
      List.append_nil, List.getLast?_concat] at hnode
    cases hnode
    have hmem := Lexeme.token_mem (List.mem_of_getLast? hlast)
    exact absurd hkind (halias place decl hvalue lexeme.token hmem hstop.symm)

/-- A text that reports no error, opens as many groups as it closes and ends with a semicolon or a closing
brace, not that of an alias, is read as it is alone where another text follows on a new line, and so is that
one, moved behind it. -/
theorem parse_append (a b : List Char) (hclean : (Schema.parse a).errors = [])
    (hcount : (Token.tokenize a).countP (fun token => token.kind.isOpen)
      = (Token.tokenize a).countP fun token => token.kind.isClose)
    (hend : ∃ token ∈ (Token.tokenize a).getLast?, token.kind = .semicolon ∨ token.kind = .closeBrace)
    (halias : ∀ place decl, (Schema.parse a).statements.getLast? = some (.aliasDecl place decl) →
      ∀ token ∈ Token.tokenize a, token.span.stop = place.span.stop → token.kind ≠ .closeBrace) :
    (Schema.parse (a ++ '\n' :: b)).statements = (Schema.parse a).statements
        ++ relocate (.shift (byteLength a + 1)) (Schema.parse b).statements
      ∧ (Schema.parse (a ++ '\n' :: b)).errors
        = relocate (.shift (byteLength a + 1)) (Schema.parse b).errors := by
  obtain ⟨last, hlast, hkind⟩ := hend
  obtain ⟨before, htokens⟩ := List.getLast?_eq_some_iff.1 (Option.mem_def.1 hlast)
  have hgenuine := hasNoMalformed_of_errors hclean
  obtain ⟨hended, lexeme, htoken, hlexeme⟩ := ended_lexemesOf hgenuine htokens hkind
  obtain ⟨s, hstart, hsame, herrors⟩ := exists_sequel hgenuine htokens hkind b
  obtain ⟨d, hreads, hnil, hd⟩ := parse_readsInTurn hclean
  have hne : lexemesOf a ≠ [] := List.getLast?_isSome.1 (by rw [hlexeme]; rfl)
  obtain ⟨hreads', hexpected⟩ := hreads.extend (s := s) hd hnil hne hended (depthOf_lexemesOf hgenuine hcount)
    (aliasEnds_of_last hclean hlexeme (hended.last lexeme hlexeme) halias)
  -- Where the first text ends, the second is read as it is alone.
  have hrest : SameBehindGap (d.extend s).rest (Cursor.moved (byteLength a + 1) b).rest := by
    rw [Cursor.rest_extend, hnil]
    exact hsame
  have herrors' : (d.extend s).errors = (Cursor.moved (byteLength a + 1) b).errors := by
    rw [← herrors]
    show s.errors ++ d.errors = _
    rw [hd, List.append_nil]
  obtain ⟨more, e, e', hrun, hmoved, he⟩ := statements_of_sameBehindGap hrest hexpected herrors' []
  obtain ⟨e'', hmoved', he'⟩ := statementsUntil_moved (byteLength a + 1) b
  rw [statementsUntil_eq, hmoved] at hmoved'
  cases hmoved'
  have hjoined : statementsUntil .endOfFile (Cursor.ofTokens (Token.tokenize (a ++ '\n' :: b)))
      = .ok ((Schema.parse a).statements
        ++ relocate (.shift (byteLength a + 1)) (Schema.parse b).statements) e := by
    rw [hstart, statementsUntil_eq, hreads'.repeats [], List.nil_append]
    simpa using statementSteps_append (Schema.parse a).statements hrun
  rw [parse_of_ok hjoined]
  exact ⟨rfl, he.trans he'⟩

/-- A skipped statement, and an alias that ends with a semicolon. -/
def importAndAlias : List Char :=
  "import { C } from \"c\";
type A = { x: B };".toList

/-- An interface after a comment, and an enum that is not closed. -/
def interfaceAndOpenEnum : List Char :=
  "// D
interface D {} enum E \x7b F".toList

theorem parse_append_open_enum :
    (Schema.parse importAndAlias).errors = []
      ∧ (Schema.parse (importAndAlias ++ '\n' :: interfaceAndOpenEnum)).statements
        = (Schema.parse importAndAlias).statements
          ++ relocate (.shift (byteLength importAndAlias + 1)) (Schema.parse interfaceAndOpenEnum).statements
      ∧ (Schema.parse (importAndAlias ++ '\n' :: interfaceAndOpenEnum)).errors
        = relocate (.shift (byteLength importAndAlias + 1)) (Schema.parse interfaceAndOpenEnum).errors := by
  have hclean : (Schema.parse importAndAlias).errors = [] := by decide +kernel
  have hcount : (Token.tokenize importAndAlias).countP (fun token => token.kind.isOpen)
      = (Token.tokenize importAndAlias).countP fun token => token.kind.isClose := by decide +kernel
  have hlast : (Token.tokenize importAndAlias).getLast?.map Token.kind = some .semicolon := by
    decide +kernel
  have hstop : (Schema.parse importAndAlias).statements.getLast?.map (fun last => last.outline.span.stop)
      = some (byteLength importAndAlias) := by decide +kernel
  have hbrace : ∀ token ∈ Token.tokenize importAndAlias,
      token.span.stop = byteLength importAndAlias → token.kind ≠ .closeBrace := by decide +kernel
  obtain ⟨token, htoken, hkind⟩ := Option.map_eq_some_iff.1 hlast
  refine ⟨hclean, parse_append importAndAlias interfaceAndOpenEnum hclean hcount
    ⟨token, htoken, .inl hkind⟩ fun place decl halias => ?_⟩
  rw [halias, Option.map_some, outline_aliasDecl] at hstop
  rw [show place.span.stop = byteLength importAndAlias from Option.some.inj hstop]
  exact hbrace

end Joined

end NodeFactory
