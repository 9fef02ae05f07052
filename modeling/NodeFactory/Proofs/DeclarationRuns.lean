import NodeFactory.Proofs.JoinedTexts
import NodeFactory.Proofs.MemberRuns

/-!
# Declarations one after the other

Lexemes are declarations if they are read so by themselves, each up to the lexeme that ends it
(`AreDeclarations`). As nothing is looked for behind that lexeme, they are read alike wherever they stand
(`AreDeclarations.readsInTurn`).

The loop over the statements of a namespace takes steps, of which some read a statement and some recover from
an error (`StepsOver`). A statement is placed from where its first lexeme begins, and no two lexemes begin at
one place, so a step that reads the first of some declarations stands before their lexemes
(`AreDeclarations.rest_eq`).
-/

namespace NodeFactory

open Parse Text

section Turns

/-- The kind of the lexeme that ends a declaration. -/
def Statement.ending? : Statement → Option TokenKind
  | .aliasDecl _ _ => some .semicolon
  | .interfaceDecl _ _ | .enumDecl _ _ | .namespaceDecl _ _ _ => some .closeBrace
  | .skipped _ => none

/-- Declarations are read one after the other, each up to the lexeme that ends it. -/
inductive DeclaresInTurn : Cursor → List Statement → Cursor → Prop
  | done (c : Cursor) : DeclaresInTurn c [] c
  | next {c m d : Cursor} {statement : Statement} {statements : List Statement} {xs : List Lexeme}
      {last : Lexeme} : c.kind ≠ .closeBrace → c.kind ≠ .endOfFile →
        statement? (statementsUntil .closeBrace) (c.expect [.closeBrace]) = .ok (some statement) m →
          c.rest = xs ++ last :: m.rest → statement.ending? = some last.kind →
            DeclaresInTurn m statements d → DeclaresInTurn c (statement :: statements) d

/-- By themselves the lexemes are read as declarations, each with the lexeme that ends it, and no error is
reported. -/
def AreDeclarations (lexemes : List Lexeme) (statements : List Statement) : Prop :=
  ∃ lastEnd d, DeclaresInTurn (Cursor.before lastEnd lexemes) statements d ∧ d.rest = [] ∧ d.errors = []

variable {text : List Char} {c d m : Cursor} {statements : List Statement} {xs ys after : List Lexeme}

theorem DeclaresInTurn.readsInTurn (h : DeclaresInTurn c statements d) :
    ReadsInTurn (statementsUntil .closeBrace) .closeBrace c statements d := by
  induction h with
  | done c => exact .done c
  | next hclosing hend hstatement _ _ _ ih => exact .next hclosing hend hstatement ih

theorem DeclaresInTurn.ends (h : DeclaresInTurn c statements d) : (statements = [] ∧ d = c)
    ∨ ∃ xs last statement, c.rest = xs ++ last :: d.rest ∧ statements.getLast? = some statement
      ∧ statement.ending? = some last.kind := by
  induction h with
  | done c => exact .inl ⟨rfl, rfl⟩
  | @next c m d statement statements xs last _ _ _ hrest hlast _ ih =>
    right
    rcases ih with ⟨rfl, rfl⟩ | ⟨ys, last', statement', hrest', hmem, hlast'⟩
    · exact ⟨xs, last, statement, hrest, rfl, hlast⟩
    · refine ⟨xs ++ last :: ys, last', statement', ?_, ?_, hlast'⟩
      · rw [hrest, hrest', List.append_assoc, List.cons_append]
      · rw [List.getLast?_cons, hmem]
        rfl

theorem isComplete_of_ending {statement : Statement} {last : Lexeme} (hlast : xs.getLast? = some last)
    (h : statement.ending? = some last.kind) : IsComplete xs statement := by
  refine ⟨?_, ?_⟩
  · rintro place decl rfl lexeme hmem
    rw [hlast] at hmem
    cases hmem
    exact (Option.some.inj h).symm
  · rintro place rfl
    cases h

theorem isEnd_of_ending {statement : Statement} {last : Lexeme} (hmem : last ∈ lexemesOf text)
    (h : statement.ending? = some last.kind) : last.IsEnd := by
  have htoken := Lexeme.token_mem hmem
  cases statement with
  | skipped => cases h
  | aliasDecl =>
    have hkind : last.kind = .semicolon := (Option.some.inj h).symm
    exact .inl ⟨hkind, Token.text_of_semicolon htoken hkind⟩
  | _ =>
    have hkind : last.kind = .closeBrace := (Option.some.inj h).symm
    exact .inr ⟨hkind, Token.text_of_closeBrace htoken hkind⟩

theorem AreDeclarations.eq_nil (h : AreDeclarations xs []) : xs = [] := by
  obtain ⟨lastEnd, d, hdeclares, hend, -⟩ := h
  cases hdeclares
  exact hend

theorem AreDeclarations.begins (h : AreDeclarations xs statements) (hne : xs ≠ []) :
    ∃ first rest, xs = first :: rest ∧ first.kind.isClose = false := by
  obtain ⟨lastEnd, d, hdeclares, hend, -⟩ := h
  obtain ⟨first, rest, rfl⟩ := List.exists_cons_of_ne_nil hne
  refine ⟨first, rest, rfl, eq_false_of_ne_true fun hclose => ?_⟩
  cases hdeclares with
  | done => exact hne hend
  | next _ _ hstatement _ _ _ =>
    have hkind : ((Cursor.before lastEnd (first :: rest)).expect [.closeBrace]).kind.isClose = true := hclose
    rw [statement_of_close _ hkind] at hstatement
    cases hstatement

/-- What is read by taking some lexemes, with nothing looked for behind them, is what they are skipped by. -/
theorem Cursor.Reads.eq_skip (h : c.Reads xs d) (hne : xs ≠ []) (hexpected : d.expected = [])
    (herrors : d.errors = c.errors) : d = c.skip xs.length := by
  have hle : xs.length ≤ c.rest.length := by
    rw [h.rest, List.length_append]
    omega
  have htake : c.rest.take xs.length = xs := by rw [h.rest, List.take_left]
  have hskip := Cursor.reads_skip hle
  rw [htake] at hskip
  refine Cursor.eq_of_fields ?_ (h.lastEnd.trans hskip.lastEnd.symm) ?_ ?_
  · exact List.append_cancel_left (h.rest.symm.trans hskip.rest)
  · rw [hexpected, Cursor.expected_skip (List.length_pos_iff.2 hne)]
  · rw [herrors, Cursor.errors_skip]

/-- The first statement takes its first lexeme before it looks at what is before it. -/
theorem ReadsInTurn.of_startsAs {c' : Cursor}
    (h : ReadsInTurn (statementsUntil .closeBrace) .closeBrace c' statements d) (hstarts : c'.StartsAs c)
    (hne : statements ≠ []) : ReadsInTurn (statementsUntil .closeBrace) .closeBrace c statements d := by
  cases h with
  | done => exact absurd rfl hne
  | next hclosing hkind hstatement hmore =>
    refine .next (hstarts.kind ▸ hclosing) (hstarts.kind ▸ hkind) ?_ hmore
    rw [← hstatement]
    refine (statement_sameFrom (hstarts.expect [.closeBrace]) _ (eq_false_of_ne_true fun hclose => ?_)).symm
    rw [statement_of_close _ hclose] at hstatement
    cases hstatement

/-- Where the lexemes of declarations are next, the declarations are read in turn, and nothing is
reported. -/
theorem AreDeclarations.readsInTurn (h : AreDeclarations xs statements)
    (htext : ∀ lexeme ∈ xs, lexeme ∈ lexemesOf text) (hrest : c.rest = xs ++ after) :
    ReadsInTurn (statementsUntil .closeBrace) .closeBrace c statements (c.skip xs.length) := by
  obtain ⟨lastEnd, d, hdeclares, hend, hclean⟩ := h
  rcases hdeclares.ends with ⟨rfl, rfl⟩ | ⟨zs, last, statement, hlast, hmem, hending⟩
  · obtain rfl : xs = [] := hend
    exact .done c
  change xs = zs ++ last :: d.rest at hlast
  rw [hend] at hlast
  have hgetLast : xs.getLast? = some last := by rw [hlast, List.getLast?_concat]
  have hne : xs ≠ [] := by
    rintro rfl
    cases hgetLast
  have hended : Ended xs := by
    refine ⟨fun lexeme hlexeme => ?_, fun lexeme hlexeme => allGenuine_lexemesOf text lexeme (htext lexeme hlexeme)⟩
    rw [hgetLast] at hlexeme
    cases hlexeme
    exact isEnd_of_ending (htext last (List.mem_of_getLast? hgetLast)) hending
  obtain ⟨hreads, hexpected⟩ := hdeclares.readsInTurn.extend_of_last (s := ⟨after, c.errors⟩) hclean hend hne
    hended fun value hvalue => by
      rw [hmem] at hvalue
      cases hvalue
      exact isComplete_of_ending hgetLast hending
  have hstarts : ((Cursor.before lastEnd xs).extend ⟨after, c.errors⟩).StartsAs c := by
    obtain ⟨first, rest, rfl⟩ := List.exists_cons_of_ne_nil hne
    exact ⟨⟨first, first, rest ++ after, rfl, hrest, rfl, rfl⟩, List.append_nil _⟩
  have hreads' := hreads.of_startsAs hstarts fun hnil => by
    rw [hnil] at hmem
    cases hmem
  obtain ⟨us, hus, -⟩ := hreads'.tiles (n := c.size) (fun _ _ => statementsUntil_takes .closeBrace)
    (Nat.le_refl _)
  have hus' : us = xs := by
    have := hus.rest
    rw [hrest, Cursor.rest_extend, hend, List.nil_append] at this
    exact (List.append_cancel_right this).symm
  subst hus'
  have heq := hus.eq_skip hne hexpected (by
    show c.errors ++ d.errors = c.errors
    rw [hclean, List.append_nil])
  rwa [heq] at hreads'

end Turns

section Steps

variable {text : List Char} {body : Parse (List Statement)} {closing : TokenKind} {c d m e : Cursor}
  {statements more found base : List Statement} {result : List Statement ⊕ List Statement}

/-- A step adds to the statements before it, whatever they are. -/
theorem statementStep_iff (base : List Statement) : statementStep body closing base c = .ok result m
    ↔ ∃ alone, statementStep body closing [] c = .ok alone m
      ∧ Sum.map (base ++ ·) (base ++ ·) alone = result := by
  rw [← map_eq_ok_iff, ← statementStep_append, List.append_nil]

/-- After an error that is reported, what is skipped is passed over. -/
theorem statementStep_of_recover {error : ParseError} (hclosing : c.kind ≠ closing)
    (hend : c.kind ≠ .endOfFile) (h : statement? body (c.expect [closing]) = .error error m)
    (hrecover : recover closing (m.report error) = .ok () d) :
    statementStep body closing statements c = .ok (.inl statements) d := by
  rw [statementStep_of_error hclosing hend h, bind_of_ok (rfl : report error m = .ok () _),
    bind_of_ok hrecover]
  rfl

/-- What a step does: it reads the closing lexeme, reports that it is at the end, reads a statement or
recovers from an error. -/
theorem statementStep_cases (h : statementStep body closing statements c = .ok result d) :
    (c.kind = closing ∧ result = .inr statements ∧ d = c.next)
      ∨ (c.kind = .endOfFile ∧ result = .inr statements ∧ d.expected ≠ [])
      ∨ c.kind ≠ closing ∧ c.kind ≠ .endOfFile
        ∧ ((∃ statement, statement? body (c.expect [closing]) = .ok statement d
            ∧ result = .inl (statements ++ statement.toList))
          ∨ ∃ error m, statement? body (c.expect [closing]) = .error error m
            ∧ recover closing (m.report error) = .ok () d ∧ result = .inl statements) := by
  by_cases hclosing : c.kind = closing
  · rw [statementStep_of_closing hclosing] at h
    cases h
    exact .inl ⟨hclosing, rfl, rfl⟩
  by_cases hend : c.kind = .endOfFile
  · rw [statementStep_of_end hclosing hend] at h
    cases h
    exact .inr (.inl ⟨hend, rfl, List.append_ne_nil_of_right_ne_nil _ (List.cons_ne_nil _ _)⟩)
  refine .inr (.inr ⟨hclosing, hend, ?_⟩)
  cases hrun : statement? body (c.expect [closing]) with
  | ok statement m =>
    rw [statementStep_of_statement hclosing hend hrun] at h
    cases h
    exact .inl ⟨statement, rfl, rfl⟩
  | error error m =>
    obtain ⟨e, hrecover⟩ := recover_ok closing (m.report error)
    rw [statementStep_of_recover hclosing hend hrun hrecover] at h
    cases h
    exact .inr ⟨error, m, rfl, hrecover, rfl⟩

/-- A step that goes on has read a statement or recovered from an error. -/
theorem statementStep_inl (h : statementStep body closing statements c = .ok (.inl found) d) :
    c.kind ≠ closing ∧ c.kind ≠ .endOfFile
      ∧ ((∃ statement, statement? body (c.expect [closing]) = .ok statement d
          ∧ found = statements ++ statement.toList)
        ∨ ∃ error m, statement? body (c.expect [closing]) = .error error m
          ∧ recover closing (m.report error) = .ok () d ∧ found = statements) := by
  rcases statementStep_cases h with ⟨-, hresult, -⟩ | ⟨-, hresult, -⟩ | ⟨hclosing, hend, hstep⟩
  · cases hresult
  · cases hresult
  · refine ⟨hclosing, hend, ?_⟩
    simpa only [Sum.inl.injEq] using hstep

/-- The last step adds nothing. -/
theorem statementStep_inr (h : statementStep body closing statements c = .ok (.inr found) d) :
    found = statements
      ∧ (c.kind = closing ∧ d = c.next ∨ c.kind = .endOfFile ∧ d.expected ≠ []) := by
  rcases statementStep_cases h with ⟨hclosing, hresult, hd⟩ | ⟨hend, hresult, hd⟩ | ⟨-, -, hstep⟩
  · exact ⟨Sum.inr.inj hresult, .inl ⟨hclosing, hd⟩⟩
  · exact ⟨Sum.inr.inj hresult, .inr ⟨hend, hd⟩⟩
  · rcases hstep with ⟨_, -, hresult⟩ | ⟨_, _, -, -, hresult⟩ <;> cases hresult

/-- Steps over the statements of a namespace lead from one cursor to another, whatever errors they report,
and the statements are those that are read on the way. -/
inductive StepsOver : Cursor → List Statement → Cursor → Prop
  | done (c : Cursor) : StepsOver c [] c
  | next {c m d : Cursor} {found more : List Statement} :
      statementStep (statementsUntil .closeBrace) .closeBrace [] c = .ok (.inl found) m →
        StepsOver m more d → StepsOver c (found ++ more) d

/-- A step that goes on has taken a lexeme. -/
theorem size_lt_of_step (h : statementStep (statementsUntil .closeBrace) .closeBrace statements c
    = .ok (.inl found) m) : m.size < c.size := by
  obtain ⟨xs, hrest, hne⟩ := (statementStep_advances .closeBrace).takes _ _ _ _ h
  have := List.length_pos_iff.2 (hne found rfl)
  rw [c.size_eq, m.size_eq, hrest, List.length_append]
  omega

/-- Such steps are steps of the loop. -/
theorem StepsOver.run (h : StepsOver c found d) (base : List Statement) :
    repeatFrom (statementStep (statementsUntil .closeBrace) .closeBrace) base c
      = repeatFrom (statementStep (statementsUntil .closeBrace) .closeBrace) (base ++ found) d := by
  induction h generalizing base with
  | done c => rw [List.append_nil]
  | next hstep _ ih =>
    have hstep' := (statementStep_iff base).2 ⟨_, hstep, rfl⟩
    rw [repeatFrom_of_inl hstep' (size_lt_of_step hstep), ih, List.append_assoc]

/-- The loop is made of such steps, and of a last one that adds nothing. -/
theorem stepsOver_of_repeats
    (h : repeatFrom (statementStep (statementsUntil .closeBrace) .closeBrace) base c = .ok statements e) :
    ∃ more d, statements = base ++ more ∧ StepsOver c more d
      ∧ statementStep (statementsUntil .closeBrace) .closeBrace [] d = .ok (.inr []) e := by
  refine repeatFrom_induction (motive := fun base c => ∃ more d, statements = base ++ more
    ∧ StepsOver c more d ∧ statementStep (statementsUntil .closeBrace) .closeBrace [] d = .ok (.inr []) e)
    (fun base c hlast => ?_) (fun base c state m hstep _ _ ih => ?_) h
  · obtain ⟨alone, halone, hresult⟩ := (statementStep_iff base).1 hlast
    cases alone with
    | inl found => cases hresult
    | inr found =>
      obtain ⟨rfl, -⟩ := statementStep_inr halone
      exact ⟨[], c, (Sum.inr.inj hresult).symm, .done c, halone⟩
  · obtain ⟨alone, halone, hresult⟩ := (statementStep_iff base).1 hstep
    obtain ⟨more, d, rfl, hsteps, hlast⟩ := ih
    cases alone with
    | inr found => cases hresult
    | inl found =>
      obtain rfl := Sum.inl.inj hresult
      exact ⟨found ++ more, d, List.append_assoc _ _ _, .next halone hsteps, hlast⟩

/-- Lexemes that are left by steps are left by those before them. -/
theorem StepsOver.suffix (h : StepsOver c found d) : d.rest <:+ c.rest := by
  induction h with
  | done c => exact List.suffix_refl _
  | next hstep _ ih =>
    obtain ⟨xs, hrest, -⟩ := (statementStep_advances .closeBrace).takes _ _ _ _ hstep
    exact ih.trans ⟨xs, hrest.symm⟩

/-- Among steps there is the one that reads a given statement. -/
theorem StepsOver.reaches {statement : Statement} (h : StepsOver c statements d)
    (hsplit : statements = more ++ statement :: found) : ∃ m m', StepsOver c more m
      ∧ m.kind ≠ .endOfFile
      ∧ statement? (statementsUntil .closeBrace) (m.expect [.closeBrace]) = .ok (some statement) m' := by
  induction h generalizing more with
  | done c => exact absurd hsplit.symm (List.append_ne_nil_of_right_ne_nil _ (List.cons_ne_nil _ _))
  | @next c m d result rest hstep _ ih =>
    obtain ⟨-, hend, ⟨value, hvalue, h⟩ | ⟨_, _, -, -, h⟩⟩ := statementStep_inl hstep
    · rw [List.nil_append] at h
      cases value with
      | none =>
        obtain rfl := h
        obtain ⟨m', m'', hsteps, hread⟩ := ih hsplit
        exact ⟨m', m'', .next hstep hsteps, hread⟩
      | some value =>
        obtain rfl := h
        cases more with
        | nil =>
          obtain ⟨rfl, -⟩ := List.cons.inj hsplit
          exact ⟨c, m, .done c, hend, hvalue⟩
        | cons first more =>
          obtain ⟨rfl, hsplit'⟩ := List.cons.inj hsplit
          obtain ⟨m', m'', hsteps, hread⟩ := ih hsplit'
          exact ⟨m', m'', .next hstep hsteps, hread⟩
    · obtain rfl := h
      obtain ⟨m', m'', hsteps, hread⟩ := ih hsplit
      exact ⟨m', m'', .next hstep hsteps, hread⟩

end Steps

section Places

variable {text : List Char} {c d : Cursor} {first first' closing : Lexeme} {xs ys after : List Lexeme}
  {statements : List Statement}

/-- A statement is placed from where its first lexeme begins. -/
theorem start_of_statement {statement : Statement} {kinds : List TokenKind} (hend : c.kind ≠ .endOfFile)
    (h : statement? (statementsUntil .closeBrace) (c.expect kinds) = .ok (some statement) d) :
    statement.outline.span.start = c.start := by
  obtain ⟨zs, htook⟩ := (statement_takes (s := ⟨[], []⟩) (fun _ _ => statementsUntil_takes .closeBrace)
    (Nat.le_refl _)).ok _ _ h
  have hread := htook.reads
  have hfills := htook.related hend
  generalize statement.outline = outline at hfills
  cases hfills with
  | plain => exact congrArg Span.start hread.span.symm
  | led => exact congrArg Span.start hread.span.symm

/-- Of the lexemes of a text no two begin at one place. -/
theorem eq_of_start (h : first :: xs <:+ lexemesOf text) (h' : first' :: ys <:+ lexemesOf text)
    (hstart : first.span.start = first'.span.start) : first :: xs = first' :: ys := by
  have hlater : ∀ {first first' : Lexeme} {xs ys : List Lexeme}, first' :: ys <:+ lexemesOf text →
      first :: xs <:+ first' :: ys → first.span.start = first'.span.start → first :: xs = first' :: ys := by
    rintro first first' xs ys hys ⟨zs, hzs⟩ hstart
    cases zs with
    | nil => exact hzs
    | cons head zs =>
      rw [List.cons_append] at hzs
      obtain ⟨rfl, hys'⟩ := List.cons.inj hzs
      have hmem : first ∈ ys := hys' ▸ List.mem_append_right zs List.mem_cons_self
      have horder := (lexemes_inOrder text).sublist (hys.sublist.map Lexeme.span)
      have hlt := horder.nonempty _ List.mem_cons_self
      have hle := (List.pairwise_cons.1 horder.ordered).1 first.span (List.mem_map_of_mem hmem)
      omega
  rcases List.suffix_or_suffix_of_suffix h h' with hsuffix | hsuffix
  · exact hlater h' hsuffix hstart
  · exact (hlater h hsuffix hstart.symm).symm

theorem Cursor.skip_suffix (h : c.rest <:+ lexemesOf text) (n : Nat) : (c.skip n).rest <:+ lexemesOf text := by
  rw [Cursor.rest_skip]
  exact (List.drop_suffix _ _).trans h

/-- Where the loop reads the first of some declarations, it stands before their lexemes. -/
theorem AreDeclarations.rest_eq {statement : Statement} (h : AreDeclarations ys (statement :: statements))
    (hys : ys ++ after <:+ lexemesOf text) (hc : c.rest <:+ lexemesOf text) (hend : c.kind ≠ .endOfFile)
    (hread : statement? (statementsUntil .closeBrace) (c.expect [.closeBrace]) = .ok (some statement) d) :
    c.rest = ys ++ after := by
  obtain ⟨lastEnd, d', hdeclares, -, -⟩ := h
  cases hdeclares with
  | next _ hkind hstatement _ _ _ =>
    obtain ⟨first, hys', -⟩ := Cursor.rest_of_kind hkind
    obtain ⟨first', hrest, -⟩ := Cursor.rest_of_kind hend
    have hstart := (start_of_statement hend hread).symm.trans (start_of_statement hkind hstatement)
    change ys = _ at hys'
    generalize (Cursor.before lastEnd ys).next.rest = zs at hys'
    subst hys'
    rw [hrest] at hc ⊢
    refine eq_of_start hc hys ?_
    simpa [Cursor.start, Cursor.peek?, Cursor.expect, Cursor.before, hrest] using hstart

end Places

end NodeFactory
