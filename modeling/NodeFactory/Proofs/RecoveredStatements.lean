import NodeFactory.Proofs.DeclarationOrder
import NodeFactory.Proofs.DeclarationRuns
import NodeFactory.Proofs.RecoveredMembers

/-!
# Statements around an error

In the body of a namespace, let some lexemes stand between declarations. Whether the declarations behind them
are read, and the body ends with its own brace, can be told by the steps over those lexemes
(`statementsUntil_eq_around_iff`): they may come to stand just behind them or not.

If a run that ends with a brace fails outside all groups, what is skipped ends with it. If it fails directly
inside the braces that end it, what is skipped ends before its last brace, and that brace ends the body
(`statementsUntil_of_error_inside`). If it is found to fail only behind it, what is skipped is the declaration
there (`not_stepsOver_of_error_behind`).
-/

namespace NodeFactory

open Parse Text

section Bodies

variable {text : List Char} {c d : Cursor} {closing : Lexeme} {xs bad ys after : List Lexeme}
  {before recovered behind base : List Statement} {errors : List ParseError}

/-- From where steps have come to stand before declarations, these are read, and the closing brace. -/
theorem StepsOver.closes (h : StepsOver c recovered d) (htext : d.rest <:+ lexemesOf text)
    (hd : d.rest = ys ++ closing :: after) (hclosing : closing.kind = .closeBrace)
    (hbehind : AreDeclarations ys behind) (base : List Statement) :
    repeatFrom (statementStep (statementsUntil .closeBrace) .closeBrace) base c
      = .ok (base ++ recovered ++ behind) (Cursor.past closing after d.errors) := by
  have hys : ∀ lexeme ∈ ys, lexeme ∈ lexemesOf text := by
    intro lexeme hmem
    refine htext.mem ?_
    rw [hd]
    exact List.mem_append_left _ hmem
  have hreads := hbehind.readsInTurn hys hd
  have hlast : (d.skip ys.length).rest = closing :: after := by
    rw [Cursor.rest_skip, hd, List.drop_left]
  have hkind : (d.skip ys.length).kind = .closeBrace := (Cursor.kind_of_cons hlast).trans hclosing
  rw [h.run, hreads.repeats, repeatFrom_of_inr (statementStep_of_closing hkind),
    Cursor.next_of_cons hlast, Cursor.errors_skip]
  rfl

/-- Where the last step reads a closing brace, it has come to stand before that. -/
theorem rest_of_last (hd : d.rest <:+ lexemesOf text) (hclosing : closing :: after <:+ lexemesOf text)
    (hlast : statementStep (statementsUntil .closeBrace) .closeBrace [] d
      = .ok (.inr []) (Cursor.past closing after errors)) :
    d.rest = closing :: after ∧ d.errors = errors := by
  obtain ⟨-, ⟨hkind, hnext⟩ | ⟨-, hexpected⟩⟩ := statementStep_inr hlast
  · have hend : d.kind ≠ .endOfFile := by
      rw [hkind]
      nofun
    obtain ⟨lexeme, hrest, -⟩ := Cursor.rest_of_kind hend
    have hafter : d.next.rest = after := congrArg Cursor.rest hnext.symm
    rw [hafter] at hrest
    rw [hrest] at hd ⊢
    refine ⟨(List.suffix_of_suffix_length_le hd hclosing (Nat.le_refl _)).eq_of_length rfl, ?_⟩
    exact d.errors_next.symm.trans (congrArg Cursor.errors hnext.symm)
  · exact absurd rfl hexpected

/-- Between declarations, in the body of a namespace, steps over some lexemes lead to just behind them
exactly if the body has the declarations before and behind, and ends with its own brace. -/
theorem statementsUntil_eq_around_iff (htext : c.rest <:+ lexemesOf text)
    (hrest : c.rest = xs ++ (bad ++ (ys ++ closing :: after))) (hclosing : closing.kind = .closeBrace)
    (hbefore : AreDeclarations xs before) (hbehind : AreDeclarations ys behind) :
    statementsUntil .closeBrace c
        = .ok (before ++ recovered ++ behind) (Cursor.past closing after errors)
      ↔ ∃ d, StepsOver (c.skip xs.length) recovered d ∧ d.rest = ys ++ closing :: after
        ∧ d.errors = errors := by
  have hreads := hbefore.readsInTurn (fun lexeme hmem => htext.mem (by
    rw [hrest]
    exact List.mem_append_left _ hmem)) hrest
  have hstart := Cursor.skip_suffix htext xs.length
  have hclosingText : ys ++ closing :: after <:+ lexemesOf text := by
    rw [hrest] at htext
    exact (List.suffix_append _ _).trans ((List.suffix_append _ _).trans htext)
  have hrun : statementsUntil .closeBrace c
      = repeatFrom (statementStep (statementsUntil .closeBrace) .closeBrace) before (c.skip xs.length) :=
    (congrFun (statementsUntil_eq .closeBrace) c).trans (hreads.repeats [])
  rw [hrun]
  constructor
  · intro h
    obtain ⟨more, d, heq, hsteps, hlast⟩ := stepsOver_of_repeats h
    rw [List.append_assoc] at heq
    obtain rfl := List.append_cancel_left heq
    cases behind with
    | nil =>
      obtain rfl := hbehind.eq_nil
      rw [List.append_nil] at hsteps
      obtain ⟨hd, herrors⟩ := rest_of_last (hsteps.suffix.trans hstart) hclosingText hlast
      exact ⟨d, hsteps, hd, herrors⟩
    | cons statement behind =>
      obtain ⟨m, m', hsteps', hend, hread⟩ := hsteps.reaches rfl
      have hm := hbehind.rest_eq hclosingText (hsteps'.suffix.trans hstart) hend hread
      have hrun' := hsteps'.closes (hm ▸ hclosingText) hm hclosing hbehind before
      refine ⟨m, hsteps', hm, ?_⟩
      exact congrArg Cursor.errors (EStateM.Result.ok.inj (hrun'.symm.trans h)).2
  · rintro ⟨d, hsteps, hd, rfl⟩
    exact hsteps.closes (hd ▸ hclosingText) hd hclosing hbehind before

end Bodies

section Skips

variable {c d e : Cursor} {depth : Nat} {brace : Lexeme} {taken left inner ys : List Lexeme}

/-- A run of lexemes that ends with the brace that leads out of all its groups, and not before. -/
structure IsBraced (lexemes : List Lexeme) : Prop where
  matched : Matched (kindsIn lexemes)
  run : balancedLength 0 lexemes = lexemes.length
  last : ∃ inner brace, lexemes = inner ++ [brace] ∧ brace.kind = .closeBrace

theorem isBraced_iff (lexemes : List Lexeme) : IsBraced lexemes ↔ Matched (kindsIn lexemes)
    ∧ balancedLength 0 lexemes = lexemes.length ∧ lexemes.getLast?.map Lexeme.kind = some .closeBrace := by
  constructor
  · rintro ⟨hmatched, hrun, inner, brace, rfl, hkind⟩
    exact ⟨hmatched, hrun, by rw [List.getLast?_concat, Option.map_some, hkind]⟩
  · rintro ⟨hmatched, hrun, hlast⟩
    obtain ⟨brace, hbrace, hkind⟩ := Option.map_eq_some_iff.1 hlast
    obtain ⟨inner, hinner⟩ := List.getLast?_eq_some_iff.1 hbrace
    exact ⟨hmatched, hrun, inner, brace, hinner, hkind⟩

instance (lexemes : List Lexeme) : Decidable (IsBraced lexemes) :=
  decidable_of_iff' _ (isBraced_iff lexemes)

/-- A balanced run of all lexemes goes on to the last, whichever it has come to. -/
theorem balancedLength_of_append (hne : left ≠ []) : ∀ {depth : Nat} {taken : List Lexeme},
    balancedLength depth (taken ++ left) = (taken ++ left).length →
      ∃ depth' : Nat, (depth' : Int) = depth + depthOf taken ∧ balancedLength depth' left = left.length
  | depth, [], h => ⟨depth, (Int.add_zero _).symm, h⟩
  | depth, lexeme :: taken, h => by
    rw [List.cons_append, List.length_cons] at h
    rcases balancedLength_cases depth lexeme with ⟨-, -, hrun⟩ | ⟨-, hrun⟩ | ⟨between, hbetween, hrun⟩
    · rw [hrun] at h
      cases h
    · rw [hrun] at h
      have hnil := List.eq_nil_of_length_eq_zero (Nat.succ_inj.1 h).symm
      exact absurd (List.append_eq_nil_iff.1 hnil).2 hne
    · rw [hrun] at h
      obtain ⟨depth', hdepth', hleft⟩ := balancedLength_of_append hne (Nat.succ_inj.1 h)
      exact ⟨depth', by rw [hdepth', hbetween, depthOf_cons, Int.add_assoc], hleft⟩

/-- A balanced run ends before a delimiter that closes nothing. -/
theorem balancedLength_append_of_isClose (hclose : brace.kind.isClose = true) (ys : List Lexeme) :
    ∀ {depth : Nat} {inner : List Lexeme}, balancedLength depth inner = inner.length →
      depth + depthOf inner = 0 → balancedLength depth (inner ++ brace :: ys) = inner.length
  | depth, [], _, hdepth => by
    obtain rfl : depth = 0 := by simpa [depthOf] using hdepth
    simp [balancedLength, hclose]
  | depth, lexeme :: inner, hrun, hdepth => by
    rw [depthOf_cons] at hdepth
    rw [List.length_cons] at hrun ⊢
    rw [List.cons_append]
    rcases balancedLength_cases depth lexeme with ⟨-, -, hcase⟩ | ⟨-, hcase⟩ | ⟨between, hbetween, hcase⟩
    · rw [hcase] at hrun
      cases hrun
    · rw [hcase] at hrun ⊢
      exact hrun
    · rw [hcase] at hrun ⊢
      rw [balancedLength_append_of_isClose hclose ys (Nat.succ_inj.1 hrun) (by omega)]

/-- A statement that fails is stepped over with the balanced run from the error on. -/
theorem stepsOver_of_error {error : ParseError} (hclosing : c.kind ≠ .closeBrace) (hend : c.kind ≠ .endOfFile)
    (h : statement? (statementsUntil .closeBrace) (c.expect [.closeBrace]) = .error error e)
    (he : e.rest = left ++ ys) (hrun : balancedLength 0 e.rest = left.length)
    (hne : left = [] → e.kind = .closeBrace) :
    ∃ d, StepsOver c [] d ∧ d.rest = ys ∧ d.errors = e.errors ++ [error] := by
  have hrecover := recover_eq .closeBrace (e.report error)
  have hrest : (e.report error).rest = e.rest := rfl
  rw [hrest, hrun] at hrecover
  by_cases hleft : left = []
  · subst hleft
    have hkind : (e.report error).kind = .closeBrace := hne rfl
    rw [List.length_nil, if_pos rfl, if_pos (Or.inl hkind)] at hrecover
    exact ⟨_, .next (statementStep_of_recover hclosing hend h hrecover) (.done _), he, rfl⟩
  · rw [if_neg fun hzero => hleft (List.eq_nil_of_length_eq_zero hzero)] at hrecover
    refine ⟨_, .next (statementStep_of_recover hclosing hend h hrecover) (.done _), ?_, ?_⟩
    · rw [Cursor.rest_skip, hrest, he, List.drop_left]
    · exact Cursor.errors_skip _ _

end Skips

section Recovery

variable {text : List Char} {c e : Cursor} {error : ParseError} {closing brace : Lexeme}
  {xs bad taken left inner ys after : List Lexeme} {before behind : List Statement}

/-- A run that ends with a brace begins with no closing delimiter, so a statement is read there. -/
theorem IsBraced.begins (h : IsBraced bad) (htext : c.rest <:+ lexemesOf text)
    (hrest : c.rest = bad ++ after) : c.kind ≠ .closeBrace ∧ c.kind ≠ .endOfFile := by
  obtain ⟨inner, brace, hbad, -⟩ := h.last
  have hne : bad ≠ [] := by
    rw [hbad]
    exact List.append_ne_nil_of_right_ne_nil _ (List.cons_ne_nil _ _)
  obtain ⟨first, rest, rfl⟩ := List.exists_cons_of_ne_nil hne
  rw [Cursor.kind_of_cons hrest]
  refine ⟨fun hclose => ?_, Token.kind_ne_endOfFile (Lexeme.token_mem (htext.mem ?_))⟩
  · have hrun := h.run
    simp [balancedLength, hclose, TokenKind.isClose] at hrun
  · rw [hrest]
    exact List.mem_cons_self

theorem IsBraced.ended (h : IsBraced (taken ++ left))
    (htext : ∀ lexeme ∈ left, lexeme ∈ lexemesOf text) : Ended left := by
  refine ⟨fun lexeme hlast => ?_, fun lexeme hmem => allGenuine_lexemesOf text lexeme (htext lexeme hmem)⟩
  obtain ⟨inner, brace, hall, hkind⟩ := h.last
  have hbrace : (taken ++ left).getLast? = some brace := by rw [hall, List.getLast?_concat]
  rw [List.getLast?_append, Option.mem_def.1 hlast] at hbrace
  obtain rfl : lexeme = brace := Option.some.inj hbrace
  have hmem := htext lexeme (List.mem_of_getLast? hlast)
  exact .inr ⟨hkind, Token.text_of_closeBrace (Lexeme.token_mem hmem) hkind⟩

theorem IsBraced.depthOf_eq (h : IsBraced bad) : depthOf bad = 0 := by
  have hlength := length_of_awaited h.matched
  simpa using hlength.symm

/-- An error outside all groups, before the end of the run, costs no statement but the one that fails. -/
theorem statementsUntil_of_error_outside (htext : c.rest <:+ lexemesOf text)
    (hrest : c.rest = xs ++ (taken ++ left ++ (ys ++ closing :: after))) (hclosing : closing.kind = .closeBrace)
    (hbefore : AreDeclarations xs before) (hbehind : AreDeclarations ys behind)
    (hbad : IsBraced (taken ++ left)) (hne : left ≠ []) (hdepth : depthOf taken = 0)
    (herror : statement? (statementsUntil .closeBrace) ((c.skip xs.length).expect [.closeBrace])
      = .error error e) (he : e.rest = left ++ (ys ++ closing :: after)) :
    statementsUntil .closeBrace c
      = .ok (before ++ behind) (Cursor.past closing after (e.errors ++ [error])) := by
  have hstart : (c.skip xs.length).rest = taken ++ left ++ (ys ++ closing :: after) := by
    rw [Cursor.rest_skip, hrest, List.drop_left]
  have hskip := Cursor.skip_suffix htext xs.length
  obtain ⟨hkind, hend⟩ := hbad.begins hskip hstart
  have hended : Ended left := hbad.ended fun lexeme hlexeme => hskip.mem (by
    rw [hstart]
    exact List.mem_append_left _ (List.mem_append_right _ hlexeme))
  -- What is left of the run is balanced by itself and ends it, so that much is skipped.
  obtain ⟨depth, hdepth', hleft⟩ := balancedLength_of_append hne hbad.run
  obtain rfl : depth = 0 := by omega
  have hzero : depthOf left = 0 := by
    have hall := hbad.depthOf_eq
    rw [depthOf_append] at hall
    omega
  have hrun : balancedLength 0 e.rest = left.length := by
    rw [he]
    exact balancedLength_append_of_ended _ hended hne (by simpa using hzero) hleft
  obtain ⟨d, hsteps, hd, herrors⟩ := stepsOver_of_error hkind hend herror he hrun fun hnil => absurd hnil hne
  have haround := (statementsUntil_eq_around_iff htext hrest hclosing hbefore hbehind).2
    ⟨d, hsteps, hd, herrors⟩
  rwa [List.append_nil] at haround

/-- An error directly inside the braces that end the run leaves the brace: what is skipped ends before it, and
it ends the body. What stands behind the run is left to what is around the namespace. -/
theorem statementsUntil_of_error_inside (htext : c.rest <:+ lexemesOf text)
    (hrest : c.rest = xs ++ (taken ++ (inner ++ [brace]) ++ after)) (hbefore : AreDeclarations xs before)
    (hbad : IsBraced (taken ++ (inner ++ [brace]))) (hdepth : depthOf taken = 1)
    (hinner : balancedLength 0 inner = inner.length)
    (herror : statement? (statementsUntil .closeBrace) ((c.skip xs.length).expect [.closeBrace])
      = .error error e) (he : e.rest = inner ++ brace :: after) :
    statementsUntil .closeBrace c = .ok before (Cursor.past brace after (e.errors ++ [error])) := by
  have hbrace : brace.kind = .closeBrace := by
    obtain ⟨_, _, hlast, hkind⟩ := hbad.last
    rw [← List.append_assoc] at hlast
    obtain ⟨-, hlast⟩ := List.append_inj' hlast rfl
    obtain rfl := List.singleton_inj.1 hlast
    exact hkind
  have hstart : (c.skip xs.length).rest = taken ++ (inner ++ [brace]) ++ after := by
    rw [Cursor.rest_skip, hrest, List.drop_left]
  obtain ⟨hkind, hend⟩ := hbad.begins (Cursor.skip_suffix htext xs.length) hstart
  have hzero : depthOf inner = 0 := by
    have hall := hbad.depthOf_eq
    have hclose : brace.kind.depth = -1 := TokenKind.depth_of_isClose (by rw [hbrace]; rfl)
    rw [depthOf_append, depthOf_append, depthOf_cons, hclose, depthOf] at hall
    omega
  have hrun : balancedLength 0 e.rest = inner.length := by
    rw [he]
    exact balancedLength_append_of_isClose (by rw [hbrace]; rfl) _ hinner (by simpa using hzero)
  obtain ⟨d, hsteps, hd, herrors⟩ := stepsOver_of_error hkind hend herror he hrun fun hnil => by
    subst hnil
    exact (Cursor.kind_of_cons he).trans hbrace
  have hnone : AreDeclarations [] [] := ⟨0, _, .done _, rfl, rfl⟩
  have hrest' : c.rest = xs ++ (taken ++ inner ++ ([] ++ brace :: after)) := by
    rw [hrest]
    simp
  have haround := (statementsUntil_eq_around_iff htext hrest' hbrace hbefore hnone).2 ⟨d, hsteps, hd, herrors⟩
  rwa [List.append_nil, List.append_nil] at haround

/-- An error that is found only behind the run is one in the first of the declarations there, which is
skipped. -/
theorem not_stepsOver_of_error_behind (hstart : c.rest = bad ++ (ys ++ closing :: after)) (hbad : bad ≠ [])
    (hbehind : AreDeclarations ys behind) (hys : ys ≠ [])
    (herror : statement? (statementsUntil .closeBrace) (c.expect [.closeBrace]) = .error error e)
    (he : e.rest = ys ++ closing :: after) :
    ¬ ∃ recovered d, StepsOver c recovered d ∧ d.rest = ys ++ closing :: after := by
  rintro ⟨recovered, d, hsteps, hd⟩
  cases hsteps with
  | done =>
    have hlength := congrArg List.length (hstart.symm.trans hd)
    have := List.length_pos_iff.2 hbad
    rw [List.length_append] at hlength
    omega
  | @next c m d found more hstep hmore =>
    obtain ⟨-, -, ⟨_, hread, -⟩ | ⟨_, _, hread, hrecover, -⟩⟩ := statementStep_inl hstep
    · rw [herror] at hread
      cases hread
    · rw [herror] at hread
      cases hread
      obtain ⟨first, rest, hfirst, hclose⟩ := hbehind.begins hys
      have hpos : 0 < balancedLength 0 e.rest := by
        rw [he, hfirst]
        exact balancedLength_pos 0 _ hclose
      have hrest : (e.report error).rest = e.rest := rfl
      rw [recover_eq, hrest, if_neg (by omega)] at hrecover
      cases hrecover
      have hle := hmore.suffix.length_le
      rw [hd, Cursor.rest_skip, hrest, List.length_drop, he, List.length_append, List.length_cons] at hle
      rw [he] at hpos
      omega

end Recovery

namespace SymbolTable

section Exports

variable {table : SymbolTable} {scope : Option SymbolId} {path : List String} {occurrence : Occurrence}

/-- A declaration as statements make it is in the scope that its path names, and the scope binds its name to
its symbol. -/
def Exports (table : SymbolTable) (occurrence : Occurrence) : Prop :=
  ∃ decl ∈ table.declarations.toList, table.IsRecorded decl occurrence
    ∧ (table.bindings decl.scope).lookup occurrence.name = some decl.symbol

theorem IsRecorded.exports (hc : table.Coherent) {decl : Declaration}
    (hmem : decl ∈ table.declarations.toList) (h : table.IsRecorded decl occurrence) :
    table.Exports occurrence := by
  refine ⟨decl, hmem, h, ?_⟩
  obtain ⟨d, hd⟩ := List.mem_iff_getElem?.1 hmem
  rw [Array.getElem?_toList] at hd
  obtain ⟨symbol, hsymbol, -, hscope⟩ := hc.declared hd
  have hbound := hc.bound hsymbol
  rw [← hscope] at hbound
  have hlocated := h.symbol
  generalize hpath : occurrence.path ++ [occurrence.name] = names at hlocated
  cases hlocated with
  | inside hsymbol' _ =>
    obtain rfl := Option.some.inj (hsymbol.symm.trans hsymbol')
    obtain ⟨-, hname⟩ := List.append_inj' hpath rfl
    rwa [List.singleton_inj.1 hname]

/-- What statements declare is exported where it is declared. -/
theorem bindStatement_exports (statement : Statement) (hc : table.Coherent) (hscope : table.HasScope scope)
    (located : table.Located path scope) (hmem : occurrence ∈ statement.occurrences path) :
    (bindStatement scope table statement).Exports occurrence := by
  have hc' := hc.run (bindStatement_run statement hc hscope)
  obtain ⟨new, hnew, hrecords⟩ := bindStatement_records statement hc hscope located
  obtain ⟨i, hi, rfl⟩ := List.mem_iff_getElem.1 hmem
  have hlt : i < new.length := hrecords.length_eq ▸ hi
  refine (hrecords.get hlt hi).exports hc' ?_
  rw [hnew]
  exact List.mem_append_right _ (List.getElem_mem hlt)

end Exports

end SymbolTable

section Around

variable {text : List Char} {c : Cursor} {closing : Lexeme} {xs bad ys after : List Lexeme}
  {before behind : List Statement}

/-- In the body of a namespace, let some lexemes stand between declarations. Those before and those behind are
read unchanged, and the body ends with its own brace, exactly if steps over the lexemes come to stand behind
them. If a run that ends with a brace fails outside all groups, nothing but that run is lost; if it is found to
fail only behind it, that is not so. What is declared in the body is exported by the namespace. -/
theorem declarations_around (htext : c.rest <:+ lexemesOf text)
    (hrest : c.rest = xs ++ (bad ++ (ys ++ closing :: after))) (hclosing : closing.kind = .closeBrace)
    (hbefore : AreDeclarations xs before) (hbehind : AreDeclarations ys behind) :
    ((∃ recovered errors, statementsUntil .closeBrace c
        = .ok (before ++ recovered ++ behind) (Cursor.past closing after errors))
      ↔ ∃ recovered d, StepsOver (c.skip xs.length) recovered d ∧ d.rest = ys ++ closing :: after)
    ∧ (∀ error e,
      statement? (statementsUntil .closeBrace) ((c.skip xs.length).expect [.closeBrace]) = .error error e →
      (∀ taken left, bad = taken ++ left → left ≠ [] → depthOf taken = 0 → IsBraced bad →
        e.rest = left ++ (ys ++ closing :: after) → statementsUntil .closeBrace c
          = .ok (before ++ behind) (Cursor.past closing after (e.errors ++ [error])))
      ∧ (bad ≠ [] → ys ≠ [] → e.rest = ys ++ closing :: after → ¬ ∃ recovered errors,
        statementsUntil .closeBrace c
          = .ok (before ++ recovered ++ behind) (Cursor.past closing after errors)))
    ∧ ∀ recovered place name (table : SymbolTable) scope path, table.Coherent → table.HasScope scope →
      table.Located path scope →
      ∀ occurrence ∈ occurrencesIn (path ++ name.parts.map Ident.name) (before ++ behind),
        (table.bindStatement scope (.namespaceDecl place name (before ++ recovered ++ behind))).Exports
          occurrence := by
  have hiff : (∃ recovered errors, statementsUntil .closeBrace c
        = .ok (before ++ recovered ++ behind) (Cursor.past closing after errors))
      ↔ ∃ recovered d, StepsOver (c.skip xs.length) recovered d ∧ d.rest = ys ++ closing :: after := by
    simp only [statementsUntil_eq_around_iff htext hrest hclosing hbefore hbehind]
    constructor
    · rintro ⟨recovered, errors, d, hsteps, hd, -⟩
      exact ⟨recovered, d, hsteps, hd⟩
    · rintro ⟨recovered, d, hsteps, hd⟩
      exact ⟨recovered, d.errors, d, hsteps, hd, rfl⟩
  refine ⟨hiff, fun error e herror => ⟨?_, fun hbad hys he => ?_⟩, ?_⟩
  · rintro taken left rfl hne hdepth hbraced he
    exact statementsUntil_of_error_outside htext hrest hclosing hbefore hbehind hbraced hne hdepth herror he
  · have hstart : (c.skip xs.length).rest = bad ++ (ys ++ closing :: after) := by
      rw [Cursor.rest_skip, hrest, List.drop_left]
    rw [hiff]
    exact not_stepsOver_of_error_behind hstart hbad hbehind hys herror he
  · intro recovered place name table scope path hc hscope located occurrence hmem
    refine SymbolTable.bindStatement_exports _ hc hscope located (List.mem_append_right _ ?_)
    obtain ⟨statement, hstatement, hoccurs⟩ := mem_occurrencesIn.1 hmem
    refine mem_occurrencesIn.2 ⟨statement, ?_, hoccurs⟩
    simp only [List.mem_append] at hstatement ⊢
    exact hstatement.imp_left .inl

/-- Whether lexemes are one declaration can be found by reading them. -/
def isOneDeclaration (lexemes : List Lexeme) : Bool :=
  let c := Cursor.before 0 lexemes
  c.kind != .closeBrace && c.kind != .endOfFile
    && match statement? (statementsUntil .closeBrace) (c.expect [.closeBrace]) with
      | .ok (some statement) m => m.rest.isEmpty && m.errors.isEmpty
        && statement.ending? == lexemes.getLast?.map Lexeme.kind
      | _ => false

theorem areDeclarations_of_isOneDeclaration (h : isOneDeclaration xs = true) :
    ∃ statement, AreDeclarations xs [statement] := by
  unfold isOneDeclaration at h
  simp only [Bool.and_eq_true, bne_iff_ne] at h
  obtain ⟨⟨hclosing, hend⟩, hread⟩ := h
  split at hread
  · rename_i statement m hstatement
    simp only [Bool.and_eq_true, List.isEmpty_iff, beq_iff_eq] at hread
    obtain ⟨⟨hrest, hclean⟩, hending⟩ := hread
    obtain ⟨first, hxs, -⟩ := Cursor.rest_of_kind hend
    change xs = _ at hxs
    obtain ⟨last, hlast⟩ : ∃ last, xs.getLast? = some last := by
      rw [hxs]
      exact Option.isSome_iff_exists.1 (List.getLast?_isSome.2 (List.cons_ne_nil _ _))
    obtain ⟨init, hinit⟩ := List.getLast?_eq_some_iff.1 hlast
    rw [hlast] at hending
    have hread : (Cursor.before 0 xs).rest = init ++ last :: m.rest := by rw [hrest]; exact hinit
    exact ⟨statement, 0, m, .next hclosing hend hstatement hread hending (.done m), hrest, hclean⟩
  · cases hread

/-- How many lexemes of a statement lie before the error with which it fails can be found by reading it. -/
def failsBehind (n : Nat) (c : Cursor) : Bool :=
  match statement? (statementsUntil .closeBrace) (c.expect [.closeBrace]) with
  | .ok _ _ => false
  | .error _ e => e.rest == c.rest.drop n

theorem error_of_failsBehind {n : Nat} (h : failsBehind n c = true) : ∃ error e,
    statement? (statementsUntil .closeBrace) (c.expect [.closeBrace]) = .error error e
      ∧ e.rest = c.rest.drop n := by
  unfold failsBehind at h
  split at h
  · cases h
  · rename_i error e herror
    exact ⟨error, e, herror, by simpa using h⟩

/-- An interface of which the head is broken, between an interface and an alias. -/
def brokenHead : List Char := "namespace N { interface A {} interface X extends = {} type T = A; }".toList

theorem declarations_around_brokenHead :
    let lexemes := lexemesOf brokenHead
    let c := (Cursor.ofTokens (Token.tokenize brokenHead)).skip 3
    let bad := (lexemes.drop 7).take 6
    ∃ a t closing errors, AreDeclarations ((lexemes.drop 3).take 4) [a]
      ∧ AreDeclarations ((lexemes.drop 13).take 5) [t] ∧ IsBraced bad
      ∧ statementsUntil .closeBrace c = .ok ([a] ++ [t]) (Cursor.past closing [] errors) := by
  intro lexemes c bad
  let closing := lexemes.get ⟨18, by decide +kernel⟩
  have htext : c.rest <:+ lexemes := by
    rw [Cursor.rest_skip]
    exact List.drop_suffix 3 _
  obtain ⟨hall, hleft, hclosing, hbraced, hne, hdepth⟩ : lexemes.drop 3
        = (lexemes.drop 3).take 4 ++ (bad ++ ((lexemes.drop 13).take 5 ++ closing :: []))
      ∧ ((lexemes.drop 3).drop ((lexemes.drop 3).take 4).length).drop 3
        = bad.drop 3 ++ ((lexemes.drop 13).take 5 ++ closing :: [])
      ∧ closing.kind = .closeBrace ∧ IsBraced bad ∧ bad.drop 3 ≠ [] ∧ depthOf (bad.take 3) = 0 := by
    decide +kernel
  obtain ⟨hfirst, hsecond, hfails⟩ : isOneDeclaration ((lexemes.drop 3).take 4) = true
      ∧ isOneDeclaration ((lexemes.drop 13).take 5) = true
      ∧ failsBehind 3 (c.skip ((lexemes.drop 3).take 4).length) = true := by
    decide +kernel
  have hrest : c.rest = (lexemes.drop 3).take 4 ++ (bad ++ ((lexemes.drop 13).take 5 ++ closing :: [])) := by
    rw [Cursor.rest_skip]
    exact hall
  obtain ⟨a, ha⟩ := areDeclarations_of_isOneDeclaration hfirst
  obtain ⟨t, ht⟩ := areDeclarations_of_isOneDeclaration hsecond
  obtain ⟨error, e, herror, he⟩ := error_of_failsBehind hfails
  rw [Cursor.rest_skip, Cursor.rest_skip] at he
  obtain ⟨-, haround, -⟩ := declarations_around htext hrest hclosing ha ht
  obtain ⟨houtside, -⟩ := haround error e herror
  exact ⟨a, t, closing, _, ha, ht, hbraced, houtside (bad.take 3) (bad.drop 3)
    (List.take_append_drop 3 bad).symm hne hdepth hbraced (he.trans hleft)⟩

/-- An enum of which a value is broken, before an interface. -/
def brokenEnum : List Char := "namespace N { enum E { X = = } interface C {} }".toList

/-- The closing brace of the enum ends the body of the namespace, and the interface is declared outside. -/
theorem brokenEnum_lost :
    let lexemes := lexemesOf brokenEnum
    let c := (Cursor.ofTokens (Token.tokenize brokenEnum)).skip 3
    let bad := (lexemes.drop 3).take 7
    let ys := (lexemes.drop 10).take 4
    ∃ closing statement, c.rest = [] ++ (bad ++ (ys ++ closing :: [])) ∧ closing.kind = .closeBrace
      ∧ AreDeclarations [] [] ∧ AreDeclarations ys [statement] ∧ IsBraced bad
      ∧ (∃ error e, statement? (statementsUntil .closeBrace) (c.expect [.closeBrace]) = .error error e)
      ∧ (¬ ∃ recovered errors, statementsUntil .closeBrace c
        = .ok ([] ++ recovered ++ [statement]) (Cursor.past closing [] errors))
      ∧ (SymbolTable.ofStatements (Schema.parse brokenEnum).statements).globals.map Prod.fst = ["N", "C"] := by
  intro lexemes c bad ys
  let closing := lexemes.get ⟨14, by decide +kernel⟩
  let brace := lexemes.get ⟨9, by decide +kernel⟩
  have htext : c.rest <:+ lexemes := by
    rw [Cursor.rest_skip]
    exact List.drop_suffix 3 _
  obtain ⟨hall, hparts, hleft, hclosing, hbraced, hdepth, hinner⟩ :
      lexemes.drop 3 = [] ++ (bad ++ (ys ++ closing :: []))
      ∧ bad = bad.take 5 ++ ((bad.drop 5).take 1 ++ [brace])
      ∧ (lexemes.drop 3).drop 5 = (bad.drop 5).take 1 ++ brace :: (ys ++ closing :: [])
      ∧ closing.kind = .closeBrace ∧ IsBraced bad ∧ depthOf (bad.take 5) = 1
      ∧ balancedLength 0 ((bad.drop 5).take 1) = ((bad.drop 5).take 1).length := by
    decide +kernel
  obtain ⟨hdeclares, hfails, hglobals⟩ : isOneDeclaration ys = true ∧ failsBehind 5 c = true
      ∧ (SymbolTable.ofStatements (Schema.parse brokenEnum).statements).globals.map Prod.fst = ["N", "C"] := by
    decide +kernel
  have hrest : c.rest = [] ++ (bad ++ (ys ++ closing :: [])) := by
    rw [Cursor.rest_skip]
    exact hall
  obtain ⟨statement, hstatement⟩ := areDeclarations_of_isOneDeclaration hdeclares
  obtain ⟨error, e, herror, he⟩ := error_of_failsBehind hfails
  rw [Cursor.rest_skip] at he
  have hnone : AreDeclarations [] [] := ⟨0, _, .done _, rfl, rfl⟩
  have hrest' : c.rest = [] ++ (bad.take 5 ++ ((bad.drop 5).take 1 ++ [brace]) ++ (ys ++ closing :: [])) :=
    hparts ▸ hrest
  have hbody := statementsUntil_of_error_inside htext hrest' hnone (hparts ▸ hbraced) hdepth hinner herror
    (he.trans hleft)
  refine ⟨closing, statement, hrest, hclosing, hnone, hstatement, hbraced, ⟨error, e, herror⟩, ?_, hglobals⟩
  rintro ⟨recovered, errors, hbody'⟩
  rw [hbody] at hbody'
  have hnil := (EStateM.Result.ok.inj hbody').1
  simp at hnil

end Around

end NodeFactory
