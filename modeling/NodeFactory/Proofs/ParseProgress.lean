import NodeFactory.Proofs.SchemaSpans
import NodeFactory.Proofs.TypeSpans

/-!
# The parser goes on

A step of the loops over statements and over members goes on only after it has taken a lexeme, whatever
it recovers from, and takes lexemes from those that are left (`Advances`). So the limits that are set to
calls are never met: loops repeat their steps, and actions call themselves, without them. Every text is
read to its end (`parse_ends`).
-/

namespace NodeFactory

open Parse Text

section Loops

variable {σ α : Type} {step : σ → Parse (σ ⊕ α)}

/-- A step takes lexemes from those that are left, at least one if it goes on. Repeating it need not be
limited. -/
structure Advances (step : σ → Parse (σ ⊕ α)) : Prop where
  takes : ∀ state c result d, step state c = .ok result d →
    ∃ xs, c.rest = xs ++ d.rest ∧ ∀ next, result = .inl next → xs ≠ []
  fails : ∀ state c error d, step state c = .error error d → ∃ xs, c.rest = xs ++ d.rest
  repeats : ∀ state, repeatFrom step state = (do
    match ← step state with
    | .inl state => repeatFrom step state
    | .inr value => return value)

theorem advances_of_takes (h : ∀ state c, ∃ I R zs,
    Takes ⟨[], []⟩ (StepTakes I R zs) (step state) (step state) c) : Advances step where
  takes state c result d hrun := by
    obtain ⟨I, R, zs, htakes⟩ := h state c
    obtain ⟨xs, htook⟩ := htakes.ok result d hrun
    refine ⟨xs, htook.reads.rest, ?_⟩
    rintro next rfl
    exact htook.related.1
  fails state c error d hrun := by
    obtain ⟨I, R, zs, htakes⟩ := h state c
    obtain ⟨xs, hxs⟩ := htakes.error error d hrun
    exact ⟨xs, hxs.rest⟩
  repeats state := by
    funext c
    rw [repeatFrom_eq]
    refine bind_congr rfl fun result d hrun => ?_
    obtain ⟨I, R, zs, htakes⟩ := h state c
    obtain ⟨xs, htook⟩ := htakes.ok result d hrun
    cases result with
    | inl state => exact below_of_lt (htook.reads.size_lt htook.related.1)
    | inr value => rfl

/-- A loop whose steps do not fail comes to an end. -/
theorem Advances.ends (h : Advances step)
    (hok : ∀ state c, ∃ result d, step state c = .ok result d) (state : σ) (c : Cursor) :
    ∃ value d, repeatFrom step state c = .ok value d := by
  generalize hn : c.rest.length = n
  induction n using Nat.strongRecOn generalizing state c with
  | ind n ih =>
    obtain ⟨result, m, hstep⟩ := hok state c
    rw [h.repeats, bind_of_ok hstep]
    cases result with
    | inr value => exact ⟨value, m, rfl⟩
    | inl state =>
      obtain ⟨xs, hrest, hne⟩ := h.takes _ _ _ _ hstep
      have hlength := congrArg List.length hrest
      have := List.length_pos_iff.2 (hne state rfl)
      rw [List.length_append] at hlength
      exact ih m.rest.length (by omega) state m rfl

theorem statementStep_advances (closing : TokenKind) :
    Advances (statementStep (statementsUntil .closeBrace) closing) :=
  advances_of_takes fun statements c => ⟨Adds statements, Adds statements, [],
    statementStep_takes (n := c.size) (fun _ _ => statementsUntil_takes .closeBrace)
      (Nat.le_refl c.size) closing (adds_nil statements)⟩

theorem memberStep_advances : Advances (memberStep typeExpr) :=
  advances_of_takes fun members c => ⟨Adds members, fun _ _ => _, [],
    memberStep_takes (n := c.size) (fun _ _ => typeExpr_takes) (Nat.le_refl c.size) (adds_nil members)⟩

theorem enumStep_advances : Advances enumStep :=
  advances_of_takes fun members _ => ⟨Adds members, Adds members, [], enumStep_takes (adds_nil members)⟩

end Loops

section Recursion

/-- A type is read as its grammar says, with types inside it read alike. -/
theorem typeAt_eq (level : TypeLevel) : typeAt level = match level with
    | .whole => wholeType (typeAt .whole) (typeAt .suffixed)
    | .suffixed => suffixedType (typeAt .whole) (typeAt .suffixed) :=
  funext fun c => fix_unlimited (s := ⟨[], []⟩) typeAt_body_takes level c

theorem constExprAbove_eq (level : Nat) : constExprAbove level = (do
    let left ← constOperand (constExprAbove 0)
    repeatFrom (fun left => do
      match (← cursor).binaryOp? with
      | some (op, length) =>
        if op.precedence ≤ level then return .inr left
        skip length
        return .inl (.binary op left (← constExprAbove op.precedence))
      | none => return .inr left) left) :=
  funext fun c => fix_unlimited (s := ⟨[], []⟩) constExprAbove_body_takes level c

end Recursion

section Ends

variable {body : Parse (List Statement)} {closing : TokenKind}

theorem recover_ok (closing : TokenKind) (c : Cursor) : ∃ d, recover closing c = .ok () d := by
  rw [recover_eq]
  split
  · split <;> exact ⟨_, rfl⟩
  · exact ⟨_, rfl⟩

/-- An error in a statement does not stop the loop. -/
theorem statementStep_ok (statements : List Statement) (c : Cursor) :
    ∃ result d, statementStep body closing statements c = .ok result d := by
  by_cases hclosing : c.kind = closing
  · exact ⟨_, _, statementStep_of_closing hclosing⟩
  by_cases hend : c.kind = .endOfFile
  · exact ⟨_, _, statementStep_of_end hclosing hend⟩
  cases hrun : statement? body (c.expect [closing]) with
  | ok statement m => exact ⟨_, _, statementStep_of_statement hclosing hend hrun⟩
  | error error m =>
    obtain ⟨d, hrecover⟩ := recover_ok closing (m.report error)
    refine ⟨.inl statements, d, ?_⟩
    rw [statementStep_of_error hclosing hend hrun, bind_of_ok (rfl : report error m = .ok () _),
      bind_of_ok hrecover]
    rfl

/-- The last step stands at the closing lexeme or at the end. -/
theorem statementStep_of_inr {statements result : List Statement} {c d : Cursor}
    (h : statementStep body closing statements c = .ok (.inr result) d) :
    c.kind = closing ∧ d.rest = c.next.rest ∨ c.kind = .endOfFile ∧ d.rest = c.rest := by
  by_cases hclosing : c.kind = closing
  · rw [statementStep_of_closing hclosing] at h
    cases h
    exact .inl ⟨hclosing, rfl⟩
  by_cases hend : c.kind = .endOfFile
  · rw [statementStep_of_end hclosing hend] at h
    cases h
    exact .inr ⟨hend, rfl⟩
  cases hrun : statement? body (c.expect [closing]) with
  | ok statement m =>
    rw [statementStep_of_statement hclosing hend hrun] at h
    cases h
  | error error m =>
    obtain ⟨e, hrecover⟩ := recover_ok closing (m.report error)
    rw [statementStep_of_error hclosing hend hrun, bind_of_ok (rfl : report error m = .ok () _),
      bind_of_ok hrecover] at h
    cases h

/-- A text is read to its end, whatever it is. -/
theorem parse_ends (text : List Char) : ∃ d,
    statementsUntil .endOfFile (Cursor.ofTokens (Token.tokenize text))
      = .ok (Schema.parse text).statements d ∧ d.rest = [] := by
  obtain ⟨statements, d, hrun⟩ := (statementStep_advances .endOfFile).ends statementStep_ok []
    (Cursor.ofTokens (Token.tokenize text))
  rw [← statementsUntil_eq] at hrun
  refine ⟨d, ?_, ?_⟩
  · unfold Schema.parse
    rw [hrun]
  · rw [statementsUntil_eq] at hrun
    -- The end of the text is next only where all its lexemes are taken.
    refine repeatFrom_of_ok (P := fun _ c => ∃ xs, lexemesOf text = xs ++ c.rest)
      (Q := fun _ d => d.rest = []) (fun statements c result d ⟨xs, hxs⟩ hstep => ?_) ⟨[], rfl⟩ hrun
    obtain ⟨ys, hys, -⟩ := (statementStep_advances .endOfFile).takes _ _ _ _ hstep
    cases result with
    | inl statements => exact ⟨xs ++ ys, by rw [hxs, hys, List.append_assoc]⟩
    | inr statements =>
      show d.rest = []
      rcases statementStep_of_inr hstep with ⟨hend, hrest⟩ | ⟨hend, hrest⟩
      · rw [hrest, Cursor.rest_next, Cursor.rest_of_endOfFile hxs hend]
        rfl
      · rw [hrest, Cursor.rest_of_endOfFile hxs hend]

end Ends

section Slices

/-- A lexeme is cut out of a text between characters, and if it is a string a quote, which is one byte,
can be cut off at both of its ends. -/
structure Lexeme.IsCutFrom (text : List Char) (lexeme : Lexeme) : Prop where
  slice : ∃ before after, text = before ++ lexeme.text ++ after
    ∧ lexeme.span.start = byteLength before ∧ lexeme.span.stop = byteLength (before ++ lexeme.text)
  quotes : lexeme.kind = .string →
    ∃ quote body, lexeme.text = quote :: (body ++ [quote]) ∧ quote.utf8Size = 1

theorem Lexeme.isCutFrom_of_mem {text : List Char} {lexeme : Lexeme} (h : lexeme ∈ lexemesOf text) :
    lexeme.IsCutFrom text where
  slice := Token.slice_span (Lexeme.token_mem h)
  quotes hkind := by
    obtain ⟨quote, body, hquote, htext⟩ := Token.text_of_string (Lexeme.token_mem h) hkind
    refine ⟨quote, body, htext, ?_⟩
    rcases hquote with rfl | rfl <;> rfl

variable {nodes : List Outline} {xs : List Lexeme}

/-- A name that declarations refer to has parts, and none of them is empty. -/
theorem Within.names_nonempty (h : Within nodes xs) (htext : ∀ lexeme ∈ xs, lexeme.text ≠ []) :
    ∀ node ∈ Outline.allOf nodes, node.sort = .entityName →
      node.parts ≠ [] ∧ ∀ part ∈ node.parts, ∃ name, part.sort = .ident name ∧ name ≠ "" := by
  induction h with
  | nil => nofun
  | skip _ ih => exact ih fun lexeme hmem => htext lexeme (List.mem_cons_of_mem _ hmem)
  | plain hsort hfits _ _ ih ih' =>
    obtain ⟨htext, htext'⟩ := List.forall_mem_append.1 htext
    intro node hmem hname
    rw [Outline.allOf, Outline.all, List.cons_append] at hmem
    rcases List.mem_cons.1 hmem with rfl | hmem
    · obtain rfl : _ = NodeSort.entityName := hname
      refine ⟨hfits.1, fun part hpart => ?_⟩
      obtain ⟨lexeme, hlexeme, -, hident⟩ := hfits.2 part hpart
      exact ⟨_, hident, fun hempty => htext lexeme hlexeme (by simpa using hempty)⟩
    rcases List.mem_append.1 hmem with hmem | hmem
    · exact ih htext node hmem hname
    · exact ih' htext' node hmem hname
  | led hsort _ _ _ _ ih ih' ih'' =>
    obtain ⟨htext, htext'⟩ := List.forall_mem_append.1 htext
    obtain ⟨hfirst, hrest⟩ := List.forall_mem_cons.1 htext
    intro node hmem hname
    rw [Outline.allOf, Outline.all, List.cons_append, Outline.allOf_append] at hmem
    rcases List.mem_cons.1 hmem with rfl | hmem
    · obtain rfl : _ = NodeSort.entityName := hname
      cases hsort
    rcases List.mem_append.1 hmem with hmem | hmem
    · rcases List.mem_append.1 hmem with hmem | hmem
      · exact ih (List.forall_mem_singleton.2 hfirst) node hmem hname
      · exact ih' hrest node hmem hname
    · exact ih'' htext' node hmem hname

end Slices

end NodeFactory
