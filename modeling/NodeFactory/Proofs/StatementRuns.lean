import NodeFactory.Proofs.StatementPlaces

/-!
# Runs that report no error

Where no error is reported, statements are read one after the other up to the closing lexeme
(`readsInTurn_of_clean`). Nothing lies between them but semicolons that are read in place of a statement
(`ReadsInTurn.tiles`).
-/

namespace NodeFactory

open Parse Text

section Steps

variable {body : Parse (List Statement)} {closing : TokenKind} {c d : Cursor}

/-- Statements are read one after the other, each where the one before has ended. -/
inductive ReadsInTurn (body : Parse (List Statement)) (closing : TokenKind) :
    Cursor → List Statement → Cursor → Prop
  | done (c : Cursor) : ReadsInTurn body closing c [] c
  | next {c m d : Cursor} {statement : Option Statement} {statements : List Statement} :
      c.kind ≠ closing → c.kind ≠ .endOfFile → statement? body (c.expect [closing]) = .ok statement m →
        ReadsInTurn body closing m statements d →
          ReadsInTurn body closing c (statement.toList ++ statements) d

theorem statementStep_of_closing {statements : List Statement} (h : c.kind = closing) :
    statementStep body closing statements c = .ok (.inr statements) c.next := by
  unfold statementStep
  rw [bind_of_ok (eat_of_kind h)]
  rfl

/-- What a step does where neither the closing lexeme nor the end is next. -/
theorem statementStep_of_ne {statements : List Statement} (hclosing : c.kind ≠ closing)
    (hend : c.kind ≠ .endOfFile) : statementStep body closing statements c
      = (Parse.outcome (statement? body) >>= fun result =>
          match result with
          | .ok statement => pure (.inl (statements ++ statement.toList))
          | .error error => do
            report error
            recover closing
            pure (.inl statements) : Parse (List Statement ⊕ List Statement)) (c.expect [closing]) := by
  unfold statementStep
  rw [bind_of_ok (eat_of_ne hclosing)]
  show (if (c.kind == .endOfFile) = true then _ else _ : Parse _) (c.expect [closing]) = _
  exact congrFun (if_neg (by simpa using hend)) _

theorem statementStep_of_end {statements : List Statement} (hclosing : c.kind ≠ closing)
    (hend : c.kind = .endOfFile) : statementStep body closing statements c
      = .ok (.inr statements) ((c.expect [closing]).report (c.expect [closing]).unexpected) := by
  unfold statementStep
  rw [bind_of_ok (eat_of_ne hclosing)]
  show (if (c.kind == .endOfFile) = true then _ else _ : Parse _) (c.expect [closing]) = _
  rw [if_pos (by simpa using hend)]
  rfl

theorem statementStep_of_statement {statements : List Statement} {statement : Option Statement}
    (hclosing : c.kind ≠ closing) (hend : c.kind ≠ .endOfFile)
    (h : statement? body (c.expect [closing]) = .ok statement d) :
    statementStep body closing statements c = .ok (.inl (statements ++ statement.toList)) d := by
  rw [statementStep_of_ne hclosing hend, bind_of_ok (outcome_of_ok h)]
  rfl

theorem statementStep_of_error {statements : List Statement} {error : ParseError}
    (hclosing : c.kind ≠ closing) (hend : c.kind ≠ .endOfFile)
    (h : statement? body (c.expect [closing]) = .error error d) :
    statementStep body closing statements c
      = (do report error; recover closing; return .inl statements :
        Parse (List Statement ⊕ List Statement)) d := by
  rw [statementStep_of_ne hclosing hend, bind_of_ok (outcome_of_error h)]

/-- A step that reports no error is the last one, or it has read a statement. -/
theorem statementStep_of_clean {statements : List Statement}
    {result : List Statement ⊕ List Statement}
    (h : statementStep body closing statements c = .ok result d) (hclean : d.errors = []) :
    (c.kind = closing ∧ result = .inr statements ∧ d = c.next)
      ∨ (c.kind ≠ closing ∧ c.kind ≠ .endOfFile ∧ ∃ statement,
        statement? body (c.expect [closing]) = .ok statement d
          ∧ result = .inl (statements ++ statement.toList)) := by
  by_cases hclosing : c.kind = closing
  · rw [statementStep_of_closing hclosing] at h
    cases h
    exact .inl ⟨hclosing, rfl, rfl⟩
  by_cases hend : c.kind = .endOfFile
  · rw [statementStep_of_end hclosing hend] at h
    cases h
    exact absurd hclean (List.append_ne_nil_of_right_ne_nil _ (List.cons_ne_nil _ _))
  refine .inr ⟨hclosing, hend, ?_⟩
  cases hrun : statement? body (c.expect [closing]) with
  | ok statement m =>
    rw [statementStep_of_statement hclosing hend hrun] at h
    cases h
    exact ⟨statement, rfl, rfl⟩
  | error error m =>
    rw [statementStep_of_error hclosing hend hrun] at h
    exact absurd hclean (errors_of_reported h)

variable {n : Nat} (hbody : StatementsBelow ⟨[], []⟩ n body body)
include hbody

/-- A run of statements that reports no error reads them in turn, and then the closing lexeme. -/
theorem readsInTurn_of_clean (hc : c.size ≤ n) {base statements : List Statement}
    (h : repeatFrom (statementStep body closing) base c = .ok statements d) (hclean : d.errors = []) :
    ∃ more m, statements = base ++ more ∧ ReadsInTurn body closing c more m ∧ m.kind = closing
      ∧ d = m.next := by
  refine repeatFrom_induction (motive := fun base c => c.size ≤ n → ∃ more m,
    statements = base ++ more ∧ ReadsInTurn body closing c more m ∧ m.kind = closing ∧ d = m.next)
    ?_ ?_ h hc
  · intro base c hlast _
    rcases statementStep_of_clean hlast hclean with ⟨hclosing, hresult, hd⟩ | ⟨-, -, _, -, hresult⟩
    · cases hresult
      exact ⟨[], c, (List.append_nil _).symm, .done c, hclosing, hd⟩
    · cases hresult
  · intro base c state e hstep hlt hrun ih hc
    obtain ⟨xs, htook⟩ := (statementSteps_takes hbody (by omega) closing state).ok statements d hrun
    rcases statementStep_of_clean hstep (htook.errors hclean) with
      ⟨-, hresult, -⟩ | ⟨hclosing, hend, statement, hstatement, hresult⟩
    · cases hresult
    · cases hresult
      obtain ⟨more, m, rfl, hreads, hkind, hd⟩ := ih (by omega)
      exact ⟨statement.toList ++ more, m, List.append_assoc _ _ _,
        .next hclosing hend hstatement hreads, hkind, hd⟩

end Steps

section Tilings

/-- Nodes are written one after the other, and every lexeme outside them is one that may stand alone. -/
inductive Tiles (alone : Lexeme → Prop) : List Outline → List Lexeme → Prop
  | nil : Tiles alone [] []
  | alone {lexeme : Lexeme} {outlines : List Outline} {lexemes : List Lexeme} :
      alone lexeme → Tiles alone outlines lexemes → Tiles alone outlines (lexeme :: lexemes)
  | node {outline : Outline} {outlines : List Outline} {lexemes lexemes' : List Lexeme} :
      Fills outline lexemes → Tiles alone outlines lexemes' →
        Tiles alone (outline :: outlines) (lexemes ++ lexemes')

variable {alone alone' : Lexeme → Prop} {nodes : List Outline} {xs : List Lexeme}

theorem Tiles.mono (h : Tiles alone nodes xs) (himp : ∀ lexeme, alone lexeme → alone' lexeme) :
    Tiles alone' nodes xs := by
  induction h with
  | nil => exact .nil
  | alone halone _ ih => exact .alone (himp _ halone) ih
  | node hfills _ ih => exact .node hfills ih

theorem Tiles.within (h : Tiles alone nodes xs) : Within nodes xs := by
  induction h with
  | nil => exact .nil
  | alone _ _ ih => exact .skip ih
  | node hfills _ ih => exact .cons hfills ih

variable {body : Parse (List Statement)} {closing : TokenKind} {c d : Cursor}

/-- A semicolon that is read in place of a statement, when those before it have been read. -/
def IsEmptyStatement (body : Parse (List Statement)) (closing : TokenKind) (c : Cursor)
    (lexeme : Lexeme) : Prop :=
  ∃ before m, ReadsInTurn body closing c before m ∧ m.peek? 0 = some lexeme
    ∧ lexeme.kind = .semicolon

/-- Of lexemes that are read in turn each is written for a statement or is an empty one. -/
theorem ReadsInTurn.tiles {n : Nat} (hbody : StatementsBelow ⟨[], []⟩ n body body) (hc : c.size ≤ n)
    {statements : List Statement} (h : ReadsInTurn body closing c statements d) :
    ∃ xs, c.Reads xs d ∧ Tiles (IsEmptyStatement body closing c) (outlines statements) xs := by
  induction h with
  | done c => exact ⟨[], .nil c, .nil⟩
  | next hclosing hend hstatement hreads ih =>
    rename_i c m d statement statements
    obtain ⟨xs, htook⟩ :=
      (statement_takes hbody (c := c.expect [closing]) hc).ok statement m hstatement
    have hread : c.Reads xs m := ⟨htook.reads.rest, htook.reads.lastEnd⟩
    obtain ⟨ys, hys, htiles⟩ := ih (Nat.le_trans hread.size_le hc)
    have hmore : Tiles (IsEmptyStatement body closing c) (outlines statements) ys := by
      refine htiles.mono fun lexeme ⟨before, e, hbefore, hempty⟩ => ?_
      exact ⟨statement.toList ++ before, e, .next hclosing hend hstatement hbefore, hempty⟩
    refine ⟨xs ++ ys, hread.append hys, ?_⟩
    cases statement with
    | none =>
      obtain ⟨lexeme, rfl, hkind⟩ := htook.related
      refine .alone ⟨[], c, .done c, ?_, hkind⟩ hmore
      rw [Cursor.peek?, hread.rest]
      rfl
    | some statement => exact .node (htook.related hend) hmore

end Tilings

end NodeFactory
