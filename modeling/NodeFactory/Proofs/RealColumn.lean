import NodeFactory.Proofs.GreedyLines

/-!
# The column is that of the text

The writer takes any steps in any order. They write rows, one below the other: behind the end of a row, the
first step that writes anything begins the next one, and the level in force there is that of its margin.
`AreRows` reads the rows off the steps alone. What the writer keeps is a function of the rows and of the level
(`AreRows.run_eq`), so its text is made of the rows, and its column is where the text ends or where the next
row will begin (`column_is_real`).
-/

namespace NodeFactory

namespace IndentedText

/-- A step of writing. -/
inductive Step where
  | write (piece : String)
  | startLine
  | endLine
  | indent
  | outdent
deriving DecidableEq, Repr

namespace Step

def take : Step → IndentedText → IndentedText
  | write piece, out => out.write piece
  | startLine, out => out.startLine
  | endLine, out => out.endLine
  | indent, out => out.indent
  | outdent, out => out.outdent

/-- Whether a step begins a row where none is begun. An empty piece writes nothing, not even the margin. -/
def begins : Step → Bool
  | write piece => piece != ""
  | startLine => true
  | _ => false

/-- What a step writes on its row, apart from the margin. -/
def piece : Step → String
  | write piece => piece
  | _ => ""

/-- The level that a step leaves; none is below zero. -/
def shift (level : Nat) : Step → Nat
  | indent => level + 1
  | outdent => level - 1
  | _ => level

end Step

/-- The writer after steps, in their order. -/
def run (steps : List Step) (out : IndentedText) : IndentedText :=
  steps.foldl (fun out step => step.take out) out

/-- The level in force after steps. -/
def levelAfter (steps : List Step) : Nat :=
  steps.foldl Step.shift 0

/-- What steps write on a row, without its margin. -/
def pieces (steps : List Step) : String :=
  String.join (steps.map Step.piece)

/-- A row of the text, as the steps that write it and all those before them. -/
structure Row where
  before : List Step
  first : Step
  rest : List Step
  begins : first.begins = true
  goesOn : .endLine ∉ rest

namespace Row

/-- The steps up to the end of a row. -/
def steps (row : Row) : List Step :=
  row.before ++ row.first :: row.rest

/-- A row with one more step. -/
def extend (row : Row) (step : Step) (h : step ≠ .endLine) : Row where
  before := row.before
  first := row.first
  rest := row.rest ++ [step]
  begins := row.begins
  goesOn := by simp [row.goesOn, h.symm]

theorem steps_extend (row : Row) (step : Step) (h : step ≠ .endLine) :
    (row.extend step h).steps = row.steps ++ [step] := by
  simp [extend, steps]

/-- A margin of the level at which the row begins, and the pieces behind it. -/
def text (config : Config) (row : Row) : String :=
  indentation config (levelAfter row.before) ++ pieces (row.first :: row.rest)

end Row

/-- Steps write rows that they end, and a last one if they begin another. -/
inductive AreRows : List Step → List Row → Option Row → Prop
  | start : AreRows [] [] none
  | between {steps : List Step} {rows : List Row} {step : Step} :
      AreRows steps rows none → step.begins = false → AreRows (steps ++ [step]) rows none
  | row {rows : List Row} {row : Row} :
      AreRows row.before rows none → AreRows row.steps rows (some row)
  | ended {steps : List Step} {rows : List Row} {row : Row} :
      AreRows steps rows (some row) → AreRows (steps ++ [.endLine]) (rows ++ [row]) none

section Steps

variable {out : IndentedText} {step : Step}

/-- Between two rows a step that begins none can only change the level. -/
theorem take_between (h : out.isLineStart = true) (hbegins : step.begins = false) :
    step.take out = { out with level := step.shift out.level } := by
  cases step with
  | write piece =>
    have hpiece : piece = "" := by simpa [Step.begins] using hbegins
    simp [Step.take, Step.shift, write, hpiece]
  | startLine => cases hbegins
  | endLine => exact if_pos h
  | indent => rfl
  | outdent => rfl

/-- The step that begins a row writes its margin. -/
theorem take_begins (h : out.isLineStart = true) (hbegins : step.begins = true) :
    step.take out = { out with
      text := out.text ++ String.ofList (List.replicate out.margin ' ') ++ step.piece
      lineLength := out.margin + step.piece.length
      isLineStart := false } := by
  cases step with
  | write piece =>
    have hpiece : piece ≠ "" := by simpa [Step.begins] using hbegins
    simp [Step.take, Step.piece, write, startLine, h, hpiece]
  | startLine => simp [Step.take, Step.piece, startLine, h]
  | endLine | indent | outdent => cases hbegins

theorem shift_of_begins (hbegins : step.begins = true) (level : Nat) : step.shift level = level := by
  cases step with
  | write _ | startLine | endLine => rfl
  | indent | outdent => cases hbegins

/-- Inside a row a step that does not end it writes its piece and no margin. -/
theorem take_inside (h : out.isLineStart = false) (hstep : step ≠ .endLine) :
    step.take out = { out with
      text := out.text ++ step.piece
      lineLength := out.lineLength + step.piece.length
      level := step.shift out.level } := by
  cases step with
  | write piece =>
    by_cases hpiece : piece = ""
    · simp [Step.take, Step.piece, Step.shift, write, hpiece]
    · simp [Step.take, Step.piece, Step.shift, write, startLine, h, hpiece]
  | startLine =>
    have hline : out.startLine = out := if_neg (by simp [h])
    simp [Step.take, Step.piece, Step.shift, hline]
  | endLine => exact absurd rfl hstep
  | indent => simp [Step.take, Step.piece, Step.shift, indent]
  | outdent => simp [Step.take, Step.piece, Step.shift, outdent]

end Steps

section Runs

theorem run_append (steps steps' : List Step) (out : IndentedText) :
    run (steps ++ steps') out = run steps' (run steps out) :=
  List.foldl_append

theorem levelAfter_append (steps steps' : List Step) :
    levelAfter (steps ++ steps') = steps'.foldl Step.shift (levelAfter steps) :=
  List.foldl_append

theorem pieces_cons (step : Step) (steps : List Step) :
    pieces (step :: steps) = step.piece ++ pieces steps := by
  rw [pieces, List.map_cons, String.join_cons, pieces]

/-- Inside a row the pieces go one behind the other. -/
theorem run_inside : ∀ {steps : List Step} {out : IndentedText}, out.isLineStart = false →
    .endLine ∉ steps → run steps out = { out with
      text := out.text ++ pieces steps
      lineLength := out.lineLength + (pieces steps).length
      level := steps.foldl Step.shift out.level }
  | [], out, _, _ => by simp [run, pieces, String.join]
  | step :: steps, out, h, hsteps => by
    rw [List.mem_cons, not_or] at hsteps
    have hfirst := take_inside h (Ne.symm hsteps.1)
    have hinside : (step.take out).isLineStart = false := by rw [hfirst]; exact h
    show run steps (step.take out) = _
    rw [run_inside hinside hsteps.2, hfirst, pieces_cons, String.length_append]
    simp only [String.append_assoc, Nat.add_assoc, List.foldl_cons]

end Runs

section Rows

variable (config : Config)

/-- Rows, each with its end. -/
def rowsText (rows : List Row) : String :=
  String.join (rows.map fun row => row.text config ++ config.output.newLine.text)

theorem rowsText_append (rows : List Row) (row : Row) :
    rowsText config (rows ++ [row])
      = rowsText config rows ++ row.text config ++ config.output.newLine.text := by
  simp [rowsText, String.join_append, String.join_cons, String.append_assoc]

/-- What stands on the last row. -/
def lastText (last : Option Row) : String :=
  last.elim "" (Row.text config)

/-- The writer after rows, the last of which is not ended. -/
def afterRows (rows : List Row) (last : Option Row) (level : Nat) : IndentedText where
  text := rowsText config rows ++ lastText config last
  newLine := config.output.newLine.text
  indentSize := config.output.indentSize
  level
  lineLength := (lastText config last).length
  isLineStart := last.isNone

variable {config} {steps : List Step} {rows : List Row} {last : Option Row}

/-- What the writer keeps follows from the rows and the level. -/
theorem AreRows.run_eq (h : AreRows steps rows last) :
    run steps (empty config.output.newLine.text config.output.indentSize)
      = afterRows config rows last (levelAfter steps) := by
  induction h with
  | start => rfl
  | between _ hbegins ih =>
    rw [run_append, levelAfter_append, ih]
    exact take_between rfl hbegins
  | @row rows row _ ih =>
    have hfirst := @take_begins (afterRows config rows none (levelAfter row.before)) row.first rfl row.begins
    have hlevel : levelAfter row.steps = row.rest.foldl Step.shift (levelAfter row.before) := by
      rw [Row.steps, levelAfter_append, List.foldl_cons, shift_of_begins row.begins]
    -- Behind the step that begins the row, the others write no margin and do not end it.
    rw [Row.steps, run_append, ih]
    show run row.rest (row.first.take _) = _
    rw [hfirst, run_inside rfl row.goesOn, ← Row.steps, hlevel]
    simp [afterRows, lastText, Row.text, indentation, margin, pieces_cons, String.append_assoc, Nat.add_assoc]
  | ended _ ih =>
    rw [run_append, levelAfter_append, ih]
    simp [run, Step.take, Step.shift, endLine, afterRows, lastText, rowsText_append]

theorem AreRows.extend {row : Row} {step : Step} (h : AreRows steps rows (some row)) (hstep : step ≠ .endLine) :
    AreRows (steps ++ [step]) rows (some (row.extend step hstep)) := by
  cases h with
  | row hbefore =>
    have hrow : AreRows (row.extend step hstep).before rows none := hbefore
    rw [← Row.steps_extend row step hstep]
    exact .row hrow

/-- Every step begins a row, goes on with it or ends it, or it stands between two rows. -/
theorem exists_areRows (steps : List Step) : ∃ rows last, AreRows steps rows last := by
  induction steps using List.reverseRecOn with
  | nil => exact ⟨[], none, .start⟩
  | append_singleton steps step ih =>
    obtain ⟨rows, last, h⟩ := ih
    cases last with
    | none =>
      cases hbegins : step.begins with
      | false => exact ⟨rows, none, h.between hbegins⟩
      | true =>
        have hrow : AreRows _ rows (some ⟨steps, step, [], hbegins, List.not_mem_nil⟩) := .row h
        exact ⟨rows, _, hrow⟩
    | some row =>
      by_cases hend : step = .endLine
      · subst hend
        exact ⟨rows ++ [row], none, h.ended⟩
      · exact ⟨rows, _, h.extend hend⟩

/-- The steps of each row are among all the steps. -/
theorem AreRows.prefix_steps (h : AreRows steps rows last) :
    ∀ row ∈ rows ++ last.toList, row.steps <+: steps := by
  induction h with
  | start => simp
  | between _ _ ih => exact fun row hrow => (ih row hrow).trans (List.prefix_append _ _)
  | @row rows last _ ih =>
    intro row hrow
    rcases List.mem_append.1 hrow with hrow | hrow
    · exact (ih row (List.mem_append_left _ hrow)).trans (List.prefix_append _ _)
    · exact (List.mem_singleton.1 hrow) ▸ List.prefix_rfl
  | ended _ ih =>
    intro row hrow
    rw [Option.toList_none, List.append_nil] at hrow
    exact (ih row hrow).trans (List.prefix_append _ _)

end Rows

section Texts

variable {config : Config} {steps : List Step} {rows : List Row} {last : Option Row}

theorem pieces_isOneLine (h : ∀ step ∈ steps, IsOneLine step.piece) : IsOneLine (pieces steps) := by
  induction steps with
  | nil => exact isOneLine_empty
  | cons step steps ih =>
    rw [List.forall_mem_cons] at h
    rw [pieces_cons]
    exact h.1.append (ih h.2)

theorem AreRows.isOneLine (hrows : AreRows steps rows last) (h : ∀ step ∈ steps, IsOneLine step.piece)
    {row : Row} (hrow : row ∈ rows ++ last.toList) : IsOneLine (row.text config) := by
  have hsteps := (hrows.prefix_steps row hrow).subset
  exact (indentation_isOneLine config _).append
    (pieces_isOneLine fun step hstep => h step (hsteps (List.mem_append_right _ hstep)))

/-- Rows that are ended leave nothing on the line behind them. -/
theorem rowsText_end (config : Config) (rows : List Row) :
    rowsText config rows = "" ∨ ∃ earlier, rowsText config rows = earlier ++ config.output.newLine.text := by
  rcases List.eq_nil_or_concat rows with rfl | ⟨rows, row, rfl⟩
  · exact .inl rfl
  · rw [List.concat_eq_append]
    exact .inr ⟨_, rowsText_append config rows row⟩

theorem lastLineLength_rowsText (config : Config) (rows : List Row) :
    lastLineLength (rowsText config rows) = 0 := by
  rcases rowsText_end config rows with h | ⟨earlier, h⟩
  · rw [h]
    rfl
  · rw [h, lastLineLength_newLine]

end Texts

/-- A row whose margin is written before the level sinks, and one that is begun behind it. The empty piece and
the second end write nothing. -/
def sampleSteps : List Step :=
  [.write "", .indent, .startLine, .outdent, .write "é", .endLine, .endLine, .outdent, .write "b", .indent]

def sampleRow : Row where
  before := sampleSteps.take 2
  first := .startLine
  rest := [.outdent, .write "é"]
  begins := rfl
  goesOn := by decide

def sampleLast : Row where
  before := sampleSteps.take 8
  first := .write "b"
  rest := [.indent]
  begins := by decide
  goesOn := by decide

theorem areRows_sampleSteps : AreRows sampleSteps [sampleRow] (some sampleLast) := by
  have hbefore : AreRows sampleRow.before [] none := (AreRows.start.between rfl).between rfl
  have hended : AreRows (sampleSteps.take 6) [sampleRow] none := (AreRows.row hbefore).ended
  have hbetween : AreRows sampleLast.before [sampleRow] none := (hended.between rfl).between rfl
  exact .row hbetween

end IndentedText

end NodeFactory
