import Mathlib.Data.List.Induction
import NodeFactory.Proofs.UndoneBreaks

/-!
# Lines that are broken greedily

A piece goes where its line is, unless it would reach the wrap column there. What the writer keeps as the
length of the line is the number of characters behind the last line break of its text (`write_places`), so
where a line is broken can be read off its text: `IsGreedy` says of each piece of a line, by the text in front
of it alone, whether a break stands there. The lines that may be broken are written in this way
(`write_isGreedy`), and a line that has no pieces is written as it is.
-/

namespace NodeFactory

/-- The characters behind the last line break of a text. -/
def lastLineLength (text : String) : Nat :=
  (text.toList.reverse.takeWhile (· != '\n')).length

section Lengths

theorem lastLineLength_append {piece : String} (h : IsOneLine piece) (text : String) :
    lastLineLength (text ++ piece) = lastLineLength text + piece.length := by
  have hpiece : ∀ c ∈ piece.toList.reverse, (c != '\n') = true :=
    fun c hc => by simpa using (h c (List.mem_reverse.1 hc)).1
  unfold lastLineLength
  rw [String.toList_append, List.reverse_append, List.takeWhile_append_of_pos hpiece, List.length_append,
    List.length_reverse, String.length_toList, Nat.add_comm]

theorem lastLineLength_newLine (text : String) (newLine : NewLine) :
    lastLineLength (text ++ newLine.text) = 0 := by
  cases newLine <;> simp [lastLineLength, NewLine.text]

theorem indentation_isOneLine (config : Config) (level : Nat) : IsOneLine (indentation config level) := by
  intro c hc
  rw [indentation, String.toList_ofList] at hc
  rw [List.eq_of_mem_replicate hc]
  decide

theorem length_indentation (config : Config) (level : Nat) :
    (indentation config level).length = level * config.output.indentSize := by
  rw [indentation, String.length_ofList, List.length_replicate]

end Lengths

/-- A piece of a line after its separator, and whether a break stands in front of it. -/
structure PlacedPiece where
  separator : String
  piece : String
  isBroken : Bool

namespace PlacedPiece

def text (lineBreak : String) (placed : PlacedPiece) : String :=
  placed.separator ++ (if placed.isBroken then lineBreak else "") ++ placed.piece

/-- Pieces one after the other. -/
def texts (lineBreak : String) (placed : List PlacedPiece) : String :=
  String.join (placed.map (text lineBreak))

variable {lineBreak : String}

theorem texts_cons (first : PlacedPiece) (rest : List PlacedPiece) :
    texts lineBreak (first :: rest) = first.text lineBreak ++ texts lineBreak rest := by
  rw [texts, List.map_cons, String.join_cons, texts]

end PlacedPiece

/-- Behind a text, a break stands in front of a piece if and only if the piece would reach the wrap column
without one. -/
def AreGreedy (columnWrap : Nat) (lineBreak start : String) (placed : List PlacedPiece) : Prop :=
  ∀ before piece after, placed = before ++ piece :: after →
    (piece.isBroken = true ↔ columnWrap
      ≤ lastLineLength (start ++ PlacedPiece.texts lineBreak before ++ piece.separator)
        + piece.piece.length + 1)

section Pieces

variable {columnWrap : Nat} {lineBreak start : String}

theorem areGreedy_nil : AreGreedy columnWrap lineBreak start [] :=
  fun before _ _ h => absurd h (by cases before <;> simp)

theorem AreGreedy.cons {first : PlacedPiece} {rest : List PlacedPiece}
    (hfirst : first.isBroken = true
      ↔ columnWrap ≤ lastLineLength (start ++ first.separator) + first.piece.length + 1)
    (hrest : AreGreedy columnWrap lineBreak (start ++ first.text lineBreak) rest) :
    AreGreedy columnWrap lineBreak start (first :: rest) := by
  intro before piece after h
  cases before with
  | nil =>
    obtain ⟨rfl, -⟩ := List.cons.inj h
    simpa [PlacedPiece.texts, String.join] using hfirst
  | cons second before =>
    obtain ⟨rfl, hsplit⟩ := List.cons.inj h
    rw [PlacedPiece.texts_cons, ← String.append_assoc]
    exact hrest before piece after hsplit

end Pieces

section Lines

variable (config : Config) (base : Nat) (line : Line)

/-- What stands between a piece and the separator before it, where the line is broken. -/
def Line.lineBreak : String :=
  config.output.newLine.text ++ indentation config (base + line.level + 1)

/-- A line up to a piece. -/
def Line.upTo (before : List PlacedPiece) : String :=
  indentation config (base + line.level) ++ line.opening
    ++ PlacedPiece.texts (line.lineBreak config base) before

/-- A text is a line with a break in front of the pieces that would reach the wrap column, and no others. A
piece that does not begin its row ends two characters in front of the wrap column, so that only the separator
or the ending behind the last piece of such a row can reach it. -/
structure Line.IsPlaced (placed : List PlacedPiece) (text : String) : Prop where
  pieces : placed.map (fun piece => (piece.separator, piece.piece)) = line.pieces
  text_eq : text = line.upTo config base placed ++ line.ending ++ config.output.newLine.text
  breaks : ∀ before piece after, placed = before ++ piece :: after →
    (piece.isBroken = true ↔ config.output.columnWrap
      ≤ lastLineLength (line.upTo config base before ++ piece.separator) + piece.piece.length + 1)
  fits : ∀ before piece after, placed = before ++ piece :: after → piece.isBroken = false →
    lastLineLength (line.upTo config base (before ++ [piece])) + 2 ≤ config.output.columnWrap

/-- A text is a line that is broken greedily. -/
def Line.IsGreedy (text : String) : Prop :=
  ∃ placed, line.IsPlaced config base placed text

end Lines

section Writing

variable {config : Config} {base level : Nat} {line : Line} {list : Wrapping} {text piece : String}

theorem length_write {out : IndentedText} (h : out.isLineStart = false) (piece : String) :
    (out.write piece).lineLength = out.lineLength + piece.length := by
  unfold IndentedText.write
  split
  · simp_all
  · simp [IndentedText.startLine, h]

variable (config) in
/-- Inside a line, the length that is kept is that of the last line of the text. -/
structure Tracks (level : Nat) (list : Wrapping) : Prop extends InLine config level list where
  lineLength : list.out.lineLength = lastLineLength list.out.text

theorem write_tracks (h : Tracks config level list) (hpiece : IsOneLine piece) :
    Tracks config level { list with out := list.out.write piece } := by
  refine ⟨write_inLine h.toInLine piece, ?_⟩
  rw [length_write h.isLineStart, write_text _ h.isLineStart, lastLineLength_append hpiece, h.lineLength]

/-- What begins a line is indented. -/
theorem AtMargin.write_eq {out : IndentedText} (h : AtMargin config level out) (hne : piece ≠ "") :
    out.write piece = { out with
      text := out.text ++ indentation config level ++ piece
      lineLength := (indentation config level).length + piece.length
      isLineStart := false } := by
  simp [IndentedText.write, IndentedText.startLine, IndentedText.margin, indentation, hne,
    h.isLineStart, h.level, h.indentSize]

/-- A piece is written where the line is, unless it would reach the wrap column there. -/
theorem write_places (h : Tracks config level list) (hpiece : IsOneLine piece) (hne : piece ≠ "") :
    ∃ isBroken : Bool, (isBroken = true
        ↔ config.output.columnWrap ≤ lastLineLength list.out.text + piece.length + 1)
      ∧ Tracks config level (list.write config.output.columnWrap piece)
      ∧ (list.write config.output.columnWrap piece).out.text = list.out.text
        ++ (if isBroken then config.output.newLine.text ++ indentation config (level + 1) else "")
        ++ piece := by
  have hcolumn : list.out.column + piece.length = lastLineLength list.out.text + piece.length + 1 := by
    rw [IndentedText.column, h.isLineStart, ← h.lineLength]
    exact Nat.add_right_comm _ _ _
  unfold Wrapping.write
  rw [hcolumn]
  split
  case isFalse hfits =>
    refine ⟨false, by simpa using hfits, write_tracks h hpiece, ?_⟩
    simp [write_text _ h.isLineStart]
  case isTrue hreached =>
    refine ⟨true, by simpa using hreached, ?_⟩
    -- The first break indents, and every break leaves the writer one level further in.
    have hmargin : AtMargin config (level + 1)
        (if list.isBroken then list.out.endLine else list.out.endLine.indent) := by
      have hlevel := h.level
      cases hbroken : list.isBroken <;> simp only [hbroken] at hlevel <;>
        constructor <;> simp [IndentedText.endLine, IndentedText.indent, h.isLineStart, h.newLine,
          h.indentSize, hlevel]
    have htext : (if list.isBroken then list.out.endLine else list.out.endLine.indent).text
        = list.out.text ++ config.output.newLine.text := by
      cases list.isBroken <;>
        simp [IndentedText.endLine, IndentedText.indent, h.isLineStart, h.newLine]
    have hlength : lastLineLength (list.out.text ++ config.output.newLine.text
        ++ indentation config (level + 1) ++ piece)
        = (indentation config (level + 1)).length + piece.length := by
      rw [lastLineLength_append hpiece, lastLineLength_append (indentation_isOneLine config _),
        lastLineLength_newLine, Nat.zero_add]
    dsimp only
    rw [hmargin.write_eq hne, htext]
    refine ⟨⟨⟨hmargin.newLine, hmargin.indentSize, hmargin.level, rfl⟩, hlength.symm⟩, ?_⟩
    simp only [if_true, String.append_assoc]

/-- Pieces are placed one after the other. -/
theorem writeAll_places : ∀ (pieces : List (String × String)) {list : Wrapping},
    Tracks config level list → (∀ piece ∈ pieces, piece.2 ≠ "") →
      (∀ piece ∈ pieces, IsOneLine piece.1 ∧ IsOneLine piece.2) →
      let lineBreak := config.output.newLine.text ++ indentation config (level + 1)
      Tracks config level (list.writeAll config.output.columnWrap pieces)
      ∧ ∃ placed : List PlacedPiece, placed.map (fun piece => (piece.separator, piece.piece)) = pieces
        ∧ AreGreedy config.output.columnWrap lineBreak list.out.text placed
        ∧ (list.writeAll config.output.columnWrap pieces).out.text
          = list.out.text ++ PlacedPiece.texts lineBreak placed
  | [], list, h, _, _ => ⟨h, [], rfl, areGreedy_nil, by simp [Wrapping.writeAll, PlacedPiece.texts, String.join]⟩
  | (separator, piece) :: pieces, list, h, hne, honeLine => by
    rw [List.forall_mem_cons] at hne honeLine
    have hseparator := write_text _ h.isLineStart separator
    obtain ⟨isBroken, hgreedy, htracks, htext⟩ :=
      write_places (write_tracks h honeLine.1.1) honeLine.1.2 hne.1
    obtain ⟨hend, placed, hpieces, hrest, hall⟩ := writeAll_places pieces htracks hne.2 honeLine.2
    dsimp only at hgreedy htext
    rw [hseparator] at hgreedy htext
    rw [htext] at hrest hall
    refine ⟨hend, ⟨separator, piece, isBroken⟩ :: placed, by rw [List.map_cons, hpieces], .cons hgreedy ?_, ?_⟩
    · simpa only [PlacedPiece.text, String.append_assoc] using hrest
    · refine hall.trans ?_
      simp only [PlacedPiece.texts_cons, PlacedPiece.text, String.append_assoc]

/-- A line is written with a break in front of the pieces that would reach the wrap column. -/
theorem Line.write_isGreedy {line : Line} {start : IndentedText} (hfree : line.IsBreakFree)
    (hopening : line.opening ≠ "") (hpieces : ∀ piece ∈ line.pieces, piece.2 ≠ "")
    (hstart : AtMargin config (base + line.level) start) (htext : start.text = "") :
    line.IsGreedy config base (line.write config start).text := by
  have hwritten : (start.write line.opening).text
      = indentation config (base + line.level) ++ line.opening := by
    rw [hstart.write_eq hopening, htext, String.empty_append]
  have hopened : Tracks config (base + line.level) ⟨start.write line.opening, false⟩ := by
    rw [hstart.write_eq hopening, htext]
    refine ⟨⟨hstart.newLine, hstart.indentSize, hstart.level, rfl⟩, ?_⟩
    dsimp only
    rw [lastLineLength_append hfree.opening, lastLineLength_append (indentation_isOneLine config _)]
    exact congrArg (· + line.opening.length) (Nat.zero_add _).symm
  obtain ⟨hend, placed, hplaced, hgreedy, hall⟩ := writeAll_places line.pieces hopened hpieces hfree.pieces
  have hending := write_inLine hend.toInLine line.ending
  have hbreaks : ∀ before piece after, placed = before ++ piece :: after →
      (piece.isBroken = true ↔ config.output.columnWrap
        ≤ lastLineLength (line.upTo config base before ++ piece.separator) + piece.piece.length + 1) := by
    dsimp only at hgreedy
    rwa [hwritten] at hgreedy
  refine ⟨placed, hplaced, ?_, hbreaks, fun before piece after h hfits => ?_⟩
  · unfold Line.write
    dsimp only at hall ⊢
    rw [finish_text _ hending.isLineStart, hending.newLine, write_text _ hend.isLineStart, hall, hwritten]
    rfl
  · have honeLine : IsOneLine piece.piece := by
      refine (hfree.pieces (piece.separator, piece.piece) ?_).2
      rw [← hplaced, h]
      exact List.mem_map_of_mem (List.mem_append_right _ (List.mem_cons_self ..))
    have hlength := mt (hbreaks before piece after h).2 (by rw [hfits]; exact Bool.false_ne_true)
    have hupTo : line.upTo config base (before ++ [piece])
        = line.upTo config base before ++ piece.separator ++ piece.piece := by
      simp [Line.upTo, PlacedPiece.texts, PlacedPiece.text, hfits, String.join,
        String.append_assoc]
    rw [hupTo, lastLineLength_append honeLine]
    omega

/-- A line without pieces is written as it is. -/
theorem Line.IsWritten.isGreedy (hline : line.pieces = []) (h : line.IsWritten config base text) :
    line.IsGreedy config base text := by
  obtain ⟨broken, hbreaks, rfl⟩ := h
  rw [hline] at hbreaks
  cases hbreaks
  refine ⟨[], hline.symm, rfl, fun before _ _ h => ?_, fun before _ _ h => ?_⟩
  all_goals exact absurd h (by cases before <;> simp)

end Writing

section Unbroken

/-- What stands on a line between its indentation and its line break, where it is not broken. -/
def Line.content (line : Line) : String :=
  line.opening ++ joinPieces line.pieces ++ line.ending

variable {config : Config} {base : Nat} {line : Line} {text : String}

theorem lastLineLength_of_isOneLine (h : IsOneLine text) : lastLineLength text = text.length := by
  have hlength := lastLineLength_append h ""
  rwa [String.empty_append, show lastLineLength "" = 0 from rfl, Nat.zero_add] at hlength

theorem joinPieces_append (pieces pieces' : List (String × String)) :
    joinPieces (pieces ++ pieces') = joinPieces pieces ++ joinPieces pieces' := by
  rw [joinPieces, List.map_append, String.join_append, joinPieces, joinPieces]

/-- A line that keeps two characters away from the wrap column is not broken. -/
theorem Line.IsGreedy.eq_joined (h : line.IsGreedy config base text) (hline : IsOneLine line.content)
    (hwidth : (indentation config (base + line.level) ++ line.content).length + 2
      ≤ config.output.columnWrap) : text = line.joined config base := by
  obtain ⟨placed, hpieces, rfl, hbreaks, -⟩ := h
  let unbroken (before : List PlacedPiece) : String := indentation config (base + line.level) ++ line.opening
    ++ joinPieces (before.map fun piece => (piece.separator, piece.piece))
  have hwhole : ∀ before after, placed = before ++ after →
      indentation config (base + line.level) ++ line.content = unbroken before
        ++ (joinPieces (after.map fun piece => (piece.separator, piece.piece)) ++ line.ending) := by
    intro before after hsplit
    rw [Line.content, ← hpieces, hsplit, List.map_append, joinPieces_append]
    simp only [unbroken, String.append_assoc]
  -- No piece before the last is broken, so up to a piece the line stands on one row.
  have hupTo : ∀ before after, placed = before ++ after → line.upTo config base before = unbroken before := by
    intro before
    induction before using List.reverseRecOn with
    | nil =>
      intro _ _
      rfl
    | append_singleton before piece ih =>
      intro after hsplit
      rw [List.append_assoc] at hsplit
      have hbefore := ih ([piece] ++ after) hsplit
      have hnext : unbroken (before ++ [piece]) = unbroken before ++ piece.separator ++ piece.piece := by
        simp [unbroken, joinPieces, String.join, String.append_assoc]
      have hrow := hwhole (before ++ [piece]) after (by rw [List.append_assoc, hsplit])
      have honeLine : IsOneLine (unbroken before ++ piece.separator) := by
        intro c hc
        refine (indentation_isOneLine config (base + line.level)).append hline c ?_
        rw [hrow, hnext]
        simp only [String.toList_append, List.mem_append] at hc ⊢
        tauto
      have hfits : piece.isBroken = false := by
        have hreached := (hbreaks before piece after hsplit).not
        rw [hbefore, lastLineLength_of_isOneLine honeLine, Bool.not_eq_true] at hreached
        refine hreached.2 ?_
        rw [hrow, hnext, String.length_append, String.length_append] at hwidth
        omega
      rw [hnext, ← hbefore]
      simp [Line.upTo, PlacedPiece.texts, PlacedPiece.text, hfits, String.join, String.append_assoc]
  have hend := hwhole placed [] (List.append_nil placed).symm
  rw [hupTo placed [] (List.append_nil placed).symm, Line.joined]
  simp only [unbroken, hpieces]

end Unbroken

end NodeFactory
