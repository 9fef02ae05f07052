import Mathlib.Data.List.Forall2
import NodeFactory.Factory.File

/-!
# Lines of the factory file

A line is made of pieces, and may be broken in front of some of them. `IsWritten` relates a line to
the texts that it becomes when it is broken somewhere or nowhere, so that it says what a text is
after its breaks are undone. Each way of writing a line writes such a text, and leaves the writer at
the beginning of the next line, at the level at which it was (`line_writes`, `broken_writes`).
-/

namespace NodeFactory

/-- A line as it is before it is broken. -/
structure Line where
  /-- The level above that of the lines around the function. -/
  level : Nat
  opening : String
  /-- The pieces in front of which the line may be broken, each after its separator. -/
  pieces : List (String × String)
  ending : String

namespace Line

/-- A line that is never broken. -/
def whole (level : Nat) (text : String) : Line := ⟨level, text, [], ""⟩

/-- Writes a line, broken where its pieces would reach the wrap column. -/
def write (config : Config) (line : Line) (out : IndentedText) : IndentedText :=
  let list := Wrapping.writeAll config.output.columnWrap ⟨out.write line.opening, false⟩ line.pieces
  Wrapping.finish { list with out := list.out.write line.ending }

end Line

/-- Pieces after their separators, with a line break in front of some of the pieces. -/
inductive Breaks (lineBreak : String) : List (String × String) → String → Prop
  | nil : Breaks lineBreak [] ""
  | join {separator piece : String} {pieces : List (String × String)} {text : String} :
      Breaks lineBreak pieces text →
        Breaks lineBreak ((separator, piece) :: pieces) (separator ++ piece ++ text)
  | break {separator piece : String} {pieces : List (String × String)} {text : String} :
      Breaks lineBreak pieces text →
        Breaks lineBreak ((separator, piece) :: pieces) (separator ++ lineBreak ++ piece ++ text)

section Written

variable (config : Config) (base : Nat)

/-- The spaces in front of a line. -/
def indentation (level : Nat) : String :=
  String.ofList (List.replicate (level * config.output.indentSize) ' ')

/-- A text is a line, after its breaks are undone. Continued lines are indented one level more. -/
def Line.IsWritten (line : Line) (text : String) : Prop :=
  ∃ broken, Breaks (config.output.newLine.text ++ indentation config (base + line.level + 1))
      line.pieces broken
    ∧ text = indentation config (base + line.level) ++ line.opening ++ broken ++ line.ending
      ++ config.output.newLine.text

/-- A text is a list of lines, after the breaks of each are undone. -/
def AreWritten (lines : List Line) (text : String) : Prop :=
  ∃ texts, List.Forall₂ (Line.IsWritten config base) lines texts ∧ text = String.join texts

variable {config base}

theorem areWritten_nil : AreWritten config base [] "" :=
  ⟨[], .nil, rfl⟩

theorem AreWritten.append {lines lines' : List Line} {text text' : String}
    (h : AreWritten config base lines text) (h' : AreWritten config base lines' text') :
    AreWritten config base (lines ++ lines') (text ++ text') := by
  obtain ⟨texts, hlines, rfl⟩ := h
  obtain ⟨texts', hlines', rfl⟩ := h'
  exact ⟨texts ++ texts', List.rel_append hlines hlines', String.join_append.symm⟩

theorem Line.IsWritten.areWritten {line : Line} {text : String}
    (h : line.IsWritten config base text) : AreWritten config base [line] text :=
  ⟨[text], .cons h .nil, by simp [String.join]⟩

theorem AreWritten.ne_empty {line : Line} {lines : List Line} {text : String}
    (h : AreWritten config base (line :: lines) text) : text ≠ "" := by
  obtain ⟨texts, hlines, rfl⟩ := h
  cases hlines with
  | cons hline _ =>
    obtain ⟨broken, -, rfl⟩ := hline
    cases hnewLine : config.output.newLine <;> simp [NewLine.text, String.join_cons]

end Written

section Writing

variable (config : Config)

/-- The writer is at the beginning of a line, at a level. -/
structure AtMargin (level : Nat) (out : IndentedText) : Prop where
  newLine : out.newLine = config.output.newLine.text
  indentSize : out.indentSize = config.output.indentSize
  level : out.level = level
  isLineStart : out.isLineStart = true

/-- The writer is inside a line, which is continued one level further once it is broken. -/
structure InLine (level : Nat) (list : Wrapping) : Prop where
  newLine : list.out.newLine = config.output.newLine.text
  indentSize : list.out.indentSize = config.output.indentSize
  level : list.out.level = if list.isBroken then level + 1 else level
  isLineStart : list.out.isLineStart = false

/-- From the beginning of a line, a step writes some lines and no more. -/
def Writes (base level : Nat) (lines : List Line) (step : IndentedText → IndentedText) : Prop :=
  ∀ out, AtMargin config (base + level) out →
    AtMargin config (base + level) (step out)
      ∧ ∃ text, AreWritten config base lines text ∧ (step out).text = out.text ++ text

variable {config}

section Pieces

variable {level : Nat} {list : Wrapping} {separator piece : String}

theorem write_text (out : IndentedText) (h : out.isLineStart = false) (piece : String) :
    (out.write piece).text = out.text ++ piece := by
  unfold IndentedText.write
  split
  · simp_all
  · simp [IndentedText.startLine, h]

theorem finish_text (list : Wrapping) (h : list.out.isLineStart = false) :
    list.finish.text = list.out.text ++ list.out.newLine := by
  unfold Wrapping.finish
  split <;> simp [IndentedText.endLine, IndentedText.outdent, h]

theorem write_inLine (h : InLine config level list) (piece : String) :
    InLine config level { list with out := list.out.write piece } := by
  obtain ⟨hnewLine, hindentSize, hlevel, hstart⟩ := h
  unfold IndentedText.write
  split
  · exact ⟨hnewLine, hindentSize, hlevel, hstart⟩
  · constructor <;> simp [IndentedText.startLine, hnewLine, hindentSize, hlevel, hstart]

/-- A piece is written where the line is, or on a new line that is indented one level more. -/
theorem write_breaks (columnWrap : Nat) (h : InLine config level list) (hpiece : piece ≠ "") :
    InLine config level (list.write columnWrap piece)
      ∧ ((list.write columnWrap piece).out.text = list.out.text ++ piece
        ∨ (list.write columnWrap piece).out.text = list.out.text
          ++ (config.output.newLine.text ++ indentation config (level + 1)) ++ piece) := by
  have hin := write_inLine h piece
  obtain ⟨hnewLine, hindentSize, hlevel, hstart⟩ := h
  unfold Wrapping.write
  split
  · refine ⟨?_, .inr ?_⟩
    · cases hbroken : list.isBroken <;>
        constructor <;> simp [IndentedText.write, IndentedText.startLine, IndentedText.endLine,
          IndentedText.indent, hpiece, hnewLine, hindentSize, hlevel, hstart, hbroken]
    · cases hbroken : list.isBroken <;>
        simp [IndentedText.write, IndentedText.startLine, IndentedText.endLine,
          IndentedText.indent, IndentedText.margin, indentation, hpiece, hnewLine, hindentSize,
          hlevel, hstart, hbroken, String.append_assoc]
  · exact ⟨hin, .inl (write_text _ hstart _)⟩

/-- Pieces are written with line breaks in front of some of them. -/
theorem writeAll_breaks (columnWrap : Nat) : ∀ (pieces : List (String × String)) {list : Wrapping},
    InLine config level list → (∀ piece ∈ pieces, piece.2 ≠ "") →
      InLine config level (list.writeAll columnWrap pieces)
        ∧ ∃ text, Breaks (config.output.newLine.text ++ indentation config (level + 1)) pieces text
          ∧ (list.writeAll columnWrap pieces).out.text = list.out.text ++ text
  | [], list, h, _ => ⟨h, "", .nil, by simp [Wrapping.writeAll]⟩
  | (separator, piece) :: pieces, list, h, hpieces => by
    rw [List.forall_mem_cons] at hpieces
    obtain ⟨hin, htext⟩ := write_breaks columnWrap (write_inLine h separator) hpieces.1
    obtain ⟨hend, rest, hbreaks, hrest⟩ := writeAll_breaks columnWrap pieces hin hpieces.2
    rw [show list.writeAll columnWrap ((separator, piece) :: pieces)
      = (Wrapping.write columnWrap { list with out := list.out.write separator } piece).writeAll
        columnWrap pieces from rfl]
    refine ⟨hend, ?_⟩
    rw [hrest]
    rcases htext with htext | htext
    · refine ⟨_, .join hbreaks, ?_⟩
      rw [htext]
      simp only [write_text _ h.isLineStart, String.append_assoc]
    · refine ⟨_, .break hbreaks, ?_⟩
      rw [htext]
      simp only [write_text _ h.isLineStart, String.append_assoc]

end Pieces

section Lines

variable {base level : Nat} {lines lines' : List Line} {step step' : IndentedText → IndentedText}

theorem Writes.nil : Writes config base level [] id :=
  fun _ h => ⟨h, "", areWritten_nil, by simp⟩

theorem Writes.comp (h : Writes config base level lines step)
    (h' : Writes config base level lines' step') :
    Writes config base level (lines ++ lines') (fun out => step' (step out)) := by
  intro out hout
  obtain ⟨hmargin, text, hlines, htext⟩ := h out hout
  obtain ⟨hmargin', text', hlines', htext'⟩ := h' _ hmargin
  exact ⟨hmargin', _, hlines.append hlines', by rw [htext', htext, String.append_assoc]⟩

/-- What is written one level further in is written there in between. -/
theorem Writes.indented (h : Writes config base (level + 1) lines step) :
    Writes config base level lines (fun out => (step out.indent).outdent) := by
  intro out hout
  have hin : AtMargin config (base + (level + 1)) out.indent :=
    ⟨hout.newLine, hout.indentSize, by rw [IndentedText.indent, hout.level]; rfl,
      hout.isLineStart⟩
  obtain ⟨hmargin, text, hlines, htext⟩ := h _ hin
  refine ⟨⟨hmargin.newLine, hmargin.indentSize, ?_, hmargin.isLineStart⟩, text, hlines, htext⟩
  show (step out.indent).level - 1 = base + level
  have hlevel := hmargin.level
  omega

theorem Writes.foldl {ι : Type} {write : IndentedText → ι → IndentedText} {lineOf : ι → Line}
    (h : ∀ i, Writes config base level [lineOf i] fun out => write out i) :
    ∀ is : List ι, Writes config base level (is.map lineOf) fun out => is.foldl write out
  | [] => .nil
  | i :: is => (h i).comp (Writes.foldl h is)

/-- A line that fits is written as it is. -/
theorem line_writes {text : String} (htext : text ≠ "") :
    Writes config base level [.whole level text] fun out => out.line text := by
  rintro out ⟨hnewLine, hindentSize, hlevel, hstart⟩
  refine ⟨?_, _, Line.IsWritten.areWritten ⟨"", .nil, rfl⟩, ?_⟩
  · constructor <;> simp [IndentedText.line, IndentedText.write, IndentedText.startLine,
      IndentedText.endLine, htext, hnewLine, hindentSize, hlevel, hstart]
  · simp [IndentedText.line, IndentedText.write, IndentedText.startLine, IndentedText.endLine,
      IndentedText.margin, indentation, Line.whole, htext, hnewLine, hindentSize, hlevel, hstart,
      String.append_assoc]

/-- A line that is broken where its pieces would reach the wrap column. -/
theorem broken_writes (columnWrap : Nat) {opening : String} (ending : String) (hopening : opening ≠ "")
    {pieces : List (String × String)} (hpieces : ∀ piece ∈ pieces, piece.2 ≠ "") :
    Writes config base level [⟨level, opening, pieces, ending⟩] fun out =>
      let list := Wrapping.writeAll columnWrap ⟨out.write opening, false⟩ pieces
      Wrapping.finish { list with out := list.out.write ending } := by
  rintro out ⟨hnewLine, hindentSize, hlevel, hstart⟩
  have hin : InLine config (base + level) ⟨out.write opening, false⟩ := by
    constructor <;>
      simp [IndentedText.write, IndentedText.startLine, hopening, hnewLine, hindentSize, hlevel,
        hstart]
  have htext : (out.write opening).text = out.text ++ indentation config (base + level) ++ opening := by
    simp [IndentedText.write, IndentedText.startLine, IndentedText.margin, indentation, hopening,
      hindentSize, hlevel, hstart]
  obtain ⟨hend, broken, hbreaks, hbroken⟩ := writeAll_breaks columnWrap pieces hin hpieces
  have hending := write_text _ hend.isLineStart ending
  obtain ⟨hnewLine, hindentSize, hlevel, hstart⟩ := write_inLine hend ending
  dsimp only at hnewLine hindentSize hlevel hstart ⊢
  refine ⟨?_, _, Line.IsWritten.areWritten ⟨broken, hbreaks, rfl⟩, ?_⟩
  · unfold Wrapping.finish
    split
    · rename_i h
      rw [if_pos h] at hlevel
      constructor <;> simp [IndentedText.endLine, IndentedText.outdent, hnewLine, hindentSize,
        hlevel, hstart]
    · rename_i h
      rw [if_neg h] at hlevel
      constructor <;> simp [IndentedText.endLine, hnewLine, hindentSize, hlevel, hstart]
  · rw [finish_text _ hstart]
    dsimp only
    rw [hnewLine, hending, hbroken, htext]
    simp only [String.append_assoc]

end Lines

end Writing

end NodeFactory
