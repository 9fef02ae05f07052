import NodeFactory.Proofs.FunctionLines

/-!
# Kinds are written one by one

A step of writing looks at the line that is being written and at the indentation, never at the text
above, and between two lines nothing of the line before is left (`IsWriting`). Writing a kind begins and
ends between two lines, at the level of the innermost namespace. So what is written for a kind does not
depend on where it stands (`render_eq_after`), and the file is a header, a block for each kind in order
and a footer (`renderFile_eq_blocks`).
-/

namespace NodeFactory

namespace IndentedText

/-- The same line and indentation below a text that was written earlier. -/
def after (earlier : String) (out : IndentedText) : IndentedText :=
  { out with text := earlier ++ out.text }

/-- Between two lines no length of a line is kept. -/
def IsSettled (out : IndentedText) : Prop :=
  out.isLineStart = true → out.lineLength = 0

theorem text_after (earlier : String) (out : IndentedText) :
    (out.after earlier).text = earlier ++ out.text := rfl

end IndentedText

/-- A step of writing that goes on in the same way below any text. -/
structure IsWriting (step : IndentedText → IndentedText) : Prop where
  after : ∀ earlier out, step (out.after earlier) = (step out).after earlier
  settled : ∀ {out}, out.IsSettled → (step out).IsSettled

namespace IsWriting

section Steps

variable {step step' : IndentedText → IndentedText}

theorem unchanged : IsWriting fun out => out :=
  ⟨fun _ _ => rfl, fun h => h⟩

theorem comp (h : IsWriting step) (h' : IsWriting step') : IsWriting fun out => step' (step out) :=
  ⟨fun earlier out => by rw [h.after, h'.after], fun hout => h'.settled (h.settled hout)⟩

theorem foldl {α : Type} {step : IndentedText → α → IndentedText}
    (h : ∀ a, IsWriting fun out => step out a) : ∀ as : List α, IsWriting fun out => as.foldl step out
  | [] => unchanged
  | a :: as => (h a).comp (foldl h as)

theorem times (h : IsWriting step) : ∀ n : Nat, IsWriting fun out => out.times n step
  | 0 => unchanged
  | n + 1 => h.comp (times h n)

theorem indent : IsWriting IndentedText.indent :=
  ⟨fun _ _ => rfl, fun h => h⟩

theorem outdent : IsWriting IndentedText.outdent :=
  ⟨fun _ _ => rfl, fun h => h⟩

/-- A step may be chosen by what is known before the text is. -/
theorem choose (p : Prop) [Decidable p] (h : IsWriting step) (h' : IsWriting step') :
    IsWriting fun out => if p then step out else step' out := by
  split
  · exact h
  · exact h'

/-- A step may depend on the column. -/
theorem byColumn {step : Nat → IndentedText → IndentedText} (h : ∀ column, IsWriting (step column)) :
    IsWriting fun out => step out.column out :=
  ⟨fun earlier out => (h out.column).after earlier out, fun {out} hout => (h out.column).settled hout⟩

theorem congr (h : IsWriting step) (heq : ∀ out, step' out = step out) : IsWriting step' := by
  rwa [funext heq]

theorem startLine : IsWriting IndentedText.startLine := by
  refine ⟨fun earlier out => ?_, fun {out} hout => ?_⟩
  · cases hstart : out.isLineStart with
    | false => simp [IndentedText.startLine, IndentedText.after, hstart]
    | true =>
      simp [IndentedText.startLine, IndentedText.after, IndentedText.margin, hstart, String.append_assoc]
  · unfold IndentedText.startLine
    split
    · intro hstart
      cases hstart
    · exact hout

theorem endLine : IsWriting IndentedText.endLine := by
  refine ⟨fun earlier out => ?_, fun {out} hout => ?_⟩
  · cases hstart : out.isLineStart with
    | false => simp [IndentedText.endLine, IndentedText.after, hstart, String.append_assoc]
    | true => simp [IndentedText.endLine, IndentedText.after, hstart]
  · unfold IndentedText.endLine
    split
    · exact hout
    · exact fun _ => rfl

theorem write (piece : String) : IsWriting fun out => out.write piece := by
  by_cases hpiece : piece = ""
  · simpa only [IndentedText.write, hpiece, if_true] using unchanged
  · refine ⟨fun earlier out => ?_, fun {out} _ => ?_⟩
    · simp only [IndentedText.write, hpiece, if_false, startLine.after]
      simp [IndentedText.after, String.append_assoc]
    · have hstart : out.startLine.isLineStart = false := by
        unfold IndentedText.startLine
        split
        · rfl
        · simpa using ‹¬ out.isLineStart = true›
      simp [IndentedText.write, hpiece, IndentedText.IsSettled, hstart]

theorem line (text : String) : IsWriting fun out => out.line text :=
  (write text).comp endLine

end Steps

section Lists

variable (columnWrap : Nat) (ending : String)

/-- What is left of a list: whether its line was broken decides how it ends, and the column whether it
is broken before the next piece. -/
theorem restOfList : ∀ (pieces : List (String × String)) (isBroken : Bool), IsWriting fun out =>
    let list := Wrapping.writeAll columnWrap ⟨out, isBroken⟩ pieces
    Wrapping.finish { list with out := list.out.write ending }
  | [], isBroken => by
    have hend := (write ending).comp endLine
    cases isBroken with
    | false => exact hend
    | true => exact hend.comp outdent
  | (separator, piece) :: pieces, isBroken => by
    have hbroken := ((endLine.comp (choose (isBroken = true) unchanged indent)).comp
      (write piece)).comp (restOfList pieces true)
    have hwhole := (write piece).comp (restOfList pieces isBroken)
    have hall := (write separator).comp (byColumn fun column =>
      choose (columnWrap ≤ column + piece.length) hbroken hwhole)
    refine hall.congr fun out => ?_
    simp only [Wrapping.writeAll, List.foldl_cons, Wrapping.write]
    split <;> rfl

/-- An opening, a list that may be broken, and what ends its last line. -/
theorem list (opening : String) (pieces : List (String × String)) : IsWriting fun out =>
    let list := Wrapping.writeAll columnWrap ⟨out.write opening, false⟩ pieces
    Wrapping.finish { list with out := list.out.write ending } :=
  (write opening).comp (restOfList columnWrap ending pieces false)

end Lists

section Functions

variable (config : Config)

theorem constructorHeader (function : Constructor) :
    IsWriting fun out => function.header config out :=
  list config.output.columnWrap "" _ _

theorem storing (function : Constructor) : IsWriting fun out => function.storing out := by
  have hstores : IsWriting fun out =>
      function.stores.foldl (fun out store => out.line store.text) out :=
    foldl (fun store => line store.text) function.stores
  unfold Constructor.storing
  exact choose _ ((((line _).comp indent).comp hstores).comp (outdent.comp (line _))) hstores

theorem constructorBody (function : Constructor) : IsWriting fun out => function.body config out := by
  unfold Constructor.body
  exact choose _ (line _) (((line _).comp (storing function)).comp (line _))

theorem constructor (function : Constructor) : IsWriting fun out => function.render config out :=
  (((constructorHeader config function).comp indent).comp (constructorBody config function)).comp
    (outdent.comp (line _))

theorem updaterHeader (function : Updater) : IsWriting fun out => function.header config out :=
  list config.output.columnWrap "" _ _

theorem updaterCondition (function : Updater) : IsWriting fun out => function.condition config out :=
  list config.output.columnWrap ") \x7b" _ _

theorem updater (function : Updater) : IsWriting fun out => function.render config out := by
  have hbegin := (updaterHeader config function).comp indent
  have hcondition := (updaterCondition config function).comp indent
  let arguments := ", ".intercalate (function.arguments.map Argument.text)
  have hcall := (line s!"let newNode = create{function.kind}({arguments});").comp
    (line "return updateFrom(node, newNode);")
  have hend := ((outdent.comp (line "\x7d")).comp (line "return node;")).comp
    (outdent.comp (line "\x7d"))
  exact ((hbegin.comp hcondition).comp hcall).comp hend

theorem kind (kind : NodeKind) : IsWriting fun out => kind.render config out := by
  unfold NodeKind.render
  refine choose _ unchanged ?_
  cases Updater.ofKind? kind with
  | none => exact constructor config _
  | some function => exact (constructor config _).comp (updater config function)

theorem closing : IsWriting fun out =>
    out.times config.output.namespaces.length fun out => out.outdent.line "\x7d" :=
  times (outdent.comp (line "\x7d")) _

theorem helperLines : ∀ (lines : List (List Char)) (depth : Nat),
    IsWriting fun out => renderHelperLines depth out lines
  | [], _ => unchanged
  | text :: lines, depth => by
    unfold renderHelperLines
    have hline := choose ((text.dropWhile Text.isWhiteSpace).isEmpty = true) (startLine.comp endLine)
      (line (String.ofList (text.dropWhile Text.isWhiteSpace)))
    exact ((((times indent _).comp hline).comp (times outdent _)).comp (helperLines lines _))

theorem helpers : IsWriting fun out => renderHelpers config out := by
  unfold renderHelpers
  exact helperLines (splitLines (helperText config.wellKnown).toList) 0

theorem openNamespace (exported name : String) :
    IsWriting fun out => NodeFactory.openNamespace exported out name :=
  (line _).comp indent

theorem openNamespaces : ∀ names : List String,
    IsWriting fun out => NodeFactory.openNamespaces out names
  | [] => unchanged
  | name :: names => (openNamespace "" name).comp (foldl (openNamespace "export ") names)

theorem header : IsWriting fun out =>
    let out := out.line "// <auto-generated />"
    let out := config.output.references.foldl (fun out path =>
      out.line s!"/// <reference path=\"{path}\" />") out
    renderHelpers config (NodeFactory.openNamespaces out config.output.namespaces) := by
  have hreferences : IsWriting fun out => config.output.references.foldl (fun out path =>
      out.line s!"/// <reference path=\"{path}\" />") out := foldl (fun _ => line _) _
  have hinner := (openNamespaces config.output.namespaces).comp (helpers config)
  have hall := ((line "// <auto-generated />").comp hreferences).comp hinner
  exact hall

end Functions

end IsWriting

section Blocks

variable (config : Config)

/-- Between two functions, with nothing written above. -/
def blockStart : IndentedText where
  text := ""
  newLine := config.output.newLine.text
  indentSize := config.output.indentSize
  level := config.output.namespaces.length
  lineLength := 0
  isLineStart := true

/-- What is written for a kind. -/
def NodeKind.block (kind : NodeKind) : String :=
  (kind.render config (blockStart config)).text

/-- What is written for kinds, one after the other. -/
def blocks (kinds : List NodeKind) : String :=
  String.join (kinds.map (NodeKind.block config))

/-- What closes the namespaces. -/
def footerText : String :=
  ((blockStart config).times config.output.namespaces.length fun out => out.outdent.line "\x7d").text

variable {config}

theorem blockStart_atMargin : AtMargin config config.output.namespaces.length (blockStart config) :=
  ⟨rfl, rfl, rfl, rfl⟩

theorem blockStart_isSettled : (blockStart config).IsSettled :=
  fun _ => rfl

/-- Between two functions a writer is told by its text alone. -/
theorem eq_blockStart_after {out : IndentedText}
    (h : AtMargin config config.output.namespaces.length out) (hsettled : out.IsSettled) :
    out = (blockStart config).after out.text := by
  obtain ⟨text, newLine, indentSize, level, lineLength, isLineStart⟩ := out
  obtain ⟨rfl, rfl, rfl, rfl⟩ := h
  obtain rfl : lineLength = 0 := hsettled rfl
  simp [IndentedText.after, blockStart]

theorem renderHeader_eq_after :
    renderHeader config = (blockStart config).after (renderHeader config).text :=
  eq_blockStart_after (renderHeader_atMargin config) ((IsWriting.header config).settled fun _ => rfl)

/-- A kind is written in the same way below any text. -/
theorem render_eq_after (earlier : String) (kind : NodeKind) :
    kind.render config ((blockStart config).after earlier)
      = (blockStart config).after (earlier ++ kind.block config) := by
  have hwriting := IsWriting.kind config kind
  have hblock := eq_blockStart_after (kind_writes kind blockStart_atMargin).1
    (hwriting.settled blockStart_isSettled)
  rw [hwriting.after, hblock]
  simp [IndentedText.after, NodeKind.block, String.append_assoc]

theorem foldl_render_eq_after : ∀ (kinds : List NodeKind) (earlier : String),
    kinds.foldl (NodeKind.render config) ((blockStart config).after earlier)
      = (blockStart config).after (earlier ++ blocks config kinds)
  | [], earlier => by simp [blocks, String.join]
  | kind :: kinds, earlier => by
    rw [List.foldl_cons, render_eq_after, foldl_render_eq_after kinds, blocks, blocks, List.map_cons,
      String.join_cons, String.append_assoc]

theorem blocks_append (kinds kinds' : List NodeKind) :
    blocks config (kinds ++ kinds') = blocks config kinds ++ blocks config kinds' := by
  rw [blocks, List.map_append, String.join_append, blocks, blocks]

theorem block_eq_empty_iff (kind : NodeKind) :
    kind.block config = "" ↔ kind.name = config.output.rootKind := by
  obtain ⟨-, constructor, updater, hfunctions, htext⟩ := kind_writes kind blockStart_atMargin
  have hblock : kind.block config = constructor ++ updater := htext.trans (by simp [blockStart])
  rw [hblock]
  refine ⟨fun h => hfunctions.constructor_absent.1 ?_, fun h => ?_⟩
  · exact (String.append_eq_empty_iff.1 h).1
  · rw [hfunctions.constructor_absent.2 h, hfunctions.updater_absent.2 (.inl h)]
    rfl

theorem renderFile_eq_join (config : Config) (kinds : List NodeKind) : renderFile config kinds
    = (renderHeader config).text ++ blocks config kinds ++ footerText config := by
  have hkinds := (congrArg (kinds.foldl (NodeKind.render config)) renderHeader_eq_after).trans
    (foldl_render_eq_after kinds _)
  have hclosing := (IsWriting.closing config).after
    ((renderHeader config).text ++ blocks config kinds) (blockStart config)
  unfold renderFile
  rw [hkinds]
  dsimp only
  rw [hclosing, IndentedText.text_after, footerText]

/-- The file is its header, the block of each kind in order, and its footer; the block of a kind is
empty for the root kind only. Lists of kinds that are joined give their blocks one after the other, and
a kind that is put between others leaves the blocks of those as they are. -/
theorem renderFile_eq_blocks (config : Config) :
    (∀ kinds, renderFile config kinds
      = (renderHeader config).text ++ blocks config kinds ++ footerText config)
    ∧ (∀ kind : NodeKind, kind.block config = "" ↔ kind.name = config.output.rootKind)
    ∧ (∀ kinds kinds', renderFile config (kinds ++ kinds')
      = (renderHeader config).text ++ (blocks config kinds ++ blocks config kinds') ++ footerText config)
    ∧ (∀ before kind after, renderFile config (before ++ kind :: after)
      = (renderHeader config).text
        ++ (blocks config before ++ kind.block config ++ blocks config after) ++ footerText config) := by
  have hfile := renderFile_eq_join config
  refine ⟨hfile, block_eq_empty_iff, fun kinds kinds' => ?_, fun before kind after => ?_⟩
  · rw [hfile, blocks_append]
  · have hcons : blocks config (kind :: after) = kind.block config ++ blocks config after := by
      rw [blocks, List.map_cons, String.join_cons, blocks]
    rw [hfile, blocks_append, hcons]
    simp only [String.append_assoc]

end Blocks

end NodeFactory
