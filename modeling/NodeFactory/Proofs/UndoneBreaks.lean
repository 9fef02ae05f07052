import NodeFactory.Proofs.KindBlocks

/-!
# Breaks that are undone

The file is made of stretches: the lines that may be broken, which are the headers of the functions and the
conditions of the updaters, and what stands between them (`join_stretches`). The wrap column decides where
lines are broken and nothing else. White space apart the file is the same at every wrap column, and so are
its stretches once the breaks in them are undone (`wrap_changes_breaks_only`).
-/

namespace NodeFactory

open Text

/-- The same settings with another wrap column. -/
def Config.wrappedAt (config : Config) (columnWrap : Nat) : Config :=
  { config with output := { config.output with columnWrap } }

/-- A line that may be broken, or other text. -/
inductive Stretch where
  | line (text : String)
  | other (text : String)
deriving DecidableEq

def Stretch.text : Stretch → String
  | line text | other text => text

/-- What remains of a text that stands `inside` characters before the end of a break. A break at the end of
the text ends the line and stays. -/
def undoBreaks (lineBreak : List Char) : Nat → List Char → List Char
  | _, [] => []
  | inside + 1, _ :: cs => undoBreaks lineBreak inside cs
  | 0, c :: cs =>
    if lineBreak.isPrefixOf (c :: cs) && c :: cs != lineBreak then
      undoBreaks lineBreak (lineBreak.length - 1) cs
    else c :: undoBreaks lineBreak 0 cs

/-- A stretch without its breaks, each of which is followed by the indentation of the line and one level
more. -/
def Stretch.undone (layout : OutputLayout) : Stretch → Stretch
  | line text =>
    let margin := text.toList.takeWhile (· == ' ')
    let indentation := margin ++ List.replicate layout.indentSize ' '
    .line (String.ofList (undoBreaks (layout.newLine.text.toList ++ indentation) 0 text.toList))
  | other text => .other text

section Stretches

variable (config : Config)

/-- What follows the header of a constructor. -/
def Constructor.rest (function : Constructor) (out : IndentedText) : IndentedText :=
  (function.body config out).outdent.line "\x7d"

def Constructor.stretches (function : Constructor) : List Stretch :=
  [.line (function.header config (blockStart config)).text,
    .other (function.rest config (blockStart config).indent).text]

/-- What follows the condition of an updater. -/
def Updater.rest (function : Updater) (out : IndentedText) : IndentedText :=
  let arguments := ", ".intercalate (function.arguments.map Argument.text)
  let out := out.line s!"let newNode = create{function.kind}({arguments});"
  let out := out.line "return updateFrom(node, newNode);"
  let out := (out.outdent.line "\x7d").line "return node;"
  out.outdent.line "\x7d"

def Updater.stretches (function : Updater) : List Stretch :=
  [.line (function.header config (blockStart config)).text,
    .line (function.condition config (blockStart config).indent).text,
    .other (function.rest (blockStart config).indent.indent).text]

def NodeKind.stretches (kind : NodeKind) : List Stretch :=
  if kind.name = config.output.rootKind then []
  else (Constructor.ofKind kind).stretches config
    ++ (Updater.ofKind? kind).elim [] (Updater.stretches config)

/-- The stretches of the file. -/
def stretches (kinds : List NodeKind) : List Stretch :=
  .other (renderHeader config).text :: kinds.flatMap (NodeKind.stretches config)
    ++ [.other (footerText config)]

end Stretches

section Joined

variable {config : Config} {out : IndentedText}

/-- One level further in, a writer is told by its text alone. -/
theorem eq_indent_after (h : AtMargin config (config.output.namespaces.length + 1) out)
    (hsettled : out.IsSettled) : out = (blockStart config).indent.after out.text := by
  have houter : out.outdent = (blockStart config).after out.text :=
    eq_blockStart_after h.outdent hsettled
  have hindent : out.outdent.indent = out := by
    have hlevel : out.level - 1 + 1 = out.level := by rw [h.level, Nat.add_sub_cancel]
    unfold IndentedText.outdent IndentedText.indent
    rw [hlevel]
  exact hindent.symm.trans (congrArg IndentedText.indent houter)

/-- What is written inside a line is written behind it. -/
theorem text_inside {start : IndentedText} (h : out = start.after out.text)
    {rest : IndentedText → IndentedText} (hrest : IsWriting rest) :
    (rest out.indent).text = out.text ++ (rest start.indent).text := by
  have hindent : out.indent = start.indent.after out.text := congrArg IndentedText.indent h
  rw [hindent, hrest.after, IndentedText.text_after]

theorem constructor_rest_writing (config : Config) (function : Constructor) :
    IsWriting fun out => function.rest config out :=
  (IsWriting.constructorBody config function).comp (IsWriting.outdent.comp (.line _))

theorem updater_rest_writing (function : Updater) : IsWriting fun out => function.rest out := by
  let arguments := ", ".intercalate (function.arguments.map Argument.text)
  have hcall := (IsWriting.line s!"let newNode = create{function.kind}({arguments});").comp
    (.line "return updateFrom(node, newNode);")
  have hend := (IsWriting.outdent.comp (.line "\x7d")).comp
    ((IsWriting.line "return node;").comp (IsWriting.outdent.comp (.line "\x7d")))
  exact hcall.comp hend

theorem updater_header_writing (config : Config) (function : Updater) : IsWriting fun out =>
    function.rest (function.condition config out).indent :=
  ((IsWriting.updaterCondition config function).comp .indent).comp (updater_rest_writing function)

theorem join_constructor_stretches (kind : NodeKind) :
    String.join (((Constructor.ofKind kind).stretches config).map Stretch.text)
      = ((Constructor.ofKind kind).render config (blockStart config)).text := by
  have hheader := eq_blockStart_after
    (constructorHeader_writes (blockStart config) blockStart_atMargin).1
    ((IsWriting.constructorHeader config (.ofKind kind)).settled blockStart_isSettled)
  have htext := text_inside hheader (constructor_rest_writing config (Constructor.ofKind kind))
  simp only [Constructor.stretches, List.map_cons, List.map_nil, String.join_cons, Stretch.text]
  exact (htext.trans (by simp [String.join])).symm

theorem join_updater_stretches {kind : NodeKind} {updater : Updater}
    (h : Updater.ofKind? kind = some updater) :
    String.join ((updater.stretches config).map Stretch.text)
      = (updater.render config (blockStart config)).text := by
  have hheader := eq_blockStart_after (updaterHeader_writes h (blockStart config) blockStart_atMargin).1
    ((IsWriting.updaterHeader config updater).settled blockStart_isSettled)
  have hcondition := eq_indent_after
    (updaterCondition_writes h (blockStart config).indent blockStart_atMargin.indent).1
    ((IsWriting.indent.comp (.updaterCondition config updater)).settled blockStart_isSettled)
  have htext := text_inside hheader (updater_header_writing config updater)
  have hinner := text_inside hcondition (updater_rest_writing updater)
  simp only [Updater.stretches, List.map_cons, List.map_nil, String.join_cons, Stretch.text]
  exact (htext.trans (by rw [hinner]; simp [String.join])).symm

theorem join_kind_stretches (kind : NodeKind) :
    String.join ((kind.stretches config).map Stretch.text) = kind.block config := by
  unfold NodeKind.stretches NodeKind.block NodeKind.render
  split
  · rfl
  · have hconstructor := eq_blockStart_after
      (constructor_writes (blockStart config) blockStart_atMargin).1
      ((IsWriting.constructor config (.ofKind kind)).settled blockStart_isSettled)
    cases hupdater : Updater.ofKind? kind with
    | none =>
      rw [Option.elim_none, List.append_nil]
      exact join_constructor_stretches kind
    | some updater =>
      have htext := (congrArg (updater.render config) hconstructor).trans
        ((IsWriting.updater config updater).after _ _)
      dsimp only
      rw [Option.elim_some, List.map_append, String.join_append, join_constructor_stretches,
        join_updater_stretches hupdater, htext]
      rfl

/-- The stretches are the file. -/
theorem join_stretches (config : Config) (kinds : List NodeKind) :
    String.join ((stretches config kinds).map Stretch.text) = renderFile config kinds := by
  have hkinds : String.join ((kinds.flatMap (NodeKind.stretches config)).map Stretch.text)
      = blocks config kinds := by
    induction kinds with
    | nil => rfl
    | cons kind kinds ih =>
      rw [List.flatMap_cons, List.map_append, String.join_append, join_kind_stretches, ih, blocks, blocks,
        List.map_cons, String.join_cons]
  rw [renderFile_eq_join, stretches]
  simp only [List.map_cons, List.map_append, List.map_nil, String.join_cons, String.join_append,
    List.cons_append, hkinds, Stretch.text]
  simp [String.join, String.append_assoc]

end Joined

section Texts

/-- A text without its white space. -/
def solid (text : String) : List Char :=
  text.toList.filter fun c => !isWhiteSpace c

/-- A text has no line break. -/
def IsOneLine (text : String) : Prop :=
  ∀ c ∈ text.toList, c ≠ '\n' ∧ c ≠ '\r'

theorem all_iff_isOneLine {text : String} :
    (text.toList.all fun c => c != '\n' && c != '\r') = true ↔ IsOneLine text := by
  simp [IsOneLine]

instance (text : String) : Decidable (IsOneLine text) :=
  decidable_of_iff _ all_iff_isOneLine

theorem isOneLine_empty : IsOneLine "" := by decide

theorem solid_append (text text' : String) : solid (text ++ text') = solid text ++ solid text' := by
  rw [solid, String.toList_append, List.filter_append, solid, solid]

theorem solid_join (texts : List String) : solid (String.join texts) = texts.flatMap solid := by
  induction texts with
  | nil => rfl
  | cons text texts ih => rw [String.join_cons, solid_append, ih, List.flatMap_cons]

theorem IsOneLine.append {text text' : String} (h : IsOneLine text) (h' : IsOneLine text') :
    IsOneLine (text ++ text') := by
  rw [IsOneLine, String.toList_append]
  exact List.forall_mem_append.2 ⟨h, h'⟩

theorem IsOneLine.notMem {text : String} {newLine : Char} (h : IsOneLine text)
    (hnewLine : newLine = '\n' ∨ newLine = '\r') : newLine ∉ text.toList := by
  intro hmem
  rcases hnewLine with rfl | rfl
  · exact (h _ hmem).1 rfl
  · exact (h _ hmem).2 rfl

end Texts

section Undoing

variable {newLine : Char} {indentation rest : List Char}

theorem undoBreaks_inside (lineBreak rest : List Char) : ∀ inside : List Char,
    undoBreaks lineBreak inside.length (inside ++ rest) = undoBreaks lineBreak 0 rest
  | [] => rfl
  | _ :: inside => undoBreaks_inside lineBreak rest inside

/-- Text in which no break can begin stays. -/
theorem undoBreaks_append_of_notMem (indentation rest : List Char) : ∀ {text : List Char},
    newLine ∉ text → undoBreaks (newLine :: indentation) 0 (text ++ rest)
      = text ++ undoBreaks (newLine :: indentation) 0 rest
  | [], _ => rfl
  | c :: text, h => by
    obtain ⟨hne, htext⟩ := not_or.1 (mt List.mem_cons.2 h)
    have hprefix : (newLine :: indentation).isPrefixOf (c :: (text ++ rest)) = false := by
      simp [List.isPrefixOf, hne]
    rw [List.cons_append, undoBreaks, hprefix, Bool.false_and, if_neg Bool.false_ne_true,
      undoBreaks_append_of_notMem indentation rest htext]
    rfl

/-- A break that does not end the text is taken out. -/
theorem undoBreaks_break (hrest : rest ≠ []) :
    undoBreaks (newLine :: indentation) 0 (newLine :: indentation ++ rest)
      = undoBreaks (newLine :: indentation) 0 rest := by
  have hprefix : (newLine :: indentation).isPrefixOf (newLine :: (indentation ++ rest)) = true :=
    List.isPrefixOf_iff_prefix.2 (List.prefix_append (newLine :: indentation) rest)
  have hne : (newLine :: (indentation ++ rest) != newLine :: indentation) = true := by
    simpa using hrest
  rw [List.cons_append, undoBreaks, hprefix, hne, Bool.true_and, if_pos rfl, List.length_cons,
    Nat.add_sub_cancel, undoBreaks_inside]

theorem undoBreaks_end (newLine : NewLine) (width : Nat) :
    undoBreaks (newLine.text.toList ++ List.replicate width ' ') 0 newLine.text.toList
      = newLine.text.toList := by
  cases newLine <;> cases width <;>
    simp [undoBreaks, NewLine.text, List.isPrefixOf, List.replicate_succ]

theorem NewLine.exists_toList (newLine : NewLine) : ∃ c cs, newLine.text.toList = c :: cs
    ∧ (c = '\n' ∨ c = '\r') := by
  cases newLine with
  | lf => exact ⟨'\n', [], by decide, .inl rfl⟩
  | crlf => exact ⟨'\r', ['\n'], by decide, .inr rfl⟩

theorem takeWhile_margin (width : Nat) {c : Char} (cs : List Char) (hc : c ≠ ' ') :
    (List.replicate width ' ' ++ c :: cs).takeWhile (· == ' ') = List.replicate width ' ' := by
  have hend : (c :: cs).takeWhile (· == ' ') = [] := List.takeWhile_cons_of_neg (by simpa using hc)
  rw [List.takeWhile_append_of_pos (by simp), hend, List.append_nil]

end Undoing

section Lines

/-- The pieces of a line one after the other, each after its separator. -/
def joinPieces (pieces : List (String × String)) : String :=
  String.join (pieces.map fun piece => piece.1 ++ piece.2)

theorem joinPieces_cons (separator piece : String) (pieces : List (String × String)) :
    joinPieces ((separator, piece) :: pieces) = separator ++ piece ++ joinPieces pieces := by
  rw [joinPieces, List.map_cons, String.join_cons, joinPieces]

variable {config : Config} {base : Nat} {line : Line} {pieces : List (String × String)} {text : String}

/-- A line that is not broken. -/
def Line.joined (config : Config) (base : Nat) (line : Line) : String :=
  indentation config (base + line.level) ++ line.opening ++ joinPieces line.pieces ++ line.ending
    ++ config.output.newLine.text

/-- The texts that a line consists of have no line break. -/
structure Line.IsBreakFree (line : Line) : Prop where
  opening : IsOneLine line.opening
  pieces : ∀ piece ∈ line.pieces, IsOneLine piece.1 ∧ IsOneLine piece.2
  ending : IsOneLine line.ending

theorem solid_indentation (level : Nat) : solid (indentation config level) = [] := by
  unfold solid indentation
  rw [String.toList_ofList, List.filter_eq_nil_iff]
  intro c hc
  rw [List.eq_of_mem_replicate hc]
  decide

theorem solid_newLine (newLine : NewLine) : solid newLine.text = [] := by
  cases newLine <;> decide

theorem Breaks.solid_eq {lineBreak : String} (hbreak : solid lineBreak = [])
    (h : Breaks lineBreak pieces text) : solid text = solid (joinPieces pieces) := by
  induction h with
  | nil => rfl
  | join _ ih => rw [joinPieces_cons, solid_append, ih, ← solid_append]
  | «break» _ ih =>
    rw [joinPieces_cons]
    simp only [solid_append, hbreak, List.append_nil, ih]

/-- However a line is broken, it is the same but for white space. -/
theorem Line.IsWritten.solid_eq (h : line.IsWritten config base text) :
    solid text = solid (line.joined config base) := by
  obtain ⟨broken, hbreaks, rfl⟩ := h
  have hbroken := hbreaks.solid_eq (by rw [solid_append, solid_newLine, solid_indentation]; rfl)
  unfold Line.joined
  simp only [solid_append, hbroken]

/-- Between the pieces of a line no breaks remain. -/
theorem Breaks.undone {newLine : Char} {indentation rest : List Char} {lineBreak : String}
    (h : Breaks lineBreak pieces text) (hbreak : lineBreak.toList = newLine :: indentation)
    (hrest : rest ≠ [])
    (hpieces : ∀ piece ∈ pieces, newLine ∉ piece.1.toList ∧ newLine ∉ piece.2.toList) :
    undoBreaks (newLine :: indentation) 0 (text.toList ++ rest)
      = (joinPieces pieces).toList ++ undoBreaks (newLine :: indentation) 0 rest := by
  induction h with
  | nil => rfl
  | join _ ih =>
    rw [List.forall_mem_cons] at hpieces
    rw [joinPieces_cons]
    simp only [String.toList_append, List.append_assoc]
    rw [undoBreaks_append_of_notMem _ _ hpieces.1.1, undoBreaks_append_of_notMem _ _ hpieces.1.2,
      ih hpieces.2]
  | «break» _ ih =>
    -- The break goes because something follows it: one that ends the text would be the end of the line.
    rw [List.forall_mem_cons] at hpieces
    rw [joinPieces_cons]
    simp only [String.toList_append, List.append_assoc, hbreak]
    rw [undoBreaks_append_of_notMem _ _ hpieces.1.1, undoBreaks_break (by simp [hrest]),
      undoBreaks_append_of_notMem _ _ hpieces.1.2, ih hpieces.2]

theorem indentation_succ (level : Nat) : (indentation config (level + 1)).toList
    = (indentation config level).toList ++ List.replicate config.output.indentSize ' ' := by
  simp [indentation, Nat.succ_mul]

/-- The spaces in front of a line are its margin, as the line itself begins with none. -/
theorem Line.IsWritten.takeWhile_eq (h : line.IsWritten config base text)
    (hopening : ∃ c ∈ line.opening.toList.head?, c ≠ ' ') :
    text.toList.takeWhile (· == ' ') = (indentation config (base + line.level)).toList := by
  obtain ⟨broken, -, rfl⟩ := h
  obtain ⟨c, hfirst, hc⟩ := hopening
  obtain ⟨cs, hcs⟩ := List.head?_eq_some_iff.1 hfirst
  simp only [indentation, String.toList_append, String.toList_ofList, hcs, List.append_assoc,
    List.cons_append]
  exact takeWhile_margin _ _ hc

theorem Line.IsWritten.undoBreaks_eq (h : line.IsWritten config base text) (hfree : line.IsBreakFree) :
    undoBreaks (config.output.newLine.text ++ indentation config (base + line.level + 1)).toList 0
      text.toList = (line.joined config base).toList := by
  obtain ⟨broken, hbreaks, rfl⟩ := h
  obtain ⟨newLine, newLines, htoList, hnewLine⟩ := NewLine.exists_toList config.output.newLine
  have hmargin : newLine ∉ (indentation config (base + line.level)).toList := by
    intro hmem
    rw [indentation, String.toList_ofList] at hmem
    rw [List.eq_of_mem_replicate hmem] at hnewLine
    exact absurd hnewLine (by decide)
  have hpieces : ∀ piece ∈ line.pieces, newLine ∉ piece.1.toList ∧ newLine ∉ piece.2.toList :=
    fun piece hpiece => ⟨(hfree.pieces piece hpiece).1.notMem hnewLine,
      (hfree.pieces piece hpiece).2.notMem hnewLine⟩
  have hend := undoBreaks_end config.output.newLine
    ((base + line.level + 1) * config.output.indentSize)
  have hbreak : (config.output.newLine.text ++ indentation config (base + line.level + 1)).toList
      = newLine :: (newLines ++ List.replicate ((base + line.level + 1) * config.output.indentSize) ' ') := by
    rw [String.toList_append, htoList, indentation, String.toList_ofList, List.cons_append]
  rw [htoList, List.cons_append] at hend
  rw [Line.joined, hbreak]
  simp only [String.toList_append, htoList, List.append_assoc]
  rw [undoBreaks_append_of_notMem _ _ hmargin,
    undoBreaks_append_of_notMem _ _ (hfree.opening.notMem hnewLine),
    hbreaks.undone hbreak (by simp) hpieces,
    undoBreaks_append_of_notMem _ _ (hfree.ending.notMem hnewLine), hend]

/-- However a line is broken, it is the same once its breaks are undone. -/
theorem Line.IsWritten.undone (h : line.IsWritten config base text) (hfree : line.IsBreakFree)
    (hopening : ∃ c ∈ line.opening.toList.head?, c ≠ ' ') :
    (Stretch.line text).undone config.output = .line (line.joined config base) := by
  have hundone := h.undoBreaks_eq hfree
  rw [String.toList_append, indentation_succ] at hundone
  unfold Stretch.undone
  dsimp only
  rw [h.takeWhile_eq hopening, hundone, String.ofList_toList]

end Lines

section Kinds

variable {config : Config} {columnWrap : Nat} {kind : NodeKind}

/-- The lines of a kind that may be broken. -/
def breakableLines (kind : NodeKind) : List Line :=
  [constructorHeader kind, updaterHeader kind, updaterCondition kind]

/-- No text that comes from the schema into the functions of a kind has a line break. -/
structure NodeKind.IsBreakFree (kind : NodeKind) : Prop where
  name : IsOneLine kind.name
  declaringType : IsOneLine kind.declaringType
  fields : ∀ field ∈ kind.fields, IsOneLine field.name ∧ IsOneLine field.typeText

theorem Writes.isWritten {base level : Nat} {line : Line} {start : IndentedText}
    {step : IndentedText → IndentedText} (h : Writes config base level [line] step)
    (hstart : AtMargin config (base + level) start) (htext : start.text = "") :
    line.IsWritten config base (step start).text := by
  obtain ⟨-, text, ⟨texts, hlines, rfl⟩, htexts⟩ := h start hstart
  cases hlines with
  | cons hline hnil =>
    cases hnil
    rw [htexts, htext]
    simpa [String.join] using hline

theorem constructorHeader_isWritten (config : Config) (kind : NodeKind) :
    (constructorHeader kind).IsWritten config config.output.namespaces.length
      ((Constructor.ofKind kind).header config (blockStart config)).text :=
  constructorHeader_writes.isWritten blockStart_atMargin rfl

theorem updaterHeader_isWritten (config : Config) {updater : Updater}
    (h : Updater.ofKind? kind = some updater) :
    (updaterHeader kind).IsWritten config config.output.namespaces.length
      (updater.header config (blockStart config)).text :=
  (updaterHeader_writes h).isWritten blockStart_atMargin rfl

theorem updaterCondition_isWritten (config : Config) {updater : Updater}
    (h : Updater.ofKind? kind = some updater) :
    (updaterCondition kind).IsWritten config config.output.namespaces.length
      (updater.condition config (blockStart config).indent).text :=
  (updaterCondition_writes h).isWritten blockStart_atMargin.indent rfl

/-- What is the same for a line wherever it is broken is the same at every wrap column. -/
theorem map_kind_stretches {β : Type} {f : Stretch → β}
    (hf : ∀ line ∈ breakableLines kind, ∀ text text',
      line.IsWritten config config.output.namespaces.length text →
        line.IsWritten config config.output.namespaces.length text' → f (.line text) = f (.line text')) :
    (kind.stretches (config.wrappedAt columnWrap)).map f = (kind.stretches config).map f := by
  have hconstructor := hf (constructorHeader kind) (by simp [breakableLines]) _ _
    (constructorHeader_isWritten (config.wrappedAt columnWrap) kind) (constructorHeader_isWritten config kind)
  -- Only the lines that may be broken look at the wrap column.
  have hfirst : ((Constructor.ofKind kind).stretches (config.wrappedAt columnWrap)).map f
      = ((Constructor.ofKind kind).stretches config).map f :=
    congrArg (· :: _) hconstructor
  unfold NodeKind.stretches
  by_cases hroot : kind.name = config.output.rootKind
  · rw [if_pos hroot, if_pos (show kind.name = (config.wrappedAt columnWrap).output.rootKind from hroot)]
  · rw [if_neg hroot, if_neg (show kind.name ≠ (config.wrappedAt columnWrap).output.rootKind from hroot),
      List.map_append, List.map_append, hfirst]
    cases hupdater : Updater.ofKind? kind with
    | none => rfl
    | some updater =>
      have hheader := hf (updaterHeader kind) (by simp [breakableLines]) _ _
        (updaterHeader_isWritten (config.wrappedAt columnWrap) hupdater)
        (updaterHeader_isWritten config hupdater)
      have hcondition := hf (updaterCondition kind) (by simp [breakableLines]) _ _
        (updaterCondition_isWritten (config.wrappedAt columnWrap) hupdater)
        (updaterCondition_isWritten config hupdater)
      simp only [Option.elim_some, Updater.stretches, List.map_cons, hheader, hcondition]
      rfl

theorem map_stretches {β : Type} {f : Stretch → β} {kinds : List NodeKind}
    (hf : ∀ kind ∈ kinds, ∀ line ∈ breakableLines kind, ∀ text text',
      line.IsWritten config config.output.namespaces.length text →
        line.IsWritten config config.output.namespaces.length text' → f (.line text) = f (.line text')) :
    (stretches (config.wrappedAt columnWrap) kinds).map f = (stretches config kinds).map f := by
  have hkinds : (kinds.flatMap (NodeKind.stretches (config.wrappedAt columnWrap))).map f
      = (kinds.flatMap (NodeKind.stretches config)).map f := by
    rw [List.map_flatMap, List.map_flatMap]
    exact List.flatMap_congr fun kind hkind => map_kind_stretches (hf kind hkind)
  unfold stretches
  rw [List.map_append, List.map_append, List.map_cons, List.map_cons, hkinds]
  rfl

theorem separatedBy_isOneLine {separator : String} {texts : List String}
    (hseparator : IsOneLine separator) (htexts : ∀ text ∈ texts, IsOneLine text) :
    ∀ piece ∈ separatedBy separator texts,
      IsOneLine piece.1 ∧ IsOneLine piece.2 := by
  cases texts with
  | nil => simp [separatedBy]
  | cons text texts =>
    rw [List.forall_mem_cons] at htexts
    rw [separatedBy, List.forall_mem_cons, List.forall_mem_map]
    exact ⟨⟨isOneLine_empty, htexts.1⟩, fun text htext => ⟨hseparator, htexts.2 text htext⟩⟩

theorem headerEnd_isOneLine {declaringType : String} (h : IsOneLine declaringType) :
    ∀ piece ∈ [("", headerEnd declaringType)],
      IsOneLine piece.1 ∧ IsOneLine piece.2 := by
  rw [List.forall_mem_singleton]
  exact ⟨isOneLine_empty, (IsOneLine.append (by decide) h).append (by decide)⟩

theorem paramName_isOneLine {field : Field} (h : IsOneLine field.name) :
    IsOneLine field.paramName := by
  unfold Field.paramName
  split
  · decide
  · exact h

theorem constructorHeader_isBreakFree (h : kind.IsBreakFree) : (constructorHeader kind).IsBreakFree := by
  refine ⟨(IsOneLine.append (by decide) h.name).append (by decide), ?_, isOneLine_empty⟩
  refine List.forall_mem_append.2
    ⟨separatedBy_isOneLine (by decide) ?_, headerEnd_isOneLine h.declaringType⟩
  rw [List.forall_mem_map]
  intro field hfield
  obtain ⟨hname, htype⟩ := h.fields field hfield
  exact (((paramName_isOneLine hname).append (by decide)).append htype)

theorem updaterHeader_isBreakFree (h : kind.IsBreakFree) : (updaterHeader kind).IsBreakFree := by
  refine ⟨?_, ?_, isOneLine_empty⟩
  · exact ((IsOneLine.append (by decide) h.name).append (by decide)).append h.declaringType
  · refine List.forall_mem_append.2 ⟨?_, headerEnd_isOneLine h.declaringType⟩
    rw [List.forall_mem_map]
    intro field hfield
    obtain ⟨hname, htype⟩ := h.fields field (List.mem_of_mem_filter hfield)
    exact ⟨(by decide : IsOneLine ", "),
      ((paramName_isOneLine hname).append (by decide)).append htype⟩

theorem updaterCondition_isBreakFree (h : kind.IsBreakFree) : (updaterCondition kind).IsBreakFree := by
  refine ⟨(by decide : IsOneLine "if ("), separatedBy_isOneLine (by decide) ?_,
    (by decide : IsOneLine ") \x7b")⟩
  rw [List.forall_mem_map]
  intro field hfield
  have hname := (h.fields field (List.mem_of_mem_filter hfield)).1
  exact (((paramName_isOneLine hname).append (by decide)).append hname)

/-- The headers and the conditions begin with a letter, so that their spaces in front are the margin. -/
theorem breakableLines_spec (h : kind.IsBreakFree) : ∀ line ∈ breakableLines kind,
    line.IsBreakFree ∧ ∃ c ∈ line.opening.toList.head?, c ≠ ' ' := by
  unfold breakableLines
  simp only [List.forall_mem_cons]
  refine ⟨⟨constructorHeader_isBreakFree h, ?_⟩, ⟨updaterHeader_isBreakFree h, ?_⟩,
    ⟨updaterCondition_isBreakFree h, ?_⟩, by simp⟩
  · exact ⟨'e', by simp [constructorHeader, toString, String.toList_append], by decide⟩
  · exact ⟨'e', by simp [updaterHeader, toString, String.toList_append], by decide⟩
  · exact ⟨'i', by simp [updaterCondition], by decide⟩

end Kinds

section Files

/-- The wrap column decides where headers and conditions are broken, and nothing else. At two wrap columns
the files are the same but for white space. Where no text in the kinds has a line break, their stretches
are the same once the breaks are undone, so that all that is not a header or a condition is the same. -/
theorem wrap_changes_breaks_only (config : Config) (columnWrap : Nat) (kinds : List NodeKind) :
    solid (renderFile (config.wrappedAt columnWrap) kinds) = solid (renderFile config kinds)
    ∧ (∀ columnWrap, String.join ((stretches (config.wrappedAt columnWrap) kinds).map Stretch.text)
      = renderFile (config.wrappedAt columnWrap) kinds)
    ∧ ((∀ kind ∈ kinds, kind.IsBreakFree) →
      (stretches (config.wrappedAt columnWrap) kinds).map (Stretch.undone config.output)
        = (stretches config kinds).map (Stretch.undone config.output)) := by
  refine ⟨?_, fun columnWrap => join_stretches _ kinds, fun hkinds => map_stretches ?_⟩
  · have hfile (config : Config) : solid (renderFile config kinds)
        = ((stretches config kinds).map fun stretch => solid stretch.text).flatten := by
      rw [← join_stretches, solid_join, List.flatMap_map, List.flatMap_def]
    rw [hfile, hfile]
    exact congrArg List.flatten (map_stretches fun kind _ line _ text text' h h' =>
      h.solid_eq.trans h'.solid_eq.symm)
  · intro kind hkind line hline text text' h h'
    obtain ⟨hfree, hopening⟩ := breakableLines_spec (hkinds kind hkind) line hline
    exact (h.undone hfree hopening).trans (h'.undone hfree hopening).symm

/-- Conditions, with a branch and perhaps another. -/
def ifKind : NodeKind where
  name := "If"
  value := some (.zero false)
  symbol := 6
  declaringType := "IfStatement"
  fields := [⟨"expression", "Expression", false, .node, false⟩,
    ⟨"thenStatement", "Statement", false, .node, false⟩,
    ⟨"elseStatement", "Statement", true, .node, false⟩]
  hasChildren := true
  requiredCount := 2

theorem stretches_of_broken_if :
    (∀ kind ∈ [ifKind], kind.IsBreakFree)
    ∧ ifKind.stretches (Config.wrappedAt {} 60) ≠ ifKind.stretches {}
    ∧ (stretches (Config.wrappedAt {} 60) [ifKind]).map (Stretch.undone ({} : Config).output)
      = (stretches {} [ifKind]).map (Stretch.undone ({} : Config).output) := by
  have hfree : ∀ kind ∈ [ifKind], kind.IsBreakFree := by
    rw [List.forall_mem_singleton]
    exact ⟨by decide, by decide, by decide⟩
  exact ⟨hfree, by decide +kernel, (wrap_changes_breaks_only {} 60 [ifKind]).2.2 hfree⟩

end Files

end NodeFactory
