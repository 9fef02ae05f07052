import NodeFactory.Proofs.GreedyLines

/-!
# The lines of the whole file

From its first line to the last brace the file is a list of lines (`fileLines`): those in front of the
functions, the lines of the helpers among them, those of the functions of each kind in order, and the braces
that close the namespaces. Each of them is broken greedily (`lines_are_greedy`). Only the headers of the
functions and the conditions of the updaters have pieces, so that no other line is ever broken.
-/

namespace NodeFactory

open Text

/-- The same line further in. -/
def Line.inside (levels : Nat) (line : Line) : Line :=
  { line with level := levels + line.level }

/-- The lines that open namespaces, each inside the one before. -/
def namespaceLines (exported : String) (level : Nat) : List String → List Line
  | [] => []
  | name :: names =>
    .whole level s!"{exported}namespace {name} \x7b" :: namespaceLines "export " (level + 1) names

/-- The lines of a text that is indented by four spaces to a level. An empty line is as deep as the line
before it, whose depth is `depth`. -/
def helperLines (depth : Nat) : List (List Char) → List Line
  | [] => []
  | line :: lines =>
    let text := line.dropWhile isWhiteSpace
    let depth := if text.isEmpty then depth else byteLength (line.takeWhile isWhiteSpace) / 4
    .whole depth (String.ofList text) :: helperLines depth lines

section File

variable (config : Config)

/-- The lines in front of the functions. -/
def headerLines : List Line :=
  .whole 0 "// <auto-generated />"
    :: config.output.references.map (fun path => .whole 0 s!"/// <reference path=\"{path}\" />")
    ++ namespaceLines "" 0 config.output.namespaces
    ++ (helperLines 0 (splitLines (helperText config.wellKnown).toList)).map
      (Line.inside config.output.namespaces.length)

/-- The lines of the functions of a kind. -/
def NodeKind.lines (kind : NodeKind) : List Line :=
  if kind.name = config.output.rootKind then []
  else constructorLines config kind ++ (Updater.ofKind? kind).elim [] fun _ => updaterLines kind

def fileLines (kinds : List NodeKind) : List Line :=
  headerLines config
    ++ (kinds.flatMap (NodeKind.lines config)).map (Line.inside config.output.namespaces.length)
    ++ footerLines config.output.namespaces.length

/-- A text is a list of lines that are broken greedily. -/
def AreGreedyLines (lines : List Line) (text : String) : Prop :=
  ∃ texts, List.Forall₂ (Line.IsGreedy config 0) lines texts ∧ text = String.join texts

end File

section Lines

variable {config : Config} {base level levels : Nat} {line : Line} {lines lines' : List Line}
  {text text' : String}

theorem areGreedyLines_nil : AreGreedyLines config [] "" :=
  ⟨[], .nil, rfl⟩

theorem AreGreedyLines.append (h : AreGreedyLines config lines text)
    (h' : AreGreedyLines config lines' text') :
    AreGreedyLines config (lines ++ lines') (text ++ text') := by
  obtain ⟨texts, hlines, rfl⟩ := h
  obtain ⟨texts', hlines', rfl⟩ := h'
  exact ⟨texts ++ texts', List.rel_append hlines hlines', String.join_append.symm⟩

/-- Where a line stands is told by its level and the level around it together. -/
theorem Line.IsGreedy.inside (h : line.IsGreedy config base text) :
    (line.inside base).IsGreedy config 0 text := by
  obtain ⟨placed, hpieces, htext, hbreaks, hfits⟩ := h
  have hupTo : (line.inside base).upTo config 0 = line.upTo config base := by
    unfold Line.upTo Line.lineBreak Line.inside
    simp only [Nat.zero_add]
  exact ⟨placed, hpieces, by rw [hupTo]; exact htext, by rw [hupTo]; exact hbreaks,
    by rw [hupTo]; exact hfits⟩

theorem Line.IsGreedy.areGreedyLines (h : line.IsGreedy config base text) :
    AreGreedyLines config [line.inside base] text :=
  ⟨[text], .cons h.inside .nil, by simp [String.join]⟩

/-- Lines without pieces are written as they are. -/
theorem AreWritten.areGreedyLines (hlines : ∀ line ∈ lines, line.pieces = [])
    (h : AreWritten config base lines text) :
    AreGreedyLines config (lines.map (Line.inside base)) text := by
  obtain ⟨texts, hwritten, rfl⟩ := h
  refine ⟨texts, ?_, rfl⟩
  induction hwritten with
  | nil => exact .nil
  | cons hline _ ih =>
    rw [List.forall_mem_cons] at hlines
    exact .cons (hline.isGreedy hlines.1).inside (ih hlines.2)

theorem times_succ (step : IndentedText → IndentedText) : ∀ (n : Nat) (out : IndentedText),
    out.times (n + 1) step = step (out.times n step)
  | 0, _ => rfl
  | n + 1, out => times_succ step n (step out)

/-- What is written some levels further in is written there in between. -/
theorem Writes.insideTimes {step : IndentedText → IndentedText} : ∀ (levels : Nat) {level : Nat},
    Writes config base (level + levels) lines step → Writes config base level lines fun out =>
      (step (out.times levels IndentedText.indent)).times levels IndentedText.outdent
  | 0, _, h => h
  | levels + 1, level, h => by
    rw [Nat.add_comm levels 1, ← Nat.add_assoc] at h
    simp only [times_succ IndentedText.outdent]
    exact (Writes.insideTimes levels h).indented

/-- A line that is only indented. -/
theorem emptyLine_writes :
    Writes config base level [.whole level ""] fun out => out.startLine.endLine := by
  intro out hout
  refine ⟨hout.emptyLine, _, Line.IsWritten.areWritten ⟨"", .nil, rfl⟩, ?_⟩
  simp [IndentedText.endLine, IndentedText.startLine, IndentedText.margin, indentation, Line.whole,
    hout.isLineStart, hout.level, hout.indentSize, hout.newLine, String.append_assoc]

theorem helperLines_write : ∀ (lines : List (List Char)) (depth : Nat),
    Writes config base 0 (helperLines depth lines) fun out => renderHelperLines depth out lines
  | [], _ => .nil
  | line :: lines, depth => by
    unfold helperLines renderHelperLines
    extract_lets text depth
    have hline : Writes config base (0 + depth) [.whole depth (String.ofList text)] fun out =>
        if text.isEmpty then out.startLine.endLine else out.line (String.ofList text) := by
      rw [Nat.zero_add]
      split
      · rename_i hempty
        rw [List.isEmpty_iff.1 hempty]
        exact emptyLine_writes
      · rename_i hne
        exact line_writes (by simpa using hne)
    exact (hline.insideTimes depth).comp (helperLines_write lines depth)

/-- Where lines stand is told by their level and the level around them together. -/
theorem AreWritten.inside (h : AreWritten config base lines text) :
    AreWritten config 0 (lines.map (Line.inside base)) text := by
  obtain ⟨texts, hwritten, rfl⟩ := h
  refine ⟨texts, List.forall₂_map_left_iff.2 (hwritten.imp fun line text hline => ?_), rfl⟩
  unfold Line.IsWritten Line.inside
  rw [Nat.zero_add]
  exact hline

theorem openNamespace_write {out : IndentedText} (h : AtMargin config level out) (exported name : String) :
    ∃ text, AreWritten config 0 [.whole level s!"{exported}namespace {name} \x7b"] text
      ∧ (openNamespace exported out name).text = out.text ++ text := by
  have hwrites : Writes config 0 level [.whole level s!"{exported}namespace {name} \x7b"] fun out =>
      out.line s!"{exported}namespace {name} \x7b" := line_writes (by simp [toString])
  exact (hwrites out (by rwa [Nat.zero_add])).2

theorem exportedLines_write : ∀ (names : List String) {level : Nat} {out : IndentedText},
    AtMargin config level out → ∃ text, AreWritten config 0 (namespaceLines "export " level names) text
      ∧ (names.foldl (openNamespace "export ") out).text = out.text ++ text
  | [], _, out, _ => ⟨"", areWritten_nil, by simp⟩
  | name :: names, level, out, h => by
    obtain ⟨text, hline, htext⟩ := openNamespace_write h "export " name
    obtain ⟨texts, hlines, htexts⟩ := exportedLines_write names (h.openNamespace "export " name)
    exact ⟨text ++ texts, hline.append hlines, by
      rw [List.foldl_cons, htexts, htext, String.append_assoc]⟩

theorem openNamespaces_write (names : List String) {out : IndentedText} (h : AtMargin config 0 out) :
    ∃ text, AreWritten config 0 (namespaceLines "" 0 names) text
      ∧ (openNamespaces out names).text = out.text ++ text := by
  cases names with
  | nil => exact ⟨"", areWritten_nil, by simp [openNamespaces]⟩
  | cons name names =>
    obtain ⟨text, hline, htext⟩ := openNamespace_write h "" name
    obtain ⟨texts, hlines, htexts⟩ := exportedLines_write names (h.openNamespace "" name)
    exact ⟨text ++ texts, hline.append hlines, by
      rw [openNamespaces, htexts, htext, String.append_assoc]⟩

end Lines

section Parts

variable {config : Config} {kind : NodeKind} {base level : Nat} {out : IndentedText}

theorem helperLines_pieces : ∀ (depth : Nat) (lines : List (List Char)),
    ∀ line ∈ helperLines depth lines, line.pieces = []
  | _, [] => by simp [helperLines]
  | depth, line :: lines => by
    rw [helperLines]
    exact List.forall_mem_cons.2 ⟨rfl, helperLines_pieces _ lines⟩

theorem namespaceLines_pieces : ∀ (exported : String) (level : Nat) (names : List String),
    ∀ line ∈ namespaceLines exported level names, line.pieces = []
  | _, _, [] => by simp [namespaceLines]
  | _, level, name :: names => by
    rw [namespaceLines]
    exact List.forall_mem_cons.2 ⟨rfl, namespaceLines_pieces _ _ names⟩

theorem headerLines_pieces (config : Config) : ∀ line ∈ headerLines config, line.pieces = [] := by
  unfold headerLines
  simp only [List.forall_mem_append, List.forall_mem_cons, List.forall_mem_map]
  exact ⟨⟨⟨rfl, fun _ _ => rfl⟩, namespaceLines_pieces _ _ _⟩, fun line hline =>
    helperLines_pieces _ _ line hline⟩

theorem footerLines_pieces (count : Nat) : ∀ line ∈ footerLines count, line.pieces = [] := by
  unfold footerLines
  rw [List.forall_mem_map]
  exact fun _ _ => rfl

theorem references_write (config : Config) : AreWritten config 0 (.whole 0 "// <auto-generated />"
      :: config.output.references.map fun path => .whole 0 s!"/// <reference path=\"{path}\" />")
    (renderReferences config).text := by
  have hmark : Writes config 0 0 [.whole 0 "// <auto-generated />"] fun out =>
      out.line "// <auto-generated />" := line_writes (by decide)
  have hreference : ∀ path : String, Writes config 0 0 [.whole 0 s!"/// <reference path=\"{path}\" />"]
      fun out => out.line s!"/// <reference path=\"{path}\" />" :=
    fun path => line_writes (by simp [toString])
  obtain ⟨-, text, hlines, htext⟩ := (hmark.comp (.foldl hreference config.output.references))
    (IndentedText.empty config.output.newLine.text config.output.indentSize) ⟨rfl, rfl, rfl, rfl⟩
  rw [renderReferences, htext, IndentedText.empty, String.empty_append]
  exact hlines

/-- What stands in front of the functions. -/
theorem headerLines_write (config : Config) :
    AreWritten config 0 (headerLines config) (renderHeader config).text := by
  have hreferences := renderReferences_atMargin config
  obtain ⟨opened, hopened, hopenedText⟩ := openNamespaces_write config.output.namespaces hreferences
  obtain ⟨-, helpers, hhelpers, hhelpersText⟩ :=
    helperLines_write (splitLines (helperText config.wellKnown).toList) 0
      (openNamespaces (renderReferences config) config.output.namespaces)
      (hreferences.openNamespaces config.output.namespaces)
  have htext : (renderHeader config).text = (renderReferences config).text ++ opened ++ helpers := by
    rw [← hopenedText, ← hhelpersText]
    rfl
  rw [htext]
  exact ((references_write config).append hopened).append hhelpers.inside

/-- Between two functions, lines are written with nothing in front of them. -/
theorem Writes.at_blockStart {lines : List Line} {step : IndentedText → IndentedText}
    (h : Writes config config.output.namespaces.length 0 lines step) :
    AreWritten config config.output.namespaces.length lines (step (blockStart config)).text := by
  obtain ⟨-, text, hlines, htext⟩ := h (blockStart config) blockStart_atMargin
  rw [htext, blockStart, String.empty_append]
  exact hlines

theorem constructorBody_pieces (config : Config) (kind : NodeKind) :
    ∀ line ∈ constructorBody config kind ++ [.whole 0 "\x7d"], line.pieces = [] := by
  rw [List.forall_mem_append, List.forall_mem_singleton]
  refine ⟨?_, rfl⟩
  unfold constructorBody
  split <;> simp only [List.forall_mem_append, List.forall_mem_cons, List.forall_mem_map, Line.whole] <;> simp

theorem constructor_areGreedyLines (config : Config) (h : kind.IsBreakFree) :
    AreGreedyLines config ((constructorLines config kind).map (Line.inside config.output.namespaces.length))
      ((Constructor.ofKind kind).render config (blockStart config)).text := by
  have hopening : (constructorHeader kind).opening ≠ "" := by
    simp [constructorHeader, toString]
  have hheader := Line.write_isGreedy (constructorHeader_isBreakFree h) hopening
    (constructorHeader_pieces_ne_empty kind) (@blockStart_atMargin config) rfl
  rw [← constructor_header_eq] at hheader
  have hrest := Writes.at_blockStart
    ((@constructorBody_writes config kind _).indented.comp brace_writes)
  have hjoin := @join_constructor_stretches config kind
  simp only [Constructor.stretches, List.map_cons, List.map_nil, Stretch.text, String.join_cons] at hjoin
  rw [← hjoin]
  have hlines := hheader.areGreedyLines.append (hrest.areGreedyLines (constructorBody_pieces config kind))
  simpa [constructorLines, Constructor.rest, String.join] using hlines

/-- The lines of an updater behind its condition. -/
def updaterRest (kind : NodeKind) : List Line :=
  [.whole 2 (callText kind), .whole 2 "return updateFrom(node, newNode);", .whole 1 "\x7d",
    .whole 1 "return node;", .whole 0 "\x7d"]

theorem updaterRest_writes {updater : Updater} (h : Updater.ofKind? kind = some updater) :
    Writes config base 0 (updaterRest kind) fun out => updater.rest out.indent.indent := by
  have hcall : Writes config base 1 _ _ := (call_writes kind).indented
  have hinner := (hcall.comp (brace_writes.comp return_writes)).indented.comp brace_writes
  rw [eq_of_ofKind? h]
  unfold Updater.rest
  simp only [arguments_text]
  exact hinner

theorem updater_areGreedyLines (config : Config) (hfree : kind.IsBreakFree) {updater : Updater}
    (h : Updater.ofKind? kind = some updater) :
    AreGreedyLines config ((updaterLines kind).map (Line.inside config.output.namespaces.length))
      (updater.render config (blockStart config)).text := by
  have hopening : (updaterHeader kind).opening ≠ "" := by
    simp [updaterHeader, toString]
  have hif : (updaterCondition kind).opening ≠ "" := by
    simp [updaterCondition]
  have hheader := Line.write_isGreedy (updaterHeader_isBreakFree hfree) hopening
    (updaterHeader_pieces_ne_empty kind) (@blockStart_atMargin config) rfl
  have hcondition := Line.write_isGreedy (updaterCondition_isBreakFree hfree) hif
    (updaterCondition_pieces_ne_empty kind) (@blockStart_atMargin config).indent rfl
  rw [← updater_header_eq h] at hheader
  rw [← updater_condition_eq h] at hcondition
  have hpieces : ∀ line ∈ updaterRest kind, line.pieces = [] := by
    simp [updaterRest, Line.whole]
  have hrest := @Writes.at_blockStart config _ _ (updaterRest_writes h)
  have hjoin := @join_updater_stretches config _ _ h
  simp only [Updater.stretches, List.map_cons, List.map_nil, Stretch.text, String.join_cons] at hjoin
  rw [← hjoin]
  have hlines := hheader.areGreedyLines.append (hcondition.areGreedyLines.append (hrest.areGreedyLines hpieces))
  simpa [updaterLines, updaterRest, String.join] using hlines

theorem kind_areGreedyLines (config : Config) (h : kind.IsBreakFree) :
    AreGreedyLines config ((kind.lines config).map (Line.inside config.output.namespaces.length))
      (kind.block config) := by
  have hconstructor := constructor_areGreedyLines config h
  have hjoin := @join_kind_stretches config kind
  rw [← hjoin]
  unfold NodeKind.lines NodeKind.stretches
  split
  · exact areGreedyLines_nil
  · rw [List.map_append, List.map_append, String.join_append, join_constructor_stretches]
    refine hconstructor.append ?_
    cases hupdater : Updater.ofKind? kind with
    | none => exact areGreedyLines_nil
    | some updater =>
      have hlines := updater_areGreedyLines config h hupdater
      rwa [← join_updater_stretches hupdater] at hlines

theorem kinds_areGreedyLines (config : Config) : ∀ kinds : List NodeKind,
    (∀ kind ∈ kinds, kind.IsBreakFree) → AreGreedyLines config
      ((kinds.flatMap (NodeKind.lines config)).map (Line.inside config.output.namespaces.length))
      (blocks config kinds)
  | [], _ => areGreedyLines_nil
  | kind :: kinds, h => by
    rw [List.forall_mem_cons] at h
    rw [List.flatMap_cons, List.map_append, blocks, List.map_cons, String.join_cons]
    exact (kind_areGreedyLines config h.1).append (kinds_areGreedyLines config kinds h.2)

theorem footerText_isWritten (config : Config) :
    AreWritten config 0 (footerLines config.output.namespaces.length) (footerText config) := by
  obtain ⟨text, hlines, htext⟩ := footer_writes _ (@blockStart_atMargin config)
  rw [footerText, htext, blockStart, String.empty_append]
  exact hlines

end Parts

section Greedy

theorem map_inside_zero (lines : List Line) : lines.map (Line.inside 0) = lines := by
  have hinside : Line.inside 0 = id := funext fun line => by simp [Line.inside]
  rw [hinside, List.map_id]

/-- The file is a list of lines that are broken greedily: in front of a piece of a header or a condition a
break stands if and only if the characters of the row up to the piece, those of the piece and one more reach
the wrap column. So up to a piece that does not begin its row, a row keeps two characters away from the wrap
column, and a row that continues a line is indented one level more than the line. -/
theorem lines_are_greedy (config : Config) (kinds : List NodeKind) (h : ∀ kind ∈ kinds, kind.IsBreakFree) :
    AreGreedyLines config (fileLines config kinds) (renderFile config kinds) := by
  have hheader := (headerLines_write config).areGreedyLines (headerLines_pieces config)
  have hfooter := (footerText_isWritten config).areGreedyLines (footerLines_pieces _)
  rw [map_inside_zero] at hheader hfooter
  rw [renderFile_eq_join]
  exact (hheader.append (kinds_areGreedyLines config kinds h)).append hfooter

theorem lines_of_broken_if :
    (∀ kind ∈ [ifKind], kind.IsBreakFree)
    ∧ ifKind.block (Config.wrappedAt {} 60) ≠ ifKind.block {}
    ∧ AreGreedyLines (Config.wrappedAt {} 60) (fileLines (Config.wrappedAt {} 60) [ifKind])
      (renderFile (Config.wrappedAt {} 60) [ifKind]) := by
  have hfree : ∀ kind ∈ [ifKind], kind.IsBreakFree := by
    rw [List.forall_mem_singleton]
    exact ⟨by decide, by decide, by decide⟩
  exact ⟨hfree, by decide +kernel, lines_are_greedy _ [ifKind] hfree⟩

end Greedy

end NodeFactory
