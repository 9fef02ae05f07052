import NodeFactory.Proofs.Construction
import NodeFactory.Proofs.WrittenLines

/-!
# The functions of a kind, line by line

The constructor takes the fields in order and stores each once. The updater takes the fields that
are not only for the constructor, compares each with the field of the node, and calls the
constructor with an argument for every field. The file is its beginning, the functions of the kinds
in their order, and its end (`functions_line_up`).
-/

namespace NodeFactory

section Lines

variable (config : Config) (kind : NodeKind)

def creationText : String :=
  s!"createNode<{kind.declaringType}>({config.wellKnown.kindEnum}.{kind.name});"

def storeText (field : Field) : String :=
  if field.fieldClass = .modifiersArray then s!"setModifiers(node, {field.paramName});"
  else s!"node.{field.name} = {field.paramName};"

def argumentText (field : Field) : String :=
  if field.isFactoryOnly then s!"node.{field.name}" else field.paramName

def constructorHeader : Line where
  level := 0
  opening := s!"export function create{kind.name}("
  pieces := separatedBy ", " (kind.fields.map fun field => s!"{field.paramName}?: {field.typeText}")
    ++ [("", headerEnd kind.declaringType)]
  ending := ""

/-- What a constructor does; a call without arguments stores none of several fields. -/
def constructorBody : List Line :=
  match kind.fields with
  | [] => [.whole 1 ("return " ++ creationText config kind)]
  | [field] => [.whole 1 ("let node = " ++ creationText config kind), .whole 1 (storeText field),
      .whole 1 "return node;"]
  | fields => [.whole 1 ("let node = " ++ creationText config kind),
      .whole 1 "if (arguments.length) \x7b"] ++ fields.map (fun field => .whole 2 (storeText field))
      ++ [.whole 1 "\x7d", .whole 1 "return node;"]

def constructorLines : List Line :=
  [constructorHeader kind] ++ constructorBody config kind ++ [.whole 0 "\x7d"]

def updaterHeader : Line where
  level := 0
  opening := s!"export function update{kind.name}(node: {kind.declaringType}"
  pieces := ((kind.fields.filter fun field => !field.isFactoryOnly).map fun field =>
    (", ", s!"{field.paramName}: {field.typeText}")) ++ [("", headerEnd kind.declaringType)]
  ending := ""

def updaterCondition : Line where
  level := 1
  opening := "if ("
  pieces := separatedBy " || " ((kind.fields.filter fun field => !field.isFactoryOnly).map
    fun field => s!"{field.paramName} !== node.{field.name}")
  ending := ") \x7b"

def callText : String :=
  let arguments := ", ".intercalate (kind.fields.map argumentText)
  s!"let newNode = create{kind.name}({arguments});"

def updaterLines : List Line :=
  [updaterHeader kind, updaterCondition kind,
    .whole 2 (callText kind),
    .whole 2 "return updateFrom(node, newNode);", .whole 1 "\x7d", .whole 1 "return node;",
    .whole 0 "\x7d"]

/-- The texts of the constructor and of the updater of a kind. An empty text is no function. -/
structure AreFunctions (constructor updater : String) : Prop where
  constructor_absent : constructor = "" ↔ kind.name = config.output.rootKind
  updater_absent : updater = "" ↔ kind.name = config.output.rootKind ∨ kind.hasChildren = false
    ∨ ∀ field ∈ kind.fields, field.isFactoryOnly
  constructor_lines : constructor ≠ "" →
    AreWritten config config.output.namespaces.length (constructorLines config kind) constructor
  updater_lines : updater ≠ "" →
    AreWritten config config.output.namespaces.length (updaterLines kind) updater

/-- The lines that close a number of namespaces. -/
def footerLines (count : Nat) : List Line :=
  (List.range count).reverse.map fun level => .whole level "\x7d"

end Lines

section Functions

variable {config : Config} {kind : NodeKind} {base level : Nat}

theorem ofField_text (field : Field) : (Store.ofField field).text = storeText field := by
  unfold Store.ofField storeText
  split
  · rename_i h
    rw [if_pos h]
    rfl
  · rename_i h
    rw [if_neg h]
    rfl

theorem storeText_ne_empty (field : Field) : storeText field ≠ "" := by
  unfold storeText
  split <;> simp [toString]

theorem piece_ne_empty_of_mem_separatedBy {separator : String} {pieces : List String}
    (h : ∀ piece ∈ pieces, piece ≠ "") :
    ∀ piece ∈ separatedBy separator pieces, piece.2 ≠ "" := by
  cases pieces with
  | nil => simp [separatedBy]
  | cons piece pieces => simpa [separatedBy] using h

theorem headerEnd_ne_empty (declaringType : String) : headerEnd declaringType ≠ "" := by
  simp [headerEnd]

theorem brace_writes :
    Writes config base level [.whole level "\x7d"] fun out => out.line "\x7d" :=
  line_writes (by decide)

theorem return_writes :
    Writes config base level [.whole level "return node;"] fun out => out.line "return node;" :=
  line_writes (by decide)

theorem constructorHeader_pieces_ne_empty (kind : NodeKind) :
    ∀ piece ∈ (constructorHeader kind).pieces, piece.2 ≠ "" := by
  intro piece hmem
  rcases List.mem_append.1 hmem with hmem | hmem
  · refine piece_ne_empty_of_mem_separatedBy ?_ piece hmem
    simp [toString]
  · rw [List.mem_singleton.1 hmem]
    exact headerEnd_ne_empty _

theorem constructor_header_eq (kind : NodeKind) (out : IndentedText) :
    (Constructor.ofKind kind).header config out = (constructorHeader kind).write config out := by
  unfold Constructor.header Line.write constructorHeader
  simp only [Constructor.ofKind, List.map_map]
  rfl

theorem constructorHeader_writes :
    Writes config base 0 [constructorHeader kind] ((Constructor.ofKind kind).header config) := by
  have hopening : (constructorHeader kind).opening ≠ "" := by
    simp [constructorHeader, toString]
  intro out hout
  rw [constructor_header_eq]
  exact broken_writes config.output.columnWrap "" hopening (constructorHeader_pieces_ne_empty kind) out hout

theorem line_stores (fields : List Field) :
    Writes config base level (fields.map fun field => .whole level (storeText field)) fun out =>
      (fields.map Store.ofField).foldl (fun out store => out.line store.text) out := by
  simp only [List.foldl_map, ofField_text]
  exact Writes.foldl (fun field => line_writes (storeText_ne_empty field)) fields

theorem constructorBody_writes :
    Writes config base 1 (constructorBody config kind) ((Constructor.ofKind kind).body config) := by
  have hlet : Writes config base 1 [.whole 1 ("let node = " ++ creationText config kind)]
      fun out => out.line ("let node = " ++ creationText config kind) :=
    line_writes (by simp)
  unfold constructorBody Constructor.body Constructor.storing
  simp only [Constructor.ofKind, List.isEmpty_map, List.length_map]
  split
  · rename_i h
    simp only [h, List.isEmpty_nil, if_true]
    exact line_writes (by simp)
  · rename_i field h
    simp only [h, List.isEmpty_cons, List.length_singleton, Nat.lt_irrefl, if_false]
    exact (hlet.comp (line_stores [field])).comp return_writes
  · rename_i h₀ h₁
    have hlength : 1 < kind.fields.length := by
      rcases hfields : kind.fields with _ | ⟨first, _ | ⟨second, rest⟩⟩
      · exact absurd hfields h₀
      · exact absurd hfields (h₁ first)
      · simp
    have hempty : kind.fields.isEmpty = false := by
      rw [List.isEmpty_eq_false_iff]
      exact h₀
    simp only [hempty, hlength, if_true]
    have hif : Writes config base 1 [.whole 1 "if (arguments.length) \x7b"]
        fun out => out.line "if (arguments.length) \x7b" := line_writes (by decide)
    exact ((hlet.comp hif).comp (line_stores kind.fields).indented).comp (brace_writes.comp return_writes)

theorem constructor_writes :
    Writes config base 0 (constructorLines config kind) ((Constructor.ofKind kind).render config) :=
  (constructorHeader_writes.comp constructorBody_writes.indented).comp brace_writes

theorem updaterHeader_pieces_ne_empty (kind : NodeKind) :
    ∀ piece ∈ (updaterHeader kind).pieces, piece.2 ≠ "" := by
  intro piece hmem
  rcases List.mem_append.1 hmem with hmem | hmem
  · obtain ⟨field, -, rfl⟩ := List.mem_map.1 hmem
    simp [toString]
  · rw [List.mem_singleton.1 hmem]
    exact headerEnd_ne_empty _

theorem updater_header_eq {updater : Updater} (h : Updater.ofKind? kind = some updater)
    (out : IndentedText) : updater.header config out = (updaterHeader kind).write config out := by
  rw [eq_of_ofKind? h]
  unfold Updater.header Line.write updaterHeader
  simp only [List.map_map]
  rfl

theorem updaterHeader_writes {updater : Updater} (h : Updater.ofKind? kind = some updater) :
    Writes config base 0 [updaterHeader kind] (updater.header config) := by
  have hopening : (updaterHeader kind).opening ≠ "" := by
    simp [updaterHeader, toString]
  intro out hout
  rw [updater_header_eq h]
  exact broken_writes config.output.columnWrap "" hopening (updaterHeader_pieces_ne_empty kind) out hout

theorem updaterCondition_pieces_ne_empty (kind : NodeKind) :
    ∀ piece ∈ (updaterCondition kind).pieces, piece.2 ≠ "" := by
  refine piece_ne_empty_of_mem_separatedBy fun piece hmem => ?_
  obtain ⟨field, -, rfl⟩ := List.mem_map.1 hmem
  simp [toString]

theorem updater_condition_eq {updater : Updater} (h : Updater.ofKind? kind = some updater)
    (out : IndentedText) : updater.condition config out = (updaterCondition kind).write config out := by
  rw [eq_of_ofKind? h]
  unfold Updater.condition Line.write updaterCondition
  simp only [List.map_map]
  rfl

theorem updaterCondition_writes {updater : Updater} (h : Updater.ofKind? kind = some updater) :
    Writes config base 1 [updaterCondition kind] (updater.condition config) := by
  have hopening : (updaterCondition kind).opening ≠ "" := by
    simp [updaterCondition]
  intro out hout
  rw [updater_condition_eq h]
  exact broken_writes config.output.columnWrap ") \x7b" hopening
    (updaterCondition_pieces_ne_empty kind) out hout

theorem ofField_argument_text (field : Field) :
    (Argument.ofField field).text = argumentText field := by
  unfold Argument.ofField argumentText
  split
  · simp [Argument.text, toString]
  · rfl

theorem call_writes (kind : NodeKind) :
    Writes config base level [.whole level (callText kind), .whole level "return updateFrom(node, newNode);"]
      fun out => (out.line (callText kind)).line "return updateFrom(node, newNode);" := by
  have htext : callText kind ≠ "" := by
    unfold callText
    generalize ", ".intercalate (kind.fields.map argumentText) = arguments
    simp [toString]
  have hcall : Writes config base level [.whole level (callText kind)]
      fun out => out.line (callText kind) := line_writes htext
  exact hcall.comp (line_writes (by decide))

theorem arguments_text (kind : NodeKind) :
    (kind.fields.map Argument.ofField).map Argument.text = kind.fields.map argumentText := by
  simp only [List.map_map, Function.comp_def, ofField_argument_text]

theorem updater_writes {updater : Updater} (h : Updater.ofKind? kind = some updater) :
    Writes config base 0 (updaterLines kind) (updater.render config) := by
  have hcall : Writes config base 1 _ _ := (call_writes kind).indented
  have hbody := (((updaterCondition_writes h).comp hcall).comp
    (brace_writes.comp return_writes)).indented
  have hall := ((updaterHeader_writes h).comp hbody).comp brace_writes
  rw [eq_of_ofKind? h] at hall ⊢
  unfold Updater.render
  simp only [arguments_text]
  exact hall

end Functions

section File

variable {config : Config} {kind : NodeKind} {level : Nat} {out : IndentedText}

theorem AtMargin.line (h : AtMargin config level out) (text : String) :
    AtMargin config level (out.line text) := by
  by_cases htext : text = ""
  · rw [htext]
    unfold IndentedText.line IndentedText.write IndentedText.endLine
    simp only [if_true, h.isLineStart]
    exact h
  · have hwrites : Writes config level 0 [.whole 0 text] fun out => out.line text :=
      line_writes htext
    exact (hwrites out h).1

theorem AtMargin.indent (h : AtMargin config level out) : AtMargin config (level + 1) out.indent :=
  ⟨h.newLine, h.indentSize, congrArg (· + 1) h.level, h.isLineStart⟩

theorem AtMargin.outdent (h : AtMargin config (level + 1) out) : AtMargin config level out.outdent :=
  ⟨h.newLine, h.indentSize, congrArg (· - 1) h.level, h.isLineStart⟩

theorem AtMargin.times_indent : ∀ (n : Nat) {level : Nat} {out : IndentedText},
    AtMargin config level out → AtMargin config (level + n) (out.times n IndentedText.indent)
  | 0, _, _, h => h
  | n + 1, level, out, h => by
    have hinner := AtMargin.times_indent n h.indent
    rwa [Nat.add_assoc, Nat.add_comm 1 n] at hinner

theorem AtMargin.times_outdent : ∀ (n : Nat) {out : IndentedText},
    AtMargin config (level + n) out → AtMargin config level (out.times n IndentedText.outdent)
  | 0, _, h => h
  | n + 1, _, h => AtMargin.times_outdent n h.outdent

/-- A line that is only indented. -/
theorem AtMargin.emptyLine (h : AtMargin config level out) :
    AtMargin config level out.startLine.endLine := by
  unfold IndentedText.endLine IndentedText.startLine
  simp only [h.isLineStart, if_true]
  exact ⟨h.newLine, h.indentSize, h.level, rfl⟩

theorem AtMargin.helperLines : ∀ (lines : List (List Char)) {depth : Nat} {out : IndentedText},
    AtMargin config level out → AtMargin config level (renderHelperLines depth out lines)
  | [], _, _, h => h
  | line :: lines, depth, out, h => by
    rw [renderHelperLines]
    refine AtMargin.helperLines lines (AtMargin.times_outdent _ ?_)
    split
    · exact (AtMargin.times_indent _ h).emptyLine
    · exact (AtMargin.times_indent _ h).line _

theorem AtMargin.foldl {α : Type} {step : IndentedText → α → IndentedText} (rise : Nat)
    (hstep : ∀ {level out} a, AtMargin config level out → AtMargin config (level + rise) (step out a)) :
    ∀ (as : List α) {level : Nat} {out : IndentedText}, AtMargin config level out →
      AtMargin config (level + rise * as.length) (as.foldl step out)
  | [], _, _, h => h
  | a :: as, level, out, h => by
    rw [List.length_cons, Nat.mul_succ, Nat.add_comm _ rise, ← Nat.add_assoc]
    exact AtMargin.foldl rise hstep as (hstep a h)

theorem AtMargin.openNamespace (h : AtMargin config level out) (exported name : String) :
    AtMargin config (level + 1) (openNamespace exported out name) :=
  (h.line _).indent

theorem AtMargin.openNamespaces (h : AtMargin config 0 out) : ∀ names : List String,
    AtMargin config names.length (openNamespaces out names)
  | [] => h
  | name :: names => by
    have hopen := AtMargin.foldl 1 (fun name h => h.openNamespace "export " name) names
      (h.openNamespace "" name)
    rw [Nat.one_mul, Nat.zero_add, Nat.add_comm] at hopen
    exact hopen

/-- What stands in front of the namespaces. -/
def renderReferences (config : Config) : IndentedText :=
  config.output.references.foldl (fun out path => out.line s!"/// <reference path=\"{path}\" />")
    ((IndentedText.empty config.output.newLine.text config.output.indentSize).line
      "// <auto-generated />")

theorem renderReferences_atMargin (config : Config) : AtMargin config 0 (renderReferences config) := by
  have hempty : AtMargin config 0
      (IndentedText.empty config.output.newLine.text config.output.indentSize) :=
    ⟨rfl, rfl, rfl, rfl⟩
  have hreferences := AtMargin.foldl 0 (fun path h => h.line
    s!"/// <reference path=\"{path}\" />") config.output.references
    (hempty.line "// <auto-generated />")
  rwa [Nat.zero_mul, Nat.add_zero] at hreferences

theorem renderHeader_atMargin (config : Config) :
    AtMargin config config.output.namespaces.length (renderHeader config) :=
  ((renderReferences_atMargin config).openNamespaces config.output.namespaces).helperLines _

theorem ofKind?_eq_none_iff : Updater.ofKind? kind = none ↔
    kind.hasChildren = false ∨ ∀ field ∈ kind.fields, field.isFactoryOnly := by
  unfold Updater.ofKind? NodeKind.compared
  cases kind.hasChildren <;> simp

theorem kind_writes (kind : NodeKind) (h : AtMargin config config.output.namespaces.length out) :
    AtMargin config config.output.namespaces.length (kind.render config out)
      ∧ ∃ constructor updater, AreFunctions config kind constructor updater
        ∧ (kind.render config out).text = out.text ++ (constructor ++ updater) := by
  unfold NodeKind.render
  split
  · rename_i hroot
    exact ⟨h, "", "", ⟨by simp [hroot], by simp [hroot], by simp, by simp⟩, by simp⟩
  · rename_i hroot
    obtain ⟨hmargin, constructor, hconstructor, htext⟩ :=
      constructor_writes out h
    have hne : constructor ≠ "" := hconstructor.ne_empty
    cases hupdater : Updater.ofKind? kind with
    | none =>
      refine ⟨hmargin, constructor, "", ⟨?_, ?_, fun _ => hconstructor, by simp⟩, by simpa using htext⟩
      · simp [hne, hroot]
      · simp only [true_iff]
        exact .inr (ofKind?_eq_none_iff.1 hupdater)
    | some function =>
      obtain ⟨hmargin', updater, hlines, htext'⟩ := updater_writes hupdater _ hmargin
      have hne' : updater ≠ "" := hlines.ne_empty
      have hpresent := mt ofKind?_eq_none_iff.2 (hupdater ▸ Option.some_ne_none function)
      refine ⟨hmargin', constructor, updater, ⟨?_, ?_, fun _ => hconstructor, fun _ => hlines⟩, ?_⟩
      · simp [hne, hroot]
      · simp only [hne', hroot, false_or, false_iff]
        exact hpresent
      · rw [htext', htext, String.append_assoc]

theorem kinds_write : ∀ (kinds : List NodeKind) {out : IndentedText},
    AtMargin config config.output.namespaces.length out →
      AtMargin config config.output.namespaces.length (kinds.foldl (NodeKind.render config) out)
        ∧ ∃ texts : List (String × String),
          List.Forall₂ (fun kind text => AreFunctions config kind text.1 text.2) kinds texts
            ∧ (kinds.foldl (NodeKind.render config) out).text
              = out.text ++ String.join (texts.map fun text => text.1 ++ text.2)
  | [], _, h => ⟨h, [], .nil, by simp [String.join]⟩
  | kind :: kinds, out, h => by
    obtain ⟨hmargin, constructor, updater, hfunctions, htext⟩ := kind_writes kind h
    obtain ⟨hend, texts, hkinds, hrest⟩ := kinds_write kinds hmargin
    refine ⟨hend, (constructor, updater) :: texts, .cons hfunctions hkinds, ?_⟩
    rw [List.foldl_cons, hrest, htext, List.map_cons, String.join_cons, String.append_assoc]

theorem footer_writes : ∀ (count : Nat) {out : IndentedText}, AtMargin config count out →
    ∃ text, AreWritten config 0 (footerLines count) text
      ∧ (out.times count fun out => out.outdent.line "\x7d").text = out.text ++ text
  | 0, out, _ => ⟨"", areWritten_nil, by simp [IndentedText.times]⟩
  | count + 1, out, h => by
    have hmargin : AtMargin config (0 + count) out.outdent := by
      rw [Nat.zero_add]
      exact h.outdent
    obtain ⟨text, hline, htext⟩ := (brace_writes out.outdent hmargin).2
    obtain ⟨rest, hlines, hrest⟩ := footer_writes count (h.outdent.line "\x7d")
    refine ⟨text ++ rest, ?_, ?_⟩
    · have hfooter : footerLines (count + 1) = [.whole count "\x7d"] ++ footerLines count := by
        simp [footerLines, List.range_succ]
      rw [hfooter]
      exact hline.append hlines
    · rw [IndentedText.times, hrest, htext, String.append_assoc]
      rfl

/-- The file is its beginning, a constructor and an updater for each kind in order, and its end.
Where a kind has functions, their lines are made of the fields in order, after the breaks in the
lines are undone. -/
theorem functions_line_up (config : Config) (kinds : List NodeKind) :
    ∃ (texts : List (String × String)) (footer : String),
      List.Forall₂ (fun kind text => AreFunctions config kind text.1 text.2) kinds texts
        ∧ AreWritten config 0 (footerLines config.output.namespaces.length) footer
        ∧ renderFile config kinds = (renderHeader config).text
          ++ String.join (texts.map fun text => text.1 ++ text.2) ++ footer := by
  obtain ⟨hmargin, texts, hkinds, htext⟩ := kinds_write kinds (renderHeader_atMargin config)
  obtain ⟨footer, hfooter, hend⟩ := footer_writes _ hmargin
  refine ⟨texts, footer, hkinds, hfooter, ?_⟩
  rw [← htext, ← hend]
  rfl

end File

end NodeFactory
