import NodeFactory.Proofs.BraceNesting

/-!
# The file is nested

The lines of the file nest: the namespaces open one inside the other, the helpers and the functions close what
they open, and the last lines close the namespaces. The depth of a line of the helpers is read off the spaces
in front of it in their text, and is how deep the line stands in braces (`helperLines_eq`). So a file without
broken lines is indented as its braces nest (`indentation_mirrors_nesting`).
-/

namespace NodeFactory

open Text

section Helpers

def setModifiersHead (names : WellKnownNames) : String :=
  s!"function setModifiers(node: {names.node}, modifiers: {names.modifiersArray}) \x7b"

def updateFromHead (names : WellKnownNames) : String :=
  s!"function updateFrom<T extends {names.node}>(oldNode: T, newNode: T): T \x7b"

/-- The lines of the helpers. -/
def helperOutline (names : WellKnownNames) : List Line := [
  .whole 0 (setModifiersHead names),
  .whole 1 "if (modifiers) \x7b",
  .whole 2 "node.flags |= modifiers.flags;",
  .whole 2 "node.modifiers = modifiers;",
  .whole 1 "\x7d",
  .whole 0 "\x7d",
  .whole 0 (updateFromHead names),
  .whole 1 "let flags = oldNode.flags;",
  .whole 1 "if (oldNode.modifiers) \x7b",
  .whole 2 "flags &= oldNode.modifiers.flags;",
  .whole 1 "\x7d",
  .whole 1 "",
  .whole 1 "if (newNode.modifiers) \x7b",
  .whole 2 "flags |= newNode.modifiers.flags;",
  .whole 1 "\x7d",
  .whole 1 "",
  .whole 1 "newNode.flags = flags;",
  .whole 1 "newNode.pos = oldNode.pos;",
  .whole 1 "newNode.end = oldNode.end;",
  .whole 1 "newNode.parent = oldNode.parent;",
  .whole 1 "return newNode;",
  .whole 0 "\x7d"]

theorem splitLines_of_isOneLine : ∀ {row : List Char}, row ≠ [] → (∀ c ∈ row, c ≠ '\n' ∧ c ≠ '\r') →
    splitLines row = [row]
  | [c], _, h => by
    rw [List.forall_mem_singleton] at h
    rw [splitLines]
    · rfl
    · exact fun hc => h.1 hc
    · exact fun cs hc => absurd hc h.2
  | c :: c' :: row, _, h => by
    rw [List.forall_mem_cons] at h
    rw [splitLines, splitLines_of_isOneLine (List.cons_ne_nil _ _) h.2]
    · exact fun hc => h.1.1 hc
    · exact fun cs hc => absurd hc h.1.2

/-- Lines that are joined by line feeds come apart again, where the last is not empty. -/
theorem splitLines_intercalate : ∀ {texts : List String}, (∀ text ∈ texts, IsOneLine text) →
    (∀ last ∈ texts.getLast?, last ≠ "") → splitLines ("\n".intercalate texts).toList = texts.map String.toList
  | [], _, _ => rfl
  | [text], h, hlast => by
    rw [List.forall_mem_singleton] at h
    have hne : text.toList ≠ [] := by simpa using hlast text rfl
    rw [String.intercalate_singleton, splitLines_of_isOneLine hne h]
    rfl
  | text :: text' :: texts, h, hlast => by
    rw [List.forall_mem_cons] at h
    have hrest := splitLines_intercalate h.2 (by simpa using hlast)
    rw [String.intercalate_cons_cons, String.toList_append, String.toList_append]
    exact (splitLines_append .lf _ h.1).trans (congrArg _ hrest)

theorem helperLines_flush {text : String} (h : ∃ c ∈ text.toList.head?, isWhiteSpace c = false)
    (depth : Nat) (lines : List (List Char)) :
    helperLines depth (text.toList :: lines) = .whole 0 text :: helperLines 0 lines := by
  obtain ⟨c, hfirst, hc⟩ := h
  obtain ⟨cs, hcs⟩ := List.head?_eq_some_iff.1 hfirst
  have hdrop : text.toList.dropWhile isWhiteSpace = text.toList := by
    rw [hcs, List.dropWhile_cons_of_neg (by simp [hc])]
  have htake : text.toList.takeWhile isWhiteSpace = [] := by
    rw [hcs, List.takeWhile_cons_of_neg (by simp [hc])]
  have hne : text.toList.isEmpty = false := by rw [hcs]; rfl
  rw [helperLines, hdrop, htake, hne, String.ofList_toList]
  rfl

theorem helperLines_eq {names : WellKnownNames} (hnode : IsOneLine names.node)
    (hmodifiers : IsOneLine names.modifiersArray) :
    helperLines 0 (splitLines (helperText names).toList) = helperOutline names := by
  have hset : IsOneLine (setModifiersHead names) :=
    ((((IsOneLine.append (by decide) hnode).append (by decide)).append hmodifiers).append (by decide))
  have hupdate : IsOneLine (updateFromHead names) :=
    (IsOneLine.append (by decide) hnode).append (by decide)
  unfold setModifiersHead at hset
  unfold updateFromHead at hupdate
  rw [helperText, splitLines_intercalate]
  · simp only [List.map_cons, List.map_nil]
    rw [helperLines_flush ⟨'f', by simp [toString, String.toList_append], by decide⟩]
    -- The lines of the first body have no names in them, and evaluate.
    show _ :: _ :: _ :: _ :: _ :: _ :: helperLines 0 _ = _
    rw [helperLines_flush ⟨'f', by simp [toString, String.toList_append], by decide⟩]
    rfl
  · simp only [List.forall_mem_cons, hset, hupdate, true_and]
    decide
  · simp

end Helpers

section Functions

/-- No text that comes from the schema into the functions of a kind has a line break or a brace. -/
structure NodeKind.IsPlain (kind : NodeKind) : Prop where
  name : NodeFactory.IsPlain kind.name
  declaringType : NodeFactory.IsPlain kind.declaringType
  fields : ∀ field ∈ kind.fields, NodeFactory.IsPlain field.name ∧ NodeFactory.IsPlain field.typeText

/-- No text that comes from the settings into the file has a line break or a brace. -/
structure Config.IsPlain (config : Config) : Prop where
  namespaces : ∀ name ∈ config.output.namespaces, NodeFactory.IsPlain name
  references : ∀ path ∈ config.output.references, NodeFactory.IsPlain path
  node : NodeFactory.IsPlain config.wellKnown.node
  modifiersArray : NodeFactory.IsPlain config.wellKnown.modifiersArray
  kindEnum : NodeFactory.IsPlain config.wellKnown.kindEnum

theorem NodeKind.IsPlain.isBreakFree {kind : NodeKind} (h : kind.IsPlain) : kind.IsBreakFree :=
  ⟨h.name.isOneLine, h.declaringType.isOneLine,
    fun field hfield => ⟨(h.fields field hfield).1.isOneLine, (h.fields field hfield).2.isOneLine⟩⟩

variable {config : Config} {kind : NodeKind} {level : Nat} {text text' : String}

theorem Opens.append (h : IsPlain text) (h' : Opens text') : Opens (text ++ text') := by
  obtain ⟨before, rfl, hplain⟩ := h'
  exact ⟨text ++ before, String.append_assoc.symm, h.append hplain⟩

theorem IsFlush.append (h : IsFlush text) (hne : text ≠ "") : IsFlush (text ++ text') := by
  unfold IsFlush at h ⊢
  rw [String.toList_append]
  cases htext : text.toList with
  | nil => exact absurd (String.toList_eq_nil_iff.1 htext) hne
  | cons c cs =>
    rw [htext] at h
    exact h

theorem content_whole (level : Nat) (text : String) : (Line.whole level text).content = text := by
  simp [Line.content, Line.whole, joinPieces, String.join]

theorem whole_nests (h : IsPlain text) (hflush : IsFlush text) :
    (Line.whole level text).Nests level level := by
  rw [← content_whole level text] at h hflush
  exact .level h hflush

theorem whole_opens (h : Opens text) (hflush : IsFlush text) :
    (Line.whole level text).Nests level (level + 1) := by
  rw [← content_whole level text] at h hflush
  exact .opens h hflush

theorem joinPieces_isPlain {pieces : List (String × String)}
    (h : ∀ piece ∈ pieces, IsPlain piece.1 ∧ IsPlain piece.2) : IsPlain (joinPieces pieces) := by
  refine IsPlain.join ?_
  rw [List.forall_mem_map]
  exact fun piece hpiece => (h piece hpiece).1.append (h piece hpiece).2

theorem intercalate_isPlain {separator : String} (hseparator : IsPlain separator) :
    ∀ {texts : List String}, (∀ text ∈ texts, IsPlain text) → IsPlain (separator.intercalate texts)
  | [], _ => isPlain_empty
  | [text], h => by
    rw [String.intercalate_singleton]
    exact h text (List.mem_singleton_self _)
  | text :: text' :: texts, h => by
    rw [List.forall_mem_cons] at h
    rw [String.intercalate_cons_cons]
    exact (h.1.append hseparator).append (intercalate_isPlain hseparator h.2)

theorem separatedBy_isPlain {separator : String} (hseparator : IsPlain separator) {texts : List String}
    (h : ∀ text ∈ texts, IsPlain text) :
    ∀ piece ∈ separatedBy separator texts, IsPlain piece.1 ∧ IsPlain piece.2 := by
  cases texts with
  | nil => simp [separatedBy]
  | cons text texts =>
    rw [List.forall_mem_cons] at h
    rw [separatedBy, List.forall_mem_cons, List.forall_mem_map]
    exact ⟨⟨isPlain_empty, h.1⟩, fun text htext => ⟨hseparator, h.2 text htext⟩⟩

theorem paramName_isPlain {field : Field} (h : IsPlain field.name) : IsPlain field.paramName := by
  unfold Field.paramName
  split
  · decide
  · exact h

/-- A header ends with the brace that its function opens. -/
theorem header_opens {pieces : List (String × String)} (h : ∀ piece ∈ pieces, IsPlain piece.1 ∧ IsPlain piece.2)
    {opening declaringType : String} (hopening : IsPlain opening) (htype : IsPlain declaringType) :
    Opens (opening ++ joinPieces (pieces ++ [("", headerEnd declaringType)]) ++ "") := by
  rw [joinPieces_append, String.append_empty]
  refine (Opens.append (joinPieces_isPlain h) ?_).append hopening
  have hend : Opens (headerEnd declaringType) :=
    Opens.append (IsPlain.append (by decide) htype) (by decide : Opens " \x7b")
  simpa [joinPieces, String.join] using hend

theorem constructorHeader_nests (h : kind.IsPlain) : (constructorHeader kind).Nests 0 1 := by
  refine @Line.Nests.opens (constructorHeader kind) (header_opens ?_ ?_ h.declaringType) ?_
  · refine separatedBy_isPlain (by decide) ?_
    rw [List.forall_mem_map]
    intro field hfield
    obtain ⟨hname, htype⟩ := h.fields field hfield
    exact ((paramName_isPlain hname).append (by decide)).append htype
  · exact (IsPlain.append (by decide) h.name).append (by decide)
  · simp [IsFlush, Line.content, constructorHeader, toString, String.toList_append]

theorem creationText_isPlain (hconfig : config.IsPlain) (h : kind.IsPlain) :
    IsPlain (creationText config kind) :=
  (((((IsPlain.append (by decide) h.declaringType).append (by decide)).append hconfig.kindEnum).append
    (by decide)).append h.name).append (by decide)

theorem store_nests {field : Field} (h : IsPlain field.name) :
    (Line.whole level (storeText field)).Nests level level := by
  have hparam := paramName_isPlain h
  unfold storeText
  split
  · refine whole_nests ((IsPlain.append (by decide) hparam).append (by decide)) ?_
    simp [IsFlush, toString, String.toList_append]
  · refine whole_nests ((((IsPlain.append (by decide) h).append (by decide)).append hparam).append
      (by decide)) ?_
    simp [IsFlush, toString, String.toList_append]

theorem return_nests : (Line.whole level "return node;").Nests level level :=
  whole_nests (by decide) (by decide)

theorem constructorBody_nested (hconfig : config.IsPlain) (h : kind.IsPlain) :
    AreNested 1 (constructorBody config kind) 1 := by
  have hcreation := creationText_isPlain hconfig h
  have hlet : (Line.whole 1 ("let node = " ++ creationText config kind)).Nests 1 1 :=
    whole_nests (IsPlain.append (by decide) hcreation) (IsFlush.append (by decide) (by decide))
  unfold constructorBody
  split
  case h_1 hnone =>
    exact .cons (whole_nests (IsPlain.append (by decide) hcreation) (IsFlush.append (by decide) (by decide)))
      .nil
  case h_2 field hone =>
    have hfield := (h.fields field (by simp [hone])).1
    exact .cons hlet (.cons (store_nests hfield) (.cons return_nests .nil))
  case h_3 hnone hone =>
    have hif : (Line.whole 1 "if (arguments.length) \x7b").Nests 1 2 :=
      whole_opens (by decide) (by decide)
    have hstores : AreNested 2 (kind.fields.map fun field => .whole 2 (storeText field)) 2 :=
      .map fun field hfield => store_nests (h.fields field hfield).1
    exact (AreNested.append (.cons hlet (.cons hif .nil)) hstores).append
      (.cons .closes (.cons return_nests .nil))

theorem constructorLines_nested (hconfig : config.IsPlain) (h : kind.IsPlain) :
    AreNested 0 (constructorLines config kind) 0 :=
  ((constructorHeader_nests h).areNested.append (constructorBody_nested hconfig h)).append
    (Line.Nests.closes.areNested)

theorem updaterHeader_nests (h : kind.IsPlain) : (updaterHeader kind).Nests 0 1 := by
  refine @Line.Nests.opens (updaterHeader kind) (header_opens ?_ ?_ h.declaringType) ?_
  · rw [List.forall_mem_map]
    intro field hfield
    obtain ⟨hname, htype⟩ := h.fields field (List.mem_of_mem_filter hfield)
    exact ⟨(by decide : IsPlain ", "), ((paramName_isPlain hname).append (by decide)).append htype⟩
  · exact ((IsPlain.append (by decide) h.name).append (by decide)).append h.declaringType
  · simp [IsFlush, Line.content, updaterHeader, toString, String.toList_append]

theorem updaterCondition_nests (h : kind.IsPlain) : (updaterCondition kind).Nests 1 2 := by
  refine @Line.Nests.opens (updaterCondition kind) (Opens.append ?_ (by decide : Opens ") \x7b")) ?_
  · refine IsPlain.append (by decide : IsPlain "if (") (joinPieces_isPlain (separatedBy_isPlain (by decide) ?_))
    rw [List.forall_mem_map]
    intro field hfield
    have hname := (h.fields field (List.mem_of_mem_filter hfield)).1
    exact ((paramName_isPlain hname).append (by decide)).append hname
  · simp [IsFlush, Line.content, updaterCondition, String.toList_append]

theorem call_nests (h : kind.IsPlain) : (Line.whole 2 (callText kind)).Nests 2 2 := by
  have harguments : IsPlain (", ".intercalate (kind.fields.map argumentText)) := by
    refine intercalate_isPlain (by decide) ?_
    rw [List.forall_mem_map]
    intro field hfield
    have hname := (h.fields field hfield).1
    unfold argumentText
    split
    · exact IsPlain.append (by decide) hname
    · exact paramName_isPlain hname
  refine whole_nests ((((IsPlain.append (by decide) h.name).append (by decide)).append harguments).append
    (by decide)) ?_
  unfold callText
  generalize ", ".intercalate (kind.fields.map argumentText) = arguments
  simp [IsFlush, toString, String.toList_append]

theorem updaterLines_nested (h : kind.IsPlain) : AreNested 0 (updaterLines kind) 0 := by
  have hupdate : (Line.whole 2 "return updateFrom(node, newNode);").Nests 2 2 :=
    whole_nests (by decide) (by decide)
  exact .cons (updaterHeader_nests h) <| .cons (updaterCondition_nests h) <| .cons (call_nests h) <|
    .cons hupdate <| .cons .closes <| .cons return_nests <| .cons .closes .nil

theorem kindLines_nested (hconfig : config.IsPlain) (h : kind.IsPlain) :
    AreNested 0 (kind.lines config) 0 := by
  unfold NodeKind.lines
  split
  · exact .nil
  · refine (constructorLines_nested hconfig h).append ?_
    cases Updater.ofKind? kind with
    | none => exact .nil
    | some _ => exact updaterLines_nested h

end Functions

section File

variable {config : Config}

theorem helperOutline_nested (hconfig : config.IsPlain) : AreNested 0 (helperOutline config.wellKnown) 0 := by
  have hline {text : String} {level : Nat} (h : IsPlain text ∧ IsFlush text) :
      (Line.whole level text).Nests level level := whole_nests h.1 h.2
  have hif {text : String} {level : Nat} (h : Opens text ∧ IsFlush text) :
      (Line.whole level text).Nests level (level + 1) := whole_opens h.1 h.2
  have hset : Opens (setModifiersHead config.wellKnown) ∧ IsFlush (setModifiersHead config.wellKnown) := by
    unfold setModifiersHead
    refine ⟨Opens.append (((IsPlain.append (by decide) hconfig.node).append (by decide)).append
      hconfig.modifiersArray) (by decide : Opens ") \x7b"), ?_⟩
    simp [IsFlush, toString, String.toList_append]
  have hupdate : Opens (updateFromHead config.wellKnown) ∧ IsFlush (updateFromHead config.wellKnown) := by
    unfold updateFromHead
    refine ⟨Opens.append (IsPlain.append (by decide) hconfig.node)
      (by decide : Opens ">(oldNode: T, newNode: T): T \x7b"), ?_⟩
    simp [IsFlush, toString, String.toList_append]
  unfold helperOutline
  exact .cons (hif hset) <| .cons (hif (by decide)) <| .cons (hline (by decide)) <|
    .cons (hline (by decide)) <| .cons .closes <| .cons .closes <|
    .cons (hif hupdate) <| .cons (hline (by decide)) <| .cons (hif (by decide)) <|
    .cons (hline (by decide)) <| .cons .closes <| .cons (hline (by decide)) <| .cons (hif (by decide)) <|
    .cons (hline (by decide)) <| .cons .closes <| .cons (hline (by decide)) <| .cons (hline (by decide)) <|
    .cons (hline (by decide)) <| .cons (hline (by decide)) <| .cons (hline (by decide)) <|
    .cons (hline (by decide)) <| .cons .closes .nil

theorem namespaceLines_nested (exported : String) (hexported : exported ∈ ["", "export "]) :
    ∀ (level : Nat) (names : List String), (∀ name ∈ names, IsPlain name) →
      AreNested level (namespaceLines exported level names) (level + names.length)
  | _, [], _ => .nil
  | level, name :: names, h => by
    rw [List.forall_mem_cons] at h
    have hrest := namespaceLines_nested "export " (by simp) (level + 1) names h.2
    rw [List.length_cons, Nat.add_comm names.length 1, ← Nat.add_assoc]
    have hword : IsPlain (exported ++ "namespace ") ∧ IsFlush (exported ++ "namespace ")
        ∧ exported ++ "namespace " ≠ "" := by
      rcases List.mem_pair.1 hexported with rfl | rfl <;> decide
    refine .cons (whole_opens (Opens.append (hword.1.append h.1) (by decide : Opens " \x7b")) ?_) hrest
    exact String.append_assoc ▸ hword.2.1.append hword.2.2

theorem footerLines_nested : ∀ count : Nat, AreNested count (footerLines count) 0
  | 0 => .nil
  | count + 1 => by
    have hfooter : footerLines (count + 1) = .whole count "\x7d" :: footerLines count := by
      simp [footerLines, List.range_succ]
    rw [hfooter]
    exact .cons .closes (footerLines_nested count)

theorem headerLines_nested (hconfig : config.IsPlain) :
    AreNested 0 (headerLines config) config.output.namespaces.length := by
  have hmark : (Line.whole 0 "// <auto-generated />").Nests 0 0 := whole_nests (by decide) (by decide)
  have hreferences : AreNested 0 (config.output.references.map fun path =>
      .whole 0 s!"/// <reference path=\"{path}\" />") 0 := by
    refine .map fun path hpath => whole_nests ?_ ?_
    · exact (IsPlain.append (by decide) (hconfig.references path hpath)).append (by decide)
    · simp [IsFlush, toString, String.toList_append]
  have hnamespaces := namespaceLines_nested "" (by simp) 0 _ hconfig.namespaces
  have hhelpers := (helperOutline_nested hconfig).inside config.output.namespaces.length
  rw [← helperLines_eq hconfig.node.isOneLine hconfig.modifiersArray.isOneLine] at hhelpers
  rw [Nat.zero_add] at hnamespaces
  exact ((AreNested.cons hmark hreferences).append hnamespaces).append hhelpers

theorem fileLines_nested (hconfig : config.IsPlain) {kinds : List NodeKind}
    (hkinds : ∀ kind ∈ kinds, kind.IsPlain) : AreNested 0 (fileLines config kinds) 0 := by
  have hlines := (AreNested.flatMap fun kind hkind => kindLines_nested hconfig (hkinds kind hkind)).inside
    config.output.namespaces.length
  exact ((headerLines_nested hconfig).append hlines).append (footerLines_nested _)

/-- A row of the file as it is where its line is not broken. -/
theorem unbroken_isGreedy {lines : List Line} {text : String} (h : AreGreedyLines config lines text)
    (honeLine : ∀ line ∈ lines, IsOneLine line.content)
    (hwidth : ∀ line ∈ lines, (line.row config).length + 2 ≤ config.output.columnWrap) :
    text.toList = unbrokenText config lines := by
  obtain ⟨texts, hlines, rfl⟩ := h
  induction hlines with
  | nil => rfl
  | @cons line text lines texts hline _ ih =>
    rw [List.forall_mem_cons] at honeLine hwidth
    have hjoined : line.joined config 0
        = indentation config line.level ++ line.content ++ config.output.newLine.text := by
      simp only [Line.joined, Line.content, String.append_assoc, Nat.zero_add]
    have hfirst := hline.eq_joined honeLine.1 (by
      rw [Nat.zero_add, ← String.length_toList]
      exact hwidth.1)
    rw [String.join_cons, String.toList_append, ih honeLine.2 hwidth.2, hfirst, hjoined, String.toList_append]
    rfl

theorem AreNested.isOneLine {depth depth' : Nat} {lines : List Line} (h : AreNested depth lines depth') :
    ∀ line ∈ lines, IsOneLine line.content := by
  induction h with
  | nil => simp
  | cons hline _ ih =>
    rw [List.forall_mem_cons]
    refine ⟨?_, ih⟩
    cases hline with
    | level hplain _ => exact hplain.isOneLine
    | opens hopens _ => exact hopens.isOneLine
    | closes =>
      rw [content_whole]
      decide

/-- Where the wrap column is two characters wider than every line is before it is broken, every row of the
file is indented as deep as it stands in braces, and the braces of the file match. -/
theorem indentation_mirrors_nesting (hconfig : config.IsPlain) {kinds : List NodeKind}
    (hkinds : ∀ kind ∈ kinds, kind.IsPlain)
    (hwidth : ∀ line ∈ fileLines config kinds, (line.row config).length + 2 ≤ config.output.columnWrap) :
    MirrorsNesting config.output.indentSize (renderFile config kinds) := by
  have hnested := fileLines_nested hconfig hkinds
  have hgreedy := lines_are_greedy config kinds fun kind hkind => (hkinds kind hkind).isBreakFree
  exact hnested.mirrorsNesting (unbroken_isGreedy hgreedy hnested.isOneLine hwidth)

/-- Lines without pieces are not broken. -/
theorem AreWritten.toList_eq {lines : List Line} {text : String} (hlines : ∀ line ∈ lines, line.pieces = [])
    (h : AreWritten config 0 lines text) : text.toList = unbrokenText config lines := by
  obtain ⟨texts, hwritten, rfl⟩ := h
  induction hwritten with
  | nil => rfl
  | @cons line _ lines _ hline _ ih =>
    rw [List.forall_mem_cons] at hlines
    obtain ⟨broken, hbreaks, rfl⟩ := hline
    rw [hlines.1] at hbreaks
    cases hbreaks
    rw [String.join_cons, String.toList_append, ih hlines.2, unbrokenText, unbrokenText, List.flatMap_cons]
    simp [Line.row, Line.content, joinPieces, hlines.1, String.join, String.toList_append]

theorem splitLines_renderFile (hconfig : config.IsPlain) (kinds : List NodeKind) :
    splitLines (renderFile config kinds).toList = (headerLines config).map (Line.row config)
      ++ splitLines (blocks config kinds ++ footerText config).toList := by
  rw [renderFile_eq_join, String.append_assoc, String.toList_append,
    (headerLines_write config).toList_eq (headerLines_pieces config),
    (headerLines_nested hconfig).splitLines_append config]

/-- Behind the helpers, indentation goes on from the level of the innermost namespace. -/
theorem MirrorsNesting.behind_header (hconfig : config.IsPlain) {kinds : List NodeKind}
    (h : MirrorsNesting config.output.indentSize (renderFile config kinds)) : ∀ above row below,
      splitLines (blocks config kinds ++ footerText config).toList = above ++ row :: below →
        ((row.takeWhile (· == ' ')).length : Int)
          = config.output.indentSize * (config.output.namespaces.length + rowDepth above row) := by
  intro above row below hsplit
  have hdepth := (headerLines_nested hconfig).braceDepth_rows config
  rw [Int.ofNat_zero, Int.zero_add] at hdepth
  have hmargin := h.margins ((headerLines config).map (Line.row config) ++ above) row below (by
    rw [splitLines_renderFile hconfig, hsplit, List.append_assoc])
  rw [hmargin, rowDepth, rowDepth, List.flatten_append, braceDepth_append, hdepth, Int.add_sub_assoc]

theorem row_length (line : Line) :
    (line.row config).length = line.level * config.output.indentSize + line.content.length := by
  rw [Line.row, String.length_toList, String.length_append, length_indentation]

/-- Settings with short names and without namespaces. -/
def bareConfig (columnWrap : Nat) : Config where
  wellKnown := { node := "N", modifiersArray := "M", kindEnum := "K" }
  output := { columnWrap, namespaces := [], references := [] }

/-- A kind whose constructor has the longest line of the file, of 64 characters. -/
def nameKind : NodeKind where
  name := "Name"
  value := none
  symbol := 0
  declaringType := "Name"
  fields := [⟨"t", "LongTypeNameLongTypeName", false, .node, false⟩]
  hasChildren := false
  requiredCount := 0

theorem bareConfig_isPlain (columnWrap : Nat) : (bareConfig columnWrap).IsPlain :=
  ⟨by simp [bareConfig], by simp [bareConfig], (by decide : IsPlain "N"), (by decide : IsPlain "M"),
    (by decide : IsPlain "K")⟩

theorem nameKind_isPlain : ∀ kind ∈ [nameKind], kind.IsPlain := by
  rw [List.forall_mem_singleton]
  exact ⟨by decide, by decide, by decide⟩

theorem bare_row_length (columnWrap : Nat) : ∀ line ∈ fileLines (bareConfig columnWrap) [nameKind],
    (line.row (bareConfig columnWrap)).length ≤ 64 := by
  have hplain := bareConfig_isPlain columnWrap
  have hlines : fileLines (bareConfig columnWrap) [nameKind]
      = .whole 0 "// <auto-generated />" :: (helperOutline (bareConfig 0).wellKnown ++ nameKind.lines (bareConfig 0)) := by
    unfold fileLines headerLines
    rw [helperLines_eq hplain.node.isOneLine hplain.modifiersArray.isOneLine,
      show (bareConfig columnWrap).output.namespaces.length = 0 from rfl, map_inside_zero, map_inside_zero]
    simp [bareConfig, namespaceLines, footerLines, NodeKind.lines, constructorLines, constructorBody, nameKind,
      creationText]
  rw [hlines]
  simp only [row_length]
  show ∀ line ∈ Line.whole 0 "// <auto-generated />"
      :: (helperOutline (bareConfig 0).wellKnown ++ nameKind.lines (bareConfig 0)),
    line.level * 4 + line.content.length ≤ 64
  decide +kernel

theorem nesting_of_name :
    (bareConfig 66).IsPlain ∧ (∀ kind ∈ [nameKind], kind.IsPlain)
    ∧ (∀ line ∈ fileLines (bareConfig 66) [nameKind], (line.row (bareConfig 66)).length + 2 ≤ 66)
    ∧ MirrorsNesting 4 (renderFile (bareConfig 66) [nameKind]) := by
  have hwidth : ∀ line ∈ fileLines (bareConfig 66) [nameKind], (line.row (bareConfig 66)).length + 2 ≤ 66 :=
    fun line hline => Nat.add_le_add_right (bare_row_length 66 line hline) 2
  exact ⟨bareConfig_isPlain 66, nameKind_isPlain, hwidth,
    indentation_mirrors_nesting (bareConfig_isPlain 66) nameKind_isPlain hwidth⟩

/-- The longest line of a file is broken where the wrap column is only one character wider, and the row that
continues it is one level further in than it stands in braces. -/
theorem continued_header_is_deeper :
    (bareConfig 65).IsPlain ∧ (∀ kind ∈ [nameKind], kind.IsPlain)
    ∧ (∀ line ∈ fileLines (bareConfig 65) [nameKind], (line.row (bareConfig 65)).length < 65)
    ∧ (∀ row ∈ splitLines (renderFile (bareConfig 65) [nameKind]).toList, row.length < 65)
    ∧ ¬ MirrorsNesting 4 (renderFile (bareConfig 65) [nameKind]) := by
  have hplain := bareConfig_isPlain 65
  have hwidth : ∀ line ∈ fileLines (bareConfig 65) [nameKind], (line.row (bareConfig 65)).length < 65 :=
    fun line hline => Nat.lt_succ_of_le (bare_row_length 65 line hline)
  refine ⟨hplain, nameKind_isPlain, hwidth, ?_, fun h => ?_⟩
  · rw [splitLines_renderFile hplain, List.forall_mem_append, List.forall_mem_map]
    refine ⟨fun line hline => hwidth line ?_, by decide +kernel⟩
    exact List.mem_append_left _ (List.mem_append_left _ hline)
  · have hmargin := MirrorsNesting.behind_header hplain h
      ["export function createName(t?: LongTypeNameLongTypeName".toList] "    ): Name \x7b".toList
      ["    let node = createNode<Name>(K.Name);".toList, "    node.t = t;".toList,
        "    return node;".toList, "\x7d".toList] (by decide +kernel)
    exact absurd hmargin (by decide +kernel)

end File

end NodeFactory
