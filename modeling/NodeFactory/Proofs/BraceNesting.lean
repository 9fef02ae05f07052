import NodeFactory.Proofs.FileLines

/-!
# Indentation and braces

A line that nests either has no brace, or ends with one that opens, or is one that closes. A line that opens is
followed by lines one level further in, and a brace that closes stands one level further out than the lines
before it (`AreNested`). Where such lines are not broken, every row of their text is indented as deep as it
stands in braces, and the braces match (`AreNested.mirrorsNesting`).
-/

namespace NodeFactory

open Text

section Depth

/-- The braces that open in a text, less those that close. -/
def braceDepth (cs : List Char) : Int :=
  (cs.count '{' : Int) - cs.count '}'

/-- How deep in braces a row stands: as deep as the rows above leave it, but for a brace that closes. -/
def rowDepth (above : List (List Char)) (row : List Char) : Int :=
  braceDepth above.flatten - if (row.dropWhile (· == ' ')).head? = some '}' then 1 else 0

/-- Every row is indented as deep as it stands in braces, and the braces match. -/
structure MirrorsNesting (indentSize : Nat) (text : String) : Prop where
  margins : ∀ above row below, splitLines text.toList = above ++ row :: below →
    ((row.takeWhile (· == ' ')).length : Int) = indentSize * rowDepth above row
  depths : ∀ start, start <+: text.toList → 0 ≤ braceDepth start
  balanced : braceDepth text.toList = 0

theorem braceDepth_append (cs cs' : List Char) :
    braceDepth (cs ++ cs') = braceDepth cs + braceDepth cs' := by
  simp only [braceDepth, List.count_append]
  omega

/-- No beginning of a text closes more braces than the text does. -/
theorem neg_count_le_braceDepth {start cs : List Char} (h : start <+: cs) :
    -(cs.count '}' : Int) ≤ braceDepth start := by
  have hclosed := h.sublist.count_le '}'
  simp only [braceDepth]
  omega

/-- A beginning of two texts is one of the first, or the first and a beginning of the second. -/
theorem prefix_append_cases {start cs cs' : List Char} (h : start <+: cs ++ cs') :
    start <+: cs ∨ ∃ start', start' <+: cs' ∧ start = cs ++ start' := by
  rcases List.prefix_or_prefix_of_prefix h (List.prefix_append cs cs') with h' | ⟨start', rfl⟩
  · exact .inl h'
  · exact .inr ⟨start', (List.prefix_append_right_inj cs).1 h, rfl⟩

/-- A line break ends the row in front of it. -/
theorem splitLines_append (newLine : NewLine) (rest : List Char) : ∀ {row : List Char},
    (∀ c ∈ row, c ≠ '\n' ∧ c ≠ '\r') →
      splitLines (row ++ newLine.text.toList ++ rest) = row :: splitLines rest
  | [], _ => by cases newLine <;> simp [NewLine.text, splitLines]
  | c :: row, h => by
    rw [List.forall_mem_cons] at h
    rw [List.cons_append, List.cons_append, splitLines, splitLines_append newLine rest h.2]
    · exact fun hc => h.1.1 hc
    · exact fun cs hc => absurd hc h.1.2

end Depth

section Plain

/-- A text has no line break and no brace. -/
def IsPlain (text : String) : Prop :=
  ∀ c ∈ text.toList, c ≠ '\n' ∧ c ≠ '\r' ∧ c ≠ '{' ∧ c ≠ '}'

theorem all_iff_isPlain {text : String} :
    (text.toList.all fun c => c != '\n' && c != '\r' && c != '{' && c != '}') = true ↔ IsPlain text := by
  simp [IsPlain, and_assoc]

instance (text : String) : Decidable (IsPlain text) :=
  decidable_of_iff _ all_iff_isPlain

variable {text text' : String}

theorem isPlain_empty : IsPlain "" := by decide

theorem IsPlain.append (h : IsPlain text) (h' : IsPlain text') : IsPlain (text ++ text') := by
  rw [IsPlain, String.toList_append]
  exact List.forall_mem_append.2 ⟨h, h'⟩

theorem IsPlain.join {texts : List String} (h : ∀ text ∈ texts, IsPlain text) :
    IsPlain (String.join texts) := by
  induction texts with
  | nil => exact isPlain_empty
  | cons text texts ih =>
    rw [List.forall_mem_cons] at h
    rw [String.join_cons]
    exact h.1.append (ih h.2)

theorem IsPlain.isOneLine (h : IsPlain text) : IsOneLine text :=
  fun c hc => ⟨(h c hc).1, (h c hc).2.1⟩

theorem IsPlain.count_eq_zero (h : IsPlain text) :
    text.toList.count '{' = 0 ∧ text.toList.count '}' = 0 :=
  ⟨List.count_eq_zero.2 fun hc => (h _ hc).2.2.1 rfl, List.count_eq_zero.2 fun hc => (h _ hc).2.2.2 rfl⟩

theorem indentation_isPlain (config : Config) (level : Nat) : IsPlain (indentation config level) := by
  intro c hc
  rw [indentation, String.toList_ofList] at hc
  rw [List.eq_of_mem_replicate hc]
  decide

theorem count_newLine (newLine : NewLine) :
    newLine.text.toList.count '{' = 0 ∧ newLine.text.toList.count '}' = 0 := by
  cases newLine <;> decide

end Plain

section Nesting

/-- A text that does not begin with a space. -/
def IsFlush (text : String) : Prop :=
  text.toList.head? ≠ some ' '
deriving Decidable

/-- A text ends with a brace that opens, and has no other. -/
def Opens (text : String) : Prop :=
  ∃ before, text = before ++ "\x7b" ∧ IsPlain before

theorem opens_iff {text : String} : (text.toList.getLast? = some '{'
    ∧ IsPlain (String.ofList text.toList.dropLast)) ↔ Opens text := by
  constructor
  · rintro ⟨hlast, hplain⟩
    refine ⟨_, String.toList_inj.1 ?_, hplain⟩
    rw [String.toList_append, String.toList_ofList]
    exact (List.dropLast_append_getLast? _ hlast).symm
  · rintro ⟨before, rfl, hplain⟩
    rw [String.toList_append, show ("\x7b" : String).toList = ['{'] from rfl, List.getLast?_concat,
      List.dropLast_concat, String.ofList_toList]
    exact ⟨rfl, hplain⟩

instance (text : String) : Decidable (Opens text) :=
  decidable_of_iff _ opens_iff

/-- A line that stands so many levels deep, and how deep the lines behind it stand. -/
inductive Line.Nests : Nat → Line → Nat → Prop
  | level {line : Line} : IsPlain line.content → IsFlush line.content → Nests line.level line line.level
  | opens {line : Line} : Opens line.content → IsFlush line.content → Nests line.level line (line.level + 1)
  | closes {level : Nat} : Nests (level + 1) (.whole level "\x7d") level

/-- Lines one after the other, from one depth to another. -/
inductive AreNested : Nat → List Line → Nat → Prop
  | nil {depth : Nat} : AreNested depth [] depth
  | cons {depth depth' depth'' : Nat} {line : Line} {lines : List Line} :
      line.Nests depth depth' → AreNested depth' lines depth'' → AreNested depth (line :: lines) depth''

variable {depth depth' depth'' : Nat} {line : Line} {lines lines' : List Line}

theorem AreNested.append (h : AreNested depth lines depth') (h' : AreNested depth' lines' depth'') :
    AreNested depth (lines ++ lines') depth'' := by
  induction h with
  | nil => exact h'
  | cons hline _ ih => exact .cons hline (ih h')

theorem Line.Nests.areNested (h : line.Nests depth depth') : AreNested depth [line] depth' :=
  .cons h .nil

theorem AreNested.flatMap {α : Type} {linesOf : α → List Line} : ∀ {as : List α},
    (∀ a ∈ as, AreNested depth (linesOf a) depth) → AreNested depth (as.flatMap linesOf) depth
  | [], _ => .nil
  | a :: as, h => by
    rw [List.forall_mem_cons] at h
    rw [List.flatMap_cons]
    exact h.1.append (AreNested.flatMap h.2)

theorem AreNested.map {α : Type} {lineOf : α → Line} : ∀ {as : List α},
    (∀ a ∈ as, (lineOf a).Nests depth depth) → AreNested depth (as.map lineOf) depth
  | [], _ => .nil
  | a :: as, h => by
    rw [List.forall_mem_cons] at h
    exact .cons h.1 (AreNested.map h.2)

/-- Lines nest in the same way further in. -/
theorem Line.Nests.inside (levels : Nat) (h : line.Nests depth depth') :
    (line.inside levels).Nests (levels + depth) (levels + depth') := by
  cases h with
  | level hplain hflush => exact @Line.Nests.level (line.inside levels) hplain hflush
  | opens hopens hflush => exact @Line.Nests.opens (line.inside levels) hopens hflush
  | closes => exact .closes

theorem AreNested.inside (levels : Nat) (h : AreNested depth lines depth') :
    AreNested (levels + depth) (lines.map (Line.inside levels)) (levels + depth') := by
  induction h with
  | nil => exact .nil
  | cons hline _ ih => exact .cons (hline.inside levels) ih

end Nesting

section Rows

variable (config : Config)

/-- A line that is not broken, as it stands in the file. -/
def Line.row (line : Line) : List Char :=
  (indentation config line.level ++ line.content).toList

variable {config} {depth depth' : Nat} {line : Line} {lines : List Line} {text : String}

theorem row_margin (config : Config) (h : IsFlush line.content) :
    (line.row config).takeWhile (· == ' ') = List.replicate (line.level * config.output.indentSize) ' '
      ∧ (line.row config).dropWhile (· == ' ') = line.content.toList := by
  unfold Line.row indentation
  rw [String.toList_append, String.toList_ofList, List.takeWhile_append_of_pos (by simp),
    List.dropWhile_append_of_pos (by simp)]
  unfold IsFlush at h
  cases hcontent : line.content.toList with
  | nil => simp
  | cons c cs =>
    rw [hcontent, List.head?_cons, ne_eq, Option.some_inj] at h
    simp [h]

theorem row_count (config : Config) (line : Line) (brace : Char) (h : brace = '{' ∨ brace = '}') :
    (line.row config).count brace = line.content.toList.count brace := by
  have hindentation := (indentation_isPlain config line.level).count_eq_zero
  rw [Line.row, String.toList_append, List.count_append]
  rcases h with rfl | rfl <;> omega

theorem IsPlain.head_ne (h : IsPlain text) : text.toList.head? ≠ some '}' :=
  fun hhead => (h _ (List.mem_of_head? hhead)).2.2.2 rfl

theorem Opens.isOneLine (h : Opens text) : IsOneLine text := by
  obtain ⟨before, rfl, hplain⟩ := h
  exact hplain.isOneLine.append (by decide)

theorem Opens.braces (h : Opens text) : text.toList.count '{' = 1 ∧ text.toList.count '}' = 0
    ∧ text.toList.head? ≠ some '}' := by
  obtain ⟨before, rfl, hplain⟩ := h
  obtain ⟨hopened, hclosed⟩ := hplain.count_eq_zero
  have hcount : (before ++ "\x7b").toList.count '}' = 0 := by
    rw [String.toList_append, List.count_append, hclosed]
    rfl
  refine ⟨?_, hcount, fun hhead => List.count_eq_zero.1 hcount (List.mem_of_head? hhead)⟩
  rw [String.toList_append, List.count_append, hopened]
  rfl

/-- What a line that nests is like as a row of the file. -/
structure Line.StandsIn (config : Config) (depth : Nat) (line : Line) (depth' : Nat) : Prop where
  oneLine : ∀ c ∈ line.row config, c ≠ '\n' ∧ c ≠ '\r'
  depth_eq : (depth : Int) + braceDepth (line.row config) = depth'
  closed_le : (line.row config).count '}' ≤ depth
  margin : (((line.row config).takeWhile (· == ' ')).length : Int)
    = config.output.indentSize * (depth + rowDepth [] (line.row config))

theorem Line.Nests.standsIn (config : Config) (h : line.Nests depth depth') :
    line.StandsIn config depth depth' := by
  have hopened := row_count config line '{' (.inl rfl)
  have hclosed := row_count config line '}' (.inr rfl)
  have honeLine : IsOneLine line.content → ∀ c ∈ line.row config, c ≠ '\n' ∧ c ≠ '\r' :=
    fun hcontent => (indentation_isPlain config line.level).isOneLine.append hcontent
  cases h with
  | level hplain hflush =>
    obtain ⟨htake, hdrop⟩ := row_margin config hflush
    obtain ⟨hnone, hnone'⟩ := hplain.count_eq_zero
    refine ⟨honeLine hplain.isOneLine, ?_, by omega, ?_⟩
    · simp only [braceDepth]
      omega
    · rw [htake, rowDepth, hdrop, if_neg hplain.head_ne]
      simp [braceDepth, Int.mul_comm]
  | opens hopens hflush =>
    obtain ⟨htake, hdrop⟩ := row_margin config hflush
    obtain ⟨hone, hnone, hhead⟩ := hopens.braces
    refine ⟨honeLine hopens.isOneLine, ?_, by omega, ?_⟩
    · simp only [braceDepth]
      omega
    · rw [htake, rowDepth, hdrop, if_neg hhead]
      simp [braceDepth, Int.mul_comm]
  | closes =>
    have hcontent : (Line.whole depth' "\x7d").content = "\x7d" := by
      simp [Line.content, Line.whole, joinPieces, String.join]
    obtain ⟨htake, hdrop⟩ := @row_margin (.whole depth' "\x7d") config
      (by rw [hcontent]; decide)
    rw [hcontent] at hopened hclosed hdrop
    rw [show ("\x7d" : String).toList.count '{' = 0 from by decide] at hopened
    rw [show ("\x7d" : String).toList.count '}' = 1 from by decide] at hclosed
    refine ⟨honeLine (by rw [hcontent]; decide), ?_, by omega, ?_⟩
    · simp only [braceDepth]
      omega
    · rw [htake, rowDepth, hdrop]
      simp [braceDepth, Line.whole, Int.add_neg_cancel_right, Int.mul_comm]

/-- The text of lines that are not broken. -/
def unbrokenText (config : Config) (lines : List Line) : List Char :=
  lines.flatMap fun line => line.row config ++ config.output.newLine.text.toList

theorem AreNested.splitLines_append (config : Config) (h : AreNested depth lines depth') (rest : List Char) :
    splitLines (unbrokenText config lines ++ rest) = lines.map (Line.row config) ++ splitLines rest := by
  induction h with
  | nil => rfl
  | cons hline _ ih =>
    rw [unbrokenText, List.flatMap_cons, ← unbrokenText, List.append_assoc,
      NodeFactory.splitLines_append _ _ (hline.standsIn config).oneLine, ih]
    rfl

theorem AreNested.braceDepth_rows (config : Config) (h : AreNested depth lines depth') :
    (depth : Int) + braceDepth (lines.map (Line.row config)).flatten = depth' := by
  induction h with
  | nil => simp [braceDepth]
  | cons hline _ ih =>
    have hdepth := (hline.standsIn config).depth_eq
    rw [List.map_cons, List.flatten_cons, braceDepth_append]
    omega

theorem AreNested.margins (config : Config) (h : AreNested depth lines depth') : ∀ above row below,
    lines.map (Line.row config) = above ++ row :: below →
      ((row.takeWhile (· == ' ')).length : Int) = config.output.indentSize * (depth + rowDepth above row) := by
  induction h with
  | nil => 
    intro above row below hsplit
    cases above <;> cases hsplit
  | cons hline _ ih =>
    have hstands := hline.standsIn config
    intro above row below hsplit
    cases above with
    | nil =>
      obtain ⟨rfl, -⟩ := List.cons.inj hsplit
      exact hstands.margin
    | cons first above =>
      obtain ⟨rfl, hrest⟩ := List.cons.inj hsplit
      rw [ih above row below hrest, ← hstands.depth_eq]
      simp only [rowDepth, List.flatten_cons, braceDepth_append]
      congr 1
      omega

/-- In the text of nested lines no more braces close than were opened, and it ends at its last depth. -/
theorem AreNested.depths (config : Config) (h : AreNested depth lines depth') :
    (∀ start, start <+: unbrokenText config lines → 0 ≤ depth + braceDepth start)
      ∧ (depth : Int) + braceDepth (unbrokenText config lines) = depth' := by
  induction h with
  | nil =>
    refine ⟨fun start hstart => ?_, by simp [unbrokenText, braceDepth]⟩
    rw [List.prefix_nil.1 hstart]
    simp [braceDepth]
  | @cons depth _ _ line lines hline _ ih =>
    have hstands := hline.standsIn config
    obtain ⟨hopened, hclosed⟩ := count_newLine config.output.newLine
    have hend : braceDepth (line.row config ++ config.output.newLine.text.toList)
        = braceDepth (line.row config) := by
      rw [braceDepth_append]
      simp [braceDepth, hopened, hclosed]
    have hdepth := hstands.depth_eq
    rw [unbrokenText, List.flatMap_cons, ← unbrokenText]
    refine ⟨fun start hstart => ?_, ?_⟩
    · rcases prefix_append_cases hstart with hfirst | ⟨start', hrest, rfl⟩
      · have hbound := neg_count_le_braceDepth hfirst
        rw [List.count_append, hclosed, Nat.add_zero] at hbound
        have hle := hstands.closed_le
        omega
      · have hrest := ih.1 start' hrest
        rw [braceDepth_append, hend]
        omega
    · have hrest := ih.2
      rw [braceDepth_append, hend]
      omega

theorem AreNested.mirrorsNesting {text : String} (h : AreNested 0 lines 0)
    (htext : text.toList = unbrokenText config lines) :
    MirrorsNesting config.output.indentSize text := by
  obtain ⟨hdepths, hbalanced⟩ := h.depths config
  refine ⟨fun above row below hsplit => ?_, ?_, ?_⟩
  · have hrows := h.splitLines_append config []
    rw [List.append_nil, ← htext, hsplit, show splitLines [] = [] from rfl, List.append_nil] at hrows
    simpa using h.margins config above row below hrows.symm
  · rw [htext]
    simpa using hdepths
  · rw [htext]
    simpa using hbalanced

end Rows

end NodeFactory
