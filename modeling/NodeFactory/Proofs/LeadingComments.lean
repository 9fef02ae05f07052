import NodeFactory.Proofs.SchemaSpans

/-!
# The comments of a schema

The comments of a node are those that lead the lexeme with which it begins (`Within.led_by`). They are
comments of the text, in order, and of a lexeme those of its own gap, so no comment belongs to two nodes
(`comments_nodup`).
-/

namespace NodeFactory

open Parse Text

/-- The comments of a node; there are none where its sort keeps none. -/
def Outline.comments (node : Outline) : List Span := node.sort.comments?.getD []

theorem Outline.comments_node (sort : NodeSort) (span : Span) (parts : List Outline) :
    (node sort span parts).comments = sort.comments?.getD [] := rfl

section Runs

variable {nodes : List Outline} {xs : List Lexeme}

/-- A node that keeps comments has those of the lexeme with which it begins. -/
theorem Within.led_by (h : Within nodes xs) : ∀ node ∈ Outline.allOf nodes, ∀ comments,
    node.sort.comments? = some comments →
      ∃ lexeme ∈ xs, node.span.start = lexeme.span.start ∧ comments = lexeme.comments := by
  induction h with
  | nil => exact fun node hmem => absurd hmem List.not_mem_nil
  | skip _ ih =>
    intro node hmem comments hcomments
    obtain ⟨lexeme, hlexeme, hled⟩ := ih node hmem comments hcomments
    exact ⟨lexeme, List.mem_cons_of_mem _ hlexeme, hled⟩
  | plain hsort _ _ _ ih ih' =>
    intro node hmem comments hcomments
    rw [Outline.allOf, Outline.all, List.cons_append] at hmem
    rcases List.mem_cons.1 hmem with rfl | hmem
    · cases hsort.symm.trans hcomments
    rcases List.mem_append.1 hmem with hmem | hmem
    · obtain ⟨lexeme, hlexeme, hled⟩ := ih node hmem comments hcomments
      exact ⟨lexeme, List.mem_append_left _ hlexeme, hled⟩
    · obtain ⟨lexeme, hlexeme, hled⟩ := ih' node hmem comments hcomments
      exact ⟨lexeme, List.mem_append_right _ hlexeme, hled⟩
  | led hsort _ _ _ _ ih ih' ih'' =>
    intro node hmem comments hcomments
    rw [Outline.allOf, Outline.all, List.cons_append, Outline.allOf_append] at hmem
    rcases List.mem_cons.1 hmem with rfl | hmem
    · exact ⟨_, List.mem_append_left _ List.mem_cons_self, rfl,
        Option.some.inj (hcomments.symm.trans hsort)⟩
    rcases List.mem_append.1 hmem with hmem | hmem
    · rcases List.mem_append.1 hmem with hmem | hmem
      · obtain ⟨lexeme, hlexeme, hled⟩ := ih node hmem comments hcomments
        exact ⟨lexeme, by simp_all, hled⟩
      · obtain ⟨lexeme, hlexeme, hled⟩ := ih' node hmem comments hcomments
        exact ⟨lexeme, List.mem_append_left _ (List.mem_cons_of_mem _ hlexeme), hled⟩
    · obtain ⟨lexeme, hlexeme, hled⟩ := ih'' node hmem comments hcomments
      exact ⟨lexeme, List.mem_append_right _ hlexeme, hled⟩

/-- A name keeps no comments. -/
theorem Within.comments_of_idents (h : Within nodes xs) (hidents : ∀ node ∈ nodes, node.IsIdent) :
    (Outline.allOf nodes).flatMap Outline.comments = [] := by
  induction h with
  | nil => rfl
  | skip _ ih => exact ih hidents
  | plain hsort hfits _ _ _ ih =>
    obtain ⟨⟨name, hident⟩, hothers⟩ := List.forall_mem_cons.1 hidents
    obtain rfl : _ = NodeSort.ident name := hident
    obtain rfl : _ = [] := hfits
    rw [Outline.allOf, Outline.all, List.flatMap_append, ih hothers]
    rfl
  | led hsort _ _ _ _ _ _ _ =>
    obtain ⟨⟨name, hident⟩, -⟩ := List.forall_mem_cons.1 hidents
    obtain rfl : _ = NodeSort.ident name := hident
    cases hsort

/-- The comments of nodes are, one after the other, among those of the lexemes. -/
theorem Within.comments_sublist (h : Within nodes xs) :
    ((Outline.allOf nodes).flatMap Outline.comments).Sublist (xs.flatMap Lexeme.comments) := by
  induction h with
  | nil => exact .slnil
  | skip _ ih => exact ih.trans (List.sublist_append_right _ _)
  | plain hsort _ _ _ ih ih' =>
    rw [Outline.allOf, Outline.all, List.flatMap_append, List.flatMap_append, List.flatMap_cons,
      Outline.comments_node, hsort]
    exact ih.append ih'
  | led hsort hname hfirst _ _ _ ih' ih'' =>
    rw [Outline.allOf, Outline.all, List.flatMap_append, List.flatMap_append, List.flatMap_cons,
      Outline.allOf_append, List.flatMap_append, hfirst.comments_of_idents hname, List.nil_append,
      Outline.comments_node, hsort, List.flatMap_cons]
    exact ((List.Sublist.refl _).append ih').append ih''

end Runs

section Lexemes

theorem Lexeme.comments_sublist (lexeme : Lexeme) :
    lexeme.comments.Sublist (lexeme.gap.map Token.span) := by
  unfold Lexeme.comments
  refine (List.filter_sublist.trans ?_).map _
  split
  · exact List.Sublist.refl _
  · exact List.dropWhile_sublist _

/-- The gaps of lexemes are apart. -/
theorem Lexeme.comments_ofTokensFrom : ∀ (tokens gap : List Token) (isFirst : Bool),
    ((ofTokensFrom isFirst gap tokens).flatMap comments).Sublist ((gap ++ tokens).map Token.span)
  | [], _, _ => List.nil_sublist _
  | token :: tokens, gap, isFirst => by
    rw [ofTokensFrom]
    split
    · have hmore := comments_ofTokensFrom tokens (gap ++ [token]) isFirst
      rwa [List.append_assoc, List.singleton_append] at hmore
    · rw [List.flatMap_cons, List.map_append]
      exact (Lexeme.comments_sublist _).append ((comments_ofTokensFrom tokens [] false).cons _)

theorem comments_sublist_tokens (text : List Char) :
    ((lexemesOf text).flatMap Lexeme.comments).Sublist ((Token.tokenize text).map Token.span) :=
  (Lexeme.comments_ofTokensFrom _ [] true).trans (List.filter_sublist.map _)

end Lexemes

section Schemas

variable (text : List Char)

/-- A comment of a gap is not on the line of a token before it. -/
theorem IsGap.line_between {tokens before gap : List Token} {token : Token}
    (h : IsGap tokens before gap token) (horder : InOrder (tokens.map Token.span))
    {comment : Token} (hcomment : comment ∈ leading before gap) {earlier : Token}
    (hmem : earlier ∈ tokens) (hlexical : earlier.IsLexical)
    (hle : earlier.span.stop ≤ comment.span.start) :
    ∃ line ∈ tokens, line.kind = .endOfLine ∧ earlier.span.stop ≤ line.span.start
      ∧ line.span.stop ≤ comment.span.start := by
  obtain ⟨after, rfl⟩ := h.split
  obtain ⟨hgap, hleading⟩ := List.mem_filter.1 hcomment
  rw [List.map_append] at horder
  have hgapOrder := horder.right
  rw [List.map_append] at hgapOrder
  have hbefore : earlier ∈ before := by
    rcases List.mem_append.1 hmem with hmem | hmem
    · exact hmem
    rcases List.mem_append.1 hmem with hmem | hmem
    · exact absurd hlexical (h.passed earlier hmem)
    · have hlt := hgapOrder.left.nonempty _ (List.mem_map_of_mem hgap)
      have hlt' := hgapOrder.right.nonempty _ (List.mem_map_of_mem hmem)
      have hle' := hgapOrder.across (List.mem_map_of_mem hgap) (List.mem_map_of_mem hmem)
      omega
  have hnonempty : before.isEmpty = false :=
    eq_false_of_ne_true fun hempty => List.ne_nil_of_mem hbefore (List.isEmpty_iff.1 hempty)
  rw [hnonempty, Bool.false_or, Bool.and_eq_true, List.any_eq_true] at hleading
  obtain ⟨-, line, hline, hbreaks⟩ := hleading
  rw [Bool.and_eq_true, beq_iff_eq, decide_eq_true_eq] at hbreaks
  refine ⟨line, by simp [hline], hbreaks.1, ?_, hbreaks.2⟩
  exact horder.across (List.mem_map_of_mem hbefore) (List.mem_map_of_mem (List.mem_append_left _ hline))

theorem comments_nodup :
    ((Outline.allOf (outlines (Schema.parse text).statements)).flatMap Outline.comments).Nodup :=
  (((parse_within text).comments_sublist.trans (comments_sublist_tokens text)).nodup
    (tokens_inOrder text).nodup)

/-- The comments of a node are those that lead its first token. No comment belongs to two nodes, and none
is on the line of a token before it. -/
theorem comments_lead_first_token :
    (∀ node ∈ Outline.allOf (outlines (Schema.parse text).statements), ∀ comments,
      node.sort.comments? = some comments →
        ∃ before gap first, IsGap (Token.tokenize text) before gap first
          ∧ node.span.start = first.span.start ∧ comments = (leading before gap).map Token.span)
    ∧ ((Outline.allOf (outlines (Schema.parse text).statements)).flatMap Outline.comments).Nodup
    ∧ ∀ node ∈ Outline.allOf (outlines (Schema.parse text).statements), ∀ comment ∈ node.comments,
      ∀ earlier ∈ Token.tokenize text, earlier.IsLexical → earlier.span.stop ≤ comment.start →
        ∃ line ∈ Token.tokenize text, line.kind = .endOfLine
          ∧ earlier.span.stop ≤ line.span.start ∧ line.span.stop ≤ comment.start := by
  have hled : ∀ node ∈ Outline.allOf (outlines (Schema.parse text).statements), ∀ comments,
      node.sort.comments? = some comments →
        ∃ before gap first, IsGap (Token.tokenize text) before gap first
          ∧ node.span.start = first.span.start ∧ comments = (leading before gap).map Token.span := by
    intro node hmem comments hcomments
    obtain ⟨lexeme, hlexeme, hstart, rfl⟩ := (parse_within text).led_by node hmem comments hcomments
    obtain ⟨before, gap, hgap, hleading⟩ := comments_eq_leading hlexeme
    exact ⟨before, gap, lexeme.token, hgap, hstart, hleading⟩
  refine ⟨hled, comments_nodup text, fun node hmem comment hcomment earlier hearlier hlexical hle => ?_⟩
  cases hcomments : node.sort.comments? with
  | none =>
    rw [Outline.comments, hcomments] at hcomment
    cases hcomment
  | some comments =>
    rw [Outline.comments, hcomments] at hcomment
    obtain ⟨before, gap, first, hgap, -, rfl⟩ := hled node hmem comments hcomments
    obtain ⟨token, htoken, rfl⟩ := List.mem_map.1 hcomment
    exact hgap.line_between (tokens_inOrder text) htoken hearlier hlexical hle

end Schemas

end NodeFactory
