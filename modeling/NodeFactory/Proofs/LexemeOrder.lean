import NodeFactory.Proofs.Relexing

/-!
# Tokens in the order of the text

No token is empty, and one begins where those before it have ended, so the tokens and the lexemes among
them lie in order (`tokens_inOrder`, `lexemes_inOrder`). The gap before a lexeme reaches back to the
closest token that is a lexeme too; the comments that lead the lexeme are those behind an end of line in
that gap (`comments_eq_leading`).
-/

namespace NodeFactory

open Text

section Order

/-- Spans that are not empty and lie one after the other. -/
structure InOrder (spans : List Span) : Prop where
  nonempty : ∀ span ∈ spans, span.start < span.stop
  ordered : spans.Pairwise fun earlier later => earlier.stop ≤ later.start

namespace InOrder

variable {spans spans' : List Span} {span : Span}

theorem sublist (h : InOrder spans') (hsub : spans.Sublist spans') : InOrder spans :=
  ⟨fun span hmem => h.nonempty span (hsub.subset hmem), h.ordered.sublist hsub⟩

theorem left (h : InOrder (spans ++ spans')) : InOrder spans :=
  h.sublist (List.sublist_append_left _ _)

theorem right (h : InOrder (spans ++ spans')) : InOrder spans' :=
  h.sublist (List.sublist_append_right _ _)

theorem across (h : InOrder (spans ++ spans')) {earlier later : Span} (hmem : earlier ∈ spans)
    (hmem' : later ∈ spans') : earlier.stop ≤ later.start :=
  (List.pairwise_append.1 h.ordered).2.2 earlier hmem later hmem'

theorem start_le {first : Span} (h : InOrder (first :: spans)) :
    ∀ span ∈ first :: spans, first.start ≤ span.start := by
  intro span hmem
  rcases List.mem_cons.1 hmem with rfl | hmem
  · exact Nat.le_refl _
  · have hlt := h.nonempty first List.mem_cons_self
    have hle := (List.pairwise_cons.1 h.ordered).1 span hmem
    omega

theorem stop_le {last : Span} (h : InOrder (spans ++ [last])) :
    ∀ span ∈ spans ++ [last], span.stop ≤ last.stop := by
  intro span hmem
  rcases List.mem_append.1 hmem with hmem | hmem
  · have hlt := h.right.nonempty last (List.mem_singleton_self _)
    have hle := h.across hmem (List.mem_singleton_self last)
    omega
  · obtain rfl := List.mem_singleton.1 hmem
    exact Nat.le_refl _

theorem nodup (h : InOrder spans) : spans.Nodup := by
  refine h.ordered.imp_of_mem fun {earlier later} hmem _ hle heq => ?_
  have hlt := h.nonempty earlier hmem
  rw [← heq] at hle
  omega

end InOrder

theorem byteLength_pos {text : List Char} (h : text ≠ []) : 0 < byteLength text := by
  obtain ⟨c, cs, rfl⟩ := List.exists_cons_of_ne_nil h
  have := Char.utf8Size_pos c
  rw [byteLength]
  omega

theorem Token.start_le {start : Nat} {cs : List Char} {token : Token}
    (h : token ∈ tokensFrom start cs) : start ≤ token.start := by
  obtain ⟨before, after, hsplit⟩ := List.append_of_mem h
  obtain ⟨c, cs, rfl⟩ := token_of_append hsplit
  exact Nat.le_add_right _ _

theorem tokensFrom_inOrder (start : Nat) (cs : List Char) :
    InOrder ((Token.tokensFrom start cs).map Token.span) := by
  refine ⟨fun span hmem => ?_, List.pairwise_map.2 ?_⟩
  · obtain ⟨token, htoken, rfl⟩ := List.mem_map.1 hmem
    have := byteLength_pos (Token.text_ne_nil htoken)
    show token.start < token.start + byteLength token.text
    omega
  · fun_induction Token.tokensFrom start cs with
    | case1 => exact .nil
    | case2 start c cs kind n _ text ih =>
      refine List.pairwise_cons.2 ⟨fun token hmem => ?_, ih⟩
      exact Token.start_le hmem

theorem tokens_inOrder (text : List Char) : InOrder ((Token.tokenize text).map Token.span) :=
  tokensFrom_inOrder 0 text

theorem Lexeme.ofTokensFrom_sublist : ∀ (tokens gap : List Token) (isFirst : Bool),
    ((ofTokensFrom isFirst gap tokens).map Lexeme.token).Sublist tokens
  | [], _, _ => .slnil
  | token :: tokens, gap, isFirst => by
    rw [ofTokensFrom]
    split
    · exact (ofTokensFrom_sublist tokens _ _).cons _
    · exact (ofTokensFrom_sublist tokens _ _).cons_cons _

theorem lexemes_inOrder (text : List Char) : InOrder ((lexemesOf text).map Lexeme.span) := by
  refine (tokens_inOrder text).sublist ?_
  have hsub := (Lexeme.ofTokensFrom_sublist _ [] true).trans
    (List.filter_sublist (p := fun token => !token.kind.isMalformed) (l := Token.tokenize text))
  have hspans := hsub.map Token.span
  rwa [List.map_map] at hspans

end Order

section Gaps

/-- A token that the grammar reads. -/
def Token.IsLexical (token : Token) : Prop :=
  token.kind.isTrivia = false ∧ token.kind.isMalformed = false

/-- Before a token others are passed over, up to the closest one that the grammar reads, if there is
one. -/
structure IsGap (tokens before gap : List Token) (token : Token) : Prop where
  split : ∃ after, tokens = before ++ (gap ++ token :: after)
  read : token.IsLexical
  passed : ∀ other ∈ gap, ¬ other.IsLexical
  closest : ∀ last ∈ before.getLast?, last.IsLexical

/-- The comments of a gap that are behind an end of line in it, and all of them where no token that the
grammar reads comes before. -/
def leading (before gap : List Token) : List Token :=
  gap.filter fun token => token.kind.isComment && (before.isEmpty || gap.any fun earlier =>
    earlier.kind == .endOfLine && decide (earlier.span.stop ≤ token.span.start))

theorem dropWhile_eq_filter : ∀ {gap : List Token}, InOrder (gap.map Token.span) →
    (gap.dropWhile fun token => token.kind != .endOfLine).filter (fun token => token.kind.isComment)
      = gap.filter fun token => token.kind.isComment && gap.any fun earlier =>
        earlier.kind == .endOfLine && decide (earlier.span.stop ≤ token.span.start)
  | [], _ => rfl
  | first :: gap, h => by
    have hlater : ∀ token ∈ gap, first.span.stop ≤ token.span.start := fun token hmem =>
      (List.pairwise_cons.1 h.ordered).1 _ (List.mem_map_of_mem hmem)
    have hself : ∀ token ∈ first :: gap, token.span.start < token.span.stop :=
      fun token hmem => h.nonempty _ (List.mem_map_of_mem hmem)
    by_cases hline : first.kind = .endOfLine
    · rw [List.dropWhile_cons_of_neg (by simp [hline])]
      refine List.filter_congr fun token hmem => ?_
      rcases List.mem_cons.1 hmem with rfl | hmem
      · rw [hline]
        rfl
      · rw [List.any_cons, hline]
        simp [hlater token hmem]
    · rw [List.dropWhile_cons_of_pos (by simp [hline]), dropWhile_eq_filter (h.sublist (by simp)),
        List.filter_cons_of_neg]
      · refine List.filter_congr fun token _ => ?_
        rw [List.any_cons, beq_eq_false_iff_ne.2 hline, Bool.false_and, Bool.false_or]
      · have hnone : ∀ earlier ∈ first :: gap, ¬ (earlier.kind = .endOfLine
            ∧ earlier.span.stop ≤ first.span.start) := by
          intro earlier hmem hearlier
          have hstop := hself earlier hmem
          rcases List.mem_cons.1 hmem with rfl | hmem
          · exact hline hearlier.1
          · have := hlater earlier hmem
            have := hself first List.mem_cons_self
            omega
        simp only [Bool.and_eq_true, List.any_eq_true, beq_iff_eq, decide_eq_true_eq, not_and,
          not_exists]
        exact fun _ earlier hmem hkind hle => hnone earlier hmem ⟨hkind, hle⟩

/-- The gap of a lexeme is that before its token, malformed pieces left out. -/
structure Lexeme.StandsBehind (lexeme : Lexeme) (tokens before gap : List Token) : Prop where
  isGap : IsGap tokens before gap lexeme.token
  gap_eq : lexeme.gap = gap.filter fun token => !token.kind.isMalformed
  isFirst_eq : lexeme.isFirst = before.isEmpty

theorem Lexeme.exists_standsBehind : ∀ {tokens before gap : List Token} {isFirst : Bool}
    {lexeme : Lexeme}, lexeme ∈ ofTokensFrom isFirst (gap.filter fun token => !token.kind.isMalformed)
      (tokens.filter fun token => !token.kind.isMalformed) →
    (∀ other ∈ gap, ¬ other.IsLexical) → (∀ last ∈ before.getLast?, last.IsLexical) →
    isFirst = before.isEmpty →
      ∃ before' gap', lexeme.StandsBehind (before ++ (gap ++ tokens)) before' gap'
  | [], _, _, _, _, h, _, _, _ => absurd h List.not_mem_nil
  | token :: tokens, before, gap, isFirst, lexeme, h, hgap, hclosest, hfirst => by
    -- A token that is not read lengthens the gap.
    have hmore : ¬ token.IsLexical → lexeme ∈ ofTokensFrom isFirst
        ((gap ++ [token]).filter fun token => !token.kind.isMalformed)
        (tokens.filter fun token => !token.kind.isMalformed) →
          ∃ before' gap', lexeme.StandsBehind (before ++ (gap ++ token :: tokens)) before' gap' := by
      intro htoken h
      have hgap' : ∀ other ∈ gap ++ [token], ¬ other.IsLexical := by
        intro other hmem
        rcases List.mem_append.1 hmem with hmem | hmem
        · exact hgap other hmem
        · rwa [List.mem_singleton.1 hmem]
      have hspec := exists_standsBehind h hgap' hclosest hfirst
      rwa [List.append_assoc, List.singleton_append] at hspec
    by_cases hmalformed : token.kind.isMalformed = true
    · rw [List.filter_cons_of_neg (by simp [hmalformed])] at h
      refine hmore (fun hlexical => ?_) ?_
      · rw [hlexical.2] at hmalformed
        cases hmalformed
      · rwa [List.filter_append, List.filter_cons_of_neg (by simp [hmalformed]), List.filter_nil,
          List.append_nil]
    rw [List.filter_cons_of_pos (by simp [hmalformed]), ofTokensFrom] at h
    by_cases htrivia : token.kind.isTrivia = true
    · rw [if_pos htrivia] at h
      refine hmore (fun hlexical => ?_) ?_
      · rw [hlexical.1] at htrivia
        cases htrivia
      · rwa [List.filter_append, List.filter_cons_of_pos (by simp [hmalformed]), List.filter_nil]
    have hlexical : token.IsLexical := ⟨by simpa using htrivia, by simpa using hmalformed⟩
    rw [if_neg htrivia] at h
    rcases List.mem_cons.1 h with rfl | h
    · exact ⟨before, gap, ⟨⟨tokens, rfl⟩, hlexical, hgap, hclosest⟩, rfl, hfirst⟩
    · have hclosest' : ∀ last ∈ (before ++ (gap ++ [token])).getLast?, last.IsLexical := by
        intro last hlast
        rw [← List.append_assoc, List.getLast?_concat, Option.mem_some] at hlast
        rwa [← hlast]
      have hspec := exists_standsBehind h (fun _ hmem => absurd hmem List.not_mem_nil)
        hclosest' (by simp)
      simpa using hspec

/-- Malformed pieces are none of the comments that lead a lexeme, and end no line. -/
theorem leading_filter (before gap : List Token) :
    leading before (gap.filter fun token => !token.kind.isMalformed) = leading before gap := by
  have hcomment : ∀ kind : TokenKind, kind.isComment = true → kind.isMalformed = false := by
    intro kind
    cases kind <;> simp [TokenKind.isComment, TokenKind.isMalformed]
  have hline : ∀ start : Nat, ((gap.filter fun token => !token.kind.isMalformed).any fun earlier =>
      earlier.kind == .endOfLine && decide (earlier.span.stop ≤ start))
        = gap.any fun earlier => earlier.kind == .endOfLine && decide (earlier.span.stop ≤ start) := by
    intro start
    rw [List.any_filter]
    refine List.any_congr rfl fun earlier => ?_
    by_cases hkind : earlier.kind = .endOfLine
    · rw [hkind]
      rfl
    · rw [beq_eq_false_iff_ne.2 hkind, Bool.false_and, Bool.and_false]
  unfold leading
  rw [List.filter_filter]
  refine List.filter_congr fun token _ => ?_
  rw [hline]
  cases hkind : token.kind.isComment with
  | false => rfl
  | true => rw [hcomment token.kind hkind, Bool.not_false, Bool.and_true]

/-- The comments that lead a lexeme are those behind an end of line in the gap before its token. -/
theorem comments_eq_leading {text : List Char} {lexeme : Lexeme} (h : lexeme ∈ lexemesOf text) :
    ∃ before gap, IsGap (Token.tokenize text) before gap lexeme.token
      ∧ lexeme.comments = (leading before gap).map Token.span := by
  have hspec : ∃ before gap, lexeme.StandsBehind ([] ++ ([] ++ Token.tokenize text)) before gap :=
    Lexeme.exists_standsBehind h nofun nofun rfl
  obtain ⟨before, gap, hgap, hlexeme, hfirst⟩ := hspec
  refine ⟨before, gap, hgap, ?_⟩
  obtain ⟨after, hsplit⟩ := hgap.split
  have horder : InOrder (lexeme.gap.map Token.span) := by
    have htokens := tokens_inOrder text
    rw [← List.nil_append (Token.tokenize text), ← List.nil_append ([] ++ _), hsplit,
      List.map_append, List.map_append] at htokens
    rw [hlexeme]
    exact htokens.right.left.sublist (List.filter_sublist.map _)
  rw [← leading_filter, ← hlexeme]
  have hcomments : lexeme.comments = ((if lexeme.isFirst = true then lexeme.gap
      else lexeme.gap.dropWhile fun token => token.kind != .endOfLine).filter
        fun token => token.kind.isComment).map Token.span := rfl
  rw [hcomments, leading, hfirst]
  congr 1
  cases hbefore : before.isEmpty with
  | true => simp
  | false =>
    rw [if_neg Bool.false_ne_true, dropWhile_eq_filter horder]
    simp

end Gaps

end NodeFactory
