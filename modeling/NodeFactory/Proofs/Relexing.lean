import NodeFactory.Proofs.LayoutFreeStatements
import NodeFactory.Proofs.Locality
import NodeFactory.Proofs.TokenExtents

/-!
# Cutting a piece of a text into tokens again

A run of tokens is found again in another text, if a semicolon follows it there
(`tokensFrom_cut`). Where it begins does not matter: its lexemes agree with those it had, up to where
they are and but for the gap before the first (`agree_cons_of_moved`). So from the piece of a text in
which some lexemes are written the same can be read as from the text (`exists_piece`).
-/

namespace NodeFactory.Token

open Text

section Splitting

theorem tokensFrom_cons (start : Nat) (c : Char) (cs : List Char) : tokensFrom start (c :: cs)
    = ⟨(extent c cs).1, c :: cs.take (extent c cs).2, start⟩
      :: tokensFrom (start + byteLength (c :: cs.take (extent c cs).2))
        (cs.drop (extent c cs).2) := by
  rw [tokensFrom]

/-- Tokens with others before them are the tokens of the text after that. -/
theorem tokensFrom_of_append {before after : List Token} {start : Nat} {cs : List Char}
    (h : tokensFrom start cs = before ++ after) :
    tokensFrom (start + byteLength (before.flatMap text)) (after.flatMap text) = after := by
  induction before generalizing start cs with
  | nil =>
    rw [List.nil_append] at h
    rw [← h, flatMap_text_tokensFrom]
    rfl
  | cons token before ih =>
    cases cs with
    | nil =>
      rw [tokensFrom] at h
      cases h
    | cons c cs =>
      rw [tokensFrom_cons, List.cons_append] at h
      obtain ⟨rfl, hrest⟩ := List.cons.inj h
      rw [List.flatMap_cons, byteLength_append, ← Nat.add_assoc]
      exact ih hrest

/-- A token lies where the tokens before it end, and is what is found there. -/
theorem token_of_append {before after : List Token} {token : Token} {start : Nat} {cs : List Char}
    (h : tokensFrom start cs = before ++ token :: after) :
    ∃ c cs, token = ⟨(extent c cs).1, c :: cs.take (extent c cs).2,
      start + byteLength (before.flatMap text)⟩ := by
  have hafter := tokensFrom_of_append h
  rw [List.flatMap_cons] at hafter
  cases htext : token.text ++ after.flatMap text with
  | nil =>
    rw [htext, tokensFrom] at hafter
    cases hafter
  | cons c cs =>
    rw [htext, tokensFrom_cons] at hafter
    exact ⟨c, cs, (List.cons.inj hafter).1.symm⟩

/-- What is found where a token lies, before the tokens after it. -/
theorem extent_of_append {before after : List Token} {token : Token} {start : Nat} {cs : List Char}
    (h : tokensFrom start cs = before ++ token :: after) : ∃ c xs, token.text = c :: xs
      ∧ extent c (xs ++ after.flatMap text) = (token.kind, xs.length) := by
  have hafter := tokensFrom_of_append h
  rw [List.flatMap_cons] at hafter
  cases htext : token.text ++ after.flatMap text with
  | nil =>
    rw [htext, tokensFrom] at hafter
    cases hafter
  | cons c cs =>
    rw [htext, tokensFrom_cons] at hafter
    obtain ⟨rfl, -⟩ := List.cons.inj hafter
    have hcs : cs.take (extent c cs).2 ++ after.flatMap text = cs := (List.cons.inj htext).2
    refine ⟨c, _, rfl, ?_⟩
    rw [hcs, List.length_take_of_le (extent_le c cs)]

theorem start_of_append {before after : List Token} {token : Token} {cs : List Char}
    (h : tokenize cs = before ++ token :: after) :
    token.start = byteLength (before.flatMap text) := by
  obtain ⟨c, cs, rfl⟩ := token_of_append h
  exact Nat.zero_add _

theorem text_ne_nil {token : Token} {start : Nat} {cs : List Char}
    (h : token ∈ tokensFrom start cs) : token.text ≠ [] := by
  obtain ⟨before, after, hsplit⟩ := List.append_of_mem h
  obtain ⟨c, cs, rfl⟩ := token_of_append hsplit
  exact List.cons_ne_nil _ _

theorem kind_of_dot {token : Token} {start : Nat} {cs : List Char}
    (h : token ∈ tokensFrom start cs) (htext : token.text = ['.']) : token.kind = .dot := by
  obtain ⟨before, after, hsplit⟩ := List.append_of_mem h
  obtain ⟨c, cs, rfl⟩ := token_of_append hsplit
  obtain ⟨rfl, htake⟩ := List.cons.inj htext
  have hzero : (extent '.' cs).2 = 0 := by
    have hle := extent_le '.' cs
    have hlength := congrArg List.length htake
    rw [List.length_take, List.length_nil] at hlength
    omega
  exact dotExtent_of_zero (Prod.ext rfl hzero)

theorem kind_of_isNameStart {token : Token} {start : Nat} {cs : List Char}
    (h : token ∈ tokensFrom start cs) {c : Char} {rest : List Char} (htext : token.text = c :: rest)
    (hname : isNameStart c = true) : token.kind.isName = true := by
  obtain ⟨before, after, hsplit⟩ := List.append_of_mem h
  obtain ⟨c, cs, rfl⟩ := token_of_append hsplit
  obtain ⟨rfl, -⟩ := List.cons.inj htext
  show (extent c cs).1.isName = true
  rw [extent_of_isNameStart hname]
  unfold nameKind
  split <;> rfl

/-- What begins with a blank is trivia. -/
theorem isTrivia_of_isBlank {c : Char} (h : isBlank c = true) (cs : List Char) :
    (extent c cs).1.isTrivia = true := by
  rw [extent_of_isBlank h]
  rfl

/-- A text whose first token is no trivia does not begin with a blank. -/
theorem exists_cons_of_tokensFrom {token : Token} {tokens : List Token} {start : Nat}
    {cs : List Char} (h : tokensFrom start cs = token :: tokens)
    (hkind : token.kind.isTrivia = false) : ∃ c cs', cs = c :: cs' ∧ isBlank c = false := by
  cases cs with
  | nil =>
    rw [tokensFrom] at h
    cases h
  | cons c cs =>
    rw [tokensFrom_cons] at h
    obtain ⟨rfl, -⟩ := List.cons.inj h
    refine ⟨c, cs, rfl, eq_false_of_ne_true fun hblank => ?_⟩
    have htrivia := isTrivia_of_isBlank hblank cs
    rw [hkind] at htrivia
    cases htrivia

end Splitting

section Cutting

/-- A dot alone is one token. -/
theorem eq_of_flatMap_text_eq_dot {tokens : List Token} (hne : ∀ token ∈ tokens, token.text ≠ [])
    (h : tokens.flatMap text = ['.']) : ∃ token, tokens = [token] ∧ token.text = ['.'] := by
  cases tokens with
  | nil => cases h
  | cons token tokens =>
    obtain ⟨htoken, hrest⟩ := List.forall_mem_cons.1 hne
    rw [List.flatMap_cons] at h
    cases htext : token.text with
    | nil => exact absurd htext htoken
    | cons c cs =>
      rw [htext, List.cons_append] at h
      obtain ⟨rfl, hnil⟩ := List.cons.inj h
      obtain ⟨rfl, hnil'⟩ := List.append_eq_nil_iff.1 hnil
      cases tokens with
      | nil => exact ⟨token, rfl, htext⟩
      | cons token' tokens =>
        rw [List.flatMap_cons] at hnil'
        exact absurd (List.append_eq_nil_iff.1 hnil').1 (hrest token' List.mem_cons_self)

/-- A run of tokens that are well formed is found again, if a semicolon follows it. The last of them
must not be a line comment, which would take the semicolon in, nor a dot. -/
theorem tokensFrom_cut (more : List Char) : ∀ {middle after : List Token} {start : Nat}
    {cs : List Char}, tokensFrom start cs = middle ++ after →
    (∀ token ∈ middle, token.kind.isMalformed = false) →
    (∀ token ∈ middle.getLast?, token.kind ≠ .lineComment ∧ token.kind ≠ .dot) →
    tokensFrom start (middle.flatMap text ++ ';' :: more)
      = middle ++ tokensFrom (start + byteLength (middle.flatMap text)) (';' :: more)
  | [], _, _, _, _, _, _ => rfl
  | token :: middle, after, start, cs, h, hclean, hlast => by
    cases cs with
    | nil =>
      rw [tokensFrom] at h
      cases h
    | cons c cs =>
      rw [tokensFrom_cons, List.cons_append] at h
      obtain ⟨rfl, hrest⟩ := List.cons.inj h
      obtain ⟨hkind, hclean'⟩ := List.forall_mem_cons.1 hclean
      generalize hextent : extent c cs = result at hrest hkind hlast ⊢
      obtain ⟨kind, n⟩ := result
      dsimp only at hrest hkind hlast ⊢
      have hle : n ≤ cs.length := by
        have := extent_le c cs
        rwa [hextent] at this
      have hmem : ∀ token ∈ middle, token ∈ tokensFrom (start + byteLength (c :: cs.take n)) (cs.drop n) := by
        intro token hmem
        rw [hrest]
        exact List.mem_append_left _ hmem
      have hbehind : cs.drop n = middle.flatMap text ++ after.flatMap text := by
        rw [← List.flatMap_append, ← hrest, flatMap_text_tokensFrom]
      have hcs : cs = (cs.take n ++ middle.flatMap text) ++ after.flatMap text := by
        rw [List.append_assoc, ← hbehind, List.take_append_drop]
      have hlength : (cs.take n).length = n := List.length_take_of_le hle
      have hlast' : ∀ token ∈ middle.getLast?, token.kind ≠ .lineComment ∧ token.kind ≠ .dot := by
        intro token hmem
        refine hlast token ?_
        rw [List.getLast?_cons, Option.mem_def.1 hmem]
        rfl
      have hcut : extent c (cs.take n ++ middle.flatMap text ++ ';' :: more) = (kind, n) := by
        refine extent_cut more (hcs ▸ hextent) hkind ?_ (fun hcomment => ?_) fun hdot => ?_
        · rw [List.length_append]
          omega
        · cases middle with
          | nil => exact absurd hcomment (hlast _ rfl).1
          | cons token middle =>
            have hpos := List.length_pos_iff.2 (text_ne_nil (hmem token List.mem_cons_self))
            rw [List.flatMap_cons, List.length_append, List.length_append]
            omega
        · rw [List.drop_left' hlength] at hdot
          obtain ⟨token, rfl, htext⟩ :=
            eq_of_flatMap_text_eq_dot (fun token h => text_ne_nil (hmem token h)) hdot
          exact (hlast' token rfl).2 (kind_of_dot (hmem token List.mem_cons_self) htext)
      have hbytes : byteLength (c :: (cs.take n ++ middle.flatMap text))
          = byteLength (c :: cs.take n) + byteLength (middle.flatMap text) :=
        byteLength_append (c :: cs.take n) (middle.flatMap text)
      have ih := tokensFrom_cut more hrest hclean' hlast'
      rw [List.flatMap_cons, List.cons_append, List.cons_append, tokensFrom_cons, hcut]
      dsimp only
      rw [List.append_assoc, List.take_left' hlength, List.drop_left' hlength, ih,
        hbytes, ← Nat.add_assoc]
      rfl

end Cutting

def semicolon (position : Nat) : Token := ⟨.semicolon, [';'], position⟩

theorem tokensFrom_semicolon (position : Nat) : tokensFrom position [';'] = [semicolon position] := by
  rw [tokensFrom_cons, List.drop_nil, tokensFrom]
  rfl

def moved (distance : Nat) (token : Token) : Token :=
  ⟨token.kind, token.text, token.start + distance⟩

theorem tokensFrom_moved (distance start : Nat) (cs : List Char) :
    tokensFrom (start + distance) cs = (tokensFrom start cs).map (moved distance) := by
  fun_induction tokensFrom start cs with
  | case1 => rw [tokensFrom, List.map_nil]
  | case2 start c cs kind n hextent text ih =>
    rw [tokensFrom_cons, hextent, List.map_cons, ← ih, Nat.add_right_comm]
    rfl

/-- What a text is cut into depends on its position in nothing but positions. -/
theorem map_moved_comm (start start' : Nat) (cs : List Char) :
    (tokensFrom start cs).map (moved start') = (tokensFrom start' cs).map (moved start) := by
  rw [← tokensFrom_moved, ← tokensFrom_moved, Nat.add_comm]

theorem exists_kind_eq {token : Token} {start : Nat} {cs : List Char}
    (h : token ∈ tokensFrom start cs) (start' : Nat) :
    ∃ token' ∈ tokensFrom start' cs, token'.kind = token.kind := by
  have hmem : token.moved start' ∈ (tokensFrom start' cs).map (moved start) := by
    rw [map_moved_comm]
    exact List.mem_map_of_mem h
  obtain ⟨token', hmem', htoken⟩ := List.mem_map.1 hmem
  have hkind := congrArg Token.kind htoken
  exact ⟨token', hmem', hkind⟩

end NodeFactory.Token

namespace NodeFactory

namespace Lexeme

section Found

theorem token_of_mem : ∀ {tokens gap : List Token} {isFirst : Bool} {lexeme : Lexeme},
    lexeme ∈ ofTokensFrom isFirst gap tokens →
      lexeme.token ∈ tokens ∧ lexeme.kind.isTrivia = false
  | [], _, _, _, h => nomatch h
  | token :: tokens, gap, isFirst, lexeme, h => by
    rw [ofTokensFrom] at h
    split at h
    · obtain ⟨hmem, hkind⟩ := token_of_mem h
      exact ⟨List.mem_cons_of_mem _ hmem, hkind⟩
    · rename_i htrivia
      rcases List.mem_cons.1 h with rfl | h
      · exact ⟨List.mem_cons_self, eq_false_of_ne_true htrivia⟩
      · obtain ⟨hmem, hkind⟩ := token_of_mem h
        exact ⟨List.mem_cons_of_mem _ hmem, hkind⟩

/-- A lexeme stands for one of the tokens; with it a new gap begins, whatever comes then. -/
theorem ofTokensFrom_split : ∀ {tokens gap : List Token} {isFirst : Bool} {before after : List Lexeme}
    {lexeme : Lexeme}, ofTokensFrom isFirst gap tokens = before ++ lexeme :: after →
    ∃ pre post, tokens = pre ++ lexeme.token :: post ∧ ofTokensFrom false [] post = after
      ∧ ∀ more, ofTokensFrom isFirst gap (pre ++ lexeme.token :: more)
        = before ++ lexeme :: ofTokensFrom false [] more
  | [], _, _, before, _, _, h => by
    rw [ofTokensFrom] at h
    exact absurd h.symm (by simp)
  | token :: tokens, gap, isFirst, before, after, lexeme, h => by
    rw [ofTokensFrom] at h
    by_cases htrivia : token.kind.isTrivia = true
    · rw [if_pos htrivia] at h
      obtain ⟨pre, post, rfl, hafter, hmore⟩ := ofTokensFrom_split h
      refine ⟨token :: pre, post, rfl, hafter, fun more => ?_⟩
      rw [List.cons_append, ofTokensFrom, if_pos htrivia, hmore]
    rw [if_neg htrivia] at h
    cases before with
    | nil =>
      obtain ⟨rfl, hafter⟩ := List.cons.inj h
      refine ⟨[], tokens, rfl, hafter, fun more => ?_⟩
      rw [List.nil_append, ofTokensFrom, if_neg htrivia]
      rfl
    | cons first before =>
      obtain ⟨rfl, hrest⟩ := List.cons.inj h
      obtain ⟨pre, post, rfl, hafter, hmore⟩ := ofTokensFrom_split hrest
      refine ⟨token :: pre, post, rfl, hafter, fun more => ?_⟩
      rw [List.cons_append, ofTokensFrom, if_neg htrivia, hmore]
      rfl

/-- The tokens from that of one lexeme to that of another. -/
theorem ofTokensFrom_middle {tokens gap : List Token} {isFirst : Bool}
    {before after rest : List Lexeme} {first : Lexeme}
    (h : ofTokensFrom isFirst gap tokens = before ++ (first :: rest ++ after)) :
    ∃ pre middle post, tokens = pre ++ (first.token :: middle ++ post)
      ∧ (first.token :: middle).getLast? = (first :: rest).getLast?.map Lexeme.token
      ∧ ∀ more, ofTokensFrom false [] (middle ++ more) = rest ++ ofTokensFrom false [] more := by
  obtain ⟨pre, post, rfl, hafter, -⟩ := ofTokensFrom_split h
  change ofTokensFrom false [] post = rest ++ after at hafter
  rcases List.eq_nil_or_concat rest with rfl | ⟨rest, last, rfl⟩
  · exact ⟨pre, [], post, rfl, rfl, fun _ => rfl⟩
  · rw [List.concat_eq_append, List.append_assoc] at hafter
    obtain ⟨middle, post, rfl, -, hmore⟩ := ofTokensFrom_split hafter
    refine ⟨pre, middle ++ [last.token], post, by simp, ?_, fun more => ?_⟩
    · rw [List.concat_eq_append, ← List.cons_append, ← List.cons_append, List.getLast?_concat,
        List.getLast?_concat]
      rfl
    rw [List.append_assoc, List.singleton_append, hmore]
    simp

end Found

section Moved

variable {distance distance' : Nat}

def moved (distance : Nat) (lexeme : Lexeme) : Lexeme :=
  ⟨lexeme.token.moved distance, lexeme.gap.map (Token.moved distance), lexeme.isFirst⟩

theorem ofTokensFrom_moved : ∀ (tokens gap : List Token) (isFirst : Bool),
    ofTokensFrom isFirst (gap.map (Token.moved distance)) (tokens.map (Token.moved distance))
      = (ofTokensFrom isFirst gap tokens).map (moved distance)
  | [], _, _ => rfl
  | token :: tokens, gap, isFirst => by
    have hkind : (token.moved distance).kind = token.kind := rfl
    rw [List.map_cons, ofTokensFrom, ofTokensFrom, hkind]
    split
    · rw [← ofTokensFrom_moved tokens, List.map_append]
      rfl
    · rw [List.map_cons, ← ofTokensFrom_moved tokens]
      rfl

theorem span_moved (token : Token) :
    (token.moved distance).span = relocate (.shift distance) token.span :=
  congrArg (Text.Span.mk _) (Nat.add_right_comm _ _ _)

theorem comments_moved (lexeme : Lexeme) :
    (lexeme.moved distance).comments = lexeme.comments.map (relocate (.shift distance)) := by
  have hspans : ∀ tokens : List Token,
      ((tokens.map (Token.moved distance)).filter fun token => token.kind.isComment).map Token.span
        = ((tokens.filter fun token => token.kind.isComment).map Token.span).map
          (relocate (.shift distance)) := by
    intro tokens
    rw [List.filter_map, List.map_map, List.map_map]
    exact List.map_congr_left fun token _ => span_moved token
  unfold comments moved
  dsimp only
  split
  · exact hspans _
  · rw [List.dropWhile_map]
    exact hspans _

theorem startsLine_moved (lexeme : Lexeme) :
    (lexeme.moved distance).startsLine = lexeme.startsLine := by
  unfold startsLine moved
  rw [List.any_map]
  rfl

theorem joins_moved (lexeme : Lexeme) (lexemes : List Lexeme) :
    (lexeme.moved distance).joins (lexemes.map (moved distance)) = lexeme.joins lexemes := by
  cases lexemes with
  | nil => rfl
  | cons next lexemes =>
    have hglued : (next.moved distance).isGlued = next.isGlued := List.isEmpty_map
    rw [List.map_cons, joins, joins, hglued]
    rfl

variable {lexeme lexeme' : Lexeme}

theorem agrees_of_token (h : lexeme.token.moved distance = lexeme'.token.moved distance') :
    lexeme.Agrees (.shift distance) (.shift distance') false lexeme' := by
  have hkind := congrArg Token.kind h
  have htext := congrArg Token.text h
  have hspan := congrArg Token.span h
  refine ⟨hkind, htext, ?_, nofun, nofun⟩
  rwa [span_moved, span_moved] at hspan

theorem agrees_of_moved (h : lexeme.moved distance = lexeme'.moved distance') :
    lexeme.Agrees (.shift distance) (.shift distance') true lexeme' := by
  obtain ⟨hkind, htext, hspan, -, -⟩ := agrees_of_token (congrArg Lexeme.token h)
  refine ⟨hkind, htext, hspan, fun _ => ?_, fun _ _ => ?_⟩
  · have hcomments := congrArg Lexeme.comments h
    rwa [comments_moved, comments_moved] at hcomments
  · have hstartsLine := congrArg Lexeme.startsLine h
    rwa [startsLine_moved, startsLine_moved] at hstartsLine

theorem agree_of_moved : ∀ {lexemes lexemes' : List Lexeme},
    lexemes.map (moved distance) = lexemes'.map (moved distance') →
      Agree (.shift distance) (.shift distance') true lexemes lexemes'
  | [], [], _ => .nil
  | [], _ :: _, h => by simp at h
  | _ :: _, [], h => by simp at h
  | lexeme :: lexemes, lexeme' :: lexemes', h => by
    obtain ⟨hfirst, hrest⟩ := List.cons.inj h
    refine .cons (agrees_of_moved hfirst) ?_ (agree_of_moved hrest)
    rw [← joins_moved, hfirst, hrest, joins_moved]

/-- The gap before the first lexeme may be another one. -/
theorem agree_cons_of_moved {lexemes lexemes' : List Lexeme}
    (hfirst : lexeme.token.moved distance = lexeme'.token.moved distance')
    (hrest : lexemes.map (moved distance) = lexemes'.map (moved distance')) :
    Agree (.shift distance) (.shift distance') false (lexeme :: lexemes) (lexeme' :: lexemes') := by
  have hkind := congrArg Token.kind hfirst
  change lexeme.kind = lexeme'.kind at hkind
  have hjoins : ∀ lexemes, (lexeme.moved distance).joins lexemes
      = (lexeme'.moved distance').joins lexemes := by
    intro lexemes
    cases lexemes with
    | nil => rfl
    | cons next lexemes =>
      show ((lexeme.kind == .less || lexeme.kind == .greater) && next.kind == lexeme.kind
        && next.isGlued) = _
      rw [hkind]
      rfl
  refine .cons (agrees_of_token hfirst) ?_ (agree_of_moved hrest)
  rw [← joins_moved, hjoins, hrest, joins_moved]

end Moved

end Lexeme

section Pieces

open Text

/-- A piece of a text, from a position, holds lexemes and nothing around them: with a semicolon
after it, and wherever it stands, it is cut into lexemes that agree with them. -/
structure Relexes (lexemes : List Lexeme) (start : Nat) (piece : List Char) : Prop where
  begins : ∃ c cs, piece ++ [';'] = c :: cs ∧ isBlank c = false
  clean : ∀ position, ∀ token ∈ Token.tokensFrom position (piece ++ [';']),
    token.kind.isMalformed = false
  agree : ∀ position gap, Agree (.shift position) (.shift start) false
    (lexemes ++ [Cut.semicolon ⟨0, start + byteLength piece⟩])
    (Lexeme.ofTokensFrom false gap (Token.tokensFrom position (piece ++ [';'])))

theorem relexes_of_tokens {first : Lexeme} {rest : List Lexeme} {middle : List Token} {start : Nat}
    {piece : List Char} (htokens : Token.tokensFrom start (piece ++ [';'])
      = first.token :: (middle ++ [.semicolon (start + byteLength piece)]))
    (hclean : ∀ token ∈ first.token :: middle, token.kind.isMalformed = false)
    (hfirst : first.kind.isTrivia = false)
    (hrest : ∀ more, Lexeme.ofTokensFrom false [] (middle ++ more)
      = rest ++ Lexeme.ofTokensFrom false [] more) :
    Relexes (first :: rest) start piece := by
  refine ⟨Token.exists_cons_of_tokensFrom htokens hfirst, fun position token hmem => ?_,
    fun position gap => ?_⟩
  · obtain ⟨token', hmem', hkind⟩ := Token.exists_kind_eq hmem start
    rw [htokens, ← List.cons_append] at hmem'
    rw [← hkind]
    rcases List.mem_append.1 hmem' with hmem' | hmem'
    · exact hclean token' hmem'
    · rw [List.mem_singleton.1 hmem']
      rfl
  · have hmoved := Token.map_moved_comm start position (piece ++ [';'])
    rw [htokens] at hmoved
    generalize Token.tokensFrom position (piece ++ [';']) = tokens at hmoved
    cases tokens with
    | nil => cases hmoved
    | cons token tokens =>
      obtain ⟨htoken, htokens'⟩ := List.cons.inj hmoved
      have hkind := congrArg Token.kind htoken
      change first.kind = token.kind at hkind
      have hends : Lexeme.ofTokensFrom false []
            (middle ++ [.semicolon (start + byteLength piece)])
          = rest ++ [Cut.semicolon ⟨0, start + byteLength piece⟩] :=
        hrest [.semicolon (start + byteLength piece)]
      rw [Lexeme.ofTokensFrom, if_neg (by rw [← hkind, hfirst]; exact Bool.false_ne_true)]
      refine Lexeme.agree_cons_of_moved htoken ?_
      show (rest ++ [Cut.semicolon ⟨0, start + byteLength piece⟩]).map (Lexeme.moved position) = _
      rw [← hends, ← Lexeme.ofTokensFrom_moved, ← Lexeme.ofTokensFrom_moved]
      exact congrArg _ htokens'

theorem HasNoMalformed.lexemesOf_eq {text : List Char} (h : HasNoMalformed text) :
    lexemesOf text = Lexeme.ofTokensFrom true [] (Token.tokenize text) := by
  rw [lexemesOf, Lexeme.ofTokens, List.filter_eq_self.2]
  intro token hmem
  rw [h token hmem]
  rfl

/-- Lexemes that follow each other in a text are written in a piece of it. -/
theorem exists_piece {text : List Char} (hclean : HasNoMalformed text)
    {before after rest : List Lexeme} {first last : Lexeme}
    (h : lexemesOf text = before ++ (first :: rest ++ after))
    (hlast : (first :: rest).getLast? = some last) (hdot : last.kind ≠ .dot) :
    ∃ front piece back, text = front ++ piece ++ back ∧ first.span.start = byteLength front
      ∧ last.span.stop = byteLength front + byteLength piece
      ∧ Relexes (first :: rest) (byteLength front) piece := by
  rw [hclean.lexemesOf_eq] at h
  obtain ⟨pre, middle, post, hsplit, hgetLast, hrest⟩ := Lexeme.ofTokensFrom_middle h
  rw [hlast, Option.map_some] at hgetLast
  have hkinds : ∀ token ∈ first.token :: middle, token.kind.isMalformed = false := by
    intro token hmem
    refine hclean token ?_
    rw [hsplit]
    exact List.mem_append_right _ (List.mem_append_left _ hmem)
  have htrivia : ∀ lexeme ∈ first :: rest, lexeme.kind.isTrivia = false := by
    intro lexeme hmem
    have hmem' : lexeme ∈ Lexeme.ofTokensFrom true [] (Token.tokenize text) := by
      rw [h]
      exact List.mem_append_right _ (List.mem_append_left _ hmem)
    exact (Lexeme.token_of_mem hmem').2
  refine ⟨pre.flatMap Token.text, (first.token :: middle).flatMap Token.text,
    post.flatMap Token.text, ?_, ?_, ?_, ?_⟩
  · rw [← List.flatMap_append, ← List.flatMap_append, List.append_assoc, ← hsplit,
      Token.flatMap_text_tokenize]
  · exact Token.start_of_append hsplit
  · obtain ⟨init, hinit⟩ := List.getLast?_eq_some_iff.1 hgetLast
    have hsplit' : Token.tokenize text = (pre ++ init) ++ last.token :: post := by
      rw [hsplit, hinit, List.append_assoc, List.append_assoc, List.singleton_append]
    have htexts : (pre ++ init).flatMap Token.text ++ last.token.text
        = pre.flatMap Token.text ++ (first.token :: middle).flatMap Token.text := by
      rw [hinit]
      simp
    show last.token.start + byteLength last.token.text = _
    rw [Token.start_of_append hsplit', ← byteLength_append, htexts, byteLength_append]
  · refine relexes_of_tokens ?_ hkinds (htrivia first List.mem_cons_self) hrest
    have hagain := Token.tokensFrom_of_append hsplit
    rw [Nat.zero_add] at hagain
    rw [Token.tokensFrom_cut [] hagain hkinds, Token.tokensFrom_semicolon, List.cons_append]
    intro token hmem
    rw [hgetLast] at hmem
    cases hmem
    refine ⟨fun hcomment => ?_, hdot⟩
    have hkind := htrivia last (List.mem_of_getLast? hlast)
    rw [Lexeme.kind, hcomment] at hkind
    cases hkind

end Pieces

end NodeFactory
