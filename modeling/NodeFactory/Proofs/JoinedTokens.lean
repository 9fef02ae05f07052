import NodeFactory.Proofs.Relexing

/-!
# Tokens of texts that are joined

A token that ends before its text does stays the same whatever follows the text (`extent_inside`), if the
text does not end with a dot, which the number before it might take in or not. So a text that ends with a
semicolon or a closing brace is cut into its own tokens where another text follows (`tokensFrom_append`).

Where that text begins on a new line, it is cut into the tokens it has alone, but for the end of line before
it (`tokenize_append`).
-/

namespace NodeFactory.Token

open Text

section Extents

/-- A token that ends before the text does is the same whatever follows the text. -/
theorem extent_inside {xs ys : List Char} {kind : TokenKind} {n : Nat} {c : Char}
    (hlast : xs.getLast? ≠ some '.') (h : extent c (xs ++ ys) = (kind, n))
    (hkind : kind.isMalformed = false) (hlt : n < xs.length) (ys' : List Char) :
    extent c (xs ++ ys') = (kind, n) := by
  have hbehind : (xs.drop n).getLast? = xs.getLast? := by
    rw [List.getLast?_drop, if_neg (Nat.not_le.2 hlt)]
  refine extent_congr_behind h (Nat.le_of_lt hlt) hkind (follows_append ?_ fun hdot => ?_)
  · rw [Ne, List.drop_eq_nil_iff]
    exact Nat.not_le.2 hlt
  · rw [← hbehind, hdot] at hlast
    exact absurd rfl hlast

/-- A semicolon or a closing brace is a token, whatever follows. -/
theorem extent_of_ending {c : Char} (h : c = ';' ∨ c = '}') (cs : List Char) :
    extent c cs = (punctuation c, 0) := by
  rcases h with rfl | rfl <;> rfl

end Extents

section Joined

/-- A text that ends with a semicolon or a closing brace, and has no malformed pieces before it, is cut
alike where another text follows. -/
theorem tokensFrom_append {ending : Char} (hending : ending = ';' ∨ ending = '}') (more : List Char) :
    ∀ {before : List Token} {last : Token} {start : Nat} {cs : List Char},
      tokensFrom start cs = before ++ [last] → (∀ token ∈ before, token.kind.isMalformed = false) →
        last.text = [ending] →
          tokensFrom start (cs ++ more) = tokensFrom start cs ++ tokensFrom (start + byteLength cs) more
  | [], last, start, cs, h, _, hlast => by
    obtain rfl : cs = [ending] := by
      rw [← flatMap_text_tokensFrom start cs, h, List.nil_append, List.flatMap_singleton, hlast]
    rw [List.singleton_append, tokensFrom_cons, tokensFrom_cons, extent_of_ending hending,
      extent_of_ending hending, List.take_zero, List.take_zero, List.drop_zero, List.drop_zero, tokensFrom]
    rfl
  | token :: before, last, start, cs, h, hclean, hlast => by
    cases cs with
    | nil =>
      rw [tokensFrom] at h
      cases h
    | cons c cs =>
      rw [tokensFrom_cons, List.cons_append] at h
      obtain ⟨rfl, hrest⟩ := List.cons.inj h
      obtain ⟨hkind, hclean'⟩ := List.forall_mem_cons.1 hclean
      rw [List.cons_append, tokensFrom_cons, tokensFrom_cons]
      generalize hextent : extent c cs = result at hrest hkind ⊢
      obtain ⟨kind, n⟩ := result
      dsimp only at hrest hkind ⊢
      have hbehind : cs.drop n = before.flatMap text ++ [ending] := by
        rw [← flatMap_text_tokensFrom _ (cs.drop n), hrest, List.flatMap_append, List.flatMap_singleton,
          hlast]
      have hlt : n < cs.length := by
        have hlength := congrArg List.length hbehind
        rw [List.length_drop, List.length_append, List.length_singleton] at hlength
        omega
      have hdot : cs.getLast? ≠ some '.' := by
        rw [← List.take_append_drop n cs, hbehind, ← List.append_assoc, List.getLast?_concat]
        rcases hending with rfl | rfl <;> decide
      have hsame : extent c (cs ++ more) = (kind, n) :=
        extent_inside hdot (by rw [List.append_nil, hextent]) hkind hlt more
      have hbytes : byteLength (c :: cs) = byteLength (c :: cs.take n) + byteLength (cs.drop n) := by
        rw [← byteLength_append, List.cons_append, List.take_append_drop]
      rw [hsame]
      dsimp only
      rw [List.take_append_of_le_length (Nat.le_of_lt hlt), List.drop_append_of_le_length (Nat.le_of_lt hlt),
        tokensFrom_append hending more hrest hclean' hlast, List.cons_append, hbytes, Nat.add_assoc]

/-- A text that follows on a new line is cut into its own tokens, moved by one more byte, but for the line
breaks at its beginning, which go with the new line. -/
theorem tokensFrom_newline (start : Nat) (cs : List Char) : ∃ newline breaks rest,
    newline.kind = .endOfLine ∧ (∀ token ∈ breaks, token.kind = .endOfLine)
      ∧ tokenize cs = breaks ++ rest
      ∧ tokensFrom start ('\n' :: cs) = newline :: rest.map (moved (start + 1)) := by
  have hnewline : ∀ n, runLength isLineBreak cs = n → tokensFrom start ('\n' :: cs)
      = ⟨.endOfLine, '\n' :: cs.take n, start⟩
        :: (tokensFrom (byteLength (cs.take n)) (cs.drop n)).map (moved (start + 1)) := by
    rintro n rfl
    have hbytes : start + byteLength ('\n' :: cs.take (runLength isLineBreak cs))
        = byteLength (cs.take (runLength isLineBreak cs)) + (start + 1) := by
      show start + (1 + byteLength _) = _
      omega
    rw [tokensFrom_cons, extent_of_isLineBreak rfl, ← tokensFrom_moved, ← hbytes]
  cases cs with
  | nil => exact ⟨_, [], _, rfl, nofun, rfl, hnewline 0 rfl⟩
  | cons c cs =>
    by_cases hc : isLineBreak c = true
    · have hlength : runLength isLineBreak (c :: cs) = runLength isLineBreak cs + 1 := by
        rw [runLength, List.takeWhile_cons_of_pos hc, List.length_cons, runLength]
      refine ⟨_, [⟨.endOfLine, c :: cs.take (runLength isLineBreak cs), 0⟩], _, rfl, ?_, ?_,
        hnewline _ hlength⟩
      · exact List.forall_mem_singleton.2 rfl
      · rw [tokenize, tokensFrom_cons, extent_of_isLineBreak hc, Nat.zero_add]
        rfl
    · have hlength : runLength isLineBreak (c :: cs) = 0 := by
        rw [runLength, List.takeWhile_cons_of_neg hc, List.length_nil]
      exact ⟨_, [], _, rfl, nofun, rfl, hnewline 0 hlength⟩

/-- What a text that ends a declaration is cut into, and a text on a new line after it. -/
theorem tokenize_append {ending : Char} (hending : ending = ';' ∨ ending = '}') {a : List Char}
    {before : List Token} {last : Token} (ha : tokenize a = before ++ [last])
    (hclean : ∀ token ∈ before, token.kind.isMalformed = false) (hlast : last.text = [ending])
    (b : List Char) : ∃ newline breaks rest,
    newline.kind = .endOfLine ∧ (∀ token ∈ breaks, token.kind = .endOfLine)
      ∧ tokenize b = breaks ++ rest
      ∧ tokenize (a ++ '\n' :: b) = tokenize a ++ newline :: rest.map (moved (byteLength a + 1)) := by
  obtain ⟨newline, breaks, rest, hnewline, hbreaks, hb, hmoved⟩ := tokensFrom_newline (byteLength a) b
  refine ⟨newline, breaks, rest, hnewline, hbreaks, hb, ?_⟩
  rw [tokenize, tokensFrom_append hending _ ha hclean hlast, Nat.zero_add, hmoved]
  rfl

end Joined

end NodeFactory.Token

namespace NodeFactory

namespace Lexeme

/-- Behind a token that is no trivia a new gap begins, whatever comes before. -/
theorem ofTokensFrom_append {last : Token} (hlast : last.kind.isTrivia = false) (more : List Token) :
    ∀ (tokens gap : List Token) (isFirst : Bool), ofTokensFrom isFirst gap (tokens ++ last :: more)
      = ofTokensFrom isFirst gap (tokens ++ [last]) ++ ofTokensFrom false [] more
  | [], gap, isFirst => by
    have hlast' : ¬ last.kind.isTrivia = true := by simp [hlast]
    rw [List.nil_append, List.nil_append, ofTokensFrom, if_neg hlast', ofTokensFrom, if_neg hlast',
      ofTokensFrom, List.singleton_append]
  | token :: tokens, gap, isFirst => by
    rw [List.cons_append, List.cons_append, ofTokensFrom, ofTokensFrom]
    split
    · exact ofTokensFrom_append hlast more tokens _ _
    · rw [ofTokensFrom_append hlast more tokens, List.cons_append]

/-- Trivia go to the gap. -/
theorem ofTokensFrom_trivia : ∀ {trivia : List Token} {tokens gap : List Token} {isFirst : Bool},
    (∀ token ∈ trivia, token.kind.isTrivia = true) →
      ofTokensFrom isFirst gap (trivia ++ tokens) = ofTokensFrom isFirst (gap ++ trivia) tokens
  | [], _, _, _, _ => by rw [List.nil_append, List.append_nil]
  | token :: trivia, tokens, gap, isFirst, h => by
    obtain ⟨htoken, htrivia⟩ := List.forall_mem_cons.1 h
    rw [List.cons_append, ofTokensFrom, if_pos htoken, ofTokensFrom_trivia htrivia, List.append_assoc,
      List.singleton_append]

theorem getLast?_ofTokensFrom {last : Token} (hlast : last.kind.isTrivia = false) :
    ∀ (tokens gap : List Token) (isFirst : Bool), ∃ lexeme, lexeme.token = last
      ∧ (ofTokensFrom isFirst gap (tokens ++ [last])).getLast? = some lexeme
  | [], gap, isFirst => by
    refine ⟨⟨last, gap, isFirst⟩, rfl, ?_⟩
    rw [List.nil_append, ofTokensFrom, if_neg (by simp [hlast]), ofTokensFrom]
    rfl
  | token :: tokens, gap, isFirst => by
    rw [List.cons_append, ofTokensFrom]
    split
    · exact getLast?_ofTokensFrom hlast tokens _ _
    · obtain ⟨lexeme, htoken, hlexeme⟩ := getLast?_ofTokensFrom hlast tokens [] false
      refine ⟨lexeme, htoken, ?_⟩
      rw [List.getLast?_cons, hlexeme]
      rfl

/-- Lexemes that are not trivia are as many as the tokens. -/
theorem countP_ofTokensFrom {p : TokenKind → Bool} (hp : ∀ kind, kind.isTrivia = true → p kind = false) :
    ∀ (tokens gap : List Token) (isFirst : Bool),
      (ofTokensFrom isFirst gap tokens).countP (fun lexeme => p lexeme.kind)
        = tokens.countP fun token => p token.kind
  | [], _, _ => rfl
  | token :: tokens, gap, isFirst => by
    rw [ofTokensFrom, List.countP_cons]
    split
    · rename_i htrivia
      rw [countP_ofTokensFrom hp, hp _ htrivia]
      rfl
    · rw [List.countP_cons, countP_ofTokensFrom hp]
      rfl

end Lexeme

/-- Lexemes are the same but for the gap before the first, which has the same leading comments. -/
inductive SameBehindGap : List Lexeme → List Lexeme → Prop
  | nil : SameBehindGap [] []
  | cons {first first' : Lexeme} {rest : List Lexeme} : first.token = first'.token →
      first.comments = first'.comments → SameBehindGap (first :: rest) (first' :: rest)

/-- The gap before the first lexeme of a text, and that on a new line. -/
theorem sameBehindGap_ofTokensFrom {newline : Token} {breaks : List Token}
    (hnewline : newline.kind = .endOfLine) (hbreaks : ∀ token ∈ breaks, token.kind = .endOfLine) :
    ∀ tokens gap : List Token, SameBehindGap (Lexeme.ofTokensFrom false (newline :: gap) tokens)
      (Lexeme.ofTokensFrom true (breaks ++ gap) tokens)
  | [], _ => .nil
  | token :: tokens, gap => by
    rw [Lexeme.ofTokensFrom, Lexeme.ofTokensFrom]
    split
    · have ih := sameBehindGap_ofTokensFrom hnewline hbreaks tokens (gap ++ [token])
      rwa [← List.append_assoc, ← List.cons_append] at ih
    · refine .cons rfl ?_
      have hcomments : breaks.filter (fun token => token.kind.isComment) = [] := by
        refine List.filter_eq_nil_iff.2 fun token hmem => ?_
        rw [hbreaks token hmem]
        decide
      show (((newline :: gap).dropWhile fun token => token.kind != .endOfLine).filter
          fun token => token.kind.isComment).map Token.span
        = ((breaks ++ gap).filter fun token => token.kind.isComment).map Token.span
      rw [List.dropWhile_cons_of_neg (by simp [hnewline]), List.filter_cons_of_neg (by rw [hnewline]; decide),
        List.filter_append, hcomments, List.nil_append]

/-- The lexemes of a text on a new line are those it has alone, moved. -/
theorem sameBehindGap_newline {newline : Token} {breaks : List Token} (hnewline : newline.kind = .endOfLine)
    (hbreaks : ∀ token ∈ breaks, token.kind = .endOfLine) (distance : Nat) (rest : List Token) :
    SameBehindGap (Lexeme.ofTokensFrom false []
        ((newline :: rest.map (Token.moved distance)).filter fun token => !token.kind.isMalformed))
      ((Lexeme.ofTokens (breaks ++ rest)).map (Lexeme.moved distance)) := by
  have hkept : breaks.filter (fun token => !token.kind.isMalformed) = breaks := by
    refine List.filter_eq_self.2 fun token hmem => ?_
    rw [hbreaks token hmem]
    rfl
  have hmoved : ∀ token ∈ breaks.map (Token.moved distance), token.kind = .endOfLine := by
    refine List.forall_mem_map.2 fun token hmem => ?_
    exact hbreaks token hmem
  have hsame := sameBehindGap_ofTokensFrom hnewline hmoved
    ((rest.filter fun token => !token.kind.isMalformed).map (Token.moved distance)) []
  rw [List.append_nil, Lexeme.ofTokensFrom_moved] at hsame
  rw [Lexeme.ofTokens, List.filter_append, hkept, Lexeme.ofTokensFrom_trivia fun token hmem => by
      rw [hbreaks token hmem]; rfl, List.filter_cons_of_pos (by rw [hnewline]; rfl), List.filter_map,
    Lexeme.ofTokensFrom, if_pos (by rw [hnewline]; rfl)]
  exact hsame

end NodeFactory
