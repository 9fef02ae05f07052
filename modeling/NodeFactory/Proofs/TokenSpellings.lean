import NodeFactory.Proofs.LexemeOrder

/-!
# How tokens are spelled

A token is what its span covers in the text (`slice_span`), and spans begin and end between characters.
A string is spelled with a quote at both ends (`text_of_string`), and punctuation with the one character
that stands for it; no piece of text is the end of it.
-/

namespace NodeFactory.Token

open Text

section Kinds

/-- Kinds of token that tell how it is spelled. -/
def IsTelling (kind : TokenKind) : Prop :=
  kind = .string ∨ kind = .semicolon ∨ kind = .closeBrace ∨ kind = .endOfFile

theorem slashExtent_not_telling (cs : List Char) : ¬ IsTelling (slashExtent cs).1 := by
  unfold slashExtent
  split
  · simp [IsTelling]
  · split <;> simp [IsTelling]
  · simp [IsTelling]

theorem nameKind_not_telling (name : List Char) : ¬ IsTelling (nameKind name) := by
  unfold nameKind
  split <;> simp [IsTelling]

/-- A token whose kind tells its spelling is a string or a single character. -/
theorem extent_of_telling {c : Char} {cs : List Char} (h : IsTelling (extent c cs).1) :
    (c = '"' ∨ c = '\x27') ∧ extent c cs = quotedToken .string (quotedExtent c isLineBreak cs)
      ∨ extent c cs = (punctuation c, 0) := by
  have hrule := extent_rule c
  generalize extent c = rule at hrule h ⊢
  cases hrule with
  | slash => exact absurd h (slashExtent_not_telling cs)
  | equals => rcases equalsExtent_kind cs with hkind | hkind <;> simp [IsTelling, hkind] at h
  | dot => rcases dotExtent_kind cs with hkind | hkind | hkind <;> simp [IsTelling, hkind] at h
  | endOfLine | blank | number => simp [IsTelling] at h
  | name => exact absurd h (nameKind_not_telling _)
  | string hc => exact .inl ⟨hc, rfl⟩
  | template =>
    dsimp only [quotedToken] at h
    split at h <;> simp [IsTelling] at h
  | mark => exact .inr rfl

end Kinds

section Spellings

variable {token : Token} {start : Nat} {cs : List Char} (h : token ∈ tokensFrom start cs)
include h

/-- A token is a character with those that its extent adds. -/
theorem exists_extent : ∃ c xs behind, token.text = c :: xs
    ∧ extent c (xs ++ behind) = (token.kind, xs.length) := by
  obtain ⟨before, after, hsplit⟩ := List.append_of_mem h
  obtain ⟨c, xs, htext, hextent⟩ := extent_of_append hsplit
  exact ⟨c, xs, _, htext, hextent⟩

/-- A string is written between two quotes. -/
theorem text_of_string (hkind : token.kind = .string) :
    ∃ quote body, (quote = '"' ∨ quote = '\x27') ∧ token.text = quote :: (body ++ [quote]) := by
  obtain ⟨c, xs, behind, htext, hextent⟩ := exists_extent h
  rw [hkind] at hextent
  rcases extent_of_telling (.inl (congrArg Prod.fst hextent)) with ⟨hc, hquoted⟩ | hpunctuation
  · rw [hquoted, quotedToken_iff (backslash_ne_quote hc) rfl] at hextent
    obtain ⟨-, hclosed⟩ | ⟨hopen, -⟩ := hextent
    · rw [htext]
      generalize c :: xs = literal at hclosed ⊢
      cases hclosed with
      | mk => exact ⟨c, _, hc, rfl⟩
    · cases hopen
  · rw [hpunctuation] at hextent
    have hpunct := congrArg Prod.fst hextent
    revert hpunct
    unfold punctuation
    split <;> nofun

/-- Of the other kinds that tell the spelling, each is punctuation. -/
theorem text_of_telling (htelling : IsTelling token.kind) (hkind : token.kind ≠ .string) :
    ∃ c, token.kind = punctuation c ∧ token.text = [c] := by
  obtain ⟨c, xs, behind, htext, hextent⟩ := exists_extent h
  have hfound : (extent c (xs ++ behind)).1 = token.kind := congrArg Prod.fst hextent
  rcases extent_of_telling (hfound ▸ htelling) with ⟨hc, hquoted⟩ | hpunctuation
  · rw [hquoted, quotedToken_iff (backslash_ne_quote hc) rfl] at hextent
    obtain ⟨hstring, -⟩ | ⟨hopen, -⟩ := hextent
    · exact absurd hstring hkind
    · rw [hopen] at htelling
      simp [IsTelling] at htelling
  · obtain ⟨hkind', hlength⟩ := Prod.mk.inj (hpunctuation.symm.trans hextent)
    rw [List.eq_nil_of_length_eq_zero hlength.symm] at htext
    exact ⟨c, hkind'.symm, htext⟩

theorem text_of_semicolon (hkind : token.kind = .semicolon) : token.text = [';'] := by
  obtain ⟨c, hc, htext⟩ := text_of_telling h (.inr (.inl hkind)) (by rw [hkind]; nofun)
  rw [hkind] at hc
  unfold punctuation at hc
  split at hc
  all_goals first | exact htext | cases hc

theorem text_of_closeBrace (hkind : token.kind = .closeBrace) : token.text = ['}'] := by
  obtain ⟨c, hc, htext⟩ := text_of_telling h (.inr (.inr (.inl hkind))) (by rw [hkind]; nofun)
  rw [hkind] at hc
  unfold punctuation at hc
  split at hc
  all_goals first | exact htext | cases hc

theorem kind_ne_endOfFile : token.kind ≠ .endOfFile := by
  intro hkind
  obtain ⟨c, hc, -⟩ := text_of_telling h (.inr (.inr (.inr hkind))) (by rw [hkind]; nofun)
  rw [hkind] at hc
  unfold punctuation at hc
  split at hc <;> cases hc

end Spellings

section Slices

variable {token : Token} {text : List Char}

/-- What a token is, where it lies. -/
theorem exists_behind (h : token ∈ tokenize text) : ∃ before behind c xs,
    text = before ++ token.text ++ behind ∧ token.span.start = byteLength before
      ∧ token.text = c :: xs ∧ extent c (xs ++ behind) = (token.kind, xs.length) := by
  obtain ⟨before, after, hsplit⟩ := List.append_of_mem h
  obtain ⟨c, xs, htext, hextent⟩ := extent_of_append hsplit
  have hjoined := flatMap_text_tokenize text
  rw [hsplit, List.flatMap_append, List.flatMap_cons, ← List.append_assoc] at hjoined
  exact ⟨_, _, c, xs, hjoined.symm, start_of_append hsplit, htext, hextent⟩

/-- A token is spelled as the text is where it lies. -/
theorem slice_span (h : token ∈ tokenize text) :
    ∃ before after, text = before ++ token.text ++ after ∧ token.span.start = byteLength before
      ∧ token.span.stop = byteLength (before ++ token.text) := by
  obtain ⟨before, behind, -, -, hjoined, hstart, -, -⟩ := exists_behind h
  refine ⟨before, behind, hjoined, hstart, ?_⟩
  rw [byteLength_append, ← hstart]
  rfl

end Slices

end NodeFactory.Token

namespace NodeFactory

theorem Lexeme.token_mem {text : List Char} {lexeme : Lexeme} (h : lexeme ∈ lexemesOf text) :
    lexeme.token ∈ Token.tokenize text :=
  (List.mem_filter.1 (Lexeme.token_of_mem h).1).1

/-- A lexeme stands for a token that the grammar reads. -/
theorem Lexeme.isLexical_of_mem {text : List Char} {lexeme : Lexeme} (h : lexeme ∈ lexemesOf text) :
    lexeme.token.IsLexical := by
  obtain ⟨hmem, htrivia⟩ := Lexeme.token_of_mem h
  exact ⟨htrivia, by simpa using (List.mem_filter.1 hmem).2⟩

theorem Lexeme.exists_of_token {token : Token} (hkind : token.kind.isTrivia = false) :
    ∀ {tokens gap : List Token} {isFirst : Bool}, token ∈ tokens →
      ∃ lexeme ∈ ofTokensFrom isFirst gap tokens, lexeme.token = token
  | first :: tokens, gap, isFirst, h => by
    rw [ofTokensFrom]
    rcases List.mem_cons.1 h with rfl | h
    · rw [if_neg (by simp [hkind])]
      exact ⟨_, List.mem_cons_self, rfl⟩
    · split
      · exact exists_of_token hkind h
      · obtain ⟨lexeme, hmem, hlexeme⟩ := exists_of_token hkind h
        exact ⟨lexeme, List.mem_cons_of_mem _ hmem, hlexeme⟩

/-- Each token that the grammar reads is a lexeme. -/
theorem Lexeme.exists_of_isLexical {text : List Char} {token : Token} (h : token.IsLexical)
    (hmem : token ∈ Token.tokenize text) : ∃ lexeme ∈ lexemesOf text, lexeme.token = token :=
  Lexeme.exists_of_token h.1 (List.mem_filter.2 ⟨hmem, by simp [h.2]⟩)

end NodeFactory
