import NodeFactory.Proofs.TokenSpellings

/-!
# The lexical grammar

White space, comments, names and literals in quotes are described by their text and by what stands behind
them (`IsLexeme`). The tokens of these kinds are such lexemes, and where one of them begins no other token
does (`tokens_are_lexemes`).

What a token is depends on its own text alone: cut out of the text it is the same token
(`tokenize_token`).
-/

namespace NodeFactory

open Text

/-- The kinds of token that the lexical grammar describes. -/
def TokenKind.isDescribed : TokenKind → Bool
  | blank | endOfLine | lineComment | blockComment | unterminatedComment => true
  | identifier | keyword _ | string | template | unterminatedString => true
  | _ => false

namespace Token

/-- A run of characters of a class, which ends where the class does. -/
structure IsRun (p : Char → Bool) (run behind : List Char) : Prop where
  all : ∀ c ∈ run, p c = true
  ended : ∀ c ∈ behind.head?, p c = false

/-- What a piece of text of a kind is, and what may stand behind it. -/
inductive IsLexeme : TokenKind → List Char → List Char → Prop
  | blank {run behind : List Char} : run ≠ [] → IsRun isBlank run behind → IsLexeme .blank run behind
  | endOfLine {run behind : List Char} : run ≠ [] → IsRun isLineBreak run behind →
      IsLexeme .endOfLine run behind
  | lineComment {body behind : List Char} : IsRun (fun c => !isLineBreak c) body behind →
      IsLexeme .lineComment ('/' :: '/' :: body) behind
  | blockComment {body behind : List Char} : HasNoEnd (body ++ ['*']) →
      IsLexeme .blockComment ('/' :: '*' :: (body ++ ['*', '/'])) behind
  | unterminatedComment {body : List Char} : HasNoEnd body →
      IsLexeme .unterminatedComment ('/' :: '*' :: body) []
  | identifier {c : Char} {cs behind : List Char} : isNameStart c = true → IsRun isNameContinue cs behind →
      (∀ word : Keyword, c :: cs ≠ word.text.toList) → IsLexeme .identifier (c :: cs) behind
  | keyword {c : Char} {cs behind : List Char} {word : Keyword} : isNameStart c = true →
      IsRun isNameContinue cs behind → c :: cs = word.text.toList → IsLexeme (.keyword word) (c :: cs) behind
  | string {quote : Char} {literal behind : List Char} : quote = '"' ∨ quote = '\x27' →
      IsClosed quote isLineBreak literal → IsLexeme .string literal behind
  | template {literal behind : List Char} : IsClosed '\x60' (fun _ => false) literal →
      IsLexeme .template literal behind
  | unterminatedString {quote : Char} {literal behind : List Char} : quote = '"' ∨ quote = '\x27' →
      IsLeftOpen quote isLineBreak literal behind → IsLexeme .unterminatedString literal behind
  | unterminatedTemplate {literal behind : List Char} : IsLeftOpen '\x60' (fun _ => false) literal behind →
      IsLexeme .unterminatedString literal behind

section Described

variable {kind : TokenKind} {c : Char} {xs ys : List Char}

theorem isRun_iff {p : Char → Bool} : IsRun p xs ys ↔ runLength p (xs ++ ys) = xs.length := by
  rw [runLength_append_eq_iff]
  exact ⟨fun h => ⟨h.all, h.ended⟩, fun h => ⟨h.1, h.2⟩⟩

/-- A run behind its first character. -/
theorem isRun_cons {p : Char → Bool} : IsRun p (c :: xs) ys ↔ p c = true ∧ IsRun p xs ys := by
  constructor
  · intro h
    obtain ⟨hfirst, hrest⟩ := List.forall_mem_cons.1 h.all
    exact ⟨hfirst, hrest, h.ended⟩
  · rintro ⟨hfirst, hrest⟩
    exact ⟨List.forall_mem_cons.2 ⟨hfirst, hrest.all⟩, hrest.ended⟩

theorem isLexeme_of_slashExtent (h : slashExtent (xs ++ ys) = (kind, xs.length))
    (hkind : kind.isDescribed = true) : IsLexeme kind ('/' :: xs) ys := by
  cases xs with
  | nil =>
    obtain ⟨rfl, -⟩ := head_of_slashExtent h
    cases hkind
  | cons c xs =>
    rw [List.cons_append, List.length_cons] at h
    by_cases hline : c = '/'
    · subst hline
      obtain ⟨rfl, hlength⟩ := Prod.mk.inj h
      exact .lineComment (isRun_iff.2 (Nat.add_left_cancel (hlength.trans (Nat.add_comm _ 1))))
    by_cases hblock : c = '*'
    · subst hblock
      rw [slashExtent_block] at h
      cases hend : commentEnd? (xs ++ ys) with
      | none =>
        rw [hend] at h
        obtain ⟨rfl, hlength⟩ := Prod.mk.inj h
        rw [List.length_append] at hlength
        obtain rfl := List.eq_nil_of_length_eq_zero (l := ys) (by omega)
        rw [List.append_nil] at hend
        exact .unterminatedComment (commentEnd?_eq_none_iff.1 hend)
      | some n =>
        rw [hend] at h
        obtain ⟨rfl, hlength⟩ := Prod.mk.inj h
        obtain rfl : n = xs.length := by omega
        obtain ⟨body, rfl, hbody⟩ := commentEnd?_eq_some_iff.1 hend
        exact .blockComment hbody
    · rw [slashExtent_of_head (by simpa using hline) (by simpa using hblock)] at h
      cases h

theorem punctuation_not_described (c : Char) : (punctuation c).isDescribed = false := by
  unfold punctuation
  split <;> rfl

theorem nameKind_of_eq {name : List Char} {word : Keyword} (h : name = word.text.toList) :
    nameKind name = .keyword word := by
  rw [nameKind, h, Keyword.ofName?_text]

theorem nameKind_of_ne {name : List Char} (h : ∀ word : Keyword, name ≠ word.text.toList) :
    nameKind name = .identifier := by
  unfold nameKind
  cases hname : Keyword.ofName? name with
  | some word => exact absurd (Keyword.eq_text_of_ofName? hname) (h word)
  | none => rfl

/-- A name is a keyword if it is spelled as one, and an identifier else. -/
theorem isLexeme_name (hc : isNameStart c = true) (hrun : IsRun isNameContinue xs ys) :
    IsLexeme (nameKind (c :: xs)) (c :: xs) ys := by
  by_cases hword : ∃ word : Keyword, c :: xs = word.text.toList
  · obtain ⟨word, htext⟩ := hword
    rw [nameKind_of_eq htext]
    exact .keyword hc hrun htext
  · have hne := not_exists.1 hword
    rw [nameKind_of_ne hne]
    exact .identifier hc hrun hne

/-- What begins where a token of a kind does that the grammar describes is a lexeme of that kind. -/
theorem isLexeme_of_extent (h : extent c (xs ++ ys) = (kind, xs.length)) (hkind : kind.isDescribed = true) :
    IsLexeme kind (c :: xs) ys := by
  have hrule := extent_rule c
  generalize extent c = rule at hrule h
  cases hrule with
  | slash hc =>
    subst hc
    exact isLexeme_of_slashExtent h hkind
  | equals =>
    have hother := equalsExtent_kind (xs ++ ys)
    rw [h] at hother
    rcases hother with rfl | rfl <;> cases hkind
  | dot =>
    have hother := dotExtent_kind (xs ++ ys)
    rw [h] at hother
    rcases hother with rfl | rfl | rfl <;> cases hkind
  | endOfLine hc =>
    obtain ⟨rfl, hlength⟩ := Prod.mk.inj h
    exact .endOfLine (List.cons_ne_nil _ _) (isRun_cons.2 ⟨hc, isRun_iff.2 hlength⟩)
  | blank hc =>
    obtain ⟨rfl, hlength⟩ := Prod.mk.inj h
    exact .blank (List.cons_ne_nil _ _) (isRun_cons.2 ⟨hc, isRun_iff.2 hlength⟩)
  | name hc =>
    obtain ⟨rfl, hlength⟩ := Prod.mk.inj h
    rw [hlength, List.take_left]
    exact isLexeme_name hc (isRun_iff.2 hlength)
  | number =>
    obtain ⟨rfl, -⟩ := Prod.mk.inj h
    cases hkind
  | string hc =>
    obtain ⟨rfl, hclosed⟩ | ⟨rfl, hopen⟩ := (quotedToken_iff (backslash_ne_quote hc) rfl).1 h
    · exact .string hc hclosed
    · exact .unterminatedString hc hopen
  | template hc =>
    subst hc
    obtain ⟨rfl, hclosed⟩ | ⟨rfl, hopen⟩ := (quotedToken_iff (by decide) rfl).1 h
    · exact .template hclosed
    · exact .unterminatedTemplate hopen
  | mark =>
    obtain ⟨rfl, -⟩ := Prod.mk.inj h
    rw [punctuation_not_described] at hkind
    cases hkind

end Described

section Lexemes

variable {kind : TokenKind} {lexeme behind : List Char}

theorem IsClosed.exists_cons {quote : Char} {breaks : Char → Bool} (h : IsClosed quote breaks lexeme) :
    ∃ xs, lexeme = quote :: xs := by
  cases h
  exact ⟨_, rfl⟩

theorem IsLeftOpen.exists_cons {quote : Char} {breaks : Char → Bool}
    (h : IsLeftOpen quote breaks lexeme behind) : ∃ xs, lexeme = quote :: xs := by
  cases h <;> exact ⟨_, rfl⟩

theorem extent_name {c : Char} {xs ys : List Char} (hc : isNameStart c = true)
    (hrun : IsRun isNameContinue xs ys) : extent c (xs ++ ys) = (nameKind (c :: xs), xs.length) := by
  rw [extent_of_isNameStart hc, isRun_iff.1 hrun, List.take_left]

/-- Where a lexeme begins, it is found. -/
theorem IsLexeme.extent_eq (h : IsLexeme kind lexeme behind) :
    ∃ c xs, lexeme = c :: xs ∧ extent c (xs ++ behind) = (kind, xs.length) := by
  cases h with
  | blank hne hrun =>
    obtain ⟨c, xs, rfl⟩ := List.exists_cons_of_ne_nil hne
    obtain ⟨hc, hrest⟩ := isRun_cons.1 hrun
    exact ⟨c, xs, rfl, by rw [extent_of_isBlank hc, isRun_iff.1 hrest]⟩
  | endOfLine hne hrun =>
    obtain ⟨c, xs, rfl⟩ := List.exists_cons_of_ne_nil hne
    obtain ⟨hc, hrest⟩ := isRun_cons.1 hrun
    exact ⟨c, xs, rfl, by rw [extent_of_isLineBreak hc, isRun_iff.1 hrest]⟩
  | @lineComment body _ hrun =>
    refine ⟨'/', '/' :: body, rfl, ?_⟩
    show slashExtent ('/' :: (body ++ behind)) = _
    rw [slashExtent_line, isRun_iff.1 hrun, List.length_cons, Nat.add_comm]
  | @blockComment body _ hbody =>
    refine ⟨'/', '*' :: (body ++ ['*', '/']), rfl, ?_⟩
    show slashExtent ('*' :: (body ++ ['*', '/'] ++ behind)) = _
    rw [slashExtent_block, commentEnd?_eq_some_iff.2 ⟨body, rfl, hbody⟩]
    exact Prod.ext rfl (Nat.add_comm _ _)
  | @unterminatedComment body hbody =>
    refine ⟨'/', '*' :: body, rfl, ?_⟩
    show slashExtent ('*' :: (body ++ [])) = _
    rw [List.append_nil, slashExtent_block, commentEnd?_eq_none_iff.2 hbody, List.length_cons, Nat.add_comm]
  | @identifier c xs _ hc hrun hword =>
    refine ⟨c, xs, rfl, ?_⟩
    rw [extent_name hc hrun, nameKind_of_ne hword]
  | @keyword c xs _ word hc hrun hword =>
    refine ⟨c, xs, rfl, ?_⟩
    rw [extent_name hc hrun, nameKind_of_eq hword]
  | string hquote hclosed =>
    obtain ⟨xs, rfl⟩ := hclosed.exists_cons
    refine ⟨_, xs, rfl, ?_⟩
    rw [extent_of_isQuote hquote, quotedToken_iff (backslash_ne_quote hquote) rfl]
    exact .inl ⟨rfl, hclosed⟩
  | template hclosed =>
    obtain ⟨xs, rfl⟩ := hclosed.exists_cons
    exact ⟨_, xs, rfl, (quotedToken_iff (by decide) rfl).2 (.inl ⟨rfl, hclosed⟩)⟩
  | unterminatedString hquote hopen =>
    obtain ⟨xs, rfl⟩ := hopen.exists_cons
    refine ⟨_, xs, rfl, ?_⟩
    rw [extent_of_isQuote hquote, quotedToken_iff (backslash_ne_quote hquote) rfl]
    exact .inr ⟨rfl, hopen⟩
  | unterminatedTemplate hopen =>
    obtain ⟨xs, rfl⟩ := hopen.exists_cons
    exact ⟨_, xs, rfl, (quotedToken_iff (by decide) rfl).2 (.inr ⟨rfl, hopen⟩)⟩

/-- Two lexemes, with what stands behind them, are the same where the text is. -/
theorem IsLexeme.eq_of_extent {c : Char} {xs : List Char} {kind' : TokenKind} {behind' : List Char}
    (h : IsLexeme kind lexeme behind) (hextent : extent c (xs ++ behind') = (kind', xs.length))
    (htext : lexeme ++ behind = c :: (xs ++ behind')) : kind = kind' ∧ lexeme = c :: xs := by
  obtain ⟨d, ys, rfl, hlexeme⟩ := h.extent_eq
  obtain ⟨rfl, hrest⟩ := List.cons.inj htext
  rw [← hrest] at hextent
  obtain ⟨rfl, hlength⟩ := Prod.mk.inj (hlexeme.symm.trans hextent)
  exact ⟨rfl, congrArg _ (List.append_inj_left hrest hlength)⟩

end Lexemes

section Tokens

variable {text : List Char} {token : Token}

/-- The shortest block comment has nothing between its beginning and its end. -/
theorem IsLexeme.four_le_byteLength {lexeme behind : List Char} (h : IsLexeme .blockComment lexeme behind) :
    4 ≤ byteLength lexeme := by
  cases h with
  | @blockComment body =>
    show 4 ≤ 1 + (1 + byteLength (body ++ ['*', '/']))
    rw [byteLength_append]
    show 4 ≤ 1 + (1 + (byteLength body + 2))
    omega

/-- Each token of a kind that the grammar describes is a lexeme of that kind, before what stands behind it
in the text, and no other lexeme begins where a token does. -/
theorem tokens_are_lexemes (h : token ∈ tokenize text) : ∃ before behind,
    text = before ++ token.text ++ behind ∧ token.span.start = byteLength before
      ∧ (token.kind.isDescribed = true → IsLexeme token.kind token.text behind)
      ∧ (token.kind = .blockComment → 4 ≤ byteLength token.text)
      ∧ ∀ kind lexeme behind', IsLexeme kind lexeme behind' → lexeme ++ behind' = token.text ++ behind →
          kind = token.kind ∧ lexeme = token.text := by
  obtain ⟨before, behind, c, xs, hjoined, hstart, htext, hextent⟩ := exists_behind h
  have hlexeme : token.kind.isDescribed = true → IsLexeme token.kind token.text behind := by
    rw [htext]
    exact isLexeme_of_extent hextent
  refine ⟨before, behind, hjoined, hstart, hlexeme, fun hkind => ?_, ?_⟩
  · rw [hkind] at hlexeme
    exact (hlexeme rfl).four_le_byteLength
  · intro kind lexeme behind' hother hsame
    rw [htext] at hsame ⊢
    exact hother.eq_of_extent hextent hsame

/-- The backslash before the closing quote is escaped, and the comment before the string does not end with
the star of its beginning. -/
theorem tokens_are_lexemes_backslash :
    (⟨.string, "'\\\\'".toList, 6⟩ : Token) ∈ tokenize "/*/**/'\\\\'in".toList
    ∧ ∃ before behind, "/*/**/'\\\\'in".toList = before ++ "'\\\\'".toList ++ behind ∧ byteLength before = 6
      ∧ IsLexeme .string "'\\\\'".toList behind := by
  have h : (⟨.string, "'\\\\'".toList, 6⟩ : Token) ∈ tokenize "/*/**/'\\\\'in".toList := by decide +kernel
  obtain ⟨before, behind, htext, hstart, hlexeme, -⟩ := tokens_are_lexemes h
  exact ⟨h, before, behind, htext, hstart.symm, hlexeme rfl⟩

theorem tokenize_text (h : token ∈ tokenize text) : tokenize token.text = [⟨token.kind, token.text, 0⟩] := by
  obtain ⟨-, behind, c, xs, -, -, htext, hextent⟩ := exists_behind h
  have halone := extent_alone hextent
  rw [List.take_left] at halone
  rw [htext, tokenize, tokensFrom_cons, halone]
  dsimp only
  rw [List.take_length, List.drop_length, tokensFrom]

/-- A token is the same token where its text stands alone, so that tokens with the same text are of the same
kind, whatever texts they are found in. -/
theorem tokenize_token (h : token ∈ tokenize text) :
    tokenize token.text = [⟨token.kind, token.text, 0⟩]
      ∧ ∀ text' token', token' ∈ tokenize text' → token'.text = token.text → token'.kind = token.kind := by
  have halone := tokenize_text h
  refine ⟨halone, fun text' token' h' hsame => ?_⟩
  have halone' := tokenize_text h'
  rw [hsame, halone] at halone'
  exact (congrArg Token.kind (List.cons.inj halone').1).symm

/-- The last number begins with the second dot, which is no part of the first. -/
theorem tokenize_token_range : (⟨.number, ".2".toList, 2⟩ : Token) ∈ tokenize "1..2".toList
    ∧ tokenize ".2".toList = [⟨.number, ".2".toList, 0⟩] := by
  have h : (⟨.number, ".2".toList, 2⟩ : Token) ∈ tokenize "1..2".toList := by decide +kernel
  exact ⟨h, (tokenize_token h).1⟩

end Tokens

end Token

end NodeFactory
