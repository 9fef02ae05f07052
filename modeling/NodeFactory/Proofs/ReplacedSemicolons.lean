import NodeFactory.Proofs.LexicalGrammar
import NodeFactory.Proofs.SeparatedMembers

/-!
# Commas and line breaks in place of semicolons

Commas or line breaks are put in place of semicolons of a text. They separate the tokens around them as the
semicolons did, so the other tokens are cut out of the text again (`tokenize_instead`). A line break may run
together with those around it; the grammar sees no more of a gap than whether a line ends in it, and so it sees the
same tokens with the separators replaced (`sights_instead`). The lexemes differ in the separators only
(`reseparated_of_sights`), and a body all of whose members end with types and semicolons has the same members, with
no error (`replaced_semicolons_separate`).

Type arguments and the `is` of a predicate are looked for on the next line too. With a line break between a name
and a `<`, the type parameters of a call signature become type arguments of the member before it
(`callOnNewLine_differs`).
-/

namespace NodeFactory

open Parse Text

theorem TokenKind.not_isTrivia_of_isMalformed {kind : TokenKind} (h : kind.isMalformed = true) :
    kind.isTrivia = false := by
  cases kind <;> first | rfl | cases h

/-- What the grammar sees of a token. -/
structure Sight where
  kind : TokenKind
  text : List Char
  startsLine : Bool
  isGlued : Bool
deriving DecidableEq

def Lexeme.sight (lexeme : Lexeme) : Sight := ⟨lexeme.kind, lexeme.text, lexeme.startsLine, lexeme.isGlued⟩

namespace Token

/-- What is seen of tokens behind a gap, of which is known whether a line ends in it and whether it is empty.
Malformed pieces do not interrupt a gap. -/
def sights (startsLine isGlued : Bool) : List Token → List Sight
  | [] => []
  | token :: tokens =>
    if token.kind.isTrivia then sights (startsLine || token.kind == .endOfLine) false tokens
    else if token.kind.isMalformed then
      ⟨token.kind, token.text, startsLine, isGlued⟩ :: sights startsLine isGlued tokens
    else ⟨token.kind, token.text, startsLine, isGlued⟩ :: sights false true tokens

section Sights

variable {startsLine isGlued : Bool}

theorem sights_of_trivia {token : Token} (h : token.kind.isTrivia = true) (tokens : List Token) :
    sights startsLine isGlued (token :: tokens)
      = sights (startsLine || token.kind == .endOfLine) false tokens := by
  rw [sights, if_pos h]

theorem sights_moved (distance : Nat) : ∀ (tokens : List Token) (startsLine isGlued : Bool),
    sights startsLine isGlued (tokens.map (moved distance)) = sights startsLine isGlued tokens
  | [], _, _ => rfl
  | token :: tokens, startsLine, isGlued => by
    rw [List.map_cons, sights, sights, sights_moved distance tokens, sights_moved distance tokens,
      sights_moved distance tokens]
    rfl

/-- Where a text begins is not seen. -/
theorem sights_tokensFrom (start : Nat) (cs : List Char) :
    sights startsLine isGlued (tokensFrom start cs) = sights startsLine isGlued (tokenize cs) := by
  rw [← Nat.zero_add start, tokensFrom_moved, sights_moved]
  rfl

theorem sights_ofTokensFrom : ∀ (tokens gap : List Token) (isFirst : Bool),
    (Lexeme.ofTokensFrom isFirst gap (tokens.filter fun token => !token.kind.isMalformed)).map Lexeme.sight
      = (sights (gap.any fun token => token.kind == .endOfLine) gap.isEmpty tokens).filter
        fun sight => !sight.kind.isMalformed
  | [], _, _ => rfl
  | token :: tokens, gap, isFirst => by
    have hgap : ∀ isFirst, (Lexeme.ofTokensFrom isFirst (gap ++ [token])
        (tokens.filter fun token => !token.kind.isMalformed)).map Lexeme.sight
          = (sights ((gap.any fun token => token.kind == .endOfLine) || token.kind == .endOfLine) false
            tokens).filter fun sight => !sight.kind.isMalformed := fun isFirst => by
      rw [sights_ofTokensFrom tokens, List.any_append, List.any_cons, List.any_nil, Bool.or_false]
      cases gap <;> rfl
    rw [sights]
    by_cases hmalformed : token.kind.isMalformed = true
    · have htrivia := TokenKind.not_isTrivia_of_isMalformed hmalformed
      rw [List.filter_cons_of_neg (by simp [hmalformed]), htrivia, if_neg Bool.false_ne_true, if_pos hmalformed,
        List.filter_cons_of_neg (by simp [hmalformed]), sights_ofTokensFrom tokens]
    rw [List.filter_cons_of_pos (by simp [hmalformed]), Lexeme.ofTokensFrom]
    by_cases htrivia : token.kind.isTrivia = true
    · rw [if_pos htrivia, if_pos htrivia, hgap]
    · rw [if_neg htrivia, if_neg htrivia, if_neg hmalformed, List.filter_cons_of_pos (by simp [hmalformed]),
        List.map_cons, sights_ofTokensFrom tokens]
      rfl

theorem malformed_sights : ∀ (tokens : List Token) (startsLine isGlued : Bool),
    ((sights startsLine isGlued tokens).map Sight.kind).filter TokenKind.isMalformed
      = (tokens.map Token.kind).filter TokenKind.isMalformed
  | [], _, _ => rfl
  | token :: tokens, startsLine, isGlued => by
    rw [sights, List.map_cons]
    by_cases htrivia : token.kind.isTrivia = true
    · have hmalformed : ¬ token.kind.isMalformed = true := fun h => by
        rw [TokenKind.not_isTrivia_of_isMalformed h] at htrivia
        cases htrivia
      rw [if_pos htrivia, malformed_sights tokens, List.filter_cons_of_neg hmalformed]
    · rw [if_neg htrivia]
      by_cases hmalformed : token.kind.isMalformed = true
      · rw [if_pos hmalformed, List.map_cons, List.filter_cons_of_pos hmalformed,
          List.filter_cons_of_pos hmalformed, malformed_sights tokens]
      · rw [if_neg hmalformed, List.map_cons, List.filter_cons_of_neg hmalformed,
          List.filter_cons_of_neg hmalformed, malformed_sights tokens]

/-- Line breaks, and nothing else. -/
def IsLineBreak (cs : List Char) : Prop := cs ≠ [] ∧ ∀ c ∈ cs, isLineBreak c = true

/-- Behind line breaks, a line begins, and the line breaks at its beginning are not seen. -/
theorem sights_lineBreak {breaks : List Char} (h : IsLineBreak breaks) (cs : List Char) :
    sights startsLine isGlued (tokenize (breaks ++ cs)) = sights true false (tokenize cs) := by
  have hbreak : ∀ (startsLine isGlued : Bool) (c : Char) (ds : List Char), isLineBreak c = true →
      sights startsLine isGlued (tokenize (c :: ds))
        = sights true false (tokenize (ds.drop (runLength isLineBreak ds))) := by
    intro startsLine isGlued c ds hc
    rw [tokenize, tokensFrom_cons, extent_of_isLineBreak hc, sights_of_trivia rfl, sights_tokensFrom]
    exact congrArg (fun b => sights b false _) (Bool.or_true _)
  obtain ⟨hne, hall⟩ := h
  obtain ⟨c, breaks, rfl⟩ := List.exists_cons_of_ne_nil hne
  obtain ⟨hc, hbreaks⟩ := List.forall_mem_cons.1 hall
  have hrun : runLength isLineBreak (breaks ++ cs) = breaks.length + runLength isLineBreak cs := by
    rw [runLength, List.takeWhile_append_of_pos hbreaks, List.length_append]
    rfl
  rw [List.cons_append, hbreak _ _ _ _ hc, hrun, ← List.drop_drop, List.drop_left]
  cases cs with
  | nil => rfl
  | cons d ds =>
    by_cases hd : isLineBreak d = true
    · rw [hbreak _ _ _ _ hd, runLength, List.takeWhile_cons_of_pos hd, List.length_cons, List.drop_succ_cons]
      rfl
    · rw [runLength, List.takeWhile_cons_of_neg hd]
      rfl

end Sights

section Replaced

variable {text : List Char} {ends : Token → Prop} {instead : Token → List Char} {before tokens : List Token}
  {token : Token}

/-- What stands in place of the tokens is the same, but that commas or line breaks stand in place of some
semicolons. -/
def Replaces (ends : Token → Prop) (instead : Token → List Char) (tokens : List Token) : Prop :=
  ∀ token ∈ tokens, instead token = token.text
    ∨ token.kind = .semicolon ∧ ends token ∧ (instead token = [','] ∨ IsLineBreak (instead token))

/-- The token that stands in place of a token. -/
def replace (instead : Token → List Char) (token : Token) : Token :=
  if instead token = token.text then token
  else if instead token = [','] then ⟨.comma, [','], token.start⟩
  else ⟨.endOfLine, instead token, token.start⟩

theorem mem_separators_of_isLineBreak {c : Char} (h : isLineBreak c = true) : c ∈ separators := by
  simp only [isLineBreak, Bool.or_eq_true, beq_iff_eq] at h
  rcases h with ((rfl | rfl) | rfl) | rfl <;> decide

theorem takesIn_lineBreak {kind : TokenKind} {c : Char} (h : isLineBreak c = true) (hkind : kind ≠ .endOfLine) :
    takesIn kind c = false := by
  cases kind
  case endOfLine => exact absurd rfl hkind
  case lineComment => exact congrArg (! ·) h
  case blank =>
    refine eq_false_of_ne_true fun hblank => ?_
    rw [not_isLineBreak (.inl hblank)] at h
    cases h
  all_goals rfl

theorem takesIn_comma {kind : TokenKind} (h : kind ≠ .lineComment) : takesIn kind ',' = false := by
  cases kind <;> first | rfl | exact absurd rfl h

/-- What stands in place of a semicolon begins with a character that separates tokens. -/
theorem exists_separator {cs : List Char} (h : cs = [','] ∨ IsLineBreak cs) :
    ∃ d more, cs = d :: more ∧ d ∈ separators ∧ (d = ',' ∨ isLineBreak d = true) := by
  rcases h with rfl | ⟨hne, hall⟩
  · exact ⟨',', [], rfl, by decide, .inl rfl⟩
  · obtain ⟨d, more, rfl⟩ := List.exists_cons_of_ne_nil hne
    have hd := hall d List.mem_cons_self
    exact ⟨d, more, rfl, mem_separators_of_isLineBreak hd, .inr hd⟩

theorem IsLineBreak.ne_comma {cs : List Char} (h : IsLineBreak cs) : cs ≠ [','] := by
  rintro rfl
  cases h.2 ',' List.mem_cons_self

/-- No semicolon stands in place of a semicolon that is replaced. -/
theorem ne_text_of_replaced (hmem : token ∈ tokenize text) (hkind : token.kind = .semicolon)
    (hinstead : instead token = [','] ∨ IsLineBreak (instead token)) : instead token ≠ token.text := by
  rw [text_of_semicolon hmem hkind]
  obtain ⟨d, more, hd, -, hcomma | hbreak⟩ := exists_separator hinstead
  · rw [hd, hcomma]
    nofun
  · rw [hd]
    rintro ⟨⟩
    cases hbreak

theorem replace_of_same (h : instead token = token.text) : replace instead token = token := by
  rw [replace, if_pos h]

theorem replace_of_comma (hmem : token ∈ tokenize text) (hkind : token.kind = .semicolon)
    (h : instead token = [',']) : replace instead token = ⟨.comma, [','], token.start⟩ := by
  rw [replace, if_neg (ne_text_of_replaced hmem hkind (.inl h)), if_pos h]

theorem replace_of_lineBreak (hmem : token ∈ tokenize text) (hkind : token.kind = .semicolon)
    (h : IsLineBreak (instead token)) : replace instead token = ⟨.endOfLine, instead token, token.start⟩ := by
  rw [replace, if_neg (ne_text_of_replaced hmem hkind (.inr h)), if_neg h.ne_comma]

/-- A line comment goes up to the end of its line. -/
theorem kind_ne_lineComment {more : List Char} (h : tokenize text = before ++ token :: tokens)
    (hbehind : tokens.flatMap Token.text = ';' :: more) : token.kind ≠ .lineComment := by
  intro hkind
  obtain ⟨c, xs, -, hextent⟩ := extent_of_append h
  rw [hkind, hbehind] at hextent
  cases isLexeme_of_extent hextent rfl with
  | lineComment hrun => cases hrun.ended ';' rfl

theorem isLineBreak_of_endOfLine (h : tokenize text = before ++ token :: tokens)
    (hkind : token.kind = .endOfLine) : IsLineBreak token.text := by
  obtain ⟨c, xs, htext, hextent⟩ := extent_of_append h
  rw [hkind] at hextent
  cases isLexeme_of_extent hextent rfl with
  | endOfLine hne hrun => exact htext ▸ ⟨hne, hrun.all⟩

theorem instead_eq_nil (h : tokenize text = before ++ tokens) (hnil : tokens.flatMap Token.text = []) :
    tokens.flatMap instead = [] := by
  cases tokens with
  | nil => rfl
  | cons token tokens =>
    have hmem : token ∈ tokenize text := h ▸ List.mem_append_right _ List.mem_cons_self
    rw [List.flatMap_cons] at hnil
    exact absurd (List.append_eq_nil_iff.1 hnil).1 (text_ne_nil hmem)

variable (hreplaces : Replaces ends instead (tokenize text))
include hreplaces

theorem head_instead (h : tokenize text = before ++ tokens) :
    (tokens.flatMap instead).head? = some '.' ↔ (tokens.flatMap Token.text).head? = some '.' := by
  cases tokens with
  | nil => exact Iff.rfl
  | cons token tokens =>
    have hmem : token ∈ tokenize text := h ▸ List.mem_append_right _ List.mem_cons_self
    rw [List.flatMap_cons, List.flatMap_cons]
    rcases hreplaces token hmem with hsame | ⟨hkind, -, hinstead⟩
    · rw [hsame, List.head?_append_of_ne_nil _ (text_ne_nil hmem),
        List.head?_append_of_ne_nil _ (text_ne_nil hmem)]
    · obtain ⟨d, more, hd, hseparator, -⟩ := exists_separator hinstead
      rw [hd, text_of_semicolon hmem hkind]
      refine iff_of_false ?_ nofun
      rintro ⟨⟩
      exact absurd hseparator (by decide)

/-- No token but an end of line goes on with what stands in place of a semicolon. -/
theorem follows_instead (h : tokenize text = before ++ token :: tokens) (hkind : token.kind ≠ .endOfLine) :
    Follows token.kind (tokens.flatMap Token.text) (tokens.flatMap instead) := by
  cases tokens with
  | nil => exact .nothing
  | cons next tokens =>
    have hnext : tokenize text = before ++ [token] ++ [next] ++ tokens := by
      rw [h, List.append_cons, List.append_cons _ next]
    have hmem : next ∈ tokenize text := by
      rw [h]
      exact List.mem_append_right _ (List.mem_cons_of_mem _ List.mem_cons_self)
    rw [List.flatMap_cons, List.flatMap_cons]
    rcases hreplaces next hmem with hsame | ⟨hsemicolon, -, hinstead⟩
    · rw [hsame]
      exact follows_append (text_ne_nil hmem) fun _ => head_instead hreplaces hnext
    · obtain ⟨d, more, hd, hseparator, hcomma | hbreak⟩ := exists_separator hinstead
      · have hbehind : (next :: tokens).flatMap Token.text = ';' :: tokens.flatMap Token.text := by
          rw [List.flatMap_cons, text_of_semicolon hmem hsemicolon]
          rfl
        rw [hd, hcomma]
        exact .separator _ (by decide) (takesIn_comma (kind_ne_lineComment h hbehind))
      · rw [hd]
        exact .separator _ hseparator (takesIn_lineBreak hbreak hkind)

/-- The token is cut out of the other text too. -/
theorem tokenize_instead (h : tokenize text = before ++ token :: tokens) (hkind : token.kind ≠ .endOfLine) :
    tokenize (token.text ++ tokens.flatMap instead)
      = ⟨token.kind, token.text, 0⟩ :: tokensFrom (byteLength token.text) (tokens.flatMap instead) := by
  obtain ⟨c, xs, htext, hextent⟩ := extent_of_append h
  have hbehind : tokenize text = (before ++ [token]) ++ tokens := h.trans (List.append_cons before token tokens)
  have hextent' :=
    extent_of_follows hextent (fun _ => instead_eq_nil hbehind) (follows_instead hreplaces h hkind)
  rw [htext, List.cons_append, tokenize, tokensFrom_cons, hextent', List.take_left, List.drop_left, Nat.zero_add]

/-- The tokens that are seen are those that stand in place of the others. -/
theorem sights_instead : ∀ {tokens before : List Token} (startsLine isGlued : Bool),
    tokenize text = before ++ tokens → sights startsLine isGlued (tokenize (tokens.flatMap instead))
      = sights startsLine isGlued (tokens.map (replace instead))
  | [], _, _, _, _ => by
    rw [List.flatMap_nil, tokenize, tokensFrom]
    rfl
  | token :: tokens, before, startsLine, isGlued, h => by
    have hmem : token ∈ tokenize text := h ▸ List.mem_append_right _ List.mem_cons_self
    have ih : ∀ startsLine isGlued, sights startsLine isGlued (tokenize (tokens.flatMap instead))
        = sights startsLine isGlued (tokens.map (replace instead)) := fun _ _ =>
      sights_instead _ _ (h.trans (List.append_cons before token tokens))
    have hbreak : ∀ start {cs : List Char}, IsLineBreak cs →
        sights startsLine isGlued (tokenize (cs ++ tokens.flatMap instead))
          = sights startsLine isGlued (⟨.endOfLine, cs, start⟩ :: tokens.map (replace instead)) := by
      intro start cs hcs
      rw [sights_lineBreak hcs, ih, sights_of_trivia rfl]
      exact congrArg (fun b => sights b false (tokens.map (replace instead))) (Bool.or_true _).symm
    rw [List.flatMap_cons, List.map_cons]
    rcases hreplaces token hmem with hsame | ⟨hkind, -, hinstead⟩
    · rw [replace_of_same hsame, hsame]
      by_cases hkind : token.kind = .endOfLine
      · rw [hbreak token.start (isLineBreak_of_endOfLine h hkind), ← hkind]
      · rw [tokenize_instead hreplaces h hkind, sights, sights, sights_tokensFrom, sights_tokensFrom,
          sights_tokensFrom, ih, ih, ih]
    · rcases hinstead with hcomma | hlineBreak
      · have hextent : extent ',' (tokens.flatMap instead) = (.comma, 0) := rfl
        rw [replace_of_comma hmem hkind hcomma, hcomma, List.singleton_append, tokenize, tokensFrom_cons,
          hextent, List.take_zero, List.drop_zero, sights, sights, sights_tokensFrom, sights_tokensFrom,
          sights_tokensFrom, ih, ih, ih]
      · rw [replace_of_lineBreak hmem hkind hlineBreak, hbreak token.start hlineBreak]

end Replaced

end Token

open Token

section Lexemes

variable {text : List Char} {ends : Token → Prop} {instead : Token → List Char}

instance (cs : List Char) : Decidable (IsLineBreak cs) :=
  decidable_of_iff (cs ≠ [] ∧ cs.all isLineBreak = true) (and_congr_right' List.all_eq_true)

instance (last : TokenKind) (first : Lexeme) : Decidable (last.GoesOn first) :=
  inferInstanceAs (Decidable (_ ∧ _))

/-- No name is kept from what is read on behind it by nothing but semicolons in place of which there are line
breaks. -/
def KeepsApart (instead : Token → List Char) : Bool → TokenKind → List Lexeme → Prop
  | _, _, [] => True
  | broken, before, lexeme :: lexemes =>
    if instead lexeme.token ≠ lexeme.text ∧ IsLineBreak (instead lexeme.token) then
      KeepsApart instead true before lexemes
    else (broken = true → ¬ before.GoesOn lexeme) ∧ KeepsApart instead false lexeme.kind lexemes

instance KeepsApart.decide : ∀ (broken : Bool) (before : TokenKind) (lexemes : List Lexeme),
    Decidable (KeepsApart instead broken before lexemes)
  | _, _, [] => inferInstanceAs (Decidable True)
  | broken, before, lexeme :: lexemes =>
    have := KeepsApart.decide true before lexemes
    have := KeepsApart.decide false lexeme.kind lexemes
    inferInstanceAs (Decidable (if instead lexeme.token ≠ lexeme.text ∧ IsLineBreak (instead lexeme.token)
      then KeepsApart instead true before lexemes
      else (broken = true → ¬ before.GoesOn lexeme) ∧ KeepsApart instead false lexeme.kind lexemes))

/-- The lexemes that are seen where semicolons have been replaced. -/
theorem reseparated_of_sights : ∀ {tokens gap : List Token} {isFirst broken : Bool} {before : TokenKind}
    {lexemes' : List Lexeme}, (∀ token ∈ tokens, token ∈ tokenize text) → Replaces ends instead tokens →
      lexemes'.map Lexeme.sight = (sights (broken || gap.any fun token => token.kind == .endOfLine)
          (!broken && gap.isEmpty) (tokens.map (replace instead))).filter
            (fun sight => !sight.kind.isMalformed) →
        KeepsApart instead broken before
            (Lexeme.ofTokensFrom isFirst gap (tokens.filter fun token => !token.kind.isMalformed)) →
          Reseparated (fun lexeme => ends lexeme.token) broken before
            (Lexeme.ofTokensFrom isFirst gap (tokens.filter fun token => !token.kind.isMalformed)) lexemes'
  | [], _, _, _, _, lexemes', _, _, hsights, _ => by
    obtain rfl := List.map_eq_nil_iff.1 hsights
    exact .nil
  | token :: tokens, gap, isFirst, broken, before, lexemes', htext, hreplaces, hsights, hapart => by
    obtain ⟨hmem, htext⟩ := List.forall_mem_cons.1 htext
    obtain ⟨hreplaced, hreplaces⟩ := List.forall_mem_cons.1 hreplaces
    rw [List.map_cons] at hsights
    rcases hreplaced with hsame | ⟨hkind, hends, hinstead⟩
    · rw [replace_of_same hsame, sights] at hsights
      by_cases hmalformed : token.kind.isMalformed = true
      · have htrivia := TokenKind.not_isTrivia_of_isMalformed hmalformed
        rw [List.filter_cons_of_neg (by simp [hmalformed])] at hapart ⊢
        rw [htrivia, if_neg Bool.false_ne_true, if_pos hmalformed,
          List.filter_cons_of_neg (by simp [hmalformed])] at hsights
        exact reseparated_of_sights htext hreplaces hsights hapart
      rw [List.filter_cons_of_pos (by simp [hmalformed]), Lexeme.ofTokensFrom] at hapart ⊢
      by_cases htrivia : token.kind.isTrivia = true
      · rw [if_pos htrivia] at hsights hapart ⊢
        refine reseparated_of_sights htext hreplaces ?_ hapart
        rw [hsights, List.any_append, List.any_cons, List.any_nil, Bool.or_false, ← Bool.or_assoc]
        cases gap <;> cases broken <;> rfl
      · rw [if_neg htrivia] at hsights hapart ⊢
        rw [if_neg hmalformed, List.filter_cons_of_pos (by simp [hmalformed])] at hsights
        rw [KeepsApart, if_neg (fun h => h.1 hsame)] at hapart
        obtain ⟨first', rest', rfl, hfirst, hrest⟩ := List.map_eq_cons_iff.1 hsights
        refine .same ⟨?_, ?_, ?_, ?_⟩ hapart.1 (reseparated_of_sights htext hreplaces hrest hapart.2)
        · exact congrArg Sight.kind hfirst
        · exact congrArg Sight.text hfirst
        · exact congrArg Sight.startsLine hfirst
        · exact congrArg Sight.isGlued hfirst
    · have hlexical : token.kind.isMalformed = false ∧ token.kind.isTrivia = false := by
        rw [hkind]
        exact ⟨rfl, rfl⟩
      rw [List.filter_cons_of_pos (by simp [hlexical.1]), Lexeme.ofTokensFrom, hlexical.2,
        if_neg Bool.false_ne_true] at hapart ⊢
      rw [KeepsApart] at hapart
      rcases hinstead with hcomma | hbreak
      · rw [replace_of_comma hmem hkind hcomma] at hsights
        rw [if_neg (fun h => h.2.ne_comma hcomma)] at hapart
        obtain ⟨comma, rest', rfl, hfirst, hrest⟩ := List.map_eq_cons_iff.1 hsights
        refine .comma hkind hends (congrArg Sight.kind hfirst) (reseparated_of_sights htext hreplaces hrest ?_)
        rw [← hkind]
        exact hapart.2
      · rw [replace_of_lineBreak hmem hkind hbreak, sights_of_trivia rfl] at hsights
        rw [if_pos ⟨ne_text_of_replaced hmem hkind (.inr hbreak), hbreak⟩] at hapart
        refine .lineBreak hkind hends (reseparated_of_sights htext hreplaces (hsights.trans ?_) hapart)
        exact congrArg (fun b => (sights b false (tokens.map (replace instead))).filter _) (Bool.or_true _)

/-- What is seen of the whole text. -/
theorem sights_replaced (hreplaces : Replaces ends instead (tokenize text)) :
    sights false true (tokenize ((tokenize text).flatMap instead))
      = sights false true ((tokenize text).map (replace instead)) :=
  sights_instead hreplaces false true (List.nil_append _).symm

theorem reseparated_of_replaces (hreplaces : Replaces ends instead (tokenize text))
    (hapart : KeepsApart instead false .endOfFile (lexemesOf text)) :
    Reseparated (fun lexeme => ends lexeme.token) false .endOfFile (lexemesOf text)
      (lexemesOf ((tokenize text).flatMap instead)) :=
  reseparated_of_sights (fun _ => id) hreplaces ((sights_ofTokensFrom _ [] true).trans
    (congrArg (List.filter _) (sights_replaced hreplaces))) hapart

end Lexemes

section Malformed

variable {text : List Char} {ends : Token → Prop} {instead : Token → List Char}

/-- But for where it is, the error of a malformed piece is told by its kind. -/
theorem relocate_lexicalErrors : ∀ tokens : List Token,
    relocate .erasing (tokens.filterMap ParseError.ofToken?) = ((tokens.map Token.kind).filter
      TokenKind.isMalformed).filterMap fun kind => relocate .erasing (ParseError.ofToken? ⟨kind, [], 0⟩)
  | [] => rfl
  | ⟨k, cs, start⟩ :: tokens => by
    have ih := relocate_lexicalErrors tokens
    rw [List.map_cons]
    cases k <;> first | exact ih | exact congrArg (List.cons _) ih

/-- No malformed piece is replaced, and none is put in. -/
theorem isMalformed_replace {token : Token} (hmem : token ∈ tokenize text)
    (hreplaces : Replaces ends instead (tokenize text)) :
    replace instead token = token
      ∨ token.kind.isMalformed = false ∧ (replace instead token).kind.isMalformed = false := by
  rcases hreplaces token hmem with hsame | ⟨hkind, -, hinstead⟩
  · exact .inl (replace_of_same hsame)
  · refine .inr ⟨hkind ▸ rfl, ?_⟩
    rcases hinstead with hcomma | hbreak
    · rw [replace_of_comma hmem hkind hcomma]
      rfl
    · rw [replace_of_lineBreak hmem hkind hbreak]
      rfl

theorem malformed_replace (hreplaces : Replaces ends instead (tokenize text)) : ∀ tokens : List Token,
    tokens ⊆ tokenize text → ((tokens.map (replace instead)).map Token.kind).filter TokenKind.isMalformed
      = (tokens.map Token.kind).filter TokenKind.isMalformed
  | [], _ => rfl
  | token :: tokens, hsubset => by
    obtain ⟨hmem, hsubset⟩ := List.cons_subset.1 hsubset
    have ih := malformed_replace hreplaces tokens hsubset
    rw [List.map_cons, List.map_cons, List.map_cons]
    rcases isMalformed_replace hmem hreplaces with heq | ⟨hkind, hkind'⟩
    · rw [heq, List.filter_cons, List.filter_cons, ih]
    · rw [List.filter_cons_of_neg (by simp [hkind']), List.filter_cons_of_neg (by simp [hkind]), ih]

/-- The malformed pieces are reported with the same errors. -/
theorem sameErrors_of_replaces (hreplaces : Replaces ends instead (tokenize text)) :
    Same .erasing .erasing ((tokenize text).filterMap ParseError.ofToken?)
      ((tokenize ((tokenize text).flatMap instead)).filterMap ParseError.ofToken?) := by
  have hkinds := malformed_sights (tokenize ((tokenize text).flatMap instead)) false true
  rw [sights_replaced hreplaces, malformed_sights, malformed_replace hreplaces _ (List.Subset.refl _)] at hkinds
  rw [Same, relocate_lexicalErrors, relocate_lexicalErrors, hkinds]

end Malformed

section Bodies

variable {text : List Char} {instead : Token → List Char} {d e : Cursor} {all : List Member}

/-- In the body of an interface or of a type literal, all members end with a type and a semicolon, and there is
no error. In the text, commas or line breaks are put in place of some of these semicolons, but no line breaks
between a name and what is read on behind it. The other text has the same lexemes up to the body and behind it, and
the same malformed pieces; in the body, the same members are read without an error. -/
theorem replaced_semicolons_separate (htext : e.rest <:+ lexemesOf text) (hopened : e.kind = .openBrace)
    (hmembers : TypedInTurn e.next all d) (hclosed : d.kind = .closeBrace) (hclean : d.errors = [])
    (hreplaces : Replaces (fun token => ∃ member ∈ all, member.span.stop = token.span.stop) instead
      (tokenize text))
    (hapart : KeepsApart instead false .endOfFile (lexemesOf text)) :
    let text' := (tokenize text).flatMap instead
    ∃ before before' rest', lexemesOf text = before ++ e.rest ∧ lexemesOf text' = before' ++ rest'
      ∧ List.Forall₂ (Lexeme.Repeats false) before before'
      ∧ Same .erasing .erasing ((tokenize text).filterMap ParseError.ofToken?)
        ((tokenize text').filterMap ParseError.ofToken?)
      ∧ members typeExpr e = .ok all d.next
      ∧ ∀ e', e'.rest = rest' → e'.errors = [] → e'.kind = .openBrace
        ∧ ∃ all' f', members typeExpr e' = .ok all' f' ∧ Same .erasing .erasing all all' ∧ f'.errors = []
          ∧ List.Forall₂ (Lexeme.Repeats false) d.next.rest f'.rest := by
  obtain ⟨before, hbefore⟩ := id htext
  obtain ⟨opening, hrest, hkind⟩ := Cursor.rest_of_kind (show e.kind ≠ .endOfFile by rw [hopened]; nofun)
  rw [hopened] at hkind
  have horder := lexemes_inOrder text
  rw [← hbefore, hrest] at horder
  -- Each member ends behind the opening brace.
  have houtside : ∀ lexeme ∈ before, ¬ ∃ member ∈ all, member.span.stop = lexeme.span.stop := by
    rintro lexeme hmem ⟨member, hmember, hstop⟩
    obtain ⟨-, -, hacross⟩ := List.pairwise_append.1 horder.stops
    rw [List.map_append, List.map_cons] at horder
    obtain ⟨last, hlast, hstop'⟩ :=
      hmembers.stop (horder.right.sublist (List.sublist_cons_self _ _)) member hmember
    have hlt := hacross lexeme hmem last (List.mem_cons_of_mem _ hlast)
    omega
  have hall := reseparated_of_replaces hreplaces hapart
  rw [← hbefore, hrest] at hall
  obtain ⟨before', behind', hbefore', hsame, hbehind⟩ := hall.split houtside
  obtain ⟨opening', rest', rfl, hopening, -, hbody⟩ := hbehind.head_same (by rw [hkind]; nofun)
  refine ⟨before, before', _, hbefore.symm, hbefore', hsame, sameErrors_of_replaces hreplaces,
    hmembers.body hopened hclosed, fun e' hrest' hclean' => ?_⟩
  have hopened' : e'.kind = .openBrace := (Cursor.kind_of_cons hrest').trans (hopening.kind.trans hkind)
  have hnext : e'.next.rest = rest' := congrArg Cursor.rest (Cursor.next_of_cons hrest')
  rw [← hnext] at hbody
  exact ⟨hopened', members_reseparated ⟨before, hbefore⟩ hmembers hclosed hclean hopened' hbody hclean'⟩

end Bodies

section Instances

/-- As many members, if each of them ends with a type before a semicolon, and where they end. -/
def typedMembers? : Nat → Cursor → Option (List Member × Cursor)
  | 0, c => some ([], c)
  | n + 1, c =>
    match typedShape typeExpr (c.expect [.closeBrace]) with
    | .ok (shape, some _) m =>
      if m.kind = .semicolon then
        (typedMembers? n m.next).map fun read =>
          (⟨shape, ⟨c.start, max m.next.lastEnd c.start⟩, c.comments⟩ :: read.1, read.2)
      else none
    | _ => none

theorem typedInTurn_of_typedMembers? : ∀ {n : Nat} {c d : Cursor} {all : List Member},
    typedMembers? n c = some (all, d) → TypedInTurn c all d
  | 0, _, _, _, h => by
    obtain ⟨rfl, rfl⟩ := Prod.mk.inj (Option.some.inj h)
    exact .done _
  | n + 1, c, d, all, h => by
    rw [typedMembers?] at h
    generalize hrun : typedShape typeExpr (c.expect [.closeBrace]) = result at h
    match result with
    | .ok (shape, some type) m =>
      dsimp only at h
      by_cases hsemicolon : m.kind = .semicolon
      · rw [if_pos hsemicolon] at h
        obtain ⟨read, hread, hall⟩ := Option.map_eq_some_iff.1 h
        obtain ⟨rfl, rfl⟩ := Prod.mk.inj hall
        exact .next hrun hsemicolon (member_of_shape (memberShape_of_typedShape hrun) hsemicolon)
          (typedInTurn_of_typedMembers? hread)
      · rw [if_neg hsemicolon] at h
        cases h

/-- What ends members is told by where they end. -/
theorem Token.Replaces.of_stops {stops : List Nat} {instead : Token → List Char} {tokens : List Token}
    {all : List Member} (h : Replaces (fun token => token.span.stop ∈ stops) instead tokens)
    (hstops : all.map (fun member => member.span.stop) = stops) :
    Replaces (fun token => ∃ member ∈ all, member.span.stop = token.span.stop) instead tokens := by
  intro token hmem
  refine (h token hmem).imp_right (And.imp_right (And.imp_left fun hstop => ?_))
  rw [← hstops] at hstop
  exact List.mem_map.1 hstop

/-- The members of an interface, all of them with a semicolon, and with a comma and a line break in place of the
first two. -/
def withSemicolons : List Char := "interface A{a:B;c:D;m():E;}".toList

def withOthers : List Char := "interface A{a:B,c:D
m():E;}".toList

def otherSeparators (token : Token) : List Char :=
  if token.start = 15 then [','] else if token.start = 19 then ['\n'] else token.text

theorem withOthers_separates :
    (tokenize withSemicolons).flatMap otherSeparators = withOthers
      ∧ ∃ e e' all all' f f', e.rest <:+ lexemesOf withSemicolons ∧ e'.rest <:+ lexemesOf withOthers
        ∧ members typeExpr e = .ok all f ∧ members typeExpr e' = .ok all' f' ∧ all.length = 3
        ∧ Same .erasing .erasing all all' ∧ f.errors = [] ∧ f'.errors = [] := by
  have htext : (tokenize withSemicolons).flatMap otherSeparators = withOthers := by decide +kernel
  let e := Cursor.before 0 ((lexemesOf withSemicolons).drop 2)
  have hread : (typedMembers? 3 e.next).map (fun read => (read.1.map fun member => member.span.stop, read.2.kind,
      read.2.errors)) = some ([16, 20, 26], .closeBrace, []) := by decide +kernel
  obtain ⟨⟨all, d⟩, hmembers, hfacts⟩ := Option.map_eq_some_iff.1 hread
  obtain ⟨hstops, hends⟩ := Prod.mk.inj hfacts
  obtain ⟨hclosed, hclean⟩ := Prod.mk.inj hends
  have hreplaces : Replaces (fun token => token.span.stop ∈ [16, 20, 26]) otherSeparators
      (tokenize withSemicolons) := by
    unfold Replaces
    decide +kernel
  have hapart : KeepsApart otherSeparators false .endOfFile (lexemesOf withSemicolons) := by decide +kernel
  obtain ⟨before, before', rest', hbefore, hbefore', hsame, herrors, hbody, hmembers'⟩ :=
    replaced_semicolons_separate (List.drop_suffix 2 _) (by decide +kernel)
      (typedInTurn_of_typedMembers? hmembers) hclosed hclean (hreplaces.of_stops hstops) hapart
  obtain ⟨-, all', f', hbody', hall, hclean', -⟩ := hmembers' (Cursor.before 0 rest') rfl rfl
  refine ⟨htext, e, Cursor.before 0 rest', all, all', d.next, f', List.drop_suffix 2 _, ?_, hbody, hbody', ?_,
    hall, d.errors_next.trans hclean, hclean'⟩
  · rw [← htext, hbefore']
    exact List.suffix_append _ _
  · rw [← List.length_map, hstops]
    rfl

/-- A call signature with a type parameter, behind a semicolon and on a new line instead. -/
def callBehindSemicolon : List Char := "interface A{a:B;<T>(x:T):U;}".toList

def callOnNewLine : List Char := "interface A{a:B
<T>(x:T):U;}".toList

def firstOnNewLine (token : Token) : List Char := if token.start = 15 then ['\n'] else token.text

/-- How many type parameters each of the members has. -/
def typeParamCounts (members : List Member) : List Nat :=
  members.map fun member =>
    match member.shape with
    | .method _ _ signature | .call signature | .construct signature => signature.typeParams.length
    | _ => 0

theorem typeParamCounts_eq {all all' : List Member} (h : Same .erasing .erasing all all') :
    typeParamCounts all = typeParamCounts all' := by
  have hrelocate : ∀ members : List Member,
      typeParamCounts (relocate .erasing members) = typeParamCounts members := by
    intro members
    refine List.map_map.trans (List.map_congr_left fun member _ => ?_)
    obtain ⟨shape, span, comments⟩ := member
    have hcount : ∀ signature : Signature, (relocate .erasing signature).typeParams.length
        = signature.typeParams.length := fun signature => by
      obtain ⟨typeParams, params, returns⟩ := signature
      rw [relocate_signature]
      exact List.length_map _
    cases shape <;> first | rfl | exact hcount _
  rw [← hrelocate all, h, hrelocate]

/-- The members of a body, and where they end. -/
def body? (c : Cursor) : Option (List Member × Cursor) :=
  match members typeExpr c with
  | .ok all d => some (all, d)
  | .error _ _ => none

theorem members_of_body? {c d : Cursor} {all : List Member} (h : body? c = some (all, d)) :
    members typeExpr c = .ok all d := by
  rw [body?] at h
  cases hrun : members typeExpr c <;> rw [hrun] at h <;> cases h
  rfl

/-- Type arguments are read on behind a line break. -/
theorem callOnNewLine_differs :
    (tokenize callBehindSemicolon).flatMap firstOnNewLine = callOnNewLine
      ∧ ∃ e e' all all' d f', e.rest <:+ lexemesOf callBehindSemicolon ∧ e'.rest <:+ lexemesOf callOnNewLine
        ∧ TypedInTurn e.next all d ∧ Replaces (fun token => ∃ member ∈ all, member.span.stop = token.span.stop)
          firstOnNewLine (tokenize callBehindSemicolon)
        ∧ members typeExpr e = .ok all d.next ∧ d.errors = []
        ∧ members typeExpr e' = .ok all' f' ∧ f'.errors = [] ∧ ¬ Same .erasing .erasing all all' := by
  have htext : (tokenize callBehindSemicolon).flatMap firstOnNewLine = callOnNewLine := by decide +kernel
  let e := Cursor.before 0 ((lexemesOf callBehindSemicolon).drop 2)
  let e' := Cursor.before 0 ((lexemesOf callOnNewLine).drop 2)
  have hread : (typedMembers? 2 e.next).map (fun read => (read.1.map fun member => member.span.stop,
      typeParamCounts read.1, read.2.kind, read.2.errors)) = some ([16, 27], [0, 1], .closeBrace, []) := by
    decide +kernel
  have hread' : (body? e').map (fun read => (typeParamCounts read.1, read.2.errors)) = some ([0, 0], []) := by
    decide +kernel
  obtain ⟨⟨all, d⟩, hmembers, hfacts⟩ := Option.map_eq_some_iff.1 hread
  obtain ⟨hstops, hfacts⟩ := Prod.mk.inj hfacts
  obtain ⟨hcounts, hfacts⟩ := Prod.mk.inj hfacts
  obtain ⟨hclosed, hclean⟩ := Prod.mk.inj hfacts
  obtain ⟨⟨all', f'⟩, hbody', hfacts'⟩ := Option.map_eq_some_iff.1 hread'
  obtain ⟨hcounts', hclean'⟩ := Prod.mk.inj hfacts'
  have hreplaces : Replaces (fun token => token.span.stop ∈ [16, 27]) firstOnNewLine
      (tokenize callBehindSemicolon) := by
    unfold Replaces
    decide +kernel
  have hmembers := typedInTurn_of_typedMembers? hmembers
  refine ⟨htext, e, e', all, all', d, f', List.drop_suffix 2 _, List.drop_suffix 2 _, hmembers,
    hreplaces.of_stops hstops, hmembers.body (by decide +kernel) hclosed, hclean, members_of_body? hbody',
    hclean', fun hsame => ?_⟩
  rw [typeParamCounts_eq hsame, hcounts'] at hcounts
  cases hcounts

end Instances

end NodeFactory
