import Mathlib.Data.List.Chain
import NodeFactory.Proofs.TypeText

/-!
# Words written on a line

A word is the kind and the text of a token. Words are written on a line with a blank between any two,
but for angle brackets of one kind, which stand together. A blank ends every token before it
(`extent_blank`), so a line is cut into its words again (`lexemesOf_line`).
-/

namespace NodeFactory

open Text

namespace Token

/-- A token that a text is stays one if a blank follows. -/
theorem extent_blank {c : Char} {cs : List Char} {kind : TokenKind} (h : extent c cs = (kind, cs.length))
    (hkind : kind.isTrivia = false) (hclean : kind.isMalformed = false) (more : List Char) :
    extent c (cs ++ ' ' :: more) = (kind, cs.length) := by
  have hnothing : extent c (cs ++ []) = (kind, cs.length) := by rwa [List.append_nil]
  exact extent_of_follows hnothing (by simp [hclean])
    (.separator more (by decide) (takesIn_of_not_trivia hkind ' '))

end Token

structure Word where
  kind : TokenKind
  text : List Char
deriving DecidableEq, Repr

def Lexeme.word (lexeme : Lexeme) : Word := ⟨lexeme.kind, lexeme.text⟩

namespace Word

/-- The text is one token, of the kind, and one that the grammar reads. -/
def IsWhole (word : Word) : Prop :=
  ∃ c cs, word.text = c :: cs ∧ Token.extent c cs = (word.kind, cs.length)
    ∧ word.kind.isTrivia = false ∧ word.kind.isMalformed = false

instance (word : Word) : Decidable word.IsWhole :=
  match h : word.text with
  | [] => isFalse fun ⟨_, _, htext, _⟩ => by simp [h] at htext
  | c :: cs => decidable_of_iff (Token.extent c cs = (word.kind, cs.length)
      ∧ word.kind.isTrivia = false ∧ word.kind.isMalformed = false)
    ⟨fun hextent => ⟨c, cs, h, hextent⟩, fun ⟨c', cs', htext, hextent⟩ => by
      obtain ⟨rfl, rfl⟩ := List.cons.inj (h.symm.trans htext)
      exact hextent⟩

/-- Whether two words that follow each other stand together, as in a shift. -/
def joins (word next : Word) : Bool :=
  (word.text == ['<'] || word.text == ['>']) && next.text == word.text

/-- How a line goes on after a word. -/
def lineAfter : Word → List Word → List Char
  | _, [] => []
  | word, next :: words =>
    (if word.joins next then [] else [' ']) ++ next.text ++ lineAfter next words

/-- The words on a line. -/
def line : List Word → List Char
  | [] => []
  | word :: words => word.text ++ lineAfter word words

end Word

/-- The lexemes are those words, none begins a line, and those that are joined stand together. -/
structure OnLine (lexemes : List Lexeme) (words : List Word) : Prop where
  words : lexemes.map Lexeme.word = words
  startsLine : ∀ lexeme ∈ lexemes, lexeme.startsLine = false
  glued : lexemes.IsChain fun lexeme next => lexeme.word.joins next.word = true → next.isGlued = true

namespace Word

section Lines

variable {word : Word} {words : List Word}

theorem IsWhole.not_blank (h : word.IsWhole) : ∃ c cs, word.text = c :: cs ∧ isBlank c = false := by
  obtain ⟨c, cs, htext, hextent, htrivia, -⟩ := h
  refine ⟨c, cs, htext, eq_false_of_ne_true fun hblank => ?_⟩
  have hkind := Token.isTrivia_of_isBlank hblank cs
  rw [hextent] at hkind
  simp [htrivia] at hkind

/-- A word on a line is a token by itself. -/
theorem IsWhole.extent (h : word.IsWhole) (words : List Word) : ∃ c cs, word.text = c :: cs
    ∧ Token.extent c (cs ++ lineAfter word words) = (word.kind, cs.length) := by
  obtain ⟨c, cs, htext, hextent, htrivia, hclean⟩ := h
  refine ⟨c, cs, htext, ?_⟩
  cases words with
  | nil => rwa [lineAfter, List.append_nil]
  | cons next words =>
    rw [lineAfter, List.append_assoc]
    split
    · rename_i hjoins
      have hangle : word.text = ['<'] ∨ word.text = ['>'] := by
        simp only [joins, Bool.and_eq_true, Bool.or_eq_true, beq_iff_eq] at hjoins
        exact hjoins.1
      rcases hangle with hangle | hangle <;>
        · rw [hangle] at htext
          obtain ⟨rfl, rfl⟩ := List.cons.inj htext
          exact hextent
    · exact Token.extent_blank hextent htrivia hclean _

theorem tokensFrom_word (h : word.IsWhole) (words : List Word) (start : Nat) :
    Token.tokensFrom start (word.text ++ lineAfter word words) = ⟨word.kind, word.text, start⟩
      :: Token.tokensFrom (start + byteLength word.text) (lineAfter word words) := by
  obtain ⟨c, cs, htext, hextent⟩ := h.extent words
  rw [htext, List.cons_append, Token.tokensFrom_of_extent start hextent, List.take_left' rfl,
    List.drop_left' rfl]

theorem tokensFrom_gap (h : word.IsWhole) (rest : List Char) (start : Nat) :
    Token.tokensFrom start (' ' :: (word.text ++ rest)) = ⟨.blank, [' '], start⟩
      :: Token.tokensFrom (start + 1) (word.text ++ rest) := by
  obtain ⟨c, cs, htext, hblank⟩ := h.not_blank
  have hrun : Token.runLength isBlank (c :: (cs ++ rest)) = 0 := by
    unfold Token.runLength
    rw [List.takeWhile_cons_of_neg (by simp [hblank]), List.length_nil]
  have hextent : Token.extent ' ' (c :: (cs ++ rest)) = (.blank, 0) := by
    show (TokenKind.blank, Token.runLength isBlank (c :: (cs ++ rest))) = _
    rw [hrun]
  rw [htext, List.cons_append, Token.tokensFrom_of_extent start hextent]
  rfl

theorem ofTokensFrom_gap (isFirst : Bool) (gap tokens : List Token) (start : Nat) :
    Lexeme.ofTokensFrom isFirst gap (⟨.blank, [' '], start⟩ :: tokens)
      = Lexeme.ofTokensFrom isFirst (gap ++ [⟨.blank, [' '], start⟩]) tokens := by
  rw [Lexeme.ofTokensFrom]
  rfl

theorem lexemes_lineAfter : ∀ {words : List Word} {word : Word}, word.IsWhole →
    (∀ next ∈ words, next.IsWhole) → ∀ (start : Nat) (gap : List Token) (isFirst : Bool),
    (∀ token ∈ gap, token.kind ≠ .endOfLine) →
    (∀ token ∈ Token.tokensFrom start (word.text ++ lineAfter word words),
      token.kind.isMalformed = false)
    ∧ ∃ lexemes, Lexeme.ofTokensFrom isFirst gap
        (Token.tokensFrom start (word.text ++ lineAfter word words))
          = ⟨⟨word.kind, word.text, start⟩, gap, isFirst⟩ :: lexemes
      ∧ OnLine (⟨⟨word.kind, word.text, start⟩, gap, isFirst⟩ :: lexemes) (word :: words)
  | words, word, hword, hwords, start, gap, isFirst, hgap => by
    have htrivia : word.kind.isTrivia = false := by
      obtain ⟨-, -, -, -, htrivia, -⟩ := hword
      exact htrivia
    have hclean : word.kind.isMalformed = false := by
      obtain ⟨-, -, -, -, -, hclean⟩ := hword
      exact hclean
    have hline : ∀ lexemes : List Lexeme, (∀ lexeme ∈ lexemes, lexeme.startsLine = false) →
        ∀ lexeme ∈ ⟨⟨word.kind, word.text, start⟩, gap, isFirst⟩ :: lexemes,
          lexeme.startsLine = false := by
      intro lexemes hlexemes lexeme hmem
      rcases List.mem_cons.1 hmem with rfl | hmem
      · exact List.any_eq_false.2 fun token hmem => by simpa using hgap token hmem
      · exact hlexemes lexeme hmem
    rw [tokensFrom_word hword, Lexeme.ofTokensFrom, if_neg (by simp [htrivia])]
    cases words with
    | nil =>
      rw [lineAfter, Token.tokensFrom]
      exact ⟨by simpa using hclean, [], rfl, rfl, hline [] (List.forall_mem_nil _),
        List.isChain_singleton _⟩
    | cons next words =>
      obtain ⟨hnext, hwords'⟩ := List.forall_mem_cons.1 hwords
      rw [lineAfter, List.append_assoc]
      by_cases hjoins : word.joins next = true
      · rw [if_pos hjoins, List.nil_append]
        obtain ⟨htokens, lexemes, hlexemes, hon⟩ := lexemes_lineAfter hnext hwords'
          (start + byteLength word.text) [] false (List.forall_mem_nil _)
        refine ⟨List.forall_mem_cons.2 ⟨hclean, htokens⟩, _, congrArg _ hlexemes,
          congrArg (word :: ·) hon.words, hline _ hon.startsLine,
          List.isChain_cons_cons.2 ⟨fun _ => rfl, hon.glued⟩⟩
      · rw [if_neg hjoins, List.singleton_append, tokensFrom_gap hnext,
          ofTokensFrom_gap]
        obtain ⟨htokens, lexemes, hlexemes, hon⟩ := lexemes_lineAfter hnext hwords'
          (start + byteLength word.text + 1) [⟨.blank, [' '], start + byteLength word.text⟩] false
          (by simp)
        refine ⟨List.forall_mem_cons.2 ⟨hclean, List.forall_mem_cons.2 ⟨rfl, htokens⟩⟩, _,
          congrArg _ hlexemes, congrArg (word :: ·) hon.words, hline _ hon.startsLine,
          List.isChain_cons_cons.2 ⟨fun h => absurd h hjoins, hon.glued⟩⟩

/-- A line is cut into its words. -/
theorem lexemesOf_line (h : ∀ word ∈ words, word.IsWhole) :
    HasNoMalformed (line words) ∧ OnLine (lexemesOf (line words)) words := by
  cases words with
  | nil =>
    have hnil : Token.tokenize (line []) = [] := by
      rw [line, Token.tokenize, Token.tokensFrom]
    refine ⟨fun token hmem => ?_, ?_⟩
    · rw [hnil] at hmem
      cases hmem
    · rw [lexemesOf, hnil]
      exact ⟨rfl, List.forall_mem_nil _, List.isChain_nil⟩
  | cons word words =>
    obtain ⟨hword, hwords⟩ := List.forall_mem_cons.1 h
    obtain ⟨hclean, lexemes, hlexemes, hon⟩ := lexemes_lineAfter hword hwords 0 [] true
      (List.forall_mem_nil _)
    have hclean' : HasNoMalformed (line (word :: words)) := hclean
    refine ⟨hclean', ?_⟩
    rw [hclean'.lexemesOf_eq]
    exact (congrArg (OnLine · _) hlexemes).mpr hon

end Lines

end Word

end NodeFactory
