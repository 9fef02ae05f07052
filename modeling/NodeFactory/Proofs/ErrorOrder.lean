import Mathlib.Data.List.Forall2
import NodeFactory.Proofs.Delimiters
import NodeFactory.Proofs.LexemeOrder
import NodeFactory.Proofs.TruthfulErrors

/-!
# Errors in the order of the text

The errors of a text are those of its malformed pieces, in order, and behind them those of the grammar. Each of
the latter names the lexeme that was next when it was made, or the end of the text, and kinds that were looked
for there; none of these is the kind that was found (`Reports`). Reading goes on only, so each begins where those
before it begin, or further on (`errors_in_order`).
-/

namespace NodeFactory

open Parse Text

/-- Where the last token ends that the grammar reads; the beginning of the text if it reads none. -/
def endOfTokens (text : List Char) : Nat :=
  (((Token.tokenize text).filter fun token => !token.kind.isTrivia && !token.kind.isMalformed).getLast?.map
    fun token => token.span.stop).getD 0

/-- An error of the grammar is about a token, or about the end of the text, where it has an empty span. -/
inductive Reports (text : List Char) : ParseError → Prop
  | token {token : Token} {expected : List TokenKind} : token ∈ Token.tokenize text → token.IsLexical →
      token.kind ∉ expected → Reports text (.unexpectedToken expected token.kind token.span)
  | atEnd {expected : List TokenKind} : .endOfFile ∉ expected →
      Reports text (.unexpectedToken expected .endOfFile ⟨endOfTokens text, endOfTokens text⟩)

/-- An error tells of a malformed piece what is wrong with it, and where it is. -/
inductive Tells : Token → ParseError → Prop
  | comment {token : Token} : token.kind = .unterminatedComment → Tells token (.unterminatedComment token.span)
  | string {token : Token} : token.kind = .unterminatedString → Tells token (.unterminatedString token.span)
  | unknown {token : Token} : token.kind = .unknown → Tells token (.unknownToken token.span)

/-- The errors of the malformed pieces of a text. -/
def lexicalErrors (text : List Char) : List ParseError :=
  (Token.tokenize text).filterMap ParseError.ofToken?

/-- Reports of a text that begin one behind the other, up to a position. -/
structure Ordered (text : List Char) (found : List ParseError) (position : Nat) : Prop where
  reports : ∀ error ∈ found, Reports text error
  starts : found.Pairwise fun earlier later => earlier.span.start ≤ later.span.start
  bounded : ∀ error ∈ found, error.span.start ≤ position

/-- What is left to read are the last lexemes of the text. Kinds that were looked for are not next, and the
errors reported so far are in order. -/
structure Cursor.IsWithin (text : List Char) (c : Cursor) : Prop where
  read : ∃ xs, lexemesOf text = xs ++ c.rest ∧ c.lastEnd = (xs.getLast?.map fun last => last.span.stop).getD 0
  sought : c.kind ∉ c.expected
  errors : ∃ found, c.errors = lexicalErrors text ++ found ∧ Ordered text found c.start

section Kept

variable {text : List Char} {c d : Cursor}

theorem Ordered.mono {found : List ParseError} {position later : Nat} (h : Ordered text found position)
    (hle : position ≤ later) : Ordered text found later :=
  ⟨h.reports, h.starts, fun error hmem => Nat.le_trans (h.bounded error hmem) hle⟩

theorem Ordered.concat {found : List ParseError} {error : ParseError} {position : Nat}
    (h : Ordered text found position) (herror : Reports text error) (hstart : error.span.start = position) :
    Ordered text (found ++ [error]) position where
  reports := List.forall_mem_append.2 ⟨h.reports, List.forall_mem_singleton.2 herror⟩
  starts := List.pairwise_append.2 ⟨h.starts, List.pairwise_singleton _ _, fun earlier hmem later hlater => by
    rw [List.mem_singleton.1 hlater, hstart]
    exact h.bounded earlier hmem⟩
  bounded := List.forall_mem_append.2 ⟨h.bounded, List.forall_mem_singleton.2 (Nat.le_of_eq hstart)⟩

theorem Cursor.start_of_cons {lexeme : Lexeme} {lexemes : List Lexeme} (h : c.rest = lexeme :: lexemes) :
    c.start = lexeme.span.start := by
  rw [start, peek?, h]
  rfl

theorem Cursor.start_of_nil (h : c.rest = []) : c.start = c.lastEnd := by
  rw [start, peek?, h]
  rfl

theorem Cursor.start_unexpected (c : Cursor) : c.unexpected.span.start = c.start := by
  unfold unexpected start
  cases c.peek? 0 <;> rfl

namespace Cursor.IsWithin

variable (h : c.IsWithin text)
include h

/-- Lexemes are read from the left to the right. -/
theorem start_le_next : c.start ≤ c.next.start := by
  obtain ⟨xs, hxs, -⟩ := h.read
  cases hrest : c.rest with
  | nil =>
    rw [next_of_nil hrest]
    exact Nat.le_refl _
  | cons lexeme lexemes =>
    have horder := lexemes_inOrder text
    rw [hxs, hrest, List.map_append, List.map_cons] at horder
    have hlexeme := horder.right.nonempty lexeme.span List.mem_cons_self
    have hnext : c.next.rest = lexemes := by rw [c.rest_next, hrest, List.tail_cons]
    rw [start_of_cons hrest]
    cases lexemes with
    | nil =>
      rw [start_of_nil hnext, next_of_cons hrest]
      exact Nat.le_of_lt hlexeme
    | cons following lexemes =>
      rw [start_of_cons hnext]
      have := (List.pairwise_cons.1 horder.right.ordered).1 following.span (by simp)
      omega

theorem next : c.next.IsWithin text := by
  obtain ⟨xs, hxs, hlast⟩ := h.read
  obtain ⟨found, herrors, hfound⟩ := h.errors
  refine ⟨?_, by rw [c.expected_next]; exact List.not_mem_nil, found, ?_, hfound.mono h.start_le_next⟩
  · cases hrest : c.rest with
    | nil =>
      rw [next_of_nil hrest]
      exact ⟨xs, hxs, hlast⟩
    | cons lexeme lexemes =>
      rw [next_of_cons hrest]
      refine ⟨xs ++ [lexeme], by rw [hxs, hrest, List.append_assoc, List.singleton_append], ?_⟩
      rw [List.getLast?_concat]
      rfl
  · rw [c.errors_next, herrors]

theorem expect {kinds : List TokenKind} (hkind : c.kind ∉ kinds) : (c.expect kinds).IsWithin text where
  read := h.read
  sought hmem := (List.mem_append.1 hmem).elim h.sought hkind
  errors := h.errors

/-- The error that the next lexeme is not what was looked for. -/
theorem reports_unexpected : Reports text c.unexpected := by
  obtain ⟨xs, hxs, hlast⟩ := h.read
  have hsought := h.sought
  cases hrest : c.rest with
  | nil =>
    have hpeek : c.peek? 0 = none := by rw [peek?, hrest]; rfl
    have hend : c.lastEnd = endOfTokens text := by
      rw [hrest, List.append_nil] at hxs
      unfold endOfTokens
      rw [← map_token_lexemesOf, hxs, List.getLast?_map, Option.map_map]
      exact hlast
    rw [kind, kindAt, hpeek] at hsought
    rw [unexpected, hpeek, hend]
    exact .atEnd hsought
  | cons lexeme lexemes =>
    have hpeek : c.peek? 0 = some lexeme := by rw [peek?, hrest]; rfl
    have hmem : lexeme.token ∈ (lexemesOf text).map Lexeme.token :=
      List.mem_map_of_mem (by simp [hxs, hrest])
    rw [map_token_lexemesOf, List.mem_filter, Bool.and_eq_true, Bool.not_eq_true', Bool.not_eq_true'] at hmem
    rw [kind, kindAt, hpeek] at hsought
    rw [unexpected, hpeek]
    exact .token hmem.1 hmem.2 hsought

theorem report : (c.report c.unexpected).IsWithin text where
  read := h.read
  sought := h.sought
  errors := by
    obtain ⟨found, herrors, hfound⟩ := h.errors
    refine ⟨found ++ [c.unexpected], ?_, hfound.concat h.reports_unexpected c.start_unexpected⟩
    show c.errors ++ [c.unexpected] = _
    rw [herrors, List.append_assoc]

end Cursor.IsWithin

theorem Cursor.Reaches.isWithin (h : c.Reaches d) (hc : c.IsWithin text) : d.IsWithin text := by
  induction h with
  | refl => exact hc
  | next _ ih => exact ih.next
  | expect _ hkind ih => exact ih.expect hkind
  | report _ ih => exact ih.report

theorem ofTokens_isWithin (text : List Char) : (Cursor.ofTokens (Token.tokenize text)).IsWithin text where
  read := ⟨[], rfl, rfl⟩
  sought := List.not_mem_nil
  errors := ⟨[], (List.append_nil _).symm, nofun, .nil, nofun⟩

end Kept

section Malformed

variable {token : Token} {error : ParseError}

theorem Tells.span_eq (h : Tells token error) : error.span = token.span := by
  cases h <;> rfl

theorem ofToken?_of_malformed (h : token.kind.isMalformed = true) :
    ∃ error, ParseError.ofToken? token = some error ∧ Tells token error := by
  unfold ParseError.ofToken?
  split
  case h_1 hkind => exact ⟨_, rfl, .comment hkind⟩
  case h_2 hkind => exact ⟨_, rfl, .string hkind⟩
  case h_3 hkind => exact ⟨_, rfl, .unknown hkind⟩
  case h_4 hcomment hstring hunknown =>
    unfold TokenKind.isMalformed at h
    split at h
    · exact absurd ‹_› hcomment
    · exact absurd ‹_› hstring
    · exact absurd ‹_› hunknown
    · cases h

theorem ofToken?_of_not_malformed (h : token.kind.isMalformed = false) : ParseError.ofToken? token = none := by
  unfold ParseError.ofToken?
  split
  case h_1 hkind | h_2 hkind | h_3 hkind =>
    rw [hkind] at h
    cases h
  case h_4 => rfl

theorem tells_lexicalErrors : ∀ tokens : List Token, List.Forall₂ Tells
    (tokens.filter fun token => token.kind.isMalformed) (tokens.filterMap ParseError.ofToken?)
  | [] => .nil
  | token :: tokens => by
    have hrest := tells_lexicalErrors tokens
    cases hmalformed : token.kind.isMalformed with
    | false =>
      rwa [List.filter_cons_of_neg (by simp [hmalformed]),
        List.filterMap_cons_none (ofToken?_of_not_malformed hmalformed)]
    | true =>
      obtain ⟨error, herror, htells⟩ := ofToken?_of_malformed hmalformed
      rw [List.filter_cons_of_pos (by simp [hmalformed]), List.filterMap_cons_some herror]
      exact .cons htells hrest

theorem lexicalErrors_inOrder (text : List Char) : InOrder ((lexicalErrors text).map ParseError.span) := by
  have hspans : ∀ {tokens : List Token} {errors : List ParseError}, List.Forall₂ Tells tokens errors →
      errors.map ParseError.span = tokens.map Token.span := by
    intro tokens errors h
    induction h with
    | nil => rfl
    | cons htells _ ih => rw [List.map_cons, List.map_cons, htells.span_eq, ih]
  rw [lexicalErrors, hspans (tells_lexicalErrors _)]
  exact (tokens_inOrder text).sublist (List.filter_sublist.map _)

end Malformed

/-- The errors of a text are those of its malformed pieces, one for each, in the order of the text, and then
those of the grammar, of which none begins before an earlier one. -/
theorem errors_in_order (text : List Char) : ∃ lexical found,
    (Schema.parse text).errors = lexical ++ found
      ∧ List.Forall₂ Tells ((Token.tokenize text).filter fun token => token.kind.isMalformed) lexical
      ∧ InOrder (lexical.map ParseError.span)
      ∧ found.Pairwise (fun earlier later => earlier.span.start ≤ later.span.start)
      ∧ ∀ error ∈ found, Reports text error := by
  have hwithin := ofTokens_isWithin text
  have htruthful := statementsUntil_truthful .endOfFile (Cursor.ofTokens (Token.tokenize text))
  suffices ∃ found, (Schema.parse text).errors = lexicalErrors text ++ found
      ∧ found.Pairwise (fun earlier later => earlier.span.start ≤ later.span.start)
      ∧ ∀ error ∈ found, Reports text error by
    obtain ⟨found, herrors, hfound⟩ := this
    exact ⟨lexicalErrors text, found, herrors, tells_lexicalErrors _, lexicalErrors_inOrder text, hfound⟩
  unfold Schema.parse
  cases hrun : statementsUntil .endOfFile (Cursor.ofTokens (Token.tokenize text)) with
  | ok statements d =>
    obtain ⟨found, herrors, hfound⟩ := (((truthfulAt_of_ok hrun).1 htruthful).isWithin hwithin).errors
    exact ⟨found, herrors, hfound.starts, hfound.reports⟩
  | error error d =>
    obtain ⟨hreaches, rfl⟩ := (truthfulAt_of_error hrun).1 htruthful
    obtain ⟨found, herrors, hfound⟩ := (hreaches.isWithin hwithin).report.errors
    exact ⟨found, herrors, hfound.starts, hfound.reports⟩

end NodeFactory
