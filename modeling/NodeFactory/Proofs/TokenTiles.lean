import Mathlib.Data.List.Chain
import NodeFactory.Proofs.TokenSpellings

/-!
# Tokens lie side by side

A text is cut at ends of characters only, from its first byte to its last, and no piece is empty: the
tokens tile it (`tokenize_tiles`). A character that no token begins with, such as the null character, is
a piece of its own or lies within one, like any other.
-/

namespace NodeFactory

open Text

namespace Text

theorem byteLength_eq_utf8ByteSize (text : List Char) :
    byteLength text = (String.ofList text).utf8ByteSize := by
  induction text with
  | nil => rfl
  | cons c cs ih =>
    rw [byteLength, ih, String.ofList_cons, String.utf8ByteSize_append, String.utf8ByteSize_singleton]

/-- A character of the text ends at the position, or the text begins there. -/
def IsBoundary (text : List Char) (position : Nat) : Prop :=
  ∃ before after, text = before ++ after ∧ byteLength before = position

theorem IsBoundary.le_byteLength {text : List Char} {position : Nat} (h : IsBoundary text position) :
    position ≤ byteLength text := by
  obtain ⟨before, after, rfl, rfl⟩ := h
  rw [byteLength_append]
  exact Nat.le_add_right _ _

end Text

/-- The tokens cover the text from end to end: none is empty, each begins where the one before it ends,
and all of them begin and end between characters. -/
structure Tiling (tokens : List Token) (text : List Char) : Prop where
  nonempty : ∀ token ∈ tokens, token.span.start < token.span.stop
  first : ∀ token ∈ tokens.head?, token.span.start = 0
  adjacent : tokens.IsChain fun token next => token.span.stop = next.span.start
  last : ∀ token ∈ tokens.getLast?, token.span.stop = (String.ofList text).utf8ByteSize
  bounded : ∀ token ∈ tokens, IsBoundary text token.span.start ∧ IsBoundary text token.span.stop
  covered : ∀ token ∈ tokens, slice text token.span = token.text
  joined : tokens.flatMap Token.text = text

namespace Token

theorem tokensFrom_isChain (start : Nat) (cs : List Char) :
    (tokensFrom start cs).IsChain fun token next => token.span.stop = next.span.start := by
  fun_induction tokensFrom start cs with
  | case1 => exact .nil
  | case2 start c cs kind n _ text ih =>
    refine ih.cons fun next hnext => ?_
    cases hrest : cs.drop n with
    | nil =>
      rw [hrest, tokensFrom] at hnext
      cases hnext
    | cons c' cs' =>
      rw [hrest, tokensFrom_cons] at hnext
      cases hnext
      rfl

variable {text : List Char} {token : Token}

theorem start_of_head? (h : token ∈ (tokenize text).head?) : token.span.start = 0 := by
  obtain ⟨after, hafter⟩ := List.head?_eq_some_iff.1 h
  have hsplit : tokenize text = [] ++ token :: after := hafter
  exact start_of_append hsplit

theorem isBoundary_span (h : token ∈ tokenize text) :
    IsBoundary text token.span.start ∧ IsBoundary text token.span.stop := by
  obtain ⟨before, after, htext, hstart, hstop⟩ := slice_span h
  exact ⟨⟨before, token.text ++ after, by rw [htext, List.append_assoc], hstart.symm⟩,
    _, after, htext, hstop.symm⟩

/-- What the span of a token cuts out of the text is the text of the token. -/
theorem slice_text (h : token ∈ tokenize text) : slice text token.span = token.text := by
  obtain ⟨before, after, htext, hstart, -⟩ := slice_span h
  have hspan : token.span = ⟨byteLength before, byteLength before + byteLength token.text⟩ := by
    rw [← hstart]
    rfl
  rw [hspan, htext, slice_middle]

theorem stop_of_getLast? (h : token ∈ (tokenize text).getLast?) :
    token.span.stop = byteLength text := by
  obtain ⟨before, hbefore⟩ := List.getLast?_eq_some_iff.1 h
  rw [span, start_of_append hbefore, ← byteLength_append]
  conv_rhs => rw [← flatMap_text_tokenize text, hbefore]
  rw [List.flatMap_append, List.flatMap_singleton]

theorem tokenize_eq_nil_iff : tokenize text = [] ↔ text = [] := by
  refine ⟨fun h => ?_, fun h => by rw [h, tokenize, tokensFrom]⟩
  rw [← flatMap_text_tokenize text, h, List.flatMap_nil]

/-- Every text is tiled by its tokens, of which none stands for the end of the text; there is a token
as soon as there is a character. No position is beyond the length of the text. -/
theorem tokenize_tiles (text : List Char) :
    Tiling (tokenize text) text
      ∧ (tokenize text = [] ↔ text = [])
      ∧ (∀ token ∈ tokenize text, token.kind ≠ .endOfFile
        ∧ token.span.stop ≤ (String.ofList text).utf8ByteSize) := by
  refine ⟨⟨fun token h => ?_, fun token h => start_of_head? h, tokensFrom_isChain 0 text,
    fun token h => ?_, fun token h => isBoundary_span h, fun token h => slice_text h,
    flatMap_text_tokenize text⟩, tokenize_eq_nil_iff, fun token h => ⟨kind_ne_endOfFile h, ?_⟩⟩
  · exact (tokens_inOrder text).nonempty token.span (List.mem_map_of_mem h)
  · rw [← byteLength_eq_utf8ByteSize, stop_of_getLast? h]
  · rw [← byteLength_eq_utf8ByteSize]
    exact (isBoundary_span h).2.le_byteLength

example : (tokenize ['\x00', '/', '*', '\x00', '*', '/', '\x27', '\x00']).map Token.span
    = [⟨0, 1⟩, ⟨1, 6⟩, ⟨6, 8⟩] := by
  decide +kernel

end Token

end NodeFactory
