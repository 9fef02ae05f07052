import NodeFactory.Text.Span
import NodeFactory.Token.Extent

/-!
# Tokens

A text is cut into tokens from left to right. Each token keeps its text and the position where it
begins; nothing of the text is lost (`flatMap_text_tokenize`) and no token is empty.
-/

namespace NodeFactory

structure Token where
  kind : TokenKind
  text : List Char
  start : Nat
deriving DecidableEq, Repr

namespace Token

open Text

def span (token : Token) : Span :=
  ⟨token.start, token.start + byteLength token.text⟩

/-- The tokens of a text that begins at byte `start`. -/
def tokensFrom (start : Nat) : List Char → List Token
  | [] => []
  | c :: cs =>
    let (kind, n) := extent c cs
    let text := c :: cs.take n
    ⟨kind, text, start⟩ :: tokensFrom (start + byteLength text) (cs.drop n)
termination_by cs => cs.length
decreasing_by simp only [List.length_drop, List.length_cons]; omega

/-- Cuts a text into its tokens, trivia and malformed pieces included. -/
def tokenize (text : List Char) : List Token :=
  tokensFrom 0 text

theorem flatMap_text_tokensFrom (start : Nat) (cs : List Char) :
    (tokensFrom start cs).flatMap text = cs := by
  fun_induction tokensFrom start cs with
  | case1 => rfl
  | case2 start c cs kind n _ text ih => simp [ih, text]

theorem flatMap_text_tokenize (cs : List Char) : (tokenize cs).flatMap text = cs :=
  flatMap_text_tokensFrom 0 cs

end Token

end NodeFactory
