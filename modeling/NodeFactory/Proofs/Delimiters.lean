import NodeFactory.Proofs.BalancedRuns
import NodeFactory.Proofs.LexemeOrder

/-!
# Delimiters matched by kind

Behind tokens certain closing delimiters are awaited, the innermost first (`awaited`); tokens nest if none
is awaited behind them and none of them closes a group of another kind (`Matched`). What is skipped counts
depth only. Within groups that are open already it leads to the same delimiters as by itself
(`Inner.awaited_append`), so whether it nests can be told by itself.

Only delimiters count: whether the tokens of a text nest can be told by its lexemes (`matched_tokens`).
-/

namespace NodeFactory

open Parse Text

/-- The delimiter that closes a group. -/
def TokenKind.closing? : TokenKind → Option TokenKind
  | openParen => some closeParen
  | openBrace => some closeBrace
  | openBracket => some closeBracket
  | _ => none

/-- What is awaited behind a token. Nothing follows one that closes another group than the innermost. -/
def awaitedBehind (closers : List TokenKind) (kind : TokenKind) : Option (List TokenKind) :=
  if kind.isClose then
    match closers with
    | [] => none
    | innermost :: outer => if innermost = kind then some outer else none
  else some (kind.closing?.toList ++ closers)

/-- What is awaited behind tokens, if they close only groups that they or others before them have opened. -/
def awaited (closers : List TokenKind) : List TokenKind → Option (List TokenKind)
  | [] => some closers
  | kind :: kinds => (awaitedBehind closers kind).bind fun closers => awaited closers kinds

/-- Delimiters are properly nested and matched by kind. -/
def Matched (kinds : List TokenKind) : Prop := awaited [] kinds = some []

instance (kinds : List TokenKind) : Decidable (Matched kinds) :=
  inferInstanceAs (Decidable (awaited [] kinds = some []))

/-- The kinds of lexemes. -/
abbrev kindsIn (lexemes : List Lexeme) : List TokenKind := lexemes.map Lexeme.kind

section Awaited

variable {closers outer : List TokenKind} {kind closing : TokenKind} {kinds kinds' : List TokenKind}

theorem awaited_cons : awaited closers (kind :: kinds)
    = (awaitedBehind closers kind).bind fun closers => awaited closers kinds := rfl

theorem awaited_append : awaited closers (kinds ++ kinds')
    = (awaited closers kinds).bind fun closers => awaited closers kinds' := by
  induction kinds generalizing closers with
  | nil => rfl
  | cons kind kinds ih =>
    rw [List.cons_append, awaited_cons, awaited_cons]
    cases awaitedBehind closers kind with
    | none => rfl
    | some closers => exact ih

theorem awaited_lexeme (lexeme : Lexeme) (lexemes : List Lexeme) :
    awaited closers (kindsIn (lexeme :: lexemes))
      = (awaitedBehind closers lexeme.kind).bind fun closers => awaited closers (kindsIn lexemes) := rfl

theorem TokenKind.isClose_of_closing (h : kind.closing? = some closing) : closing.isClose = true := by
  cases kind <;> cases h <;> rfl

theorem TokenKind.isClose_eq_false_of_isOpen (h : kind.isOpen = true) : kind.isClose = false := by
  cases kind <;> first | rfl | cases h

theorem TokenKind.closing_of_isOpen (h : kind.isOpen = true) : ∃ closing, kind.closing? = some closing := by
  cases kind <;> first | exact ⟨_, rfl⟩ | cases h

theorem TokenKind.isOpen_of_closing (h : kind.closing? = some closing) : kind.isOpen = true := by
  cases kind <;> first | rfl | cases h

theorem TokenKind.closing_of_not_isOpen (h : kind.isOpen = false) : kind.closing? = none := by
  cases kind <;> first | rfl | cases h

theorem awaitedBehind_opening (h : kind.closing? = some closing) :
    awaitedBehind closers kind = some (closing :: closers) := by
  have hclose := TokenKind.isClose_eq_false_of_isOpen (TokenKind.isOpen_of_closing h)
  unfold awaitedBehind
  rw [if_neg (by simp [hclose]), h]
  rfl

theorem awaitedBehind_plain (hopen : kind.isOpen = false) (hclose : kind.isClose = false) :
    awaitedBehind closers kind = some closers := by
  unfold awaitedBehind
  rw [if_neg (by simp [hclose]), TokenKind.closing_of_not_isOpen hopen]
  rfl

theorem awaitedBehind_closing (h : kind.isClose = true) :
    awaitedBehind (kind :: closers) kind = some closers := by
  unfold awaitedBehind
  rw [if_pos h]
  exact if_pos rfl

/-- A closing delimiter is the innermost that was awaited. -/
theorem eq_cons_of_awaitedBehind (h : kind.isClose = true) {closers' : List TokenKind}
    (hbehind : awaitedBehind closers kind = some closers') : closers = kind :: closers' := by
  unfold awaitedBehind at hbehind
  rw [if_pos h] at hbehind
  cases closers with
  | nil => cases hbehind
  | cons innermost closers =>
    by_cases heq : innermost = kind
    · rw [heq, Option.some.inj ((if_pos heq).symm.trans hbehind)]
    · cases (if_neg heq).symm.trans hbehind

/-- Groups further out do not matter to a token that closes none of them. -/
theorem awaitedBehind_append (h : kind.isClose = true → closers ≠ []) : awaitedBehind (closers ++ outer) kind
    = (awaitedBehind closers kind).map (· ++ outer) := by
  unfold awaitedBehind
  by_cases hclose : kind.isClose = true
  · rw [if_pos hclose, if_pos hclose]
    cases closers with
    | nil => exact absurd rfl (h hclose)
    | cons innermost closers =>
      show (if innermost = kind then some (closers ++ outer) else none)
        = (if innermost = kind then some closers else none).map (· ++ outer)
      split <;> rfl
  · rw [if_neg hclose, if_neg hclose, Option.map_some, List.append_assoc]

theorem length_of_awaitedBehind {closers' : List TokenKind} (h : awaitedBehind closers kind = some closers') :
    (closers'.length : Int) = closers.length + kind.depth := by
  by_cases hopen : kind.isOpen = true
  · obtain ⟨closing, hclosing⟩ := TokenKind.closing_of_isOpen hopen
    rw [awaitedBehind_opening hclosing] at h
    rw [← Option.some.inj h, List.length_cons, TokenKind.depth_of_isOpen hopen]
    omega
  by_cases hclose : kind.isClose = true
  · rw [eq_cons_of_awaitedBehind hclose h, List.length_cons, TokenKind.depth_of_isClose hclose]
    omega
  · rw [awaitedBehind_plain (by simpa using hopen) (by simpa using hclose)] at h
    rw [← Option.some.inj h, TokenKind.depth_of_plain (by simpa using hopen) (by simpa using hclose)]
    omega

theorem length_of_awaited {lexemes : List Lexeme} {closers' : List TokenKind}
    (h : awaited closers (kindsIn lexemes) = some closers') :
    (closers'.length : Int) = closers.length + depthOf lexemes := by
  induction lexemes generalizing closers with
  | nil =>
    rw [← Option.some.inj h, depthOf, Int.add_zero]
  | cons lexeme lexemes ih =>
    rw [awaited_lexeme, Option.bind_eq_some_iff] at h
    obtain ⟨between, hbehind, h⟩ := h
    rw [ih h, length_of_awaitedBehind hbehind, depthOf_cons, Int.add_assoc]

end Awaited

section Inner

/-- Lexemes that begin inside so many groups close no group further out. -/
inductive Inner : Nat → List Lexeme → Prop
  | nil {depth : Nat} : Inner depth []
  | cons {depth depth' : Nat} {lexeme : Lexeme} {lexemes : List Lexeme} :
      (depth' : Int) = depth + lexeme.kind.depth → Inner depth' lexemes → Inner depth (lexeme :: lexemes)

variable {depth i j : Nat} {xs : List Lexeme}

/-- Groups further out do not matter. -/
theorem Inner.awaited_append (h : Inner depth xs) {closers : List TokenKind}
    (hlength : closers.length = depth) (outer : List TokenKind) :
    awaited (closers ++ outer) (kindsIn xs) = (awaited closers (kindsIn xs)).map (· ++ outer) := by
  induction h generalizing closers with
  | nil => rfl
  | @cons depth depth' lexeme lexemes hdepth _ ih =>
    have hne : lexeme.kind.isClose = true → closers ≠ [] := by
      rintro hclose rfl
      rw [TokenKind.depth_of_isClose hclose] at hdepth
      simp only [List.length_nil] at hlength
      omega
    rw [awaited_lexeme, awaited_lexeme, awaitedBehind_append hne]
    cases hbehind : awaitedBehind closers lexeme.kind with
    | none => rfl
    | some between =>
      have hbetween := length_of_awaitedBehind hbehind
      exact ih (by omega)

theorem Nests.inner (h : Nests i j xs) : Inner i xs := by
  induction h with
  | nil => exact .nil
  | plain hopen hclose _ _ ih => exact .cons (by rw [TokenKind.depth_of_plain hopen hclose, Int.add_zero]) ih
  | opening hopen _ ih => exact .cons (by rw [TokenKind.depth_of_isOpen hopen]; omega) ih
  | closing hclose _ ih => exact .cons (by rw [TokenKind.depth_of_isClose hclose]; omega) ih

theorem inner_balancedRun : ∀ (depth : Nat) (xs : List Lexeme),
    Inner depth (xs.take (balancedLength depth xs))
  | _, [] => .nil
  | depth, lexeme :: xs => by
    rcases balancedLength_cases depth lexeme with ⟨-, -, hrun⟩ | ⟨hdepth, hrun⟩ | ⟨depth', hdepth, hrun⟩
    · rw [hrun]
      exact .nil
    · rw [hrun]
      have hend : ((0 : Nat) : Int) = depth + lexeme.kind.depth := by rw [hdepth]; rfl
      exact .cons hend .nil
    · rw [hrun]
      exact .cons hdepth (inner_balancedRun depth' xs)

end Inner

section Tokens

/-- Tokens that are no delimiters do not count. -/
theorem awaited_filter {p : TokenKind → Bool} (hp : ∀ kind, kind.isOpen = true ∨ kind.isClose = true → p kind)
    (closers kinds : List TokenKind) : awaited closers (kinds.filter p) = awaited closers kinds := by
  induction kinds generalizing closers with
  | nil => rfl
  | cons kind kinds ih =>
    by_cases hkind : p kind = true
    · rw [List.filter_cons_of_pos hkind, awaited_cons, awaited_cons]
      exact congrArg _ (funext ih)
    · have hplain : ¬ (kind.isOpen = true ∨ kind.isClose = true) := fun h => hkind (hp kind h)
      rw [not_or, Bool.not_eq_true, Bool.not_eq_true] at hplain
      rw [List.filter_cons_of_neg hkind, awaited_cons, awaitedBehind_plain hplain.1 hplain.2, ih]
      rfl

theorem Lexeme.map_token_ofTokensFrom : ∀ (tokens gap : List Token) (isFirst : Bool),
    (ofTokensFrom isFirst gap tokens).map Lexeme.token = tokens.filter fun token => !token.kind.isTrivia
  | [], _, _ => rfl
  | token :: tokens, gap, isFirst => by
    rw [ofTokensFrom]
    by_cases htrivia : token.kind.isTrivia = true
    · rw [if_pos htrivia, map_token_ofTokensFrom, List.filter_cons_of_neg (by simp [htrivia])]
    · rw [if_neg htrivia, List.map_cons, map_token_ofTokensFrom, List.filter_cons_of_pos (by simp [htrivia])]

theorem map_token_lexemesOf (text : List Char) : (lexemesOf text).map Lexeme.token
    = (Token.tokenize text).filter fun token => !token.kind.isTrivia && !token.kind.isMalformed := by
  have htokens := Lexeme.map_token_ofTokensFrom
    ((Token.tokenize text).filter fun token => !token.kind.isMalformed) [] true
  rwa [List.filter_filter] at htokens

/-- Whether tokens nest can be told by the lexemes among them. -/
theorem awaited_tokens {p : Token → Bool} (text : List Char) (closers : List TokenKind) :
    awaited closers (((Token.tokenize text).filter p).map Token.kind)
      = awaited closers (kindsIn ((lexemesOf text).filter fun lexeme => p lexeme.token)) := by
  have hlexemes : kindsIn ((lexemesOf text).filter fun lexeme => p lexeme.token)
      = ((((Token.tokenize text).filter p).map Token.kind).filter fun kind =>
        !kind.isTrivia && !kind.isMalformed) := by
    have hkinds : kindsIn ((lexemesOf text).filter fun lexeme => p lexeme.token)
        = (((lexemesOf text).map Lexeme.token).filter p).map Token.kind := by
      rw [List.filter_map, List.map_map]
      rfl
    rw [hkinds, map_token_lexemesOf, List.filter_map, List.filter_filter, List.filter_filter]
    congr 2
    funext token
    exact Bool.and_comm _ _
  rw [hlexemes, awaited_filter]
  intro kind h
  cases kind <;> simp [TokenKind.isOpen, TokenKind.isClose, TokenKind.isTrivia, TokenKind.isMalformed] at h ⊢

theorem matched_tokens (text : List Char) :
    Matched ((Token.tokenize text).map Token.kind) ↔ Matched (kindsIn (lexemesOf text)) := by
  have htokens := awaited_tokens (p := fun _ => true) text []
  rw [List.filter_eq_self.2 fun _ _ => rfl, List.filter_eq_self.2 fun _ _ => rfl] at htokens
  unfold Matched
  rw [htokens]

end Tokens

end NodeFactory
