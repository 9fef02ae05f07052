import NodeFactory.Proofs.GrammarParts
import NodeFactory.Proofs.ParseRuns
import NodeFactory.Proofs.Relocation

/-!
# Actions that pass over the layout

Two cursors are alike if the lexemes before them agree in kind and text, brackets also in whether
they begin a line, and angle brackets also in whether the next is glued to them. An action passes
over the layout if from cursors that are alike it gives the same, up to where that is, and leaves
cursors that are alike (`Respects`). So do the elementary actions, and what is made of such actions
in sequence, by repetition and by recursion.

The gap before the first lexeme may be left out of account: nothing depends on it until a lexeme has
been read.
-/

namespace NodeFactory

namespace Lexeme

/-- An angle bracket is continued by another one of the same kind. -/
def joins (lexeme : Lexeme) : List Lexeme → Bool
  | [] => false
  | next :: _ => (lexeme.kind == .less || lexeme.kind == .greater) && next.kind == lexeme.kind
    && next.isGlued

end Lexeme

section Cursors

variable (m m' : Relocation)

structure Lexeme.Agrees (withGap : Bool) (lexeme lexeme' : Lexeme) : Prop where
  kind : lexeme.kind = lexeme'.kind
  text : lexeme.text = lexeme'.text
  span : Same m m' lexeme.span lexeme'.span
  comments : withGap = true → m.comments lexeme.comments = m'.comments lexeme'.comments
  startsLine : withGap = true → lexeme.kind = .openBracket →
    lexeme.startsLine = lexeme'.startsLine

inductive Agree : Bool → List Lexeme → List Lexeme → Prop
  | nil {withGap : Bool} : Agree withGap [] []
  | cons {withGap : Bool} {lexeme lexeme' : Lexeme} {lexemes lexemes' : List Lexeme} :
      lexeme.Agrees m m' withGap lexeme' → lexeme.joins lexemes = lexeme'.joins lexemes' →
        Agree true lexemes lexemes' → Agree withGap (lexeme :: lexemes) (lexeme' :: lexemes')

/-- Cursors are alike, with or without account of the gap before the first lexeme and of where the
lexeme before ended. -/
structure Alike (withGap : Bool) (c c' : Cursor) : Prop where
  rest : Agree m m' withGap c.rest c'.rest
  lastEnd : withGap = true ∨ c.rest = [] → m.position c.lastEnd = m'.position c'.lastEnd
  expected : c.expected = c'.expected
  errors : Same m m' c.errors c'.errors

/-- Results are alike: both are values, or both are failures. -/
inductive Related {α : Type} (withGap withGap' : Bool) (R : α → α → Prop) :
    EStateM.Result ParseError Cursor α → EStateM.Result ParseError Cursor α → Prop
  | ok {value value' : α} {c c' : Cursor} :
      R value value' → Alike m m' withGap' c c' → Related withGap withGap' R (.ok value c) (.ok value' c')
  | error {error error' : ParseError} {c c' : Cursor} :
      Same m m' error error' → Alike m m' withGap c c' →
        Related withGap withGap' R (.error error c) (.error error' c')

/-- From cursors that are alike, two actions come to related results. Whether the gap counts may
be different before and after. -/
def Respects {α : Type} (withGap withGap' : Bool) (R : α → α → Prop) (A A' : Parse α) : Prop :=
  ∀ c c' : Cursor, Alike m m' withGap c c' → Related m m' withGap withGap' R (A c) (A' c')

end Cursors

section Lookahead

variable {m m' : Relocation} {b : Bool} {c c' : Cursor} {lexemes lexemes' : List Lexeme}

theorem Agree.weaken (h : Agree m m' true lexemes lexemes') : Agree m m' b lexemes lexemes' := by
  cases h with
  | nil => exact .nil
  | cons hagrees hjoins hrest =>
    obtain ⟨hkind, htext, hspan, hcomments, hstartsLine⟩ := hagrees
    exact .cons ⟨hkind, htext, hspan, fun _ => hcomments rfl, fun _ => hstartsLine rfl⟩ hjoins hrest

theorem Agree.length_eq (h : Agree m m' b lexemes lexemes') : lexemes.length = lexemes'.length := by
  induction h with
  | nil => rfl
  | cons _ _ _ ih => rw [List.length_cons, List.length_cons, ih]

theorem Agree.drop : ∀ (n : Nat) {b : Bool} {lexemes lexemes' : List Lexeme},
    Agree m m' b lexemes lexemes' → Agree m m' b (lexemes.drop n) (lexemes'.drop n)
  | 0, _, _, _, h => h
  | _ + 1, _, _, _, .nil => .nil
  | n + 1, _, _, _, .cons _ _ h => (Agree.drop n h).weaken

theorem Agree.getElem? (h : Agree m m' b lexemes lexemes') (n : Nat) :
    lexemes[n]?.map Lexeme.kind = lexemes'[n]?.map Lexeme.kind
      ∧ lexemes[n]?.map Lexeme.text = lexemes'[n]?.map Lexeme.text := by
  induction h generalizing n with
  | nil => simp
  | cons hagrees _ _ ih =>
    cases n with
    | zero => simp [hagrees.kind, hagrees.text]
    | succ n => simpa using ih n

theorem Alike.weaken (h : Alike m m' true c c') : Alike m m' b c c' :=
  ⟨h.rest.weaken, fun _ => h.lastEnd (.inl rfl), h.expected, h.errors⟩

theorem Alike.forget (h : Alike m m' b c c') : Alike m m' false c c' := by
  cases b with
  | false => exact h
  | true => exact h.weaken

theorem Alike.size_eq (h : Alike m m' b c c') : c.size = c'.size := by
  rw [c.size_eq, c'.size_eq, h.rest.length_eq]

theorem Alike.kindAt (h : Alike m m' b c c') (n : Nat) : c.kindAt n = c'.kindAt n := by
  unfold Cursor.kindAt Cursor.peek?
  rw [(h.rest.getElem? n).1]

theorem Alike.kind (h : Alike m m' b c c') : c.kind = c'.kind := h.kindAt 0

theorem Alike.textAt (h : Alike m m' b c c') (n : Nat) : c.textAt n = c'.textAt n := by
  unfold Cursor.textAt Cursor.peek?
  rw [(h.rest.getElem? n).2]

theorem Cursor.rest_eq_nil (h : c.peek? 0 = none) : c.rest = [] :=
  List.eq_nil_of_length_eq_zero (Nat.le_zero.1 (List.getElem?_eq_none_iff.1 h))

/-- Either nothing is left, or the lexemes that are next agree. -/
theorem Alike.peek (h : Alike m m' b c c') :
    Option.Rel (fun lexeme lexeme' => lexeme.Agrees m m' b lexeme') (c.peek? 0) (c'.peek? 0) := by
  have hrest := h.rest
  unfold Cursor.peek?
  generalize c.rest = lexemes at hrest
  generalize c'.rest = lexemes' at hrest
  cases hrest with
  | nil => exact .none
  | cons hagrees _ _ => exact .some hagrees

theorem Alike.start (h : Alike m m' b c c') : m.position c.start = m'.position c'.start := by
  have hpeek := h.peek
  unfold Cursor.start
  generalize hnone : c.peek? 0 = lexeme at hpeek
  generalize c'.peek? 0 = lexeme' at hpeek
  cases hpeek with
  | none => exact h.lastEnd (.inr (Cursor.rest_eq_nil hnone))
  | some hagrees => exact congrArg Text.Span.start hagrees.span

theorem Alike.comments (h : Alike m m' true c c') :
    m.comments c.comments = m'.comments c'.comments := by
  have hpeek := h.peek
  unfold Cursor.comments
  generalize c.peek? 0 = lexeme at hpeek
  generalize c'.peek? 0 = lexeme' at hpeek
  cases hpeek with
  | none => simp [Relocation.comments]
  | some hagrees => exact hagrees.comments rfl

theorem Alike.startsLine (h : Alike m m' true c c') (hkind : c.kind = .openBracket) :
    c.startsLine = c'.startsLine := by
  have hpeek := h.peek
  unfold Cursor.kind Cursor.kindAt at hkind
  unfold Cursor.startsLine
  generalize c.peek? 0 = lexeme at hpeek hkind
  generalize c'.peek? 0 = lexeme' at hpeek
  cases hpeek with
  | none => rfl
  | some hagrees => exact hagrees.startsLine rfl hkind

theorem Alike.unexpected (h : Alike m m' b c c') : Same m m' c.unexpected c'.unexpected := by
  have hpeek := h.peek
  unfold Cursor.unexpected
  rw [h.expected]
  generalize hnone : c.peek? 0 = lexeme at hpeek
  generalize c'.peek? 0 = lexeme' at hpeek
  cases hpeek with
  | none =>
    have hlastEnd := h.lastEnd (.inr (Cursor.rest_eq_nil hnone))
    simp [Same, relocate, ParseError.relocate, hlastEnd]
  | some hagrees =>
    have hspan := hagrees.span
    simp only [Same, relocate, ParseError.relocate, hagrees.kind] at hspan ⊢
    rw [hspan]

end Lookahead

section Moves

variable {m m' : Relocation} {b : Bool} {c c' : Cursor}

theorem Alike.next (h : Alike m m' b c c') : Alike m m' true c.next c'.next := by
  have hrest := h.rest
  obtain ⟨rest, size, hsize, lastEnd, expected, errors⟩ := c
  obtain ⟨rest', size', hsize', lastEnd', expected', errors'⟩ := c'
  cases hrest with
  | nil => exact ⟨.nil, fun _ => h.lastEnd (.inr rfl), rfl, h.errors⟩
  | cons hagrees _ hrest =>
    exact ⟨hrest, fun _ => congrArg Text.Span.stop hagrees.span, rfl, h.errors⟩

theorem Alike.skip : ∀ (n : Nat) {c c' : Cursor}, Alike m m' true c c' →
    Alike m m' true (c.skip n) (c'.skip n)
  | 0, _, _, h => h
  | n + 1, _, _, h => Alike.skip n h.next

theorem Alike.expect (h : Alike m m' b c c') (kinds : List TokenKind) :
    Alike m m' b (c.expect kinds) (c'.expect kinds) :=
  ⟨h.rest, h.lastEnd, congrArg (· ++ kinds) h.expected, h.errors⟩

theorem Alike.report (h : Alike m m' b c c') {error error' : ParseError}
    (herror : Same m m' error error') : Alike m m' b (c.report error) (c'.report error') :=
  ⟨h.rest, h.lastEnd, h.expected, h.errors.concat herror⟩

end Moves

open Parse

section Combined

variable {m m' : Relocation} {b b' b'' : Bool} {α β : Type} {R : α → α → Prop} {S : β → β → Prop}
  {A A' : Parse α}

theorem Respects.pure {value value' : α} (h : R value value') :
    Respects m m' b b R (pure value) (pure value') :=
  fun _ _ hc => .ok h hc

theorem Respects.weaken (h : Respects m m' b true R A A') : Respects m m' b b' R A A' := by
  intro c c' hc
  have hrun := h c c' hc
  generalize A c = result at hrun ⊢
  generalize A' c' = result' at hrun ⊢
  cases hrun with
  | ok hvalue hc => exact .ok hvalue hc.weaken
  | error herror hc => exact .error herror hc

theorem Related.after {r r' : EStateM.Result ParseError Cursor α} (h : Related m m' b' b'' R r r')
    (hle : b = true → b' = true) : Related m m' b b'' R r r' := by
  cases h with
  | ok hvalue hc => exact .ok hvalue hc
  | error herror hc =>
    refine .error herror ?_
    cases b with
    | false => exact hc.forget
    | true => exact hle rfl ▸ hc

theorem Respects.bind_of_le {B B' : α → Parse β} (hA : Respects m m' b b' R A A')
    (hle : b = true → b' = true)
    (hB : ∀ value value', R value value' → Respects m m' b' b'' S (B value) (B' value')) :
    Respects m m' b b'' S (A >>= B) (A' >>= B') := by
  intro c c' hc
  have hrun := hA c c' hc
  show Related m m' b b'' S (EStateM.bind A B c) (EStateM.bind A' B' c')
  unfold EStateM.bind
  generalize A c = result at hrun ⊢
  generalize A' c' = result' at hrun ⊢
  cases hrun with
  | ok hvalue hc => exact (hB _ _ hvalue _ _ hc).after hle
  | error herror hc => exact .error herror hc

theorem Respects.bind {B B' : α → Parse β} (hA : Respects m m' b b R A A')
    (hB : ∀ value value', R value value' → Respects m m' b b' S (B value) (B' value')) :
    Respects m m' b b' S (A >>= B) (A' >>= B') :=
  hA.bind_of_le id hB

/-- Once something has been read, the gap before the next lexeme counts. -/
theorem Respects.seq {B B' : α → Parse β} (hA : Respects m m' b true R A A')
    (hB : ∀ value value', R value value' → Respects m m' true b' S (B value) (B' value')) :
    Respects m m' b b' S (A >>= B) (A' >>= B') :=
  hA.bind_of_le (fun _ => rfl) hB

theorem Respects.map {f f' : α → β} (hA : Respects m m' b b' R A A')
    (hf : ∀ value value', R value value' → S (f value) (f' value')) :
    Respects m m' b b' S (f <$> A) (f' <$> A') := by
  intro c c' hc
  have hrun := hA c c' hc
  show Related m m' b b' S (EStateM.map f A c) (EStateM.map f' A' c')
  unfold EStateM.map
  generalize A c = result at hrun ⊢
  generalize A' c' = result' at hrun ⊢
  cases hrun with
  | ok hvalue hc => exact .ok (hf _ _ hvalue) hc
  | error herror hc => exact .error herror hc

theorem Respects.discard (hA : Respects m m' b b' R A A') :
    Respects m m' b b' Eq (discard A) (discard A') :=
  hA.map fun _ _ _ => rfl

theorem Respects.cursor {f f' : Cursor → Parse β}
    (h : ∀ c c', Alike m m' b c c' → Respects m m' b b' S (f c) (f' c')) :
    Respects m m' b b' S (cursor >>= f) (cursor >>= f') :=
  fun c c' hc => h c c' hc c c' hc

theorem Respects.ite {p : Prop} [Decidable p] {B B' : Parse α}
    (hA : p → Respects m m' b b' R A A') (hB : ¬ p → Respects m m' b b' R B B') :
    Respects m m' b b' R (if p then A else B) (if p then A' else B') := by
  by_cases hp : p
  · rw [if_pos hp, if_pos hp]
    exact hA hp
  · rw [if_neg hp, if_neg hp]
    exact hB hp

/-- An action that is left out unless a condition holds. -/
theorem Respects.when {p : Prop} [Decidable p] {A A' : Parse Unit} {f f' : Unit → Parse β}
    (hA : p → Respects m m' b b Eq A A') (hf : Respects m m' b b' S (f ()) (f' ())) :
    Respects m m' b b' S (if p then A >>= f else f ()) (if p then A' >>= f' else f' ()) :=
  .ite (fun hp => (hA hp).bind fun _ _ _ => hf) fun _ => hf

theorem Respects.unless {p : Prop} [Decidable p] {A A' : Parse Unit} {f f' : Unit → Parse β}
    (hA : ¬ p → Respects m m' b b Eq A A') (hf : Respects m m' b b' S (f ()) (f' ())) :
    Respects m m' b b' S (if p then f () else A >>= f) (if p then f' () else A' >>= f') :=
  .ite (fun _ => hf) fun hp => (hA hp).bind fun _ _ _ => hf

/-- An action whose failure is a value. -/
theorem Respects.attempt {f f' : Except ParseError α → Parse β} (hA : Respects m m' b b R A A')
    (hok : ∀ value value', R value value' →
      Respects m m' b b' S (f (.ok value)) (f' (.ok value')))
    (herror : ∀ error error', Same m m' error error' →
      Respects m m' b b' S (f (.error error)) (f' (.error error'))) :
    Respects m m' b b' S (Parse.outcome A >>= f) (Parse.outcome A' >>= f') := by
  intro c c' hc
  have hrun := hA c c' hc
  show Related m m' b b' S (EStateM.bind (Parse.outcome A) f c) (EStateM.bind (Parse.outcome A') f' c')
  unfold EStateM.bind Parse.outcome
  generalize A c = result at hrun ⊢
  generalize A' c' = result' at hrun ⊢
  cases hrun with
  | ok hvalue hc => exact hok _ _ hvalue _ _ hc
  | error hfailure hc => exact herror _ _ hfailure _ _ hc

end Combined

section Elementary

variable {m m' : Relocation} {b b' : Bool} {α β : Type} {R : α → α → Prop}

theorem unexpected_respects : Respects m m' b b' R (unexpected : Parse α) unexpected :=
  fun _ _ hc => .error hc.unexpected hc

theorem next_respects : Respects m m' b true Eq next next :=
  fun _ _ hc => .ok rfl hc.next

theorem skip_respects (n : Nat) : Respects m m' true true Eq (skip n) (skip n) :=
  fun _ _ hc => .ok rfl (hc.skip n)

theorem skip_succ_respects (n : Nat) : Respects m m' b true Eq (skip (n + 1)) (skip (n + 1)) :=
  fun _ _ hc => .ok rfl (hc.next.skip n)

theorem Respects.kind {f f' : TokenKind → Parse β} {S : β → β → Prop}
    (h : ∀ kind, Respects m m' b b' S (f kind) (f' kind)) :
    Respects m m' b b' S (Parse.kind >>= f) (Parse.kind >>= f') := by
  intro c c' hc
  show Related m m' b b' S (f c.kind c) (f' c'.kind c')
  rw [hc.kind]
  exact h _ c c' hc

theorem Respects.isAt {kind : TokenKind} {f f' : Bool → Parse β} {S : β → β → Prop}
    (h : ∀ found, Respects m m' b b' S (f found) (f' found)) :
    Respects m m' b b' S (Parse.isAt kind >>= f) (Parse.isAt kind >>= f') := by
  intro c c' hc
  show Related m m' b b' S (f (c.kind == kind) c) (f' (c'.kind == kind) c')
  rw [hc.kind]
  exact h _ c c' hc

theorem lookedFor_respects (kinds : List TokenKind) :
    Respects m m' b b Eq (modify fun c => c.expect kinds : Parse Unit)
      (modify fun c => c.expect kinds) :=
  fun _ _ hc => .ok rfl (hc.expect kinds)

theorem report_respects {error error' : ParseError} (herror : Same m m' error error') :
    Respects m m' b b Eq (report error) (report error') :=
  fun _ _ hc => .ok rfl (hc.report herror)

/-- What follows a lexeme that may be missing. -/
theorem Respects.eat {kind : TokenKind} {f f' : Bool → Parse β} {S : β → β → Prop}
    (htrue : Respects m m' true b' S (f true) (f' true))
    (hfalse : Respects m m' b b' S (f false) (f' false)) :
    Respects m m' b b' S (eat kind >>= f) (eat kind >>= f') := by
  intro c c' hc
  show Related m m' b b' S (EStateM.bind (Parse.eat kind) f c) (EStateM.bind (Parse.eat kind) f' c')
  unfold EStateM.bind
  rw [eat_eq, eat_eq, hc.kind]
  by_cases h : c'.kind = kind
  · rw [if_pos h, if_pos h]
    exact (htrue _ _ hc.next).after fun _ => rfl
  · rw [if_neg h, if_neg h]
    exact hfalse _ _ (hc.expect [kind])

/-- What follows a lexeme that may be missing, where the gap counts anyway. -/
theorem Respects.eaten {kind : TokenKind} {f f' : Bool → Parse β} {S : β → β → Prop}
    (h : ∀ found, Respects m m' true b' S (f found) (f' found)) :
    Respects m m' true b' S (Parse.eat kind >>= f) (Parse.eat kind >>= f') :=
  .eat (h true) (h false)

/-- An action after a lexeme that may be missing. -/
theorem Respects.eat_when {kind : TokenKind} {A A' : Parse Unit} {f f' : Unit → Parse β}
    {S : β → β → Prop} (hA : Respects m m' true true Eq A A')
    (hf : Respects m m' true b' S (f ()) (f' ())) :
    Respects m m' true b' S (Parse.eat kind >>= fun found => if found then A >>= f else f ())
      (Parse.eat kind >>= fun found => if found then A' >>= f' else f' ()) :=
  .eat (hA.bind fun _ _ _ => hf) hf

/-- A value after a lexeme that may be missing. -/
theorem Respects.optional [Relocatable α] {A A' : Parse α}
    (hA : Respects m m' true true (Same m m') A A') (kind : TokenKind)
    {f f' : Option α → Parse β} {S : β → β → Prop}
    (hf : ∀ value value', Same m m' value value' →
      Respects m m' true b' S (f value) (f' value')) :
    Respects m m' true b' S
      (Parse.eat kind >>= fun found => if found then some <$> A >>= f else Pure.pure none >>= f)
      (Parse.eat kind >>= fun found => if found then some <$> A' >>= f'
        else Pure.pure none >>= f') := by
  have hsome : Respects m m' true true (Same m m') (some <$> A) (some <$> A') :=
    hA.map fun _ _ hvalue => hvalue.some
  exact .eat (hsome.bind hf) ((Respects.pure Same.none).bind hf)

theorem eat_respects (kind : TokenKind) : Respects m m' b b Eq (eat kind) (eat kind) := by
  intro c c' hc
  rw [eat_eq, eat_eq, hc.kind]
  split
  · exact .ok rfl hc.next.weaken
  · exact .ok rfl (hc.expect [kind])

theorem expect_respects (kind : TokenKind) : Respects m m' b true Eq (expect kind) (expect kind) :=
  .eat (.pure rfl) unexpected_respects

/-- The cursor of a span may move, as the positions do. -/
theorem spanFrom_respects {start start' : Nat} (h : m.position start = m'.position start') :
    Respects m m' true true (Same m m') (spanFrom start) (spanFrom start') := by
  refine .cursor fun _ _ hc => .pure ?_
  have hlastEnd := hc.lastEnd (.inl rfl)
  simp [Same, relocate, Relocation.position_max, h, hlastEnd]

theorem Respects.placed {start start' : Nat} (h : m.position start = m'.position start')
    {f f' : Text.Span → α} (hf : ∀ span span', Same m m' span span' → R (f span) (f' span')) :
    Respects m m' true true R (do return f (← spanFrom start)) (do return f' (← spanFrom start')) :=
  (spanFrom_respects h).bind fun _ _ hspan => .pure (hf _ _ hspan)

end Elementary

section Repeated

variable {m m' : Relocation} {b b' : Bool} {ι σ α β : Type} {R : α → α → Prop} {S : σ → σ → Prop}

section Recursion

variable {I : ι → ι → Prop} {body body' : (ι → Parse α) → ι → Parse α}

/-- The calls that a body makes pass over the layout if the body does where the calls do. -/
theorem below_respects
    (hbody : ∀ call call' : ι → Parse α,
      (∀ i i', I i i' → Respects m m' true true R (call i) (call' i')) →
        ∀ i i', I i i' → Respects m m' true true R (body call i) (body' call' i')) (n : Nat) :
    ∀ i i' : ι, I i i' →
      Respects m m' true true R (below n (fix body i)) (below n (fix body' i')) := by
  induction n using Nat.strongRecOn with
  | ind n ih =>
    intro i i' hi c c' hc
    unfold below
    rw [← hc.size_eq]
    by_cases hsize : c.size < n
    · rw [if_pos hsize, if_pos hsize, fix_eq, fix_eq, ← hc.size_eq]
      exact hbody _ _ (ih c.size hsize) _ _ hi c c' hc
    · rw [if_neg hsize, if_neg hsize]
      exact unexpected_respects c c' hc

theorem fix_respects
    (hbody : ∀ call call' : ι → Parse α,
      (∀ i i', I i i' → Respects m m' true true R (call i) (call' i')) →
        ∀ i i', I i i' → Respects m m' true true R (body call i) (body' call' i'))
    {i i' : ι} (hi : I i i') : Respects m m' true true R (fix body i) (fix body' i') := by
  intro c c' hc
  rw [fix_eq, fix_eq, ← hc.size_eq]
  exact hbody _ _ (below_respects hbody c.size) _ _ hi c c' hc

/-- What the body does at first need not take account of the gap, because its calls come later. -/
theorem fix_respects_first
    (hbody : ∀ (b : Bool) (call call' : ι → Parse α),
      (∀ i i', I i i' → Respects m m' true true R (call i) (call' i')) →
        ∀ i i', I i i' → Respects m m' b true R (body call i) (body' call' i'))
    {i i' : ι} (hi : I i i') : Respects m m' b true R (fix body i) (fix body' i') := by
  intro c c' hc
  rw [fix_eq, fix_eq, ← hc.size_eq]
  exact hbody _ _ _ (below_respects (hbody true) c.size) _ _ hi c c' hc

end Recursion

theorem repeatFrom_respects {step step' : σ → Parse (σ ⊕ α)}
    (hstep : ∀ state state', S state state' →
      Respects m m' true true (Sum.LiftRel S R) (step state) (step' state'))
    {state state' : σ} (hstate : S state state') :
    Respects m m' true true R (repeatFrom step state) (repeatFrom step' state') := by
  unfold repeatFrom
  refine fix_respects ?_ hstate
  intro call call' hcall state state' hstate
  refine (hstep state state' hstate).bind fun _ _ hresult => ?_
  cases hresult with
  | inl hstate => exact hcall _ _ hstate
  | inr hresult => exact .pure hresult

theorem separated_respects [Relocatable α] {item item' : Parse α}
    (hitem : Respects m m' true true (Same m m') item item') :
    Respects m m' true true (Same m m') (separated item) (separated item') := by
  unfold separated
  refine repeatFrom_respects (S := Same m m') ?_ rfl
  intro items items' hitems
  refine hitem.bind fun value value' hvalue => ?_
  have hmore : Same m m' (items ++ [value]) (items' ++ [value']) := hitems.concat hvalue
  exact .eat (.pure (.inl hmore)) (.pure (.inr hmore))

theorem enclosed_respects [Relocatable α] {item item' : Parse α} (opening closing : TokenKind)
    (hitem : Respects m m' true true (Same m m') item item') :
    Respects m m' b true (Same m m') (enclosed opening item closing)
      (enclosed opening item' closing) := by
  unfold enclosed
  refine (expect_respects opening).seq fun _ _ _ => ?_
  refine repeatFrom_respects (S := Same m m') ?_ rfl
  intro items items' hitems
  refine .eat (.pure (.inr hitems)) (hitem.bind fun value value' hvalue => ?_)
  have hmore : Same m m' (items ++ [value]) (items' ++ [value']) := hitems.concat hvalue
  refine .eat (.pure (.inr hmore)) ?_
  exact (expect_respects .comma).seq fun _ _ _ => .pure (.inl hmore)

end Repeated

section Names

variable {m m' : Relocation} {b : Bool}

theorem ident_missing_respects :
    Respects m m' b true (Same m m') ident.missing ident.missing :=
  (lookedFor_respects [.identifier]).bind fun _ _ _ => unexpected_respects

theorem Lexeme.Agrees.same_ident {lexeme lexeme' : Lexeme} (h : lexeme.Agrees m m' b lexeme')
    (name : List Char → String) :
    Same m m' (⟨name lexeme.text, lexeme.span⟩ : Ident) ⟨name lexeme'.text, lexeme'.span⟩ := by
  have hspan := h.span
  simp only [Same, relocate, h.text] at hspan ⊢
  rw [hspan]

theorem ident_respects : Respects m m' b true (Same m m') ident ident := by
  unfold ident
  refine .cursor fun c c' hc => ?_
  have hpeek := hc.peek
  generalize c.peek? 0 = lexeme at hpeek ⊢
  generalize c'.peek? 0 = lexeme' at hpeek ⊢
  cases hpeek with
  | none => exact ident_missing_respects
  | some hagrees =>
    simp only [hagrees.kind]
    refine .ite (fun _ => ?_) fun _ => ident_missing_respects
    exact next_respects.seq fun _ _ _ => .pure (hagrees.same_ident _)

theorem propertyName_respects : Respects m m' b true (Same m m') propertyName propertyName := by
  unfold propertyName
  refine .cursor fun c c' hc => ?_
  have hpeek := hc.peek
  generalize c.peek? 0 = lexeme at hpeek ⊢
  generalize c'.peek? 0 = lexeme' at hpeek ⊢
  cases hpeek with
  | none => exact ident_respects
  | some hagrees =>
    simp only [hagrees.kind]
    split
    · exact next_respects.seq fun _ _ _ =>
        .pure (hagrees.same_ident fun text => String.ofList (text.drop 1).dropLast)
    · exact next_respects.seq fun _ _ _ => .pure (hagrees.same_ident _)
    · exact ident_respects

theorem namePart_respects {parts parts' : List Ident} (hparts : Same m m' parts parts') :
    Respects m m' true true (Sum.LiftRel (Same m m') (Same m m')) (namePart parts) (namePart parts') :=
  .eat (ident_respects.bind fun _ _ hpart => .pure (.inl (hparts.concat hpart))) (.pure (.inr hparts))

theorem entityName_respects : Respects m m' b true (Same m m') entityName entityName := by
  rw [entityName_eq]
  refine .cursor fun c c' hc => ?_
  refine ident_respects.seq fun first first' hfirst => ?_
  refine (repeatFrom_respects (fun _ _ => namePart_respects) .nil).bind fun rest rest' hrest => ?_
  refine .placed hc.start fun span span' hspan => ?_
  simp_all [Same, relocate]

end Names

section Groups

variable {m m' : Relocation} {b : Bool} {lexemes lexemes' : List Lexeme}

theorem Agree.groupLength?_eq (h : Agree m m' b lexemes lexemes') : ∀ depth : Nat,
    groupLength? depth lexemes = groupLength? depth lexemes' := by
  induction h with
  | nil => intro depth; rfl
  | cons hagrees _ _ ih =>
    rintro (_ | depth)
    · rfl
    · simp only [groupLength?, hagrees.kind, ih]

theorem Agree.balancedLength_eq (h : Agree m m' b lexemes lexemes') : ∀ depth : Nat,
    balancedLength depth lexemes = balancedLength depth lexemes' := by
  induction h with
  | nil => intro depth; rfl
  | cons hagrees _ _ ih =>
    intro depth
    cases depth <;> simp only [balancedLength, hagrees.kind, ih]

theorem skipGroup_respects (opening : TokenKind) :
    Respects m m' b true Eq (skipGroup opening) (skipGroup opening) := by
  unfold skipGroup
  refine (expect_respects opening).seq fun _ _ _ => .cursor fun c c' hc => ?_
  simp only [hc.rest.groupLength?_eq, hc.rest.length_eq]
  split
  · exact skip_respects _
  · exact (skip_respects _).bind fun _ _ _ => unexpected_respects

theorem skipBalanced_respects : Respects m m' true true Eq skipBalanced skipBalanced := by
  unfold skipBalanced
  refine .cursor fun c c' hc => ?_
  rw [hc.rest.balancedLength_eq]
  exact skip_respects _

theorem recover_respects (closing : TokenKind) :
    Respects m m' true true Eq (recover closing) (recover closing) := by
  unfold recover
  refine .cursor fun c c' hc => ?_
  simp only [hc.rest.balancedLength_eq]
  refine (skip_respects _).bind fun _ _ _ => .ite (fun _ => ?_) fun _ => .pure rfl
  refine .kind fun kind => ?_
  exact .ite (fun _ => .pure rfl) fun _ => next_respects

end Groups

end NodeFactory
