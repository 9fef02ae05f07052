import NodeFactory.Proofs.LocalTypes

/-!
# Lexemes behind a text

A cursor is extended by the lexemes of a text that follows and by the errors found in that text
before it is read. Where lexemes are left it shows the same next lexeme as before. Where they end with
a semicolon or a closing brace, it also shows the same behind a lexeme of another kind, because that is
not the last one.
-/

namespace NodeFactory

open Parse

/-- What follows a text: lexemes, and errors that are reported already. -/
structure Sequel where
  lexemes : List Lexeme
  errors : List ParseError

def Cursor.extend (c : Cursor) (s : Sequel) : Cursor where
  rest := c.rest ++ s.lexemes
  size := (c.rest ++ s.lexemes).length
  size_eq := rfl
  lastEnd := c.lastEnd
  expected := c.expected
  errors := s.errors ++ c.errors

/-- A lexeme that ends a declaration, spelled as it is. -/
def Lexeme.IsEnd (lexeme : Lexeme) : Prop :=
  (lexeme.kind = .semicolon ∧ lexeme.text = [';']) ∨ (lexeme.kind = .closeBrace ∧ lexeme.text = ['}'])

/-- Kinds of lexemes behind which another one is left, if the last one ends a declaration. -/
def TokenKind.isInner (kind : TokenKind) : Bool :=
  kind != .semicolon && kind != .closeBrace && kind != .endOfFile

structure Ended (lexemes : List Lexeme) : Prop where
  last : ∀ lexeme ∈ lexemes.getLast?, lexeme.IsEnd
  genuine : AllGenuine lexemes

theorem Ended.of_append {xs ys : List Lexeme} (h : Ended (xs ++ ys)) : Ended ys := by
  refine ⟨fun lexeme hlast => h.last lexeme ?_, (allGenuine_append.1 h.genuine).2⟩
  rw [List.getLast?_append, Option.mem_def.1 hlast]
  rfl

namespace Cursor

variable {c : Cursor} {s : Sequel}

@[simp] theorem rest_extend : (c.extend s).rest = c.rest ++ s.lexemes := rfl

@[simp] theorem lastEnd_extend : (c.extend s).lastEnd = c.lastEnd := rfl

theorem size_extend : (c.extend s).size = c.size + s.lexemes.length := by
  rw [c.size_eq]
  exact List.length_append

theorem expect_extend (kinds : List TokenKind) :
    (c.extend s).expect kinds = (c.expect kinds).extend s := rfl

theorem next_extend (h : c.rest ≠ []) : (c.extend s).next = c.next.extend s := by
  cases hrest : c.rest with
  | nil => exact absurd hrest h
  | cons lexeme lexemes =>
    have hrest' : (c.extend s).rest = lexeme :: (lexemes ++ s.lexemes) := by
      rw [rest_extend, hrest, List.cons_append]
    rw [next_of_cons hrest, next_of_cons hrest']
    exact eq_of_fields rfl rfl rfl rfl

theorem skip_extend : ∀ {n : Nat} {c : Cursor}, n ≤ c.rest.length →
    (c.extend s).skip n = (c.skip n).extend s
  | 0, _, _ => rfl
  | n + 1, c, h => by
    have hne : c.rest ≠ [] := List.length_pos_iff.1 (by omega)
    have hnext : n ≤ c.next.rest.length := by
      rw [rest_next, List.length_tail]
      omega
    rw [skip, next_extend hne, skip_extend hnext, skip]

theorem peek?_extend_of_lt {n : Nat} (h : n < c.rest.length) :
    (c.extend s).peek? n = c.peek? n := by
  rw [peek?, rest_extend, List.getElem?_append_left h, peek?]

section Next

variable (h : c.rest ≠ [])
include h

theorem peek?_extend : (c.extend s).peek? 0 = c.peek? 0 :=
  peek?_extend_of_lt (List.length_pos_iff.2 h)

theorem kind_extend : (c.extend s).kind = c.kind := by
  rw [kind, kindAt, peek?_extend h, kind, kindAt]

theorem textAt_extend : (c.extend s).textAt 0 = c.textAt 0 := by
  rw [textAt, peek?_extend h, textAt]

theorem start_extend : (c.extend s).start = c.start := by
  rw [start, peek?_extend h, start]
  rfl

theorem comments_extend : (c.extend s).comments = c.comments := by
  rw [comments, peek?_extend h, comments]

theorem unexpected_extend : (c.extend s).unexpected = c.unexpected := by
  obtain ⟨lexeme, lexemes, hrest⟩ := List.exists_cons_of_ne_nil h
  have hpeek : c.peek? 0 = some lexeme := by
    rw [peek?, hrest]
    rfl
  rw [unexpected, unexpected, peek?_extend h, hpeek]
  rfl

theorem startsLine_extend : (c.extend s).startsLine = c.startsLine := by
  rw [startsLine, peek?_extend h, startsLine]

end Next

section Behind

variable {n : Nat} (h : Ended c.rest)
include h

theorem peek?_succ_extend {lexeme : Lexeme} (hpeek : c.peek? n = some lexeme)
    (hend : ¬ lexeme.IsEnd) : (c.extend s).peek? (n + 1) = c.peek? (n + 1) := by
  have hn : n < c.rest.length := (List.getElem?_eq_some_iff.1 hpeek).1
  refine peek?_extend_of_lt (Nat.lt_of_le_of_ne hn fun hlast => hend (h.last lexeme ?_))
  rw [Option.mem_def, List.getLast?_eq_getElem?, ← hlast, Nat.add_sub_cancel]
  exact hpeek

/-- Behind a lexeme that is none of those that end declarations another one is left. -/
theorem peek?_succ_extend_of_isInner (hkind : (c.kindAt n).isInner = true) :
    (c.extend s).peek? (n + 1) = c.peek? (n + 1) := by
  rw [kindAt] at hkind
  cases hpeek : c.peek? n with
  | none =>
    rw [hpeek] at hkind
    cases hkind
  | some lexeme =>
    rw [hpeek] at hkind
    change lexeme.kind.isInner = true at hkind
    refine peek?_succ_extend h hpeek ?_
    rintro (⟨hlast, -⟩ | ⟨hlast, -⟩)
    · rw [hlast] at hkind
      cases hkind
    · rw [hlast] at hkind
      cases hkind

theorem kindAt_succ_extend (hkind : (c.kindAt n).isInner = true) :
    (c.extend s).kindAt (n + 1) = c.kindAt (n + 1) := by
  rw [kindAt, peek?_succ_extend_of_isInner h hkind, kindAt]

theorem textAt_succ_extend (hkind : (c.kindAt n).isInner = true) :
    (c.extend s).textAt (n + 1) = c.textAt (n + 1) := by
  rw [textAt, peek?_succ_extend_of_isInner h hkind, textAt]

/-- The lexeme behind the next one is the same, unless that one may be the last. -/
theorem second_extend : (c.extend s).kindAt 1 = c.kindAt 1 ∧ (c.extend s).textAt 1 = c.textAt 1
    ∨ c.kind = .semicolon ∨ c.kind = .closeBrace ∨ c.kind = .endOfFile := by
  by_cases hinner : c.kind.isInner = true
  · exact .inl ⟨kindAt_succ_extend h hinner, textAt_succ_extend h hinner⟩
  · right
    simp only [TokenKind.isInner, Bool.and_eq_true, bne_iff_ne, Decidable.not_and_iff_or_not,
      Decidable.not_not, or_assoc] at hinner
    exact hinner

/-- A word is told from what is behind it only where that word is next. -/
theorem followed_extend (first : TokenKind) (hfirst : first.isInner = true) (p : TokenKind → Bool) :
    (c.kind == first && p ((c.extend s).kindAt 1)) = (c.kind == first && p (c.kindAt 1)) := by
  by_cases hkind : c.kind = first
  · rw [← hkind] at hfirst
    rw [kindAt_succ_extend h hfirst]
  · rw [beq_eq_false_iff_ne.2 hkind, Bool.false_and, Bool.false_and]

theorem isVarianceWord_extend (hne : c.rest ≠ []) :
    isVarianceWord (c.extend s) = isVarianceWord c := by
  have hfirst : c.kind = .keyword .constKw ∨ c.textAt 0 = ['i', 'n'] ∨ c.textAt 0 = ['o', 'u', 't'] →
      (c.extend s).kindAt 1 = c.kindAt 1 := by
    intro hword
    cases hpeek : c.peek? 0 with
    | none => simp [kind, kindAt, textAt, hpeek] at hword
    | some lexeme =>
      rw [kindAt, peek?_succ_extend h hpeek, kindAt]
      simp only [kind, kindAt, textAt, hpeek, Option.map_some, Option.getD_some] at hword
      rintro (⟨hkind, htext⟩ | ⟨hkind, htext⟩) <;> simp [hkind, htext] at hword
  rw [Bool.eq_iff_iff, isVarianceWord_iff, isVarianceWord_iff, kind_extend hne, textAt_extend hne]
  exact and_congr_right fun hword => by rw [hfirst hword]

theorem binaryOp?_extend (hne : c.rest ≠ []) : (c.extend s).binaryOp? = c.binaryOp? := by
  have hglued : ∀ {n}, (c.kindAt n).isInner = true →
      (c.extend s).gluedKind? (n + 1) = c.gluedKind? (n + 1) := by
    intro n hkind
    rw [gluedKind?, peek?_succ_extend_of_isInner h hkind, gluedKind?]
  have hinner : ∀ {kind : TokenKind}, c.kind = kind → kind.isInner = true →
      (c.kindAt 0).isInner = true := by
    intro kind hkind h
    rw [← hkind] at h
    exact h
  unfold binaryOp?
  rw [kind_extend hne]
  split
  case h_9 hkind => rw [hglued (hinner hkind rfl)]
  case h_10 hkind =>
    rw [hglued (hinner hkind rfl)]
    split
    · rename_i hnext
      have hsecond : (c.kindAt 1).isInner = true := by
        unfold gluedKind? at hnext
        obtain ⟨lexeme, hpeek, hlexeme⟩ := Option.bind_eq_some_iff.1 hnext
        split at hlexeme
        · have hkind : lexeme.kind = .greater := Option.some.inj hlexeme
          rw [kindAt, hpeek, Option.map_some, Option.getD_some, hkind]
          rfl
        · cases hlexeme
      rw [hglued hsecond]
    · rfl
  all_goals rfl

end Behind

end Cursor

theorem groupLength?_append {depth n : Nat} {xs : List Lexeme} (h : groupLength? depth xs = some n)
    (ys : List Lexeme) : groupLength? depth (xs ++ ys) = some n := by
  have happend := groupLength?_take h (nests_of_groupLength? h).1 ys
  rwa [List.take_length] at happend

/-- Where a function type is next, its arrow is left. -/
theorem Cursor.startsFunction_extend_of_true {c : Cursor} {s : Sequel} (h : c.startsFunction = true) :
    (c.extend s).startsFunction = true := by
  have hne : c.rest ≠ [] := by
    intro hrest
    rw [startsFunction, kind, kindAt, peek?, hrest] at h
    cases h
  by_cases hless : c.kind = .less
  · exact startsFunction_of_less ((kind_extend hne).trans hless)
  by_cases hparen : c.kind = .openParen
  case neg =>
    rw [startsFunction_of_kind hless hparen] at h
    cases h
  unfold startsFunction at h ⊢
  rw [kind_extend hne, hparen]
  rw [hparen] at h
  dsimp only at h ⊢
  cases hlength : groupLength? 1 (c.rest.drop 1) with
  | none =>
    rw [hlength] at h
    cases h
  | some n =>
    rw [hlength] at h
    have hdrop : (c.extend s).rest.drop 1 = c.rest.drop 1 ++ s.lexemes :=
      List.drop_append_of_le_length (List.length_pos_iff.2 hne)
    rw [hdrop, groupLength?_append hlength]
    dsimp only at h ⊢
    have harrow : n + 1 < c.rest.length := by
      refine Nat.lt_of_not_le fun hle => ?_
      rw [kindAt, peek?, List.getElem?_eq_none (by omega)] at h
      cases h
    rw [kindAt, peek?_extend_of_lt harrow]
    exact h

/-- Where none is next but a type is read, what is read closes its groups. -/
theorem Cursor.startsFunction_extend_of_false {c d : Cursor} {s : Sequel} {xs : List Lexeme}
    (h : c.startsFunction = false) (hxs : c.Reads xs d) (hne : xs ≠ []) (hnests : Nests 0 0 xs)
    (hleft : d.rest ≠ []) : (c.extend s).startsFunction = false := by
  obtain ⟨first, group, rfl⟩ := List.exists_cons_of_ne_nil hne
  have hrest : c.rest ≠ [] := by
    rw [hxs.rest]
    exact List.cons_ne_nil _ _
  by_cases hless : c.kind = .less
  · rw [startsFunction_of_less hless] at h
    cases h
  by_cases hparen : c.kind = .openParen
  case neg =>
    exact startsFunction_of_kind (by rwa [kind_extend hrest]) (by rwa [kind_extend hrest])
  have hkind : first.kind = .openParen := (Cursor.kind_of_cons hxs.rest).symm.trans hparen
  obtain ⟨n, hn, hlooks⟩ := startsFunction_of_nests hkind hnests
  have hlt : n + 1 < c.rest.length := by
    rw [hxs.rest, List.length_append, List.length_cons]
    have := List.length_pos_iff.2 hleft
    omega
  rw [hlooks c d.rest hxs.rest] at h
  rw [hlooks (c.extend s) (d.rest ++ s.lexemes) (by rw [rest_extend, hxs.rest, List.append_assoc]),
    kindAt, peek?_extend_of_lt hlt]
  exact h

end NodeFactory
