import NodeFactory.Proofs.LayoutFree
import NodeFactory.Proofs.Sequels
import NodeFactory.Proofs.TypeWords

/-!
# Lexemes put in behind a mark

Behind a mark, a semicolon or an opening brace, lexemes that nest are put in. A cursor before the mark shows
the same with and without them (`Insertion.Views`): only what stands behind a mark is told apart. The end of a
group that is open at the mark is farther away, but behind it is the same kind of lexeme
(`Insertion.Views.startsFunction`).
-/

namespace NodeFactory

open Parse

def TokenKind.isMark (kind : TokenKind) : Bool := kind == .semicolon || kind == .openBrace

theorem TokenKind.of_isMark {kind : TokenKind} (h : kind.isMark = true) :
    kind = .semicolon ∨ kind = .openBrace := by
  simpa [isMark] using h

/-- A mark, the lexemes behind it, and lexemes to put in between. Behind those the lexemes are of the
same kinds, but may stand elsewhere. -/
structure Insertion where
  mark : Lexeme
  inserted : List Lexeme
  behind : List Lexeme
  moved : List Lexeme
  marks : mark.kind = .semicolon ∧ mark.text = [';'] ∨ mark.kind = .openBrace ∧ mark.text = ['\x7b']
  nests : Nests 0 0 inserted
  kinds : behind.map Lexeme.kind = moved.map Lexeme.kind

namespace Insertion

variable (i : Insertion)

theorem isMark : i.mark.kind.isMark = true := by
  rcases i.marks with ⟨h, -⟩ | ⟨h, -⟩ <;> rw [h] <;> rfl

/-- What is left at the mark. -/
def left : List Lexeme := i.mark :: i.behind

/-- What is left at the mark where the lexemes are put in. -/
def filled : List Lexeme := i.mark :: (i.inserted ++ i.moved)

def size : Nat := i.left.length

theorem size_behind : i.behind.length = i.moved.length := by
  rw [← List.length_map Lexeme.kind, i.kinds, List.length_map]

theorem length_filled : i.filled.length = i.size + i.inserted.length := by
  have hsize := i.size_behind
  simp only [filled, size, left, List.length_cons, List.length_append]
  omega

/-- Cursors that have the same lexemes before them up to the mark. -/
structure Parallel (c c' : Cursor) : Prop where
  rest : ∃ ahead, c.rest = ahead ++ i.left ∧ c'.rest = ahead ++ i.filled
  lastEnd : c.lastEnd = c'.lastEnd
  expected : c.expected = c'.expected
  errors : c.errors = c'.errors

/-- Cursors that show the same up to the mark: parallel ones, or the same one twice. -/
def Views (c c' : Cursor) : Prop := i.Parallel c c' ∨ c = c'

end Insertion

section Cursors

variable {i : Insertion} {c c' : Cursor}

/-- More lexemes than are left before the mark. -/
theorem Insertion.skip_passes {ahead : List Lexeme} {n : Nat} (hrest : c.rest = ahead ++ i.left)
    (hn : ahead.length < n) : (c.skip n).size < i.size := by
  have hsize : c.rest.length = ahead.length + i.size := by
    rw [hrest, List.length_append]
    rfl
  have hleft : 0 < i.size := Nat.succ_pos _
  rw [Cursor.size_eq, Cursor.rest_skip, List.length_drop]
  omega

namespace Insertion.Parallel

variable (h : i.Parallel c c')
include h

theorem size : c'.size = c.size + i.inserted.length := by
  obtain ⟨ahead, hc, hc'⟩ := h.rest
  rw [c'.size_eq, c.size_eq, hc, hc', List.length_append, List.length_append, i.length_filled]
  show _ = ahead.length + i.size + _
  omega

theorem size_le : i.size ≤ c.size := by
  obtain ⟨ahead, hc, -⟩ := h.rest
  rw [c.size_eq, hc, List.length_append]
  exact Nat.le_add_left _ _

theorem expect (kinds : List TokenKind) : i.Parallel (c.expect kinds) (c'.expect kinds) :=
  ⟨h.rest, h.lastEnd, congrArg (· ++ kinds) h.expected, h.errors⟩

theorem report (error : ParseError) : i.Parallel (c.report error) (c'.report error) :=
  ⟨h.rest, h.lastEnd, h.expected, congrArg (· ++ [error]) h.errors⟩

/-- A lexeme is read on both sides, or it is the mark. -/
theorem next : i.Parallel c.next c'.next ∨ c.next.size < i.size := by
  obtain ⟨ahead, hc, hc'⟩ := h.rest
  cases ahead with
  | nil =>
    right
    have hlt : c.next.rest.length < i.left.length := by
      rw [Cursor.next_of_cons hc]
      exact Nat.lt_succ_self _
    rwa [← Cursor.size_eq] at hlt
  | cons lexeme ahead =>
    left
    rw [Cursor.next_of_cons hc, Cursor.next_of_cons hc']
    exact ⟨⟨ahead, rfl, rfl⟩, rfl, rfl, h.errors⟩

omit h in
theorem skip (n : Nat) (h : i.Parallel c c') :
    i.Parallel (c.skip n) (c'.skip n) ∨ (c.skip n).size < i.size := by
  induction n generalizing c c' with
  | zero => exact .inl h
  | succ n ih =>
    rcases h.next with hnext | hpassed
    · exact ih hnext
    · right
      rw [Cursor.skip, Cursor.size_eq, Cursor.rest_skip, List.length_drop, ← Cursor.size_eq]
      omega

/-- What is left is told apart only behind the mark. -/
theorem peek {n : Nat} (hn : ∀ k < n, (c.kindAt k).isMark = false) : c.peek? n = c'.peek? n := by
  obtain ⟨ahead, hc, hc'⟩ := h.rest
  rw [Cursor.peek?, Cursor.peek?, hc, hc']
  have hle : n ≤ ahead.length := by
    refine Nat.le_of_not_lt fun hlt => ?_
    have hmark := hn ahead.length hlt
    rw [Cursor.kindAt, Cursor.peek?, hc, List.getElem?_append_right (Nat.le_refl _), Nat.sub_self] at hmark
    have hkept : i.mark.kind.isMark = false := hmark
    rw [i.isMark] at hkept
    cases hkept
  rcases Nat.lt_or_eq_of_le hle with hlt | rfl
  · rw [List.getElem?_append_left hlt, List.getElem?_append_left hlt]
  · rw [List.getElem?_append_right (Nat.le_refl _), List.getElem?_append_right (Nat.le_refl _),
      Nat.sub_self]
    rfl

end Insertion.Parallel

namespace Insertion.Views

variable (h : i.Views c c')
include h

theorem peek {n : Nat} (hn : ∀ k < n, (c.kindAt k).isMark = false) : c.peek? n = c'.peek? n := by
  rcases h with h | rfl
  · exact h.peek hn
  · rfl

theorem first : c.peek? 0 = c'.peek? 0 := h.peek fun _ hk => absurd hk (Nat.not_lt_zero _)

theorem kind : c.kind = c'.kind := by rw [Cursor.kind, Cursor.kindAt, h.first, Cursor.kind, Cursor.kindAt]

theorem text : c.textAt 0 = c'.textAt 0 := by rw [Cursor.textAt, h.first, Cursor.textAt]

theorem lastEnd : c.lastEnd = c'.lastEnd := by
  rcases h with h | rfl
  · exact h.lastEnd
  · rfl

theorem expected : c.expected = c'.expected := by
  rcases h with h | rfl
  · exact h.expected
  · rfl

theorem start : c.start = c'.start := by rw [Cursor.start, h.first, h.lastEnd, Cursor.start]

theorem comments : c.comments = c'.comments := by rw [Cursor.comments, h.first, Cursor.comments]

theorem startsLine : c.startsLine = c'.startsLine := by
  rw [Cursor.startsLine, h.first, Cursor.startsLine]

theorem unexpected : c.unexpected = c'.unexpected := by
  rw [Cursor.unexpected, h.first, h.expected, h.lastEnd, Cursor.unexpected]

theorem second (hfirst : c.kind.isMark = false) : c.peek? 1 = c'.peek? 1 :=
  h.peek fun k hk => by
    obtain rfl : k = 0 := Nat.lt_one_iff.1 hk
    exact hfirst

/-- The lexeme behind the next one is the same, unless that one is the mark. -/
theorem second_or : c.peek? 1 = c'.peek? 1
    ∨ c.kind.isMark = true ∧ (c.textAt 0 = [';'] ∨ c.textAt 0 = ['\x7b']) := by
  rcases h with h | rfl
  case inr => exact .inl rfl
  obtain ⟨ahead, hc, hc'⟩ := h.rest
  cases ahead with
  | nil =>
    right
    rw [Cursor.kind_of_cons hc, Cursor.textAt, Cursor.peek?, hc]
    exact ⟨i.isMark, i.marks.imp And.right And.right⟩
  | cons lexeme ahead =>
    left
    rw [Cursor.peek?, Cursor.peek?, hc, hc']
    cases ahead <;> rfl

theorem kindAt_one (hfirst : c.kind.isMark = false) : c.kindAt 1 = c'.kindAt 1 := by
  rw [Cursor.kindAt, h.second hfirst, Cursor.kindAt]

theorem textAt_one (hfirst : c.kind.isMark = false) : c.textAt 1 = c'.textAt 1 := by
  rw [Cursor.textAt, h.second hfirst, Cursor.textAt]

theorem third (hfirst : c.kind.isMark = false) (hsecond : (c.kindAt 1).isMark = false) :
    c.peek? 2 = c'.peek? 2 :=
  h.peek fun k hk => by
    have hcases : k = 0 ∨ k = 1 := by omega
    rcases hcases with rfl | rfl
    · exact hfirst
    · exact hsecond

/-- What is behind a lexeme counts only where that lexeme is of a kind. -/
theorem followed {first : TokenKind} (hfirst : first.isMark = false) (p : TokenKind → Bool) :
    (c.kind == first && p (c.kindAt 1)) = (c'.kind == first && p (c'.kindAt 1)) := by
  rw [← h.kind]
  by_cases hkind : c.kind = first
  · rw [h.kindAt_one (hkind ▸ hfirst)]
  · rw [beq_eq_false_iff_ne.2 hkind, Bool.false_and, Bool.false_and]

end Insertion.Views

end Cursors

section Groups

variable {i : Insertion} {c c' : Cursor}

/-- A group that does not end within some lexemes goes on behind them. -/
theorem groupLength?_append_of_none : ∀ {depth : Nat} {xs : List Lexeme},
    groupLength? depth xs = none → ∃ depth', ∀ ys,
      groupLength? depth (xs ++ ys) = (groupLength? (depth' + 1) ys).map (· + xs.length)
  | 0, _, h => by simp [groupLength?] at h
  | depth + 1, [], _ => ⟨depth, fun ys => Option.map_id'.symm⟩
  | depth + 1, lexeme :: xs, h => by
    obtain ⟨depth', hrest⟩ := groupLength?_append_of_none (Option.map_eq_none_iff.1 h)
    refine ⟨depth', fun ys => ?_⟩
    rw [List.cons_append, groupLength?, hrest ys, Option.map_map]
    rfl

theorem groupLength?_of_kinds : ∀ {depth : Nat} {xs ys : List Lexeme},
    xs.map Lexeme.kind = ys.map Lexeme.kind → groupLength? depth xs = groupLength? depth ys
  | 0, _, _, _ => by rw [groupLength?, groupLength?]
  | _ + 1, [], [], _ => rfl
  | _ + 1, [], _ :: _, h => by cases h
  | _ + 1, _ :: _, [], h => by cases h
  | depth + 1, x :: xs, y :: ys, h => by
    obtain ⟨hkind, hkinds⟩ := List.cons.inj h
    rw [groupLength?, groupLength?, hkind, groupLength?_of_kinds hkinds]

/-- A group that is open at the mark is longer by what is put in. -/
theorem Insertion.groupLength?_filled (i : Insertion) (depth : Nat) :
    groupLength? (depth + 1) i.filled
      = (groupLength? (depth + 1) i.left).map (· + i.inserted.length) := by
  have hinside : ∀ depth, Nests depth depth i.inserted := by
    intro depth
    induction depth with
    | zero => exact i.nests
    | succ depth ih => exact ih.inside
  -- A mark closes nothing.
  obtain ⟨behind, hbehind⟩ : ∃ behind, ∀ rest : List Lexeme, groupLength? (depth + 1) (i.mark :: rest)
      = (groupLength? (behind + 1) rest).map (· + 1) := by
    rcases i.marks with ⟨h, -⟩ | ⟨h, -⟩
    · exact ⟨depth, fun rest => by rw [groupLength?, h]; rfl⟩
    · exact ⟨depth + 1, fun rest => by rw [groupLength?, h]; rfl⟩
  rw [left, filled, hbehind, hbehind, (hinside behind).groupLength?_inside, groupLength?_of_kinds i.kinds,
    Option.map_map, Option.map_map]
  congr 1
  funext n
  exact Nat.add_right_comm _ _ _

/-- The lengths of the group that is open before the same lexemes on both sides. -/
inductive Insertion.SameGroup (i : Insertion) (ahead : List Lexeme) : Option Nat → Option Nat → Prop
  | within {n : Nat} : n ≤ ahead.length → SameGroup i ahead (some n) (some n)
  | beyond {n : Nat} : ahead.length < n → SameGroup i ahead (some n) (some (n + i.inserted.length))
  | unclosed : SameGroup i ahead none none

theorem Insertion.sameGroup (i : Insertion) (depth : Nat) (ahead : List Lexeme) :
    i.SameGroup ahead (groupLength? depth (ahead ++ i.left)) (groupLength? depth (ahead ++ i.filled)) := by
  cases hahead : groupLength? depth ahead with
  | some n =>
    rw [groupLength?_append hahead, groupLength?_append hahead]
    exact .within (nests_of_groupLength? hahead).1
  | none =>
    obtain ⟨depth', happend⟩ := groupLength?_append_of_none hahead
    rw [happend, happend, i.groupLength?_filled]
    cases hleft : groupLength? (depth' + 1) i.left with
    | none => exact .unclosed
    | some n =>
      have hn : n ≠ 0 := by
        rintro rfl
        obtain ⟨-, hnests⟩ := nests_of_groupLength? hleft
        rw [List.take_zero] at hnests
        cases hnests
      rw [Option.map_some, Option.map_some, Option.map_some, Nat.add_right_comm]
      exact .beyond (by omega)

/-- Behind the mark the kinds are the same. -/
theorem Insertion.kind_beyond (i : Insertion) {ahead : List Lexeme} {n : Nat} (h : ahead.length < n) :
    (ahead ++ i.left)[n]?.map Lexeme.kind
      = (ahead ++ i.filled)[n + i.inserted.length]?.map Lexeme.kind := by
  obtain ⟨k, rfl⟩ : ∃ k, n = ahead.length + (k + 1) := ⟨n - ahead.length - 1, by omega⟩
  have hleft : (ahead ++ i.left)[ahead.length + (k + 1)]? = i.behind[k]? := by
    rw [List.getElem?_append_right (by omega), Nat.add_sub_cancel_left]
    rfl
  have hfilled : (ahead ++ i.filled)[ahead.length + (k + 1) + i.inserted.length]? = i.moved[k]? := by
    have hindex : ahead.length + (k + 1) + i.inserted.length
        = ahead.length + (i.inserted.length + k + 1) := by omega
    rw [hindex, List.getElem?_append_right (by omega), Nat.add_sub_cancel_left]
    show (i.inserted ++ i.moved)[i.inserted.length + k]? = _
    rw [List.getElem?_append_right (by omega), Nat.add_sub_cancel_left]
  rw [hleft, hfilled, ← List.getElem?_map, i.kinds, List.getElem?_map]

theorem Insertion.Views.startsFunction (h : i.Views c c') : c.startsFunction = c'.startsFunction := by
  rcases h with h | rfl
  case inr => rfl
  have hkind : c.kind = c'.kind := Insertion.Views.kind (.inl h)
  obtain ⟨ahead, hc, hc'⟩ := h.rest
  by_cases hparen : c.kind = .openParen
  case neg =>
    by_cases hless : c.kind = .less
    · rw [startsFunction_of_less hless, startsFunction_of_less (hkind ▸ hless)]
    · rw [startsFunction_of_kind hless hparen, startsFunction_of_kind (hkind ▸ hless) (hkind ▸ hparen)]
  -- The parenthesis stands before the mark.
  obtain ⟨paren, ahead, rfl⟩ : ∃ paren more, ahead = paren :: more := by
    cases ahead with
    | nil =>
      have hmark : i.mark.kind = .openParen := (Cursor.kind_of_cons hc).symm.trans hparen
      have hmarked := i.isMark
      rw [hmark] at hmarked
      cases hmarked
    | cons paren more => exact ⟨paren, more, rfl⟩
  have hstarts : ∀ {d : Cursor} {rest : List Lexeme}, d.kind = .openParen → d.rest = paren :: rest →
      d.startsFunction = (groupLength? 1 rest).elim false fun n => d.kindAt (n + 1) == .fatArrow := by
    intro d rest hd hrest
    unfold Cursor.startsFunction
    rw [hd, hrest, List.drop_one, List.tail_cons]
    cases groupLength? 1 rest <;> rfl
  have hgroup := i.sameGroup 1 ahead
  rw [hstarts hparen hc, hstarts (hkind ▸ hparen) hc']
  show (groupLength? 1 (ahead ++ i.left)).elim false _ = (groupLength? 1 (ahead ++ i.filled)).elim false _
  generalize groupLength? 1 (ahead ++ i.left) = n at hgroup
  generalize groupLength? 1 (ahead ++ i.filled) = n' at hgroup
  cases hgroup with
  | unclosed => rfl
  | @within n hle =>
    have hsame : c.kindAt (n + 1) = c'.kindAt (n + 1) := by
      rw [Cursor.kindAt, Cursor.peek?, hc, Cursor.kindAt, Cursor.peek?, hc']
      show ((ahead ++ i.left)[n]?.map Lexeme.kind).getD _ = ((ahead ++ i.filled)[n]?.map Lexeme.kind).getD _
      rcases Nat.lt_or_eq_of_le hle with hlt | rfl
      · rw [List.getElem?_append_left hlt, List.getElem?_append_left hlt]
      · rw [List.getElem?_append_right (Nat.le_refl _), List.getElem?_append_right (Nat.le_refl _),
          Nat.sub_self]
        rfl
    rw [Option.elim_some, Option.elim_some, hsame]
  | @beyond n hlt =>
    have hsame : c.kindAt (n + 1) = c'.kindAt (n + i.inserted.length + 1) := by
      rw [Cursor.kindAt, Cursor.peek?, hc, Cursor.kindAt, Cursor.peek?, hc']
      exact congrArg (Option.getD · _) (i.kind_beyond hlt)
    rw [Option.elim_some, Option.elim_some, hsame]

end Groups

end NodeFactory
