import NodeFactory.Grammar.Statement

/-!
# Runs of reading actions

What the elementary actions come to, and the equation of an action that calls itself: its calls are
limited to fewer lexemes than are left.
-/

namespace NodeFactory

namespace Cursor

variable {cursor cursor' : Cursor}

theorem eq_of_fields (hrest : cursor.rest = cursor'.rest) (hlastEnd : cursor.lastEnd = cursor'.lastEnd)
    (hexpected : cursor.expected = cursor'.expected) (herrors : cursor.errors = cursor'.errors) :
    cursor = cursor' := by
  obtain ⟨rest, size, hsize, lastEnd, expected, errors⟩ := cursor
  obtain ⟨rest', size', hsize', lastEnd', expected', errors'⟩ := cursor'
  simp_all

theorem next_of_cons {lexeme : Lexeme} {lexemes : List Lexeme}
    (h : cursor.rest = lexeme :: lexemes) :
    cursor.next = ⟨lexemes, lexemes.length, rfl, lexeme.span.stop, [], cursor.errors⟩ := by
  obtain ⟨rest, size, hsize, lastEnd, expected, errors⟩ := cursor
  subst h
  exact eq_of_fields rfl rfl rfl rfl

theorem next_of_nil (h : cursor.rest = []) : cursor.next = { cursor with expected := [] } := by
  obtain ⟨rest, size, hsize, lastEnd, expected, errors⟩ := cursor
  subst h
  rfl

theorem next_expect (cursor : Cursor) (kinds : List TokenKind) :
    (cursor.expect kinds).next = cursor.next := by
  cases hrest : cursor.rest with
  | nil =>
    have hrest' : (cursor.expect kinds).rest = [] := hrest
    rw [next_of_nil hrest, next_of_nil hrest']
    rfl
  | cons lexeme lexemes =>
    have hrest' : (cursor.expect kinds).rest = lexeme :: lexemes := hrest
    rw [next_of_cons hrest, next_of_cons hrest']
    rfl

theorem rest_of_kind (h : cursor.kind ≠ .endOfFile) :
    ∃ lexeme, cursor.rest = lexeme :: cursor.next.rest ∧ lexeme.kind = cursor.kind := by
  cases hrest : cursor.rest with
  | nil => simp [kind, kindAt, peek?, hrest] at h
  | cons lexeme lexemes =>
    refine ⟨lexeme, ?_, ?_⟩
    · rw [next_of_cons hrest]
    · simp [kind, kindAt, peek?, hrest]

theorem kindAt_next (cursor : Cursor) (n : Nat) : cursor.next.kindAt n = cursor.kindAt (n + 1) := by
  unfold kindAt peek?
  cases hrest : cursor.rest with
  | nil => rw [next_of_nil hrest, hrest, List.getElem?_nil, List.getElem?_nil]
  | cons lexeme lexemes => rw [next_of_cons hrest, List.getElem?_cons_succ]

theorem errors_next (cursor : Cursor) : cursor.next.errors = cursor.errors := by
  cases hrest : cursor.rest with
  | nil => rw [next_of_nil hrest]
  | cons lexeme lexemes => rw [next_of_cons hrest]

theorem expected_next (cursor : Cursor) : cursor.next.expected = [] := by
  cases hrest : cursor.rest with
  | nil => rw [next_of_nil hrest]
  | cons lexeme lexemes => rw [next_of_cons hrest]

theorem rest_next (cursor : Cursor) : cursor.next.rest = cursor.rest.tail := by
  cases hrest : cursor.rest with
  | nil => rw [next_of_nil hrest, hrest, List.tail_nil]
  | cons lexeme lexemes => rw [next_of_cons hrest, List.tail_cons]

theorem rest_skip : ∀ (n : Nat) (cursor : Cursor), (cursor.skip n).rest = cursor.rest.drop n
  | 0, _ => rfl
  | n + 1, cursor => by
    rw [skip, rest_skip n, rest_next, List.drop_tail]

theorem errors_skip : ∀ (n : Nat) (cursor : Cursor), (cursor.skip n).errors = cursor.errors
  | 0, _ => rfl
  | n + 1, cursor => by
    rw [skip, errors_skip n, errors_next]

theorem size_next (cursor : Cursor) : cursor.next.size = cursor.size - 1 := by
  have hsize := cursor.size_eq
  cases hrest : cursor.rest with
  | nil =>
    rw [next_of_nil hrest]
    simp [hsize, hrest]
  | cons lexeme lexemes =>
    rw [next_of_cons hrest]
    simp [hsize, hrest]

end Cursor

namespace Parse

section Sequence

variable {α β : Type} {A : Parse α} {B : α → Parse β} {c d m : Cursor} {value : α} {result : β}

theorem bind_of_ok (h : A c = .ok value m) : (A >>= B) c = B value m := by
  show EStateM.bind A B c = _
  unfold EStateM.bind
  rw [h]

/-- What fails first is how a sequence fails. -/
theorem bind_of_error {error : ParseError} (h : A c = .error error m) : (A >>= B) c = .error error m := by
  show EStateM.bind A B c = _
  unfold EStateM.bind
  rw [h]

theorem bind_eq_ok_iff :
    (A >>= B) c = .ok result d ↔ ∃ value m, A c = .ok value m ∧ B value m = .ok result d := by
  show EStateM.bind A B c = _ ↔ _
  unfold EStateM.bind
  cases h : A c with
  | ok value m =>
    constructor
    · exact fun hB => ⟨value, m, rfl, hB⟩
    · rintro ⟨_, _, hA, hB⟩
      cases hA
      exact hB
  | error error m => simp

/-- Actions that begin alike and go on alike come to the same. -/
theorem bind_congr {A' : Parse α} {B' : α → Parse β} (hA : A c = A' c)
    (hB : ∀ value m, A c = .ok value m → B value m = B' value m) : (A >>= B) c = (A' >>= B') c := by
  show EStateM.bind A B c = EStateM.bind A' B' c
  unfold EStateM.bind
  rw [← hA]
  cases h : A c with
  | ok value m => exact hB value m h
  | error error m => rfl

theorem map_eq_ok_iff {f : α → β} :
    (f <$> A) c = .ok result d ↔ ∃ value, A c = .ok value d ∧ f value = result := by
  show EStateM.map f A c = _ ↔ _
  unfold EStateM.map
  cases h : A c with
  | ok value m =>
    constructor
    · intro hresult
      cases hresult
      exact ⟨value, rfl, rfl⟩
    · rintro ⟨_, hA, rfl⟩
      cases hA
      rfl
  | error error m => simp

theorem discard_of_ok (h : A c = .ok value d) : discard A c = .ok () d := map_eq_ok_iff.2 ⟨value, h, rfl⟩

/-- What an action comes to is a value, a failure as well. -/
theorem outcome_of_ok (h : A c = .ok value d) : Parse.outcome A c = .ok (.ok value) d := by
  unfold Parse.outcome
  rw [h]

theorem outcome_of_error {error : ParseError} (h : A c = .error error d) :
    Parse.outcome A c = .ok (.error error) d := by
  unfold Parse.outcome
  rw [h]

theorem isAt_bind (kind : TokenKind) (f : Bool → Parse α) :
    isAt kind >>= f = cursor >>= fun here => f (here.kind == kind) := rfl

theorem cursor_bind_cursor (f : Cursor → Cursor → Parse α) :
    (cursor >>= fun here => cursor >>= f here) = cursor >>= fun here => f here here := rfl

end Sequence

section Elementary

variable {kind : TokenKind} {cursor : Cursor}

theorem eat_eq (kind : TokenKind) (cursor : Cursor) : eat kind cursor =
    if cursor.kind = kind then .ok true cursor.next else .ok false (cursor.expect [kind]) := by
  have h : eat kind cursor = (if (cursor.kind == kind) = true then
      (do next; return true : Parse Bool)
    else do modify fun cursor => cursor.expect [kind]; return false) cursor := rfl
  rw [h]
  by_cases hkind : cursor.kind = kind
  · rw [if_pos (beq_iff_eq.2 hkind), if_pos hkind]
    rfl
  · rw [if_neg (fun h => hkind (beq_iff_eq.1 h)), if_neg hkind]
    rfl

theorem eat_of_kind (h : cursor.kind = kind) : eat kind cursor = .ok true cursor.next := by
  rw [eat_eq, if_pos h]

theorem eat_of_ne (h : cursor.kind ≠ kind) :
    eat kind cursor = .ok false (cursor.expect [kind]) := by
  rw [eat_eq, if_neg h]

theorem expect_of_kind (h : cursor.kind = kind) : expect kind cursor = .ok () cursor.next := by
  unfold expect
  rw [bind_of_ok (eat_of_kind h)]
  rfl

theorem expect_of_ne (h : cursor.kind ≠ kind) :
    expect kind cursor = .error (cursor.expect [kind]).unexpected (cursor.expect [kind]) := by
  unfold expect
  rw [bind_of_ok (eat_of_ne h)]
  rfl

end Elementary

section Recovery

variable {closing : TokenKind} {c d : Cursor}

theorem errors_of_recover {value : Unit} (h : recover closing c = .ok value d) :
    d.errors = c.errors := by
  let n := balancedLength 0 c.rest
  change (if n = 0 then (do
    let kind ← kind
    unless kind == closing || kind == .endOfFile do next) else pure () : Parse Unit) (c.skip n)
      = .ok value d at h
  rw [← c.errors_skip n]
  by_cases hn : n = 0
  · rw [if_pos hn] at h
    change (if ((c.skip n).kind == closing || (c.skip n).kind == .endOfFile) = true then pure ()
      else next : Parse Unit) (c.skip n) = .ok value d at h
    split at h
    · cases h
      rfl
    · cases h
      exact Cursor.errors_next _
  · rw [if_neg hn] at h
    cases h
    rfl

/-- An error that is reported stays, whatever is skipped after it. -/
theorem errors_of_reported {α : Type} {error : ParseError} {result value : α}
    (h : (do report error; recover closing; return result : Parse α) c = .ok value d) :
    d.errors ≠ [] := by
  obtain ⟨_, m, hreport, h⟩ := bind_eq_ok_iff.1 h
  obtain ⟨_, m', hrecover, hresult⟩ := bind_eq_ok_iff.1 h
  cases hreport
  cases hresult
  rw [errors_of_recover hrecover]
  exact List.append_ne_nil_of_right_ne_nil _ (List.cons_ne_nil _ _)

end Recovery

section Repeated

variable {ι σ α : Type}

/-- An action where fewer lexemes are left than that; elsewhere it fails. -/
def below (size : Nat) (action : Parse α) : Parse α := fun cursor =>
  if cursor.size < size then action cursor else unexpected cursor

theorem below_of_lt {size : Nat} {action : Parse α} {cursor : Cursor} (h : cursor.size < size) :
    below size action cursor = action cursor := if_pos h

theorem below_of_not_lt {size : Nat} {action : Parse α} {cursor : Cursor}
    (h : ¬ cursor.size < size) : below size action cursor = unexpected cursor := if_neg h

theorem fix_eq (body : (ι → Parse α) → ι → Parse α) (i : ι) (cursor : Cursor) :
    fix body i cursor = body (fun j => below cursor.size (fix body j)) i cursor := by
  rw [fix]
  rfl

variable {step : σ → Parse (σ ⊕ α)} {state state' : σ} {value : α} {c d : Cursor}

/-- A repetition is a step and what it goes on with. -/
theorem repeatFrom_eq (step : σ → Parse (σ ⊕ α)) (state : σ) (c : Cursor) :
    repeatFrom step state c
      = (step state >>= Sum.elim (fun state => below c.size (repeatFrom step state)) pure) c := by
  rw [repeatFrom, fix_eq]
  refine bind_congr rfl fun result _ _ => ?_
  cases result <;> rfl

/-- A repetition ends with the result of a step. -/
theorem repeatFrom_of_inr (h : step state c = .ok (.inr value) d) :
    repeatFrom step state c = .ok value d := by
  rw [repeatFrom_eq, bind_of_ok h]
  rfl

/-- A step that has read something is followed by another. -/
theorem repeatFrom_of_inl (h : step state c = .ok (.inl state') d) (hsize : d.size < c.size) :
    repeatFrom step state c = repeatFrom step state' d := by
  rw [repeatFrom_eq, bind_of_ok h]
  exact below_of_lt hsize

/-- A repetition that comes to a value has done so in its first step, or in those after it. -/
theorem repeatFrom_cases (h : repeatFrom step state c = .ok value d) :
    step state c = .ok (.inr value) d ∨ ∃ state' m, step state c = .ok (.inl state') m
      ∧ m.size < c.size ∧ repeatFrom step state' m = .ok value d := by
  rw [repeatFrom_eq] at h
  obtain ⟨result, m, hfirst, hrun⟩ := bind_eq_ok_iff.1 h
  cases result with
  | inr result =>
    cases hrun
    exact .inl hfirst
  | inl state' =>
    change below c.size (repeatFrom step state') m = _ at hrun
    by_cases hlt : m.size < c.size
    · rw [below_of_lt hlt] at hrun
      exact .inr ⟨state', m, hfirst, hlt, hrun⟩
    · rw [below_of_not_lt hlt] at hrun
      cases hrun

/-- Induction on the steps of a repetition that comes to a value. -/
theorem repeatFrom_induction {motive : σ → Cursor → Prop}
    (last : ∀ state c, step state c = .ok (.inr value) d → motive state c)
    (more : ∀ state c state' m, step state c = .ok (.inl state') m → m.size < c.size →
      repeatFrom step state' m = .ok value d → motive state' m → motive state c)
    (h : repeatFrom step state c = .ok value d) : motive state c := by
  generalize hn : c.size = n
  induction n using Nat.strongRecOn generalizing state c with
  | ind n ih =>
    rcases repeatFrom_cases h with hlast | ⟨state', m, hfirst, hlt, hrun⟩
    · exact last state c hlast
    · exact more state c state' m hfirst hlt hrun (ih m.size (hn ▸ hlt) hrun rfl)

end Repeated

end Parse

end NodeFactory
