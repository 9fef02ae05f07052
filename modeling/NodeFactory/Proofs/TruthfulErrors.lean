import NodeFactory.Proofs.ComposedActions

/-!
# Errors say what is next

Reading takes three kinds of step (`Cursor.Reaches`): a lexeme is read, kinds are looked for of which none is
next, and it is reported that the next lexeme is none of those that were looked for. An action takes such steps
only, and where it fails, its error says what is next at that place (`Truthful`). So it is for the elementary
actions, and it is kept where actions are put together (`truthfulAt_compositional`).
-/

namespace NodeFactory

open Parse Text

/-- What reading does to a cursor. -/
inductive Cursor.Reaches : Cursor → Cursor → Prop
  | refl (c : Cursor) : Reaches c c
  | next {c d : Cursor} : Reaches c d → Reaches c d.next
  | expect {c d : Cursor} {kinds : List TokenKind} : Reaches c d → d.kind ∉ kinds →
      Reaches c (d.expect kinds)
  | report {c d : Cursor} : Reaches c d → Reaches c (d.report d.unexpected)

theorem Cursor.Reaches.trans {c m d : Cursor} (h : c.Reaches m) (h' : m.Reaches d) : c.Reaches d := by
  induction h' with
  | refl => exact h
  | next _ ih => exact ih.next
  | expect _ hkind ih => exact ih.expect hkind
  | report _ ih => exact ih.report

/-- From a cursor an action reads by such steps, and its failure says what is next where it has failed. -/
def TruthfulAt {α : Type} (A : Parse α) (c : Cursor) : Prop :=
  match A c with
  | .ok _ d => c.Reaches d
  | .error error d => c.Reaches d ∧ error = d.unexpected

def Truthful {α : Type} (A : Parse α) : Prop := ∀ c, TruthfulAt A c

section Composed

variable {α β : Type} {A : Parse α} {c m d : Cursor} {value : α} {error : ParseError}

theorem truthfulAt_of_ok (hrun : A c = .ok value d) : TruthfulAt A c ↔ c.Reaches d := by
  unfold TruthfulAt
  rw [hrun]

theorem truthfulAt_of_error (hrun : A c = .error error d) :
    TruthfulAt A c ↔ c.Reaches d ∧ error = d.unexpected := by
  unfold TruthfulAt
  rw [hrun]

/-- What an action has come to may be that of another one, which began further on. -/
theorem TruthfulAt.behind {B : Parse β} (h : TruthfulAt B m) (hm : c.Reaches m) {C : Parse β} (heq : C c = B m) :
    TruthfulAt C c := by
  cases hrun : B m with
  | ok value d => exact (truthfulAt_of_ok (heq.trans hrun)).2 (hm.trans ((truthfulAt_of_ok hrun).1 h))
  | error error d =>
    obtain ⟨hd, herror⟩ := (truthfulAt_of_error hrun).1 h
    exact (truthfulAt_of_error (heq.trans hrun)).2 ⟨hm.trans hd, herror⟩

theorem TruthfulAt.bind {B : α → Parse β} (hA : TruthfulAt A c) (hB : ∀ value, Truthful (B value)) :
    TruthfulAt (A >>= B) c := by
  cases hrun : A c with
  | ok value m => exact (hB value m).behind ((truthfulAt_of_ok hrun).1 hA) (bind_of_ok hrun)
  | error error m =>
    exact (truthfulAt_of_error (bind_of_error hrun)).2 ((truthfulAt_of_error hrun).1 hA)

/-- What follows a failure begins where that has happened. -/
theorem TruthfulAt.attempt {f : Except ParseError α → Parse β} (hA : TruthfulAt A c)
    (hok : ∀ value, Truthful (f (.ok value)))
    (herror : ∀ error m, A c = .error error m → TruthfulAt (f (.error error)) m) :
    TruthfulAt (Parse.outcome A >>= f) c := by
  cases hrun : A c with
  | ok value m => exact (hok value m).behind ((truthfulAt_of_ok hrun).1 hA) (bind_of_ok (outcome_of_ok hrun))
  | error error m =>
    obtain ⟨hm, -⟩ := (truthfulAt_of_error hrun).1 hA
    exact (herror error m hrun).behind hm (bind_of_ok (outcome_of_error hrun))

/-- A failure that is reported where it has happened says what is next there. -/
theorem TruthfulAt.report (hA : TruthfulAt A c) (hfails : A c = .error error m) :
    TruthfulAt (Parse.report error) m := by
  obtain ⟨-, rfl⟩ := (truthfulAt_of_error hfails).1 hA
  exact .report (.refl m)

theorem truthfulAt_compositional : Compositional TruthfulAt where
  congr heq hB := hB.behind (.refl _) (heq [])
  pure _ c := .refl c
  bind hA hB := hA.bind hB
  attempt hA hok herror := hA.attempt hok herror
  next c := .next (.refl c)
  lookedFor hkind := .expect (.refl _) hkind
  unexpected c := ⟨.refl c, rfl⟩
  report hA hfails := hA.report hfails

end Composed

theorem statementsUntil_truthful (closing : TokenKind) : Truthful (statementsUntil closing) :=
  statementsUntil_composed truthfulAt_compositional closing

end NodeFactory
