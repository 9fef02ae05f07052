import NodeFactory.Proofs.ComposedActions

/-!
# Errors that were reported before

What is read does not depend on the errors that were reported before, and these stay the first ones
(`Indifferent`). So it is for the elementary actions, and it is kept where actions are put together
(`indifferentAt_compositional`).
-/

namespace NodeFactory

open Parse Text

/-- What an action comes to where other errors were reported before. -/
def precededResult {α : Type} (errors : List ParseError) :
    EStateM.Result ParseError Cursor α → EStateM.Result ParseError Cursor α
  | .ok value d => .ok value (d.preceded errors)
  | .error error d => .error error (d.preceded errors)

/-- From a cursor an action comes to the same whatever errors were reported before, and adds its own. -/
def IndifferentAt {α : Type} (A : Parse α) (c : Cursor) : Prop :=
  ∀ errors, A (c.preceded errors) = precededResult errors (A c)

/-- Whatever errors were reported before an action, it comes to the same and adds its own. -/
def Indifferent {α : Type} (A : Parse α) : Prop :=
  ∀ errors c, A (c.preceded errors) = precededResult errors (A c)

section Composed

variable {α β : Type} {A : Parse α} {c : Cursor}

theorem indifferent_iff : Indifferent A ↔ ∀ c, IndifferentAt A c := forall_comm

theorem IndifferentAt.bind {B : α → Parse β} (hA : IndifferentAt A c)
    (hB : ∀ value m, IndifferentAt (B value) m) : IndifferentAt (A >>= B) c := by
  intro errors
  show EStateM.bind A B (c.preceded errors) = precededResult errors (EStateM.bind A B c)
  unfold EStateM.bind
  rw [hA errors]
  cases A c with
  | ok value m => exact hB value m errors
  | error error m => rfl

theorem IndifferentAt.outcome (hA : IndifferentAt A c) : IndifferentAt (Parse.outcome A) c := by
  intro errors
  unfold Parse.outcome
  rw [hA errors]
  cases A c <;> rfl

theorem IndifferentAt.attempt {f : Except ParseError α → Parse β} (hA : IndifferentAt A c)
    (hok : ∀ value m, IndifferentAt (f (.ok value)) m)
    (herror : ∀ error m, A c = .error error m → IndifferentAt (f (.error error)) m) :
    IndifferentAt (Parse.outcome A >>= f) c := by
  intro errors
  have houtcome := hA.outcome errors
  cases hrun : A c with
  | ok value m =>
    rw [outcome_of_ok hrun] at houtcome
    rw [bind_of_ok houtcome, bind_of_ok (outcome_of_ok hrun)]
    exact hok value m errors
  | error error m =>
    rw [outcome_of_error hrun] at houtcome
    rw [bind_of_ok houtcome, bind_of_ok (outcome_of_error hrun)]
    exact herror error m hrun errors

theorem Cursor.next_preceded (errors : List ParseError) (c : Cursor) :
    (c.preceded errors).next = c.next.preceded errors := by
  cases hrest : c.rest with
  | nil =>
    have hrest' : (c.preceded errors).rest = [] := hrest
    rw [next_of_nil hrest, next_of_nil hrest']
    rfl
  | cons lexeme lexemes =>
    have hrest' : (c.preceded errors).rest = lexeme :: lexemes := hrest
    rw [next_of_cons hrest, next_of_cons hrest']
    rfl

theorem report_indifferent (error : ParseError) : Indifferent (report error) := by
  intro errors c
  have herrors := List.append_assoc errors c.errors [error]
  exact congrArg (EStateM.Result.ok ()) (Cursor.eq_of_fields rfl rfl rfl herrors)

theorem next_indifferent : Indifferent next := fun errors c =>
  congrArg (EStateM.Result.ok ()) (c.next_preceded errors)

theorem indifferentAt_compositional : Compositional IndifferentAt where
  congr {_ A B c} heq hB errors := by
    have hhere : A c = B c := heq []
    rw [heq errors, hhere]
    exact hB errors
  pure _ _ _ := rfl
  bind hA hB := hA.bind hB
  attempt hA hok herror := hA.attempt hok herror
  next c errors := next_indifferent errors c
  lookedFor _ _ := rfl
  unexpected _ _ := rfl
  report _ _ errors := report_indifferent _ errors _

end Composed

section Grammar

variable {α β : Type} {kind : TokenKind} {A : Parse α} {type suffixed other : Parse TypeExpr}

theorem Indifferent.map {f : α → β} (hA : Indifferent A) : Indifferent (f <$> A) :=
  indifferent_iff.2 (indifferentAt_compositional.map (indifferent_iff.1 hA))

theorem Indifferent.outcome (hA : Indifferent A) : Indifferent (Parse.outcome A) :=
  indifferent_iff.2 fun c => (indifferent_iff.1 hA c).outcome

theorem eat_indifferent : Indifferent (eat kind) :=
  indifferent_iff.2 (eat_composed indifferentAt_compositional)

theorem expect_indifferent : Indifferent (expect kind) :=
  indifferent_iff.2 (expect_composed indifferentAt_compositional)

theorem recover_indifferent (closing : TokenKind) : Indifferent (recover closing) :=
  indifferent_iff.2 (recover_composed indifferentAt_compositional closing)

theorem members_indifferent (htype : Indifferent type) : Indifferent (members type) :=
  indifferent_iff.2 (members_composed indifferentAt_compositional (indifferent_iff.1 htype))

theorem suffixedType_indifferent (htype : Indifferent type) (hsuffixed : Indifferent suffixed) :
    Indifferent (suffixedType type suffixed) :=
  indifferent_iff.2 (suffixedType_composed indifferentAt_compositional (indifferent_iff.1 htype)
    (indifferent_iff.1 hsuffixed))

theorem functionOr_indifferent (htype : Indifferent type) (hother : Indifferent other) :
    Indifferent (functionOr type other) :=
  indifferent_iff.2 (functionOr_composed indifferentAt_compositional (indifferent_iff.1 htype)
    (indifferent_iff.1 hother))

theorem intersectionType_indifferent (htype : Indifferent type) (hsuffixed : Indifferent suffixed) :
    Indifferent (intersectionType type suffixed) :=
  indifferent_iff.2 (intersectionType_composed indifferentAt_compositional (indifferent_iff.1 htype)
    (indifferent_iff.1 hsuffixed))

theorem typeAt_indifferent (level : TypeLevel) : Indifferent (typeAt level) :=
  indifferent_iff.2 (typeAt_composed indifferentAt_compositional level)

theorem typeExpr_indifferent : Indifferent typeExpr := typeAt_indifferent .whole

theorem statement_indifferent {body : Parse (List Statement)} (hbody : Indifferent body) :
    Indifferent (statement? body) :=
  indifferent_iff.2 (statement_composed indifferentAt_compositional (indifferent_iff.1 hbody))

theorem statementsUntil_indifferent (closing : TokenKind) : Indifferent (statementsUntil closing) :=
  indifferent_iff.2 (statementsUntil_composed indifferentAt_compositional closing)

end Grammar

end NodeFactory
