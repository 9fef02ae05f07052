import NodeFactory.Proofs.GrammarParts
import NodeFactory.Proofs.ParseRuns

/-!
# Where a type is written

The span of a type begins at the first of its lexemes and ends with the last that was read
(`typeExpr_spans`).
-/

namespace NodeFactory

open Parse Text

/-- What an action gives spans from a position to the last lexeme read. -/
def EndsFrom {α : Type} (span : α → Span) (start : Nat) (A : Parse α) : Prop :=
  ∀ c value d, A c = .ok value d → span value = ⟨start, max d.lastEnd start⟩

/-- What an action gives spans from where the action begins. -/
def Spans (A : Parse TypeExpr) : Prop :=
  ∀ c type d, A c = .ok type d → type.span = ⟨c.start, max d.lastEnd c.start⟩

section Combined

variable {start : Nat} {α β : Type} {span : β → Span} {A B : Parse β}

theorem EndsFrom.bind {A : Parse α} {B : α → Parse β} (h : ∀ value, EndsFrom span start (B value)) :
    EndsFrom span start (A >>= B) := by
  intro c result d hrun
  obtain ⟨value, m, -, hrun⟩ := bind_eq_ok_iff.1 hrun
  exact h value m result d hrun

theorem EndsFrom.ite {p : Prop} [Decidable p] (hA : EndsFrom span start A)
    (hB : EndsFrom span start B) : EndsFrom span start (if p then A else B) := by
  split
  · exact hA
  · exact hB

theorem endsFrom_spanFrom {make : Span → β} (hmake : ∀ place, span (make place) = place) :
    EndsFrom span start (do return make (← spanFrom start)) := by
  intro c value d hrun
  cases hrun
  exact hmake _

end Combined

theorem Spans.of_endsFrom {f : Cursor → Parse TypeExpr}
    (h : ∀ c : Cursor, EndsFrom TypeExpr.span c.start (f c)) : Spans (cursor >>= f) :=
  fun c type d hrun => h c c type d hrun

/-- What holds of the states of a repetition, where they are reached, gives what holds at its end. -/
theorem repeatFrom_of_ok {σ α : Type} {step : σ → Parse (σ ⊕ α)} {P : σ → Cursor → Prop}
    {Q : α → Cursor → Prop}
    (hstep : ∀ state c result d, P state c → step state c = .ok result d →
      Sum.elim P Q result d)
    {state : σ} {c d : Cursor} {value : α} (hstate : P state c)
    (hrun : repeatFrom step state c = .ok value d) : Q value d := by
  refine repeatFrom_induction (motive := fun state c => P state c → Q value d) ?_ ?_ hrun hstate
  · exact fun state c hlast hstate => hstep state c _ d hstate hlast
  · exact fun state c state' m hfirst _ _ ih hstate => ih (hstep state c _ m hstate hfirst)

section Types

variable (type suffixed : Parse TypeExpr)

theorem shape_endsFrom {start : Nat} (shape : TypeShape) :
    EndsFrom TypeExpr.span start (do return ⟨shape, ← spanFrom start⟩) :=
  endsFrom_spanFrom fun _ => rfl

theorem functionType_spans (isConstructor : Bool) : Spans (functionType type isConstructor) := by
  unfold functionType
  refine .of_endsFrom fun c => .ite ?_ ?_
  · exact .bind fun _ => .bind fun _ => .bind fun _ => .bind fun _ => .bind fun _ => shape_endsFrom _
  · exact .bind fun _ => .bind fun _ => .bind fun _ => .bind fun _ => shape_endsFrom _

theorem primaryType_spans : Spans (primaryType type suffixed) := by
  rw [primaryType_eq]
  exact .of_endsFrom fun c => .bind shape_endsFrom

theorem suffixStep_spans {start : Nat} {object : TypeExpr} {result : TypeExpr ⊕ TypeExpr} {c d : Cursor}
    (hobject : object.span = ⟨start, max c.lastEnd start⟩) (hrun : suffixStep type start object c = .ok result d) :
    Sum.elim TypeExpr.span TypeExpr.span result = ⟨start, max d.lastEnd start⟩ := by
  change (if (c.kind == .openBracket && !c.startsLine) = true then _ else pure (.inr object) :
    Parse (TypeExpr ⊕ TypeExpr)) c = _ at hrun
  split at hrun
  · have hplaced : ∀ shape, EndsFrom (Sum.elim TypeExpr.span TypeExpr.span) start
        (do return .inl ⟨shape, ← spanFrom start⟩ : Parse (TypeExpr ⊕ TypeExpr)) :=
      fun _ => endsFrom_spanFrom fun _ => rfl
    refine (?_ : EndsFrom (Sum.elim TypeExpr.span TypeExpr.span) start _) c result d hrun
    refine .bind fun _ => .bind fun _ => .ite (.bind fun _ => hplaced _) ?_
    exact .bind fun _ => .bind fun _ => .bind fun _ => hplaced _
  · cases hrun
    exact hobject

theorem suffixedType_spans : Spans (suffixedType type suffixed) := by
  intro c result d hrun
  rw [suffixedType_eq, bind_of_ok (rfl : cursor c = .ok c c)] at hrun
  obtain ⟨primary, m, hprimary, hrun⟩ := bind_eq_ok_iff.1 hrun
  refine repeatFrom_of_ok
    (P := fun object m => object.span = ⟨c.start, max m.lastEnd c.start⟩)
    (Q := fun object m => object.span = ⟨c.start, max m.lastEnd c.start⟩)
    ?_ (primaryType_spans type suffixed c primary m hprimary) hrun
  intro object m result d hobject hstep
  have hspan := suffixStep_spans type hobject hstep
  cases result with
  | inl object => exact hspan
  | inr object => exact hspan

theorem operands_spans {operator : TokenKind} {combine : List TypeExpr → TypeShape}
    {part : Parse TypeExpr} (hpart : Spans part) : Spans (operands operator combine part) := by
  intro c result d hrun
  change (eat operator >>= fun isLed => _) c = _ at hrun
  obtain ⟨isLed, m, hled, hrun⟩ := bind_eq_ok_iff.1 hrun
  obtain ⟨first, m', hfirst, hrun⟩ := bind_eq_ok_iff.1 hrun
  change (if (!isLed && !(m'.kind == operator)) = true then pure first else _ : Parse TypeExpr) m' = _
    at hrun
  split at hrun
  · rename_i hsingle
    cases hrun
    have hled' : isLed = false := by
      cases isLed
      · rfl
      · simp at hsingle
    subst hled'
    rw [eat_eq] at hled
    split at hled
    · cases hled
    · cases hled
      exact hpart (c.expect [operator]) _ _ hfirst
  · exact (EndsFrom.bind fun _ => shape_endsFrom _ : EndsFrom TypeExpr.span c.start _) m' result d hrun

theorem functionOr_spans {other : Parse TypeExpr} (hother : Spans other) :
    Spans (functionOr type other) := by
  intro c result d hrun
  change (if c.startsFunction = true then functionType type false else other) c = _ at hrun
  split at hrun
  · exact functionType_spans type false c result d hrun
  · exact hother c result d hrun

theorem wholeType_spans : Spans (wholeType type suffixed) := by
  have hintersection : Spans (intersectionType type suffixed) :=
    operands_spans (functionOr_spans type (suffixedType_spans type suffixed))
  have hunion : Spans (unionType type suffixed) := operands_spans (functionOr_spans type hintersection)
  intro c result d hrun
  change (if c.startsFunction = true then functionType type false
    else if (c.kind == .keyword .newKw) = true then functionType type true
    else unionType type suffixed) c = _ at hrun
  split at hrun
  · exact functionType_spans type false c result d hrun
  · split at hrun
    · exact functionType_spans type true c result d hrun
    · exact hunion c result d hrun

/-- A type is written from the first of its lexemes to the last. -/
theorem typeExpr_spans : Spans typeExpr := by
  intro c type d hrun
  unfold typeExpr typeAt at hrun
  rw [fix_eq] at hrun
  exact wholeType_spans _ _ c type d hrun

end Types

end NodeFactory
