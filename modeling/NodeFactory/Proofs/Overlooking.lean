import NodeFactory.Proofs.BalancedRuns
import NodeFactory.Proofs.Insertions
import NodeFactory.Proofs.ParseProgress

/-!
# Actions that overlook an insertion

Behind a mark lexemes that nest are put in. An action that ends before the mark overlooks them: it
comes to the same with and without them, whether it gives a value or fails (`Overlooks`). So do the elementary
actions, and what is made of such actions in sequence, by repetition and by recursion; so types are read, and
members, whatever errors are in them. Nothing is said of an action that has passed the mark, but that it
does not go back.
-/

namespace NodeFactory

open Parse

/-- The cursor that an action leaves. -/
def Parse.endOf {α : Type} : EStateM.Result ParseError Cursor α → Cursor
  | .ok _ d => d
  | .error _ d => d

/-- The results of two actions are the same at parallel cursors, unless the first has passed the mark. -/
inductive Insertion.Kept (i : Insertion) {α : Type} :
    EStateM.Result ParseError Cursor α → EStateM.Result ParseError Cursor α → Prop
  | ok {value : α} {d d' : Cursor} : i.Parallel d d' → Kept i (.ok value d) (.ok value d')
  | error {error : ParseError} {d d' : Cursor} :
      i.Parallel d d' → Kept i (.error error d) (.error error d')
  | passed {r r' : EStateM.Result ParseError Cursor α} : (endOf r).size < i.size → Kept i r r'

/-- An action and its counterpart come to the same from parallel cursors, or pass the mark; from behind
it the action does not go back. -/
structure Overlooks (i : Insertion) {α : Type} (A A' : Parse α) : Prop where
  kept : ∀ c c', i.Parallel c c' → i.Kept (A c) (A' c')
  passes : ∀ c, c.size < i.size → (endOf (A c)).size < i.size

section Combined

variable {α β : Type} {i : Insertion} {A A' : Parse α}

theorem Overlooks.pure (value : α) : Overlooks i (pure value) (pure value) :=
  ⟨fun _ _ h => .ok h, fun _ h => h⟩

theorem Overlooks.bind {B B' : α → Parse β} (hA : Overlooks i A A')
    (hB : ∀ value, Overlooks i (B value) (B' value)) : Overlooks i (A >>= B) (A' >>= B') := by
  refine ⟨fun c c' hc => ?_, fun c hc => ?_⟩
  · have hrun := hA.kept c c' hc
    show i.Kept (EStateM.bind A B c) (EStateM.bind A' B' c')
    unfold EStateM.bind
    generalize A c = result at hrun
    generalize A' c' = result' at hrun
    cases hrun with
    | ok hm => exact (hB _).kept _ _ hm
    | error hm => exact .error hm
    | passed hpassed =>
      cases result with
      | ok value m => exact .passed ((hB value).passes m hpassed)
      | error error m => exact .passed hpassed
  · have hrun := hA.passes c hc
    show (endOf (EStateM.bind A B c)).size < i.size
    unfold EStateM.bind
    cases hresult : A c with
    | ok value m =>
      rw [hresult] at hrun
      exact (hB value).passes m hrun
    | error error m =>
      rw [hresult] at hrun
      exact hrun

theorem Overlooks.map {f : α → β} (hA : Overlooks i A A') : Overlooks i (f <$> A) (f <$> A') := by
  rw [map_eq_pure_bind, map_eq_pure_bind]
  exact hA.bind fun value => .pure (f value)

theorem Overlooks.discard (hA : Overlooks i A A') : Overlooks i (discard A) (discard A') := hA.map

theorem Overlooks.ite {p : Prop} [Decidable p] {B B' : Parse α} (hA : p → Overlooks i A A')
    (hB : ¬ p → Overlooks i B B') : Overlooks i (if p then A else B) (if p then A' else B') := by
  by_cases hp : p
  · rw [if_pos hp, if_pos hp]
    exact hA hp
  · rw [if_neg hp, if_neg hp]
    exact hB hp

/-- An action that looks at the lexemes that are left. -/
theorem Overlooks.here {f f' : Cursor → Parse α}
    (h : ∀ c c', i.Views c c' → Overlooks i (f c) (f' c')) : Overlooks i (cursor >>= f) (cursor >>= f') :=
  ⟨fun c c' hc => (h c c' (.inl hc)).kept c c' hc, fun c hc => (h c c (.inr rfl)).passes c hc⟩

theorem Overlooks.kind {f f' : TokenKind → Parse α} (h : ∀ kind, Overlooks i (f kind) (f' kind)) :
    Overlooks i (Parse.kind >>= f) (Parse.kind >>= f') :=
  show Overlooks i (cursor >>= fun here => f here.kind) (cursor >>= fun here => f' here.kind) from
    .here fun c c' hc => by
      rw [hc.kind]
      exact h _

theorem Overlooks.isAt {kind : TokenKind} {f f' : Bool → Parse α}
    (h : ∀ found, Overlooks i (f found) (f' found)) :
    Overlooks i (Parse.isAt kind >>= f) (Parse.isAt kind >>= f') :=
  show Overlooks i (Parse.kind >>= fun next => f (next == kind)) (Parse.kind >>= fun next => f' (next == kind))
    from .kind fun _ => h _

/-- An action that is left out unless a condition holds. -/
theorem Overlooks.when {p : Prop} [Decidable p] {A A' : Parse Unit} {f f' : Unit → Parse β}
    (hA : p → Overlooks i A A') (hf : Overlooks i (f ()) (f' ())) :
    Overlooks i (if p then A >>= f else f ()) (if p then A' >>= f' else f' ()) :=
  .ite (fun hp => (hA hp).bind fun _ => hf) fun _ => hf

theorem Overlooks.unless {p : Prop} [Decidable p] {A A' : Parse Unit} {f f' : Unit → Parse β}
    (hA : ¬ p → Overlooks i A A') (hf : Overlooks i (f ()) (f' ())) :
    Overlooks i (if p then f () else A >>= f) (if p then f' () else A' >>= f') :=
  .ite (fun _ => hf) fun hp => (hA hp).bind fun _ => hf

/-- An action whose failure is a value. -/
theorem Overlooks.outcome (hA : Overlooks i A A') : Overlooks i (Parse.outcome A) (Parse.outcome A') := by
  refine ⟨fun c c' hc => ?_, fun c hc => ?_⟩
  · have hrun := hA.kept c c' hc
    unfold Parse.outcome
    generalize A c = result at hrun
    generalize A' c' = result' at hrun
    cases hrun with
    | ok hd => exact .ok hd
    | error hd => exact .ok hd
    | passed hpassed => cases result <;> exact .passed hpassed
  · have hrun := hA.passes c hc
    unfold Parse.outcome
    cases hresult : A c <;> rw [hresult] at hrun <;> exact hrun

/-- An action that ends before the mark does so on both sides. -/
theorem Overlooks.ok {c c' d : Cursor} {value : α} (hA : Overlooks i A A') (hc : i.Parallel c c')
    (h : A c = .ok value d) (hd : i.size ≤ d.size) : ∃ d', A' c' = .ok value d' ∧ i.Parallel d d' := by
  have hrun := hA.kept c c' hc
  rw [h] at hrun
  generalize A' c' = result' at hrun ⊢
  cases hrun with
  | ok hd' => exact ⟨_, rfl, hd'⟩
  | passed hpassed => exact absurd hpassed (Nat.not_lt.2 hd)

theorem Overlooks.not_passed {c d : Cursor} {value : α} (hA : Overlooks i A A') (h : A c = .ok value d)
    (hd : i.size ≤ d.size) : i.size ≤ c.size := by
  refine Nat.le_of_not_lt fun hlt => ?_
  have hpassed := hA.passes c hlt
  rw [h] at hpassed
  exact absurd hpassed (Nat.not_lt.2 hd)

end Combined

section Elementary

variable {α β : Type} {i : Insertion}

theorem unexpected_overlooks : Overlooks i (unexpected : Parse α) unexpected := by
  refine ⟨fun c c' hc => ?_, fun _ hc => hc⟩
  show i.Kept (.error c.unexpected c) (.error c'.unexpected c')
  rw [Insertion.Views.unexpected (.inl hc)]
  exact .error hc

theorem skip_overlooks (n : Nat) : Overlooks i (skip n) (skip n) := by
  refine ⟨fun c c' hc => ?_, fun c hc => ?_⟩
  · rcases hc.skip n with hd | hpassed
    · exact .ok hd
    · exact .passed hpassed
  · show (c.skip n).size < i.size
    rw [Cursor.size_eq, Cursor.rest_skip, List.length_drop, ← Cursor.size_eq]
    omega

theorem next_overlooks : Overlooks i next next := skip_overlooks 1

theorem lookedFor_overlooks (kinds : List TokenKind) :
    Overlooks i (modify fun c => c.expect kinds : Parse Unit) (modify fun c => c.expect kinds) :=
  ⟨fun _ _ hc => .ok (hc.expect kinds), fun _ hc => hc⟩

theorem report_overlooks (error : ParseError) : Overlooks i (report error) (report error) :=
  ⟨fun _ _ hc => .ok (hc.report error), fun _ hc => hc⟩

theorem eat_overlooks (kind : TokenKind) : Overlooks i (eat kind) (eat kind) := by
  unfold eat
  refine .isAt fun found => .ite (fun _ => ?_) fun _ => ?_
  · exact next_overlooks.bind fun _ => .pure true
  · exact (lookedFor_overlooks [kind]).bind fun _ => .pure false

theorem expect_overlooks (kind : TokenKind) : Overlooks i (expect kind) (expect kind) := by
  unfold expect
  exact (eat_overlooks kind).bind fun _ => .ite (fun _ => .pure ()) fun _ => unexpected_overlooks

/-- What follows a lexeme that may be missing. -/
theorem Overlooks.eat {kind : TokenKind} {f f' : Bool → Parse β}
    (h : ∀ found, Overlooks i (f found) (f' found)) :
    Overlooks i (Parse.eat kind >>= f) (Parse.eat kind >>= f') :=
  (eat_overlooks kind).bind h

/-- A value after a lexeme that may be missing. -/
theorem Overlooks.optional {A A' : Parse α} (hA : Overlooks i A A') (kind : TokenKind)
    {f f' : Option α → Parse β} (hf : ∀ value, Overlooks i (f value) (f' value)) : Overlooks i
      (Parse.eat kind >>= fun found => if found then some <$> A >>= f else Pure.pure none >>= f)
      (Parse.eat kind >>= fun found => if found then some <$> A' >>= f' else Pure.pure none >>= f') :=
  .eat fun _ => .ite (fun _ => hA.map.bind hf) fun _ => Overlooks.bind (.pure none) hf

theorem spanFrom_overlooks {start start' : Nat} (h : start = start') :
    Overlooks i (spanFrom start) (spanFrom start') := by
  refine .here fun c c' hc => ?_
  rw [h, hc.lastEnd]
  exact .pure _

theorem placed_overlooks (f : Text.Span → α) {start start' : Nat} (h : start = start') :
    Overlooks i (do return f (← spanFrom start)) (do return f (← spanFrom start')) :=
  (spanFrom_overlooks h).bind fun _ => .pure _

end Elementary

section Repeated

variable {ι σ α : Type} {i : Insertion}

section Recursion

variable {body body' : (ι → Parse α) → ι → Parse α}

/-- The calls that a body makes overlook an insertion if the body does where the calls do. Their limits
differ by what is put in. -/
theorem below_overlooks
    (hbody : ∀ call call' : ι → Parse α, (∀ j, Overlooks i (call j) (call' j)) →
      ∀ j, Overlooks i (body call j) (body' call' j)) (n : Nat) :
    ∀ j, Overlooks i (below n (fix body j)) (below (n + i.inserted.length) (fix body' j)) := by
  induction n using Nat.strongRecOn with
  | ind n ih =>
    refine fun j => ⟨fun c c' hc => ?_, fun c hc => ?_⟩
    · have hsize := hc.size
      by_cases hlt : c.size < n
      · rw [below_of_lt hlt, below_of_lt (by omega), fix_eq, fix_eq, hsize]
        exact (hbody _ _ (ih c.size hlt) j).kept c c' hc
      · rw [below_of_not_lt hlt, below_of_not_lt (by omega)]
        exact unexpected_overlooks.kept c c' hc
    · by_cases hlt : c.size < n
      · rw [below_of_lt hlt, fix_eq]
        exact (hbody _ _ (ih c.size hlt) j).passes c hc
      · rw [below_of_not_lt hlt]
        exact hc

theorem fix_overlooks
    (hbody : ∀ call call' : ι → Parse α, (∀ j, Overlooks i (call j) (call' j)) →
      ∀ j, Overlooks i (body call j) (body' call' j)) (j : ι) :
    Overlooks i (fix body j) (fix body' j) := by
  refine ⟨fun c c' hc => ?_, fun c hc => ?_⟩
  · rw [fix_eq, fix_eq, hc.size]
    exact (hbody _ _ (below_overlooks hbody c.size) j).kept c c' hc
  · rw [fix_eq]
    exact (hbody _ _ (below_overlooks hbody c.size) j).passes c hc

end Recursion

theorem repeatFrom_overlooks {step step' : σ → Parse (σ ⊕ α)}
    (hstep : ∀ state, Overlooks i (step state) (step' state)) (state : σ) :
    Overlooks i (repeatFrom step state) (repeatFrom step' state) := by
  unfold repeatFrom
  refine fix_overlooks (fun call call' hcall state => (hstep state).bind fun result => ?_) state
  cases result with
  | inl state => exact hcall state
  | inr value => exact .pure value

/-- Steps of a repetition lead from one state and cursor to another. -/
inductive Steps (step : σ → Parse (σ ⊕ α)) : σ → Cursor → σ → Cursor → Prop
  | done (state : σ) (c : Cursor) : Steps step state c state c
  | next {state next last : σ} {c m d : Cursor} :
      step state c = .ok (.inl next) m → Steps step next m last d → Steps step state c last d

/-- Such steps begin the repetition. -/
theorem Steps.run {step : σ → Parse (σ ⊕ α)} (hstep : Advances step) {state last : σ} {c d : Cursor}
    (h : Steps step state c last d) : repeatFrom step state c = repeatFrom step last d := by
  induction h with
  | done => rfl
  | next hrun _ ih =>
    rw [hstep.repeats, bind_of_ok hrun]
    exact ih

theorem Steps.not_passed {step : σ → Parse (σ ⊕ α)} (hstep : ∀ state, Overlooks i (step state) (step state))
    {state last : σ} {c d : Cursor} (h : Steps step state c last d) (hd : i.size ≤ d.size) :
    i.size ≤ c.size := by
  induction h with
  | done => exact hd
  | next hrun _ ih => exact (hstep _).not_passed hrun (ih hd)

/-- Steps that end before the mark are taken on both sides. -/
theorem Steps.overlooked {step : σ → Parse (σ ⊕ α)} (hstep : ∀ state, Overlooks i (step state) (step state))
    {state last : σ} {c c' d : Cursor} (h : Steps step state c last d) (hc : i.Parallel c c')
    (hd : i.size ≤ d.size) : ∃ d', Steps step state c' last d' ∧ i.Parallel d d' := by
  induction h generalizing c' with
  | done => exact ⟨c', .done _ _, hc⟩
  | next hrun hsteps ih =>
    obtain ⟨m', hrun', hm⟩ := (hstep _).ok hc hrun (hsteps.not_passed hstep hd)
    obtain ⟨d', hsteps', hd'⟩ := ih hm hd
    exact ⟨d', .next hrun' hsteps', hd'⟩

variable {item item' : Parse α} (hitem : Overlooks i item item')
include hitem

theorem separated_overlooks : Overlooks i (separated item) (separated item') := by
  unfold separated
  exact repeatFrom_overlooks (fun items => hitem.bind fun value => .eat fun found => .pure _) []

theorem enclosed_overlooks (opening closing : TokenKind) :
    Overlooks i (enclosed opening item closing) (enclosed opening item' closing) := by
  unfold enclosed
  refine (expect_overlooks opening).bind fun _ => repeatFrom_overlooks (fun items => ?_) []
  refine .eat fun _ => .ite (fun _ => .pure _) fun _ => hitem.bind fun value => ?_
  refine .eat fun _ => .ite (fun _ => .pure _) fun _ => ?_
  exact (expect_overlooks .comma).bind fun _ => .pure _

end Repeated

section Names

variable {i : Insertion}

theorem ident_missing_overlooks : Overlooks i ident.missing ident.missing :=
  (lookedFor_overlooks [.identifier]).bind fun _ => unexpected_overlooks

theorem ident_overlooks : Overlooks i ident ident := by
  unfold ident
  refine .here fun c c' hc => ?_
  rw [hc.first]
  cases c'.peek? 0 with
  | none => exact ident_missing_overlooks
  | some lexeme =>
    exact .ite (fun _ => next_overlooks.bind fun _ => .pure _) fun _ => ident_missing_overlooks

theorem propertyName_overlooks : Overlooks i propertyName propertyName := by
  unfold propertyName
  refine .here fun c c' hc => ?_
  rw [hc.first]
  cases c'.peek? 0 with
  | none => exact ident_overlooks
  | some lexeme =>
    dsimp only
    split
    · exact next_overlooks.bind fun _ => .pure _
    · exact next_overlooks.bind fun _ => .pure _
    · exact ident_overlooks

theorem namePart_overlooks (parts : List Ident) : Overlooks i (namePart parts) (namePart parts) :=
  .eat fun _ => .ite (fun _ => ident_overlooks.bind fun _ => .pure _) fun _ => .pure _

theorem entityName_overlooks : Overlooks i entityName entityName := by
  rw [entityName_eq]
  refine .here fun c c' hc => ident_overlooks.bind fun first => ?_
  exact (repeatFrom_overlooks namePart_overlooks []).bind fun rest => placed_overlooks _ hc.start

end Names

section Groups

variable {i : Insertion}

theorem skipGroup_eq (opening : TokenKind) : skipGroup opening = expect opening >>= fun _ => cursor >>= fun c =>
    (groupLength? 1 c.rest).elim (skip c.rest.length >>= fun _ => unexpected) skip := by
  unfold skipGroup
  refine congrArg (expect opening >>= ·) (funext fun _ => congrArg (cursor >>= ·) (funext fun c => ?_))
  dsimp only
  cases groupLength? 1 c.rest <;> rfl

theorem skipGroup_overlooks (opening : TokenKind) :
    Overlooks i (skipGroup opening) (skipGroup opening) := by
  rw [skipGroup_eq]
  refine (expect_overlooks opening).bind fun _ => ⟨fun c c' hc => ?_, fun c hc => ?_⟩
  · obtain ⟨ahead, hrest, hrest'⟩ := hc.rest
    have hgroup := i.sameGroup 1 ahead
    rw [← hrest, ← hrest'] at hgroup
    show i.Kept ((groupLength? 1 c.rest).elim (skip c.rest.length >>= fun _ => unexpected) skip c)
      ((groupLength? 1 c'.rest).elim (skip c'.rest.length >>= fun _ => unexpected) skip c')
    generalize groupLength? 1 c.rest = n at hgroup ⊢
    generalize groupLength? 1 c'.rest = n' at hgroup ⊢
    cases hgroup with
    | within hle => exact (skip_overlooks _).kept c c' hc
    | beyond hlt => exact .passed (Insertion.skip_passes hrest hlt)
    | unclosed =>
      refine .passed (Insertion.skip_passes hrest ?_)
      rw [hrest, List.length_append]
      exact Nat.lt_add_of_pos_right (Nat.succ_pos _)
  · have hskip : ∀ n, (c.skip n).size < i.size := fun n => (skip_overlooks n).passes c hc
    show (endOf ((groupLength? 1 c.rest).elim (skip c.rest.length >>= fun _ => unexpected) skip c)).size
      < i.size
    cases groupLength? 1 c.rest with
    | some n => exact hskip n
    | none => exact hskip _

/-- Up to a lexeme that closes nothing, a balanced run ends at one place whatever is behind it, or it goes on
over that lexeme. -/
theorem balancedLength_before {lexeme : Lexeme} (h : lexeme.kind.isClose = false) :
    ∀ {depth : Nat} {ahead : List Lexeme},
      (∃ n ≤ ahead.length, ∀ ys, balancedLength depth (ahead ++ lexeme :: ys) = n)
        ∨ ∀ ys, ahead.length < balancedLength depth (ahead ++ lexeme :: ys)
  | depth, [] => .inr fun ys => balancedLength_pos depth ys h
  | depth, first :: ahead => by
    simp only [List.cons_append, List.length_cons]
    rcases balancedLength_cases depth first with ⟨-, -, hrun⟩ | ⟨-, hrun⟩ | ⟨depth', -, hrun⟩
    · exact .inl ⟨0, Nat.zero_le _, fun ys => hrun _⟩
    · exact .inl ⟨1, Nat.le_add_left _ _, fun ys => hrun _⟩
    · rcases @balancedLength_before lexeme h depth' ahead with ⟨n, hn, hsame⟩ | hover
      · exact .inl ⟨n + 1, Nat.succ_le_succ hn, fun ys => by rw [hrun, hsame]⟩
      · refine .inr fun ys => ?_
        rw [hrun]
        exact Nat.succ_lt_succ (hover ys)

/-- A balanced run ends before the mark and at the same place, or it takes the mark. -/
theorem Insertion.balancedLength_cases (i : Insertion) (ahead : List Lexeme) :
    balancedLength 0 (ahead ++ i.left) = balancedLength 0 (ahead ++ i.filled)
      ∨ ahead.length < balancedLength 0 (ahead ++ i.left) := by
  have hclose : i.mark.kind.isClose = false := by
    rcases i.marks with ⟨h, -⟩ | ⟨h, -⟩ <;> rw [h] <;> rfl
  rcases @balancedLength_before i.mark hclose 0 ahead with ⟨n, -, hsame⟩ | hover
  · exact .inl ((hsame _).trans (hsame _).symm)
  · exact .inr (hover _)

theorem skipBalanced_overlooks : Overlooks i skipBalanced skipBalanced := by
  refine ⟨fun c c' hc => ?_, fun c hc => (skip_overlooks _).passes c hc⟩
  obtain ⟨ahead, hrest, hrest'⟩ := hc.rest
  show i.Kept (.ok () (c.skip (balancedLength 0 c.rest))) (.ok () (c'.skip (balancedLength 0 c'.rest)))
  rw [hrest, hrest']
  rcases i.balancedLength_cases ahead with hsame | hover
  · rw [hsame]
    exact (skip_overlooks _).kept c c' hc
  · exact .passed (Insertion.skip_passes hrest hover)

/-- What is skipped after an error, given the length of the balanced run. -/
def recoverBy (closing : TokenKind) (n : Nat) : Parse Unit := do
  skip n
  if n = 0 then
    let kind ← Parse.kind
    unless kind == closing || kind == .endOfFile do next

theorem recover_eq_recoverBy (closing : TokenKind) (c : Cursor) :
    recover closing c = recoverBy closing (balancedLength 0 c.rest) c := rfl

theorem recoverBy_overlooks (closing : TokenKind) (n : Nat) :
    Overlooks i (recoverBy closing n) (recoverBy closing n) := by
  unfold recoverBy
  refine (skip_overlooks n).bind fun _ => .ite (fun _ => .kind fun kind => ?_) fun _ => .pure ()
  exact .ite (fun _ => .pure ()) fun _ => next_overlooks

theorem recover_overlooks (closing : TokenKind) : Overlooks i (recover closing) (recover closing) := by
  refine ⟨fun c c' hc => ?_, fun c hc => (recoverBy_overlooks closing _).passes c hc⟩
  obtain ⟨ahead, hrest, hrest'⟩ := hc.rest
  rw [recover_eq_recoverBy, recover_eq_recoverBy, hrest, hrest']
  rcases i.balancedLength_cases ahead with hsame | hover
  · rw [hsame]
    exact (recoverBy_overlooks closing _).kept c c' hc
  · have hne : balancedLength 0 (ahead ++ i.left) ≠ 0 :=
      fun h => absurd (h ▸ hover) (Nat.not_lt_zero _)
    have hrun : recoverBy closing (balancedLength 0 (ahead ++ i.left)) c
        = .ok () (c.skip (balancedLength 0 (ahead ++ i.left))) := by
      unfold recoverBy
      rw [if_neg hne]
      rfl
    refine .passed ?_
    rw [hrun, endOf]
    exact Insertion.skip_passes hrest hover

end Groups

section Constants

variable {i : Insertion} {c c' : Cursor} {nested nested' : Parse ConstExpr}

/-- The lexemes of an operator stand before the mark. -/
theorem Insertion.Views.binaryOp? (h : i.Views c c') : c.binaryOp? = c'.binaryOp? := by
  have hkind := h.kind
  have hone : c.kind.isMark = false → c.gluedKind? 1 = c'.gluedKind? 1 := fun hfirst => by
    rw [Cursor.gluedKind?, h.second hfirst, Cursor.gluedKind?]
  unfold Cursor.binaryOp?
  rw [← hkind]
  split
  case h_9 hless => rw [hone (by rw [hless]; rfl)]
  case h_10 hgreater =>
    have hfirst : c.kind.isMark = false := by
      rw [hgreater]
      rfl
    rw [hone hfirst]
    by_cases hglued : c'.gluedKind? 1 = some .greater
    · rw [if_pos hglued, if_pos hglued]
      have hsecond : (c.kindAt 1).isMark = false := by
        rw [← hone hfirst, Cursor.gluedKind?, Option.bind_eq_some_iff] at hglued
        obtain ⟨lexeme, hpeek, hlexeme⟩ := hglued
        rw [Cursor.kindAt, hpeek]
        split at hlexeme
        · rw [Option.map_some, Option.getD_some, Option.some.inj hlexeme]
          rfl
        · cases hlexeme
      rw [Cursor.gluedKind?, h.third hfirst hsecond, Cursor.gluedKind?]
    · rw [if_neg hglued, if_neg hglued]
  all_goals rfl

theorem unaryOps_overlooks : Overlooks i unaryOps unaryOps := by
  unfold unaryOps
  refine repeatFrom_overlooks (fun ops => .kind fun kind => ?_) []
  split
  · exact next_overlooks.bind fun _ => .pure _
  · exact next_overlooks.bind fun _ => .pure _
  · exact next_overlooks.bind fun _ => .pure _
  · exact .pure _

theorem constPrimary_overlooks (hnested : Overlooks i nested nested') :
    Overlooks i (constPrimary nested) (constPrimary nested') := by
  unfold constPrimary
  refine .kind fun kind => ?_
  split
  · refine .here fun c c' hc => ?_
    rw [hc.text]
    split
    · exact next_overlooks.bind fun _ => .pure _
    · exact unexpected_overlooks
  · exact propertyName_overlooks.bind fun _ => .pure _
  · refine next_overlooks.bind fun _ => hnested.bind fun inner => ?_
    exact (expect_overlooks .closeParen).bind fun _ => .pure inner
  · exact entityName_overlooks.bind fun _ => .pure _

theorem constOperand_overlooks (hnested : Overlooks i nested nested') :
    Overlooks i (constOperand nested) (constOperand nested') := by
  unfold constOperand
  exact unaryOps_overlooks.bind fun ops => (constPrimary_overlooks hnested).bind fun _ => .pure _

theorem constExpr_overlooks : Overlooks i constExpr constExpr := by
  unfold constExpr constExprAbove
  refine fix_overlooks (fun call call' hcall level => ?_) 0
  refine (constOperand_overlooks (hcall 0)).bind fun left => repeatFrom_overlooks (fun left => ?_) left
  refine .here fun c c' hc => ?_
  rw [hc.binaryOp?]
  split
  · refine .ite (fun _ => .pure _) fun _ => (skip_overlooks _).bind fun _ => ?_
    exact (hcall _).bind fun _ => .pure _
  · exact .pure _

end Constants

section Members

variable {i : Insertion} {c c' : Cursor} {type type' : Parse TypeExpr}

theorem Insertion.Views.isVarianceWord (h : i.Views c c') :
    Parse.isVarianceWord c = Parse.isVarianceWord c' := by
  rw [Bool.eq_iff_iff, isVarianceWord_iff, isVarianceWord_iff, h.kind, h.text]
  refine and_congr_right fun hword => ?_
  rcases h.second_or with hsecond | ⟨hmark, htext⟩
  · rw [Cursor.kindAt, hsecond, Cursor.kindAt]
  · rw [h.text] at htext
    have hkind : c'.kind ≠ .keyword .constKw := by
      rintro hconst
      rw [h.kind, hconst] at hmark
      cases hmark
    rcases htext with htext | htext <;> simp [htext, hkind] at hword

theorem paramName_overlooks : Overlooks i paramName paramName := by
  unfold paramName
  refine .kind fun kind => .ite (fun _ => .here fun c c' hc => ?_) fun _ => ident_overlooks
  exact (skipGroup_overlooks kind).bind fun _ => placed_overlooks _ hc.start

theorem varianceStep_overlooks : Overlooks i varianceStep varianceStep := by
  refine .here fun c c' hc => ?_
  rw [hc.isVarianceWord]
  exact .ite (fun _ => next_overlooks.bind fun _ => .pure _) fun _ => .pure _

variable (htype : Overlooks i type type')
include htype

theorem typeParam_overlooks : Overlooks i (typeParam type) (typeParam type') := by
  rw [typeParam_eq, typeParam_eq]
  refine (repeatFrom_overlooks (fun _ => varianceStep_overlooks) ()).bind fun _ => ?_
  exact ident_overlooks.bind fun name => htype.optional _ fun bound => htype.optional _ fun _ => .pure _

theorem typeParams_overlooks : Overlooks i (typeParams type) (typeParams type') := by
  unfold typeParams
  exact .isAt fun _ => .ite (fun _ => enclosed_overlooks (typeParam_overlooks htype) _ _) fun _ => .pure _

theorem typeArgs_overlooks : Overlooks i (typeArgs type) (typeArgs type') := by
  unfold typeArgs
  exact .isAt fun _ => .ite (fun _ => enclosed_overlooks htype _ _) fun _ => .pure _

theorem param_overlooks : Overlooks i (param type) (param type') := by
  unfold param
  simp only [isAt_bind, cursor_bind_cursor]
  refine .eat fun rest => .here fun c c' hc => ?_
  rw [hc.followed (show (TokenKind.keyword .readonlyKw).isMark = false from rfl) TokenKind.isName]
  refine .when (fun _ => next_overlooks) (paramName_overlooks.bind fun name => .eat fun optional => ?_)
  exact htype.optional _ fun type => .eat fun _ => .when (fun _ => constExpr_overlooks.discard) (.pure _)

theorem params_overlooks : Overlooks i (params type) (params type') :=
  enclosed_overlooks (param_overlooks htype) _ _

theorem returnType_overlooks : Overlooks i (returnType type) (returnType type') := by
  unfold returnType
  refine .here fun c c' hc => ?_
  have hpredicate : ((c.kind == .identifier || c.kind == .keyword .thisKw)
      && c.kindAt 1 == .identifier && c.textAt 1 == ['i', 's'])
    = ((c'.kind == .identifier || c'.kind == .keyword .thisKw)
      && c'.kindAt 1 == .identifier && c'.textAt 1 == ['i', 's']) := by
    rw [← hc.kind]
    cases hfirst : c.kind.isMark with
    | true => rcases TokenKind.of_isMark hfirst with h | h <;> rw [h] <;> rfl
    | false => rw [hc.kindAt_one hfirst, hc.textAt_one hfirst]
  simp only [hpredicate]
  refine .ite (fun _ => ?_) fun _ => htype
  refine ident_overlooks.bind fun param => next_overlooks.bind fun _ => htype.bind fun narrowed => ?_
  exact placed_overlooks _ hc.start

theorem signature_overlooks : Overlooks i (signature type) (signature type') := by
  unfold signature
  refine (typeParams_overlooks htype).bind fun typeParams => (params_overlooks htype).bind fun params => ?_
  exact (returnType_overlooks htype).optional _ fun _ => .pure _

theorem indexMember_overlooks : Overlooks i (indexMember type) (indexMember type') := by
  unfold indexMember
  refine (skipGroup_overlooks _).bind fun _ => .isAt fun _ => .isAt fun _ => .ite (fun _ => ?_) fun _ => ?_
  · exact (signature_overlooks htype).discard.bind fun _ => .pure _
  · refine .isAt fun _ => .isAt fun _ => .when (fun _ => next_overlooks) ?_
    exact (eat_overlooks _).discard.bind fun _ => .eat fun _ => .when (fun _ => htype.discard) (.pure _)

theorem namedMember_overlooks : Overlooks i (namedMember type) (namedMember type') := by
  unfold namedMember
  refine .here fun c c' hc => ?_
  have hreadonly := hc.followed (show (TokenKind.keyword .readonlyKw).isMark = false from rfl)
    fun kind => kind.isName || kind == .string || kind == .number
  simp only [hreadonly]
  refine .when (fun _ => next_overlooks) (propertyName_overlooks.bind fun name => .eat fun optional => ?_)
  refine .when (fun _ => (eat_overlooks _).discard) ?_
  refine .isAt fun _ => .isAt fun _ => .ite (fun _ => ?_) fun _ => ?_
  · exact (signature_overlooks htype).bind fun _ => .pure _
  · exact htype.optional _ fun _ => .pure _

theorem memberShape_overlooks : Overlooks i (memberShape type) (memberShape type') := by
  unfold memberShape
  refine .here fun c c' hc => ?_
  simp only [hc.kind]
  split
  · exact indexMember_overlooks htype
  · exact (signature_overlooks htype).bind fun _ => .pure _
  · exact (signature_overlooks htype).bind fun _ => .pure _
  · rename_i hnew
    rw [hc.kindAt_one (by rw [hc.kind, hnew]; rfl)]
    refine .ite (fun _ => next_overlooks.bind fun _ => ?_) fun _ => namedMember_overlooks htype
    exact (signature_overlooks htype).bind fun _ => .pure _
  · exact namedMember_overlooks htype

theorem member_overlooks : Overlooks i (member type) (member type') := by
  unfold member
  refine .here fun c c' hc => (memberShape_overlooks htype).bind fun shape => .eat fun _ => ?_
  refine .unless (fun _ => (eat_overlooks _).discard) ?_
  rw [hc.comments]
  exact placed_overlooks _ hc.start

/-- A step over a list of members, with what is skipped after an error. -/
theorem memberStep_overlooks (members : List Member) :
    Overlooks i (memberStep type members) (memberStep type' members) := by
  unfold memberStep
  refine .eat fun _ => .ite (fun _ => .pure _) fun _ => .isAt fun _ => .when (fun _ => unexpected_overlooks) ?_
  refine (member_overlooks htype).outcome.bind fun result => ?_
  cases result with
  | ok member => exact .pure _
  | error error =>
    exact (report_overlooks error).bind fun _ => (recover_overlooks _).bind fun _ => .pure _

theorem members_overlooks : Overlooks i (members type) (members type') := by
  rw [members_eq, members_eq]
  exact (expect_overlooks _).bind fun _ => repeatFrom_overlooks (memberStep_overlooks htype) []

end Members

section Types

variable {i : Insertion} {type type' suffixed suffixed' : Parse TypeExpr}

section Calls

variable (htype : Overlooks i type type')
include htype

theorem unlabeledElement_overlooks : Overlooks i (unlabeledElement type) (unlabeledElement type') :=
  htype.bind fun _ => (eat_overlooks _).discard.bind fun _ => .pure _

theorem tupleElement_overlooks : Overlooks i (tupleElement type) (tupleElement type') := by
  rw [tupleElement_eq, tupleElement_eq]
  refine (eat_overlooks _).discard.bind fun _ => .here fun c c' hc => ?_
  have hlabel : (c.kind.isName && (c.kindAt 1 == .colon || (c.kindAt 1 == .question && c.kindAt 2 == .colon)))
      = (c'.kind.isName && (c'.kindAt 1 == .colon || (c'.kindAt 1 == .question && c'.kindAt 2 == .colon))) := by
    rw [← hc.kind]
    cases hfirst : c.kind.isMark with
    | true => rcases TokenKind.of_isMark hfirst with h | h <;> rw [h] <;> rfl
    | false =>
      rw [← hc.kindAt_one hfirst]
      cases hsecond : (c.kindAt 1).isMark with
      | true => rcases TokenKind.of_isMark hsecond with h | h <;> rw [h] <;> rfl
      | false => rw [Cursor.kindAt, Cursor.kindAt, Cursor.kindAt, hc.third hfirst hsecond]
  simp only [hlabel]
  refine .ite (fun _ => next_overlooks.bind fun _ => ?_) fun _ => unlabeledElement_overlooks htype
  refine (eat_overlooks _).discard.bind fun _ => (expect_overlooks _).bind fun _ => ?_
  exact unlabeledElement_overlooks htype

theorem functionType_overlooks (isConstructor : Bool) :
    Overlooks i (functionType type isConstructor) (functionType type' isConstructor) := by
  unfold functionType
  refine .here fun c c' hc => .when (fun _ => expect_overlooks _) ?_
  refine (typeParams_overlooks htype).bind fun typeParams => (params_overlooks htype).bind fun params => ?_
  refine (expect_overlooks _).bind fun _ => (returnType_overlooks htype).bind fun returns => ?_
  exact placed_overlooks _ hc.start

theorem namedType_overlooks : Overlooks i (namedType type) (namedType type') := by
  have hreference : Overlooks i (namedType.reference type) (namedType.reference type') := by
    unfold namedType.reference
    exact entityName_overlooks.bind fun name => (typeArgs_overlooks htype).bind fun _ => .pure _
  unfold namedType
  refine .here fun c c' hc => ?_
  simp only [hc.text]
  refine .ite (fun _ => next_overlooks.bind fun _ => .pure _) fun _ => ?_
  split
  · rename_i hname
    rcases hc.second_or with hsecond | ⟨-, htext⟩
    · rw [Cursor.kindAt, hsecond, Cursor.kindAt]
      exact .ite (fun _ => hreference) fun _ => next_overlooks.bind fun _ => .pure _
    · rw [← hc.text] at hname
      rcases htext with htext | htext <;> rw [htext] at hname <;> cases hname
  · exact hreference

end Calls

variable (htype : Overlooks i type type') (hsuffixed : Overlooks i suffixed suffixed')
include htype hsuffixed

theorem primaryShape_overlooks (c : Cursor) :
    Overlooks i (primaryShape type suffixed c) (primaryShape type' suffixed' c) := by
  have hmissing : Overlooks i primaryType.missing primaryType.missing :=
    (lookedFor_overlooks _).bind fun _ => unexpected_overlooks
  have hnext : ∀ shape, Overlooks i (do next; return shape : Parse TypeShape) (do next; return shape) :=
    fun _ => next_overlooks.bind fun _ => .pure _
  unfold primaryShape
  split
  · refine next_overlooks.bind fun _ => htype.bind fun inner => ?_
    exact (expect_overlooks _).bind fun _ => .pure _
  · exact (members_overlooks htype).map
  · exact (enclosed_overlooks (tupleElement_overlooks htype) _ _).map
  · exact hnext _
  · exact hnext _
  · exact hnext _
  · exact .ite (fun _ => (skip_overlooks 2).bind fun _ => .pure _) fun _ => hmissing
  · exact hnext _
  · exact next_overlooks.bind fun _ => entityName_overlooks.map
  · exact next_overlooks.bind fun _ => hsuffixed.map
  · exact next_overlooks.bind fun _ => hsuffixed.map
  · exact namedType_overlooks htype
  · exact hmissing

theorem primaryType_overlooks :
    Overlooks i (primaryType type suffixed) (primaryType type' suffixed') := by
  rw [primaryType_eq, primaryType_eq]
  refine .here fun c c' hc => ?_
  rw [← primaryShape_congr hc.kind fun hminus => hc.kindAt_one (by rw [hc.kind, hminus]; rfl)]
  exact (primaryShape_overlooks htype hsuffixed c).bind fun shape => placed_overlooks _ hc.start

omit hsuffixed in
theorem suffixStep_overlooks {start start' : Nat} (hstart : start = start') (object : TypeExpr) :
    Overlooks i (suffixStep type start object) (suffixStep type' start' object) := by
  refine .here fun c c' hc => ?_
  rw [hc.kind, hc.startsLine]
  have hplaced := fun shape =>
    placed_overlooks (i := i) (fun span => Sum.inl (β := TypeExpr) (TypeExpr.mk shape span)) hstart
  refine .ite (fun _ => next_overlooks.bind fun _ => .eat fun _ => .ite (fun _ => ?_) fun _ => ?_)
    fun _ => .pure _
  · exact hplaced _
  · exact htype.bind fun index => (expect_overlooks _).bind fun _ => hplaced _

theorem suffixedType_overlooks :
    Overlooks i (suffixedType type suffixed) (suffixedType type' suffixed') := by
  rw [suffixedType_eq, suffixedType_eq]
  refine .here fun c c' hc => (primaryType_overlooks htype hsuffixed).bind fun primary => ?_
  exact repeatFrom_overlooks (suffixStep_overlooks htype hc.start) primary

omit htype hsuffixed in
theorem operandStep_overlooks (operator : TokenKind) {part part' : Parse TypeExpr} (hpart : Overlooks i part part')
    (parts : List TypeExpr) : Overlooks i (operandStep operator part parts) (operandStep operator part' parts) :=
  .eat fun _ => .ite (fun _ => hpart.bind fun _ => .pure _) fun _ => .pure _

omit htype hsuffixed in
theorem operands_overlooks (operator : TokenKind) (combine : List TypeExpr → TypeShape)
    {part part' : Parse TypeExpr} (hpart : Overlooks i part part') :
    Overlooks i (operands operator combine part) (operands operator combine part') := by
  rw [operands_eq, operands_eq]
  refine .here fun c c' hc => .eat fun isLed => hpart.bind fun first => .isAt fun _ => ?_
  refine .ite (fun _ => .pure _) fun _ => ?_
  refine (repeatFrom_overlooks (operandStep_overlooks operator hpart) [first]).bind fun _ => ?_
  exact placed_overlooks _ hc.start

omit hsuffixed in
theorem functionOr_overlooks {other other' : Parse TypeExpr} (hother : Overlooks i other other') :
    Overlooks i (functionOr type other) (functionOr type' other') := by
  unfold functionOr
  refine .here fun c c' hc => ?_
  rw [hc.startsFunction]
  exact .ite (fun _ => functionType_overlooks htype false) fun _ => hother

theorem wholeType_overlooks : Overlooks i (wholeType type suffixed) (wholeType type' suffixed') := by
  have hintersection := operands_overlooks .ampersand .intersection
    (functionOr_overlooks htype (suffixedType_overlooks htype hsuffixed))
  unfold wholeType
  refine .here fun c c' hc => ?_
  simp only [hc.startsFunction, hc.kind]
  refine .ite (fun _ => functionType_overlooks htype false) fun _ => .ite (fun _ => ?_) fun _ => ?_
  · exact functionType_overlooks htype true
  · exact operands_overlooks .bar .union (functionOr_overlooks htype hintersection)

end Types

section Whole

variable {i : Insertion}

theorem typeAt_overlooks (level : TypeLevel) : Overlooks i (typeAt level) (typeAt level) := by
  unfold typeAt
  refine fix_overlooks (fun call call' hcall level => ?_) level
  cases level with
  | whole => exact wholeType_overlooks (hcall .whole) (hcall .suffixed)
  | suffixed => exact suffixedType_overlooks (hcall .whole) (hcall .suffixed)

theorem typeExpr_overlooks : Overlooks i typeExpr typeExpr := typeAt_overlooks .whole

end Whole

end NodeFactory
