import NodeFactory.Proofs.SearchOutcome

/-!
# Answers that do not depend on what is remembered

A search gives an answer if it comes to it whatever right answers are remembered already, and leaves
right answers behind (`Gives`). Of such a search one may speak as of a function: what it finds has a
property, and what is put together from searches finds what follows from what they find
(`Finds.bind`).

An inquiry that is carried out from a memo at rest gives what it finds on an empty memo
(`gives_run`).
-/

namespace NodeFactory

variable {ε σ α β : Type}

/-- What a run comes to, whatever it leaves. -/
def outcome : EStateM.Result ε σ α → Except ε α
  | .ok value _ => .ok value
  | .error failure _ => .error failure

/-- The state that a run leaves. -/
def leftBy : EStateM.Result ε σ α → σ
  | .ok _ state => state
  | .error _ state => state

/-- From every state at rest, the search comes to the answer and leaves a state at rest. -/
def Gives (AtRest : σ → Prop) (search : EStateM ε σ α) (answer : Except ε α) : Prop :=
  ∀ state, AtRest state → AtRest (leftBy (search state)) ∧ outcome (search state) = answer

/-- The search gives an answer, which is a value of one kind or a failure of another. -/
def Finds (AtRest : σ → Prop) (search : EStateM ε σ α) (value : α → Prop) (failure : ε → Prop) :
    Prop :=
  ∃ answer, Gives AtRest search answer ∧
    match answer with
    | .ok found => value found
    | .error found => failure found

section Combined

variable {AtRest : σ → Prop} {search : EStateM ε σ α} {next : α → EStateM ε σ β}
  {value : α → Prop} {nextValue : β → Prop} {failure nextFailure : ε → Prop}

theorem gives_pure (found : α) : Gives AtRest (pure found : EStateM ε σ α) (.ok found) :=
  fun _ h => ⟨h, rfl⟩

theorem gives_bind_ok {found : α} {answer : Except ε β} (h : Gives AtRest search (.ok found))
    (hnext : Gives AtRest (next found) answer) : Gives AtRest (search >>= next) answer := by
  intro state hstate
  obtain ⟨hrest, hanswer⟩ := h state hstate
  change AtRest (leftBy (EStateM.bind search next state))
    ∧ outcome (EStateM.bind search next state) = answer
  unfold EStateM.bind
  cases hs : search state with
  | ok found' state' =>
    rw [hs] at hrest hanswer
    obtain rfl := Except.ok.inj hanswer
    exact hnext state' hrest
  | error _ _ =>
    rw [hs] at hanswer
    cases hanswer

theorem gives_bind_error {found : ε} (h : Gives AtRest search (.error found)) :
    Gives AtRest (search >>= next) (.error found) := by
  intro state hstate
  obtain ⟨hrest, hanswer⟩ := h state hstate
  change AtRest (leftBy (EStateM.bind search next state))
    ∧ outcome (EStateM.bind search next state) = .error found
  unfold EStateM.bind
  cases hs : search state with
  | ok _ _ =>
    rw [hs] at hanswer
    cases hanswer
  | error found' state' =>
    rw [hs] at hrest hanswer
    obtain rfl := Except.error.inj hanswer
    exact ⟨hrest, rfl⟩

theorem Finds.pure {found : α} (h : value found) :
    Finds AtRest (pure found : EStateM ε σ α) value failure :=
  ⟨_, gives_pure found, h⟩

theorem Finds.bind (h : Finds AtRest search value failure)
    (hnext : ∀ found, value found → Finds AtRest (next found) nextValue nextFailure)
    (hfailure : ∀ found, failure found → nextFailure found) :
    Finds AtRest (search >>= next) nextValue nextFailure := by
  obtain ⟨answer, hgives, hanswer⟩ := h
  cases answer with
  | ok found =>
    obtain ⟨answer', hgives', hanswer'⟩ := hnext found hanswer
    exact ⟨answer', gives_bind_ok hgives hgives', hanswer'⟩
  | error found => exact ⟨_, gives_bind_error hgives, hfailure found hanswer⟩

theorem Finds.mapM {γ : Type} {search : γ → EStateM ε σ β} {nextValue : γ → β → Prop}
    (h : ∀ a, Finds AtRest (search a) (nextValue a) failure) : ∀ list : List γ,
      Finds AtRest (list.mapM search) (List.Forall₂ nextValue list) failure
  | [] => by
    rw [List.mapM_nil]
    exact .pure .nil
  | a :: list => by
    rw [List.mapM_cons]
    refine (h a).bind (fun found hfound => ?_) fun _ h => h
    refine (Finds.mapM h list).bind (fun others hothers => .pure ?_) fun _ h => h
    exact .cons hfound hothers

theorem Finds.mono {value' : α → Prop} {failure' : ε → Prop}
    (h : Finds AtRest search value failure) (hvalue : ∀ found, value found → value' found)
    (hfailure : ∀ found, failure found → failure' found) :
    Finds AtRest search value' failure' := by
  obtain ⟨answer, hgives, hanswer⟩ := h
  cases answer with
  | ok found => exact ⟨_, hgives, hvalue found hanswer⟩
  | error found => exact ⟨_, hgives, hfailure found hanswer⟩

/-- From a state at rest, a search comes to what it finds. -/
theorem Finds.outcome (h : Finds AtRest search value failure) {state : σ} (hstate : AtRest state) :
    match outcome (search state) with
    | .ok found => value found
    | .error found => failure found := by
  obtain ⟨answer, hgives, hanswer⟩ := h
  rw [(hgives state hstate).2]
  exact hanswer

end Combined

namespace Memo

variable {κ : Type}

/-- Nothing is being asked, and what is remembered is right. -/
structure AtRest [BEq κ] (rule : κ → Inquiry κ α α) (memo : Memo κ α) : Prop where
  sound : Sound rule memo
  visiting : memo.visiting = []

theorem atRest_empty [BEq κ] (rule : κ → Inquiry κ α α) : AtRest rule empty :=
  ⟨sound_empty, rfl⟩

theorem outcome_eq_found (result : EStateM.Result CyclicType (Memo κ α) β) :
    outcome result = found result := by
  cases result <;> rfl

theorem leftBy_eq_after (result : EStateM.Result CyclicType (Memo κ α) β) :
    leftBy result = after result := by
  cases result <;> rfl

/-- What a search finds is what it finds on an empty memo. -/
theorem finds_alone [BEq κ] {rule : κ → Inquiry κ α α} {search : Search κ α β} {value : β → Prop}
    {failure : CyclicType → Prop} (h : Finds (AtRest rule) search value failure) :
    Finds (AtRest rule) search (fun answer => value answer ∧ found (search empty) = .ok answer)
      failure := by
  obtain ⟨answer, hgives, hanswer⟩ := h
  have halone := (hgives empty (atRest_empty rule)).2
  rw [outcome_eq_found] at halone
  cases answer with
  | ok answer => exact ⟨_, hgives, hanswer, halone⟩
  | error cycle => exact ⟨_, hgives, hanswer⟩

/-- A search from a memo at rest that does what the inquiry calls for gives what it finds on an
empty memo. -/
theorem gives_of_conforms [BEq κ] {rule : κ → Inquiry κ α α} {name : κ → String}
    {inquiry : Inquiry κ α β} {search : Search κ α β}
    (h : ∀ memo, AtRest rule memo → Conforms rule name [] inquiry (search memo)) :
    Gives (AtRest rule) search (found (search empty)) := by
  intro memo hmemo
  have hrun := h memo hmemo
  rw [leftBy_eq_after, outcome_eq_found]
  exact ⟨⟨hrun.1, hrun.2.1⟩, hrun.found_eq (h empty (atRest_empty rule))⟩

theorem gives_run [BEq κ] [LawfulBEq κ] {rule : κ → Inquiry κ α α} (name : κ → String)
    {bound depth : Nat} (hbound : PathsWithin rule bound) (hdepth : bound < depth)
    (inquiry : Inquiry κ α β) :
    Gives (AtRest rule) (inquiry.run (search name rule depth))
      (found (inquiry.run (search name rule depth) empty)) :=
  gives_of_conforms fun _ h =>
    run_conforms_of_visiting_nil name hbound hdepth h.sound h.visiting inquiry

end Memo

end NodeFactory
