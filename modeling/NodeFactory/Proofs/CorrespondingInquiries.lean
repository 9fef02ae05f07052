import Mathlib.Data.List.Forall2
import Mathlib.Logic.Relator
import NodeFactory.Proofs.SteadyAnswer

/-!
# Inquiries that correspond

Two inquiries correspond if they ask corresponding questions and go on alike for corresponding answers
(`Inquiry.Corresponds`). Under rules that correspond they settle on corresponding values or on none
(`Corresponds.settles`), and where they do not settle, corresponding questions are to blame
(`Corresponds.blames`). So searches for them give answers that are alike (`givesAlike_run`): the numbers
that questions go by make no difference.
-/

namespace NodeFactory

variable {κ κ' α α' β β' γ γ' : Type}

/-- Values that correspond, or one and the same failure. -/
inductive AnswersAlike {ε : Type} (R : β → β' → Prop) : Except ε β → Except ε β' → Prop
  | ok {value : β} {value' : β'} : R value value' → AnswersAlike R (.ok value) (.ok value')
  | error (failure : ε) : AnswersAlike R (.error failure) (.error failure)

theorem AnswersAlike.eq {ε : Type} {R : β → β → Prop} {answer answer' : Except ε β}
    (h : AnswersAlike R answer answer') (hR : ∀ value value', R value value' → value = value') :
    answer = answer' := by
  cases h with
  | ok hvalue => rw [hR _ _ hvalue]
  | error failure => rfl

namespace Inquiry

/-- Corresponding questions are asked in the same order, as long as the answers correspond, and the
inquiries come to values that correspond. -/
inductive Corresponds (K : κ → κ' → Prop) (A : α → α' → Prop) (R : β → β' → Prop) :
    Inquiry κ α β → Inquiry κ' α' β' → Prop
  | done {value : β} {value' : β'} : R value value' → Corresponds K A R (.done value) (.done value')
  | ask {key : κ} {key' : κ'} {next : α → Inquiry κ α β} {next' : α' → Inquiry κ' α' β'} : K key key' →
      (∀ answer answer', A answer answer' → Corresponds K A R (next answer) (next' answer')) →
        Corresponds K A R (.ask key next) (.ask key' next')

variable {K : κ → κ' → Prop} {A : α → α' → Prop} {R : β → β' → Prop} {Q : γ → γ' → Prop}

namespace Corresponds

section Combined

theorem pure {value : β} {value' : β'} (h : R value value') :
    Corresponds K A R (Pure.pure value) (Pure.pure value') :=
  .done h

theorem question {key : κ} {key' : κ'} (h : K key key') :
    Corresponds K A A (.question key) (.question key') :=
  .ask h fun _ _ => .done

theorem bind {inquiry : Inquiry κ α β} {inquiry' : Inquiry κ' α' β'} {next : β → Inquiry κ α γ}
    {next' : β' → Inquiry κ' α' γ'} (h : Corresponds K A R inquiry inquiry')
    (hnext : ∀ value value', R value value' → Corresponds K A Q (next value) (next' value')) :
    Corresponds K A Q (inquiry >>= next) (inquiry' >>= next') := by
  induction h with
  | done hvalue => exact hnext _ _ hvalue
  | ask hkey _ ih => exact .ask hkey ih

theorem flip {inquiry : Inquiry κ α β} {inquiry' : Inquiry κ' α' β'}
    (h : Corresponds K A R inquiry inquiry') :
    Corresponds (flip K) (flip A) (flip R) inquiry' inquiry := by
  induction h with
  | done hvalue => exact .done hvalue
  | ask hkey _ ih => exact .ask hkey fun answer' answer hanswer => ih answer answer' hanswer

theorem foldlM {ι ι' : Type} {I : ι → ι' → Prop} {step : β → ι → Inquiry κ α β}
    {step' : β' → ι' → Inquiry κ' α' β'}
    (hstep : ∀ value value' i i', R value value' → I i i' →
      Corresponds K A R (step value i) (step' value' i')) {items : List ι} {items' : List ι'}
    (hitems : List.Forall₂ I items items') {value : β} {value' : β'} (hvalue : R value value') :
    Corresponds K A R (items.foldlM step value) (items'.foldlM step' value') := by
  induction hitems generalizing value value' with
  | nil => exact .pure hvalue
  | cons hitem _ ih =>
    rw [List.foldlM_cons, List.foldlM_cons]
    exact (hstep _ _ _ _ hvalue hitem).bind fun _ _ => ih

theorem anyM {ι ι' : Type} {I : ι → ι' → Prop} {test : ι → Inquiry κ α Bool}
    {test' : ι' → Inquiry κ' α' Bool}
    (htest : ∀ i i', I i i' → Corresponds K A Eq (test i) (test' i')) {items : List ι}
    {items' : List ι'} (hitems : List.Forall₂ I items items') :
    Corresponds K A Eq (items.anyM test) (items'.anyM test') := by
  induction hitems with
  | nil => exact .pure rfl
  | cons hitem _ ih =>
    rw [List.anyM_cons, List.anyM_cons]
    refine (htest _ _ hitem).bind ?_
    rintro value _ rfl
    cases value with
    | false => exact ih
    | true => exact .pure rfl

end Combined

section Outcomes

variable {rule : κ → Inquiry κ α α} {rule' : κ' → Inquiry κ' α' α'}
  {inquiry : Inquiry κ α β} {inquiry' : Inquiry κ' α' β'}

theorem settles (hrule : ∀ key key', K key key' → Corresponds K A A (rule key) (rule' key'))
    (h : Corresponds K A R inquiry inquiry') {value : β} (hsettles : Settles rule inquiry value) :
    ∃ value', Settles rule' inquiry' value' ∧ R value value' := by
  induction hsettles generalizing β' with
  | done value =>
    cases h with
    | done hvalue => exact ⟨_, .done _, hvalue⟩
  | ask _ _ ihkey ihnext =>
    cases h with
    | ask hkey hnext =>
      obtain ⟨answer', hanswer', halike⟩ := ihkey (hrule _ _ hkey)
      obtain ⟨value', hvalue', hvalues⟩ := ihnext (hnext _ _ halike)
      exact ⟨value', .ask hanswer' hvalue', hvalues⟩

theorem not_settles (hrule : ∀ key key', K key key' → Corresponds K A A (rule key) (rule' key'))
    (h : Corresponds K A R inquiry inquiry') (hnot : ∀ value, ¬ Settles rule inquiry value)
    (value' : β') : ¬ Settles rule' inquiry' value' := by
  intro hsettles
  obtain ⟨value, hvalue, -⟩ := h.flip.settles (fun _ _ hkey => (hrule _ _ hkey).flip) hsettles
  exact hnot value hvalue

theorem blames (hrule : ∀ key key', K key key' → Corresponds K A A (rule key) (rule' key'))
    (hunique : Relator.BiUnique K) {path : List κ} {path' : List κ'} (hpath : List.Forall₂ K path path')
    (h : Corresponds K A R inquiry inquiry') {culprit : κ} (hblames : Blames rule path inquiry culprit) :
    ∃ culprit', Blames rule' path' inquiry' culprit' ∧ K culprit culprit' := by
  induction hblames generalizing β' path' with
  | here hkey hmem =>
    cases h with
    | @ask key key' _ _ hkeys _ =>
      have hmem' : key' ∈ path' := (List.rel_mem hunique hkeys hpath).1 hmem
      exact ⟨_, .here ((hrule _ _ hkeys).not_settles hrule hkey) hmem', hkeys⟩
  | inside hkey hnot _ ih =>
    cases h with
    | @ask key key' _ _ hkeys _ =>
      have hnot' : key' ∉ path' := fun hmem' => hnot ((List.rel_mem hunique hkeys hpath).2 hmem')
      obtain ⟨culprit', hculprit, hculprits⟩ := ih (.cons hkeys hpath) (hrule _ _ hkeys)
      exact ⟨culprit', .inside ((hrule _ _ hkeys).not_settles hrule hkey) hnot' hculprit, hculprits⟩
  | later hfound _ ih =>
    cases h with
    | ask hkeys hnext =>
      obtain ⟨answer', hanswer', halike⟩ := (hrule _ _ hkeys).settles hrule hfound
      obtain ⟨culprit', hculprit, hculprits⟩ := ih hpath (hnext _ _ halike)
      exact ⟨culprit', .later hanswer' hculprit, hculprits⟩

end Outcomes

end Corresponds

end Inquiry

namespace Memo

variable [BEq κ] [BEq κ'] {rule : κ → Inquiry κ α α} {rule' : κ' → Inquiry κ' α' α'}
  {name : κ → String} {name' : κ' → String} {K : κ → κ' → Prop} {A : α → α' → Prop} {R : β → β' → Prop}
  {inquiry : Inquiry κ α β} {inquiry' : Inquiry κ' α' β'}

/-- Runs that do what corresponding inquiries call for find answers that are alike. -/
theorem Conforms.answersAlike {result : EStateM.Result CyclicType (Memo κ α) β}
    {result' : EStateM.Result CyclicType (Memo κ' α') β'}
    (hrule : ∀ key key', K key key' → Inquiry.Corresponds K A A (rule key) (rule' key'))
    (hunique : Relator.BiUnique K) (hname : ∀ key key', K key key' → name key = name' key')
    (hinquiry : Inquiry.Corresponds K A R inquiry inquiry')
    (h : Conforms rule name [] inquiry result) (h' : Conforms rule' name' [] inquiry' result') :
    AnswersAlike R (found result) (found result') := by
  cases hfound : found result with
  | ok value =>
    obtain ⟨value', hvalue', hvalues⟩ := hinquiry.settles hrule (h.settles hfound)
    cases hfound' : found result' with
    | ok value'' =>
      obtain rfl := hvalue'.unique (h'.settles hfound')
      exact .ok hvalues
    | error cycle' =>
      obtain ⟨culprit', hblames', -⟩ := h'.blames hfound'
      exact absurd hvalue' (hblames'.not_settles value')
  | error cycle =>
    obtain ⟨culprit, hblames, hcycle⟩ := h.blames hfound
    obtain ⟨culprit', hblames', hculprits⟩ := hinquiry.blames hrule hunique .nil hblames
    cases hfound' : found result' with
    | ok value' => exact absurd (h'.settles hfound') (hblames'.not_settles value')
    | error cycle' =>
      obtain ⟨culprit'', hblames'', hcycle'⟩ := h'.blames hfound'
      obtain rfl := hblames'.unique hblames''
      have hcycles : cycle = cycle' := by
        cases cycle
        cases cycle'
        simp only at hcycle hcycle'
        rw [hcycle, hcycle', hname _ _ hculprits]
      rw [hcycles]
      exact .error cycle'

end Memo

section Searches

variable {ε σ σ' : Type} {AtRest : σ → Prop} {AtRest' : σ' → Prop} {R : β → β' → Prop}
  {Q : γ → γ' → Prop}

/-- The searches give answers that are alike. -/
def GivesAlike (AtRest : σ → Prop) (AtRest' : σ' → Prop) (R : β → β' → Prop) (search : EStateM ε σ β)
    (search' : EStateM ε σ' β') : Prop :=
  ∃ answer answer', Gives AtRest search answer ∧ Gives AtRest' search' answer'
    ∧ AnswersAlike R answer answer'

namespace GivesAlike

theorem pure {value : β} {value' : β'} (h : R value value') :
    GivesAlike AtRest AtRest' R (pure value : EStateM ε σ β) (pure value') :=
  ⟨_, _, gives_pure value, gives_pure value', .ok h⟩

theorem bind {search : EStateM ε σ β} {search' : EStateM ε σ' β'} {next : β → EStateM ε σ γ}
    {next' : β' → EStateM ε σ' γ'} (h : GivesAlike AtRest AtRest' R search search')
    (hnext : ∀ value value', R value value' → GivesAlike AtRest AtRest' Q (next value) (next' value')) :
    GivesAlike AtRest AtRest' Q (search >>= next) (search' >>= next') := by
  obtain ⟨answer, answer', hgives, hgives', halike⟩ := h
  cases halike with
  | ok hvalue =>
    obtain ⟨answer, answer', hnext, hnext', halike⟩ := hnext _ _ hvalue
    exact ⟨answer, answer', gives_bind_ok hgives hnext, gives_bind_ok hgives' hnext', halike⟩
  | error failure =>
    exact ⟨_, _, gives_bind_error hgives, gives_bind_error hgives', .error failure⟩

theorem mapM {ι ι' : Type} {I : ι → ι' → Prop} {search : ι → EStateM ε σ β}
    {search' : ι' → EStateM ε σ' β'}
    (h : ∀ i i', I i i' → GivesAlike AtRest AtRest' R (search i) (search' i')) {items : List ι}
    {items' : List ι'} (hitems : List.Forall₂ I items items') :
    GivesAlike AtRest AtRest' (List.Forall₂ R) (items.mapM search) (items'.mapM search') := by
  induction hitems with
  | nil => exact .pure .nil
  | cons hitem _ ih =>
    rw [List.mapM_cons, List.mapM_cons]
    exact (h _ _ hitem).bind fun _ _ hfirst => ih.bind fun _ _ hrest => .pure (.cons hfirst hrest)

/-- From states at rest the outcomes are alike. -/
theorem outcomes {search : EStateM ε σ β} {search' : EStateM ε σ' β'}
    (h : GivesAlike AtRest AtRest' R search search') {state : σ} {state' : σ'} (hstate : AtRest state)
    (hstate' : AtRest' state') : AnswersAlike R (outcome (search state)) (outcome (search' state')) := by
  obtain ⟨answer, answer', hgives, hgives', halike⟩ := h
  rwa [(hgives state hstate).2, (hgives' state' hstate').2]

end GivesAlike

/-- Corresponding inquiries that are carried out give answers that are alike. -/
theorem givesAlike_run [BEq κ] [LawfulBEq κ] [BEq κ'] [LawfulBEq κ'] {rule : κ → Inquiry κ α α}
    {rule' : κ' → Inquiry κ' α' α'} {name : κ → String} {name' : κ' → String} {K : κ → κ' → Prop}
    {A : α → α' → Prop} {inquiry : Inquiry κ α β} {inquiry' : Inquiry κ' α' β'}
    {bound depth bound' depth' : Nat} (hbound : Memo.PathsWithin rule bound) (hdepth : bound < depth)
    (hbound' : Memo.PathsWithin rule' bound') (hdepth' : bound' < depth')
    (hrule : ∀ key key', K key key' → Inquiry.Corresponds K A A (rule key) (rule' key'))
    (hunique : Relator.BiUnique K) (hname : ∀ key key', K key key' → name key = name' key')
    (h : Inquiry.Corresponds K A R inquiry inquiry') :
    GivesAlike (Memo.AtRest rule) (Memo.AtRest rule') R (inquiry.run (Memo.search name rule depth))
      (inquiry'.run (Memo.search name' rule' depth')) := by
  refine ⟨_, _, Memo.gives_run name hbound hdepth inquiry, Memo.gives_run name' hbound' hdepth' inquiry',
    ?_⟩
  exact Memo.Conforms.answersAlike hrule hunique hname h
    (Memo.run_conforms_of_visiting_nil name hbound hdepth Memo.sound_empty rfl inquiry)
    (Memo.run_conforms_of_visiting_nil name' hbound' hdepth' Memo.sound_empty rfl inquiry')

end Searches

end NodeFactory
