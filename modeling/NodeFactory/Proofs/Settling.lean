import Mathlib.Logic.Relation
import NodeFactory.Inquiry

/-!
# What inquiries come to

A rule gives an inquiry for every question. An inquiry settles on a value if every question that it
asks is answered by what the question's own inquiry settles on; nothing is remembered, and no
question is guarded. A question that settles needs only questions that settle, and it does not come
back to itself (`Settles.acc`), so what it settles on can be found by induction on what it needs
(`Settles.induction`).

An inquiry that does not settle because some chain of questions repeats is blamed on the first
question that repeats on the way (`Blames`). That question needs itself (`Blames.cycle`), and it is
the same whatever else is known of the other questions (`Blames.unique`).
-/

namespace NodeFactory.Inquiry

open Relation

variable {κ α β γ : Type}

/-- What an inquiry comes to if every question is answered by what its own inquiry comes to. -/
inductive Settles (rule : κ → Inquiry κ α α) : {β : Type} → Inquiry κ α β → β → Prop
  | done {β : Type} (value : β) : Settles rule (.done value) value
  | ask {β : Type} {key : κ} {next : α → Inquiry κ α β} {answer : α} {value : β} :
      Settles rule (rule key) answer → Settles rule (next answer) value →
        Settles rule (.ask key next) value

variable (rule : κ → Inquiry κ α α)

/-- The inquiry asks a question, perhaps after others that settle. -/
def Asks : Inquiry κ α β → κ → Prop
  | .done _, _ => False
  | .ask key next, asked =>
    asked = key ∨ ∃ answer, Settles rule (rule key) answer ∧ Asks (next answer) asked

/-- To settle, a question needs another to settle first. -/
def Needs (key needed : κ) : Prop := Asks rule (rule key) needed

/-- The inquiry comes, after questions that settle, to one that does not. In the end this is a
question on the path that led there, and it is the one to blame. -/
inductive Blames : {β : Type} → List κ → Inquiry κ α β → κ → Prop
  | here {β : Type} {path : List κ} {key : κ} {next : α → Inquiry κ α β} :
      (∀ answer, ¬ Settles rule (rule key) answer) → key ∈ path →
        Blames path (.ask key next) key
  | inside {β : Type} {path : List κ} {key culprit : κ} {next : α → Inquiry κ α β} :
      (∀ answer, ¬ Settles rule (rule key) answer) → key ∉ path →
        Blames (key :: path) (rule key) culprit → Blames path (.ask key next) culprit
  | later {β : Type} {path : List κ} {key culprit : κ} {next : α → Inquiry κ α β} {answer : α} :
      Settles rule (rule key) answer → Blames path (next answer) culprit →
        Blames path (.ask key next) culprit

section Shape

theorem pure_eq (value : β) : (pure value : Inquiry κ α β) = .done value := rfl

theorem done_bind (value : β) (next : β → Inquiry κ α γ) :
    (Inquiry.done value : Inquiry κ α β) >>= next = next value := rfl

theorem ask_bind (key : κ) (more : α → Inquiry κ α β) (next : β → Inquiry κ α γ) :
    Inquiry.ask key more >>= next = .ask key fun answer => more answer >>= next := rfl

variable {rule}

@[simp] theorem settles_pure {value value' : β} :
    Settles rule (pure value : Inquiry κ α β) value' ↔ value' = value := by
  constructor
  · intro h
    cases h
    rfl
  · rintro rfl
    exact .done _

theorem settles_ask {key : κ} {next : α → Inquiry κ α β} {value : β} :
    Settles rule (.ask key next) value ↔
      ∃ answer, Settles rule (rule key) answer ∧ Settles rule (next answer) value := by
  constructor
  · intro h
    cases h with
    | ask found rest => exact ⟨_, found, rest⟩
  · rintro ⟨answer, found, rest⟩
    exact .ask found rest

@[simp] theorem settles_question {key : κ} {answer : α} :
    Settles rule (.question key) answer ↔ Settles rule (rule key) answer := by
  unfold question
  rw [settles_ask]
  constructor
  · rintro ⟨answer', found, rest⟩
    cases rest
    exact found
  · intro h
    exact ⟨answer, h, .done _⟩

@[simp] theorem settles_bind {value : γ} {next : β → Inquiry κ α γ} :
    ∀ {inquiry : Inquiry κ α β}, Settles rule (inquiry >>= next) value ↔
      ∃ first, Settles rule inquiry first ∧ Settles rule (next first) value
  | .done first => by
    rw [done_bind, ← pure_eq]
    simp only [settles_pure, exists_eq_left]
  | .ask key more => by
    rw [ask_bind]
    simp only [settles_ask, settles_bind]
    constructor
    · rintro ⟨answer, found, first, h, rest⟩
      exact ⟨first, ⟨answer, found, h⟩, rest⟩
    · rintro ⟨first, ⟨answer, found, h⟩, rest⟩
      exact ⟨answer, found, first, h, rest⟩

@[simp] theorem asks_pure {value : β} {asked : κ} :
    ¬ Asks rule (pure value : Inquiry κ α β) asked := fun h => h

@[simp] theorem asks_question {key asked : κ} : Asks rule (.question key) asked ↔ asked = key := by
  constructor
  · rintro (h | ⟨answer, -, h⟩)
    · exact h
    · exact h.elim
  · exact .inl

@[simp] theorem asks_bind {asked : κ} {next : β → Inquiry κ α γ} :
    ∀ {inquiry : Inquiry κ α β}, Asks rule (inquiry >>= next) asked ↔
      Asks rule inquiry asked ∨ ∃ first, Settles rule inquiry first ∧ Asks rule (next first) asked
  | .done first => by
    rw [done_bind, ← pure_eq]
    simp only [asks_pure, settles_pure, exists_eq_left, false_or]
  | .ask key more => by
    rw [ask_bind]
    simp only [Asks, settles_ask, asks_bind]
    constructor
    · rintro (h | ⟨answer, found, h | ⟨first, h, rest⟩⟩)
      · exact .inl (.inl h)
      · exact .inl (.inr ⟨answer, found, h⟩)
      · exact .inr ⟨first, ⟨answer, found, h⟩, rest⟩
    · rintro ((h | ⟨answer, found, h⟩) | ⟨first, ⟨answer, found, h⟩, rest⟩)
      · exact .inl h
      · exact .inr ⟨answer, found, .inl h⟩
      · exact .inr ⟨answer, found, .inr ⟨first, h, rest⟩⟩

end Shape

section Settled

theorem not_rel_self {r : κ → κ → Prop} {a : κ} (h : Acc r a) : ¬ r a a := by
  induction h with
  | intro a _ ih => exact fun hself => ih a hself hself

theorem not_cycle_of_acc {r : κ → κ → Prop} {a : κ} (h : Acc (Function.swap r) a) :
    ¬ TransGen r a a :=
  fun hcycle => not_rel_self h.transGen (transGen_swap.2 hcycle)

variable {rule}

theorem Settles.unique {inquiry : Inquiry κ α β} {value value' : β}
    (h : Settles rule inquiry value) (h' : Settles rule inquiry value') : value = value' := by
  induction h with
  | done value =>
    cases h'
    rfl
  | ask found rest ih ih' =>
    obtain ⟨answer, found', rest'⟩ := settles_ask.1 h'
    obtain rfl := ih found'
    exact ih' rest'

theorem Settles.of_asks {inquiry : Inquiry κ α β} {value : β} {asked : κ}
    (h : Settles rule inquiry value) (hasked : Asks rule inquiry asked) :
    ∃ answer, Settles rule (rule asked) answer := by
  induction h with
  | done => exact hasked.elim
  | ask found rest _ ih =>
    rcases hasked with rfl | ⟨answer, found', hasked⟩
    · exact ⟨_, found⟩
    · obtain rfl := found.unique found'
      exact ih hasked

/-- Below what an inquiry that settles asks, every chain of needs ends. -/
theorem Settles.acc_of_asks {inquiry : Inquiry κ α β} {value : β} {asked : κ}
    (h : Settles rule inquiry value) (hasked : Asks rule inquiry asked) :
    Acc (Function.swap (Needs rule)) asked := by
  induction h generalizing asked with
  | done => exact hasked.elim
  | ask found rest ih ih' =>
    rcases hasked with rfl | ⟨answer, found', hasked⟩
    · exact .intro _ fun needed hneeds => ih hneeds
    · obtain rfl := found.unique found'
      exact ih' hasked

theorem Settles.acc {key : κ} {answer : α} (h : Settles rule (rule key) answer) :
    Acc (Function.swap (Needs rule)) key :=
  .intro _ fun _ hneeds => h.acc_of_asks hneeds

theorem Settles.not_cycle {key : κ} {answer : α} (h : Settles rule (rule key) answer) :
    ¬ TransGen (Needs rule) key key :=
  not_cycle_of_acc h.acc

/-- What holds of a question that settles as soon as it holds of the questions it needs, holds of
every question that settles. -/
theorem Settles.induction {motive : κ → Prop}
    (step : ∀ key answer, Settles rule (rule key) answer →
      (∀ needed, Needs rule key needed → motive needed) → motive key)
    {key : κ} {answer : α} (h : Settles rule (rule key) answer) : motive key := by
  have hacc := h.acc
  induction hacc generalizing answer with
  | intro key _ ih =>
    refine step key answer h fun needed hneeds => ?_
    obtain ⟨answer', h'⟩ := h.of_asks hneeds
    exact ih needed hneeds h'

end Settled

section Blamed

/-- The path leads to the inquiry: each question on it needs what the inquiry asks. -/
def LeadsTo (path : List κ) (inquiry : Inquiry κ α β) : Prop :=
  ∀ key ∈ path, ∀ asked, Asks rule inquiry asked → TransGen (Needs rule) key asked

variable {rule}

theorem leadsTo_nil {inquiry : Inquiry κ α β} : LeadsTo rule [] inquiry :=
  fun _ hmem => absurd hmem List.not_mem_nil

theorem LeadsTo.inside {path : List κ} {key : κ} {next : α → Inquiry κ α β}
    (h : LeadsTo rule path (.ask key next)) : LeadsTo rule (key :: path) (rule key) := by
  intro visited hmem asked hasked
  rcases List.mem_cons.1 hmem with rfl | hmem
  · exact .single hasked
  · exact .tail (h visited hmem key (.inl rfl)) hasked

theorem LeadsTo.later {path : List κ} {key : κ} {next : α → Inquiry κ α β} {answer : α}
    (h : LeadsTo rule path (.ask key next)) (found : Settles rule (rule key) answer) :
    LeadsTo rule path (next answer) :=
  fun visited hmem asked hasked => h visited hmem asked (.inr ⟨answer, found, hasked⟩)

theorem Blames.not_settles {path : List κ} {inquiry : Inquiry κ α β} {culprit : κ}
    (h : Blames rule path inquiry culprit) (value : β) : ¬ Settles rule inquiry value := by
  induction h with
  | here hkey _ =>
    intro hs
    obtain ⟨answer, found, -⟩ := settles_ask.1 hs
    exact hkey answer found
  | inside hkey _ _ _ =>
    intro hs
    obtain ⟨answer, found, -⟩ := settles_ask.1 hs
    exact hkey answer found
  | later found _ ih =>
    intro hs
    obtain ⟨answer, found', rest⟩ := settles_ask.1 hs
    obtain rfl := found.unique found'
    exact ih value rest

/-- Who is to blame depends on the path and the rule alone. -/
theorem Blames.unique {path : List κ} {inquiry : Inquiry κ α β} {culprit culprit' : κ}
    (h : Blames rule path inquiry culprit) (h' : Blames rule path inquiry culprit') :
    culprit = culprit' := by
  induction h with
  | here hkey hmem =>
    cases h' with
    | here => rfl
    | inside _ hnot _ => exact absurd hmem hnot
    | later found _ => exact absurd found (hkey _)
  | inside hkey hnot _ ih =>
    cases h' with
    | here _ hmem => exact absurd hmem hnot
    | inside _ _ h' => exact ih h'
    | later found _ => exact absurd found (hkey _)
  | later found _ ih =>
    cases h' with
    | here hkey _ => exact absurd found (hkey _)
    | inside hkey _ _ => exact absurd found (hkey _)
    | later found' h' =>
      obtain rfl := found.unique found'
      exact ih h'

/-- The question to blame needs itself, if the path leads to the inquiry. -/
theorem Blames.cycle {path : List κ} {inquiry : Inquiry κ α β} {culprit : κ}
    (h : Blames rule path inquiry culprit) (hpath : LeadsTo rule path inquiry) :
    (∃ asked, Asks rule inquiry asked ∧ ReflTransGen (Needs rule) asked culprit)
      ∧ TransGen (Needs rule) culprit culprit := by
  induction h with
  | here _ hmem => exact ⟨⟨_, .inl rfl, .refl⟩, hpath _ hmem _ (.inl rfl)⟩
  | inside _ _ _ ih =>
    obtain ⟨⟨asked, hasked, hreach⟩, hcycle⟩ := ih hpath.inside
    exact ⟨⟨_, .inl rfl, .head hasked hreach⟩, hcycle⟩
  | later found _ ih =>
    obtain ⟨⟨asked, hasked, hreach⟩, hcycle⟩ := ih (hpath.later found)
    exact ⟨⟨asked, .inr ⟨_, found, hasked⟩, hreach⟩, hcycle⟩

end Blamed

end NodeFactory.Inquiry
