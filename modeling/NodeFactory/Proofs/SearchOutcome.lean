import Mathlib.Data.List.Nodup
import NodeFactory.Memo
import NodeFactory.Proofs.Settling

/-!
# What a remembering search finds

A search that starts from a memo whose answers are right finds what its inquiry settles on, and
else the cycle to blame, which depends on the path to it alone (`run_conforms`). So what is
remembered makes no difference to what is found (`Conforms.found_eq`), and searches that share a
memo find what each would find alone (`session_spec`).

The search nests no deeper than there are questions that need others: on a path each question needs
the next, and none is there twice.
-/

namespace NodeFactory.Memo

open Relation Inquiry

variable {κ α β γ : Type}

/-- What a run finds. -/
def found : EStateM.Result CyclicType (Memo κ α) β → Except CyclicType β
  | .ok value _ => .ok value
  | .error cycle _ => .error cycle

/-- What each of several searches finds when they run one after another on one memo, and the memo
after it. -/
def session : List (Search κ α β) → Memo κ α → List (Except CyclicType β × Memo κ α)
  | [], _ => []
  | search :: searches, memo =>
    (found (search memo), after (search memo)) :: session searches (after (search memo))

section Outcome

variable [BEq κ] (rule : κ → Inquiry κ α α) (name : κ → String)

/-- What is remembered of a question is what it settles on. -/
def Sound (memo : Memo κ α) : Prop :=
  ∀ key answer, memo.known.lookup key = some answer → Settles rule (rule key) answer

/-- A run of an inquiry below a path finds what the inquiry settles on, or else the cycle to blame.
It leaves right answers, and the path as it was. -/
def Conforms (path : List κ) (inquiry : Inquiry κ α β)
    (result : EStateM.Result CyclicType (Memo κ α) β) : Prop :=
  Sound rule (after result) ∧ (after result).visiting = path ∧
    match found result with
    | .ok value => Settles rule inquiry value
    | .error cycle => ∃ culprit, Blames rule path inquiry culprit ∧ cycle.name = name culprit

/-- No path to a question is longer than the bound, unless it repeats. -/
def PathsWithin (bound : Nat) : Prop :=
  ∀ (path : List κ) (asked : κ), path.Nodup → (∀ key ∈ path, TransGen (Needs rule) key asked) →
    path.length ≤ bound

/-- The memo is one from which an inquiry can be carried out: its answers are right, its path is one
that leads to the inquiry, and the depth suffices for what may still be asked. -/
structure Ready (bound depth : Nat) (inquiry : Inquiry κ α β) (memo : Memo κ α) : Prop where
  sound : Sound rule memo
  nodup : memo.visiting.Nodup
  leads : LeadsTo rule memo.visiting inquiry
  deep : bound < depth + memo.visiting.length

end Outcome

section Blame

variable {rule : κ → Inquiry κ α α} {path : List κ}

theorem blames_bind_left {inquiry : Inquiry κ α β} {next : β → Inquiry κ α γ} {culprit : κ}
    (h : Blames rule path inquiry culprit) : Blames rule path (inquiry >>= next) culprit := by
  induction h with
  | here hkey hmem => exact .here hkey hmem
  | inside hkey hnot h _ => exact .inside hkey hnot h
  | later found _ ih => exact .later found ih

theorem blames_bind_right {inquiry : Inquiry κ α β} {next : β → Inquiry κ α γ} {first : β}
    {culprit : κ} (hfirst : Settles rule inquiry first)
    (h : Blames rule path (next first) culprit) : Blames rule path (inquiry >>= next) culprit := by
  induction hfirst with
  | done => exact h
  | ask found _ _ ih => exact .later found (ih h)

end Blame

section Paths

variable {rule : κ → Inquiry κ α α} {bound : Nat}

/-- Paths are within a bound if the questions that need others are labelled below it, and those on
one path are told apart by their labels. -/
theorem pathsWithin_of_label (label : κ → Nat)
    (hlt : ∀ key needed, Needs rule key needed → label key < bound)
    (hinj : ∀ key key' asked, TransGen (Needs rule) key asked → TransGen (Needs rule) key' asked →
      label key = label key' → key = key') :
    PathsWithin rule bound := by
  intro path asked hnodup hpath
  have hlabels : (path.map label).Nodup :=
    List.Nodup.map_on (fun key hkey key' hkey' =>
      hinj key key' asked (hpath key hkey) (hpath key' hkey')) hnodup
  have hsub : path.map label ⊆ List.range bound := by
    intro n hn
    obtain ⟨key, hkey, rfl⟩ := List.mem_map.1 hn
    obtain ⟨needed, hneeds, -⟩ := TransGen.head'_iff.1 (hpath key hkey)
    exact List.mem_range.2 (hlt key needed hneeds)
  simpa using hlabels.length_le_of_subset hsub

end Paths

section Run

variable [BEq κ] {rule : κ → Inquiry κ α α} {name : κ → String} {bound depth : Nat}
  {path : List κ} {memo : Memo κ α}

theorem sound_empty : Sound rule (empty : Memo κ α) := by
  intro key answer h
  simp [empty] at h

theorem Sound.cons [LawfulBEq κ] {key : κ} {answer : α} (h : Sound rule memo)
    (hkey : Settles rule (rule key) answer) (visiting : List κ) :
    Sound rule ⟨(key, answer) :: memo.known, visiting⟩ := by
  intro key' answer' h'
  rw [List.lookup_cons] at h'
  split at h'
  · rename_i heq
    obtain rfl := eq_of_beq heq
    obtain rfl := Option.some.inj h'
    exact hkey
  · exact h key' answer' h'

theorem Conforms.bind {inquiry : Inquiry κ α β} {next : β → Inquiry κ α γ}
    {search : Search κ α β} {more : β → Search κ α γ}
    (h : Conforms rule name path inquiry (search memo))
    (hmore : ∀ first memo', Settles rule inquiry first → Sound rule memo' →
      memo'.visiting = path → Conforms rule name path (next first) (more first memo')) :
    Conforms rule name path (inquiry >>= next) ((search >>= more) memo) := by
  change Conforms rule name path _ (EStateM.bind search more memo)
  unfold EStateM.bind
  cases hs : search memo with
  | ok first memo' =>
    rw [hs] at h
    obtain ⟨hsound, hpath, hfirst⟩ := h
    obtain ⟨hsound', hpath', hrest⟩ := hmore first memo' hfirst hsound hpath
    refine ⟨hsound', hpath', ?_⟩
    simp only [] at hrest ⊢
    split
    · rename_i value hv
      rw [hv] at hrest
      exact settles_bind.2 ⟨first, hfirst, hrest⟩
    · rename_i cycle hc
      rw [hc] at hrest
      obtain ⟨culprit, hblame, hname⟩ := hrest
      exact ⟨culprit, blames_bind_right hfirst hblame, hname⟩
  | error cycle memo' =>
    rw [hs] at h
    obtain ⟨hsound, hpath, culprit, hblame, hname⟩ := h
    exact ⟨hsound, hpath, culprit, blames_bind_left hblame, hname⟩

theorem Ready.later {key : κ} {next : α → Inquiry κ α β} {answer : α} {memo' : Memo κ α}
    (h : Ready rule bound depth (.ask key next) memo) (found : Settles rule (rule key) answer)
    (hsound : Sound rule memo') (hpath : memo'.visiting = memo.visiting) :
    Ready rule bound depth (next answer) memo' where
  sound := hsound
  nodup := hpath ▸ h.nodup
  leads := hpath ▸ h.leads.later found
  deep := hpath ▸ h.deep

theorem Ready.inside {key : κ} {next : α → Inquiry κ α β}
    (h : Ready rule bound (depth + 1) (.ask key next) memo) (hkey : key ∉ memo.visiting) :
    Ready rule bound depth (rule key) { memo with visiting := key :: memo.visiting } where
  sound := h.sound
  nodup := List.nodup_cons.2 ⟨hkey, h.nodup⟩
  leads := h.leads.inside
  deep := by
    have := h.deep
    simp only [List.length_cons]
    omega

theorem Ready.depth_pos {key : κ} {next : α → Inquiry κ α β} (hbound : PathsWithin rule bound)
    (h : Ready rule bound depth (.ask key next) memo) : 0 < depth := by
  have hpath := hbound memo.visiting key h.nodup fun visited hmem =>
    h.leads visited hmem key (.inl rfl)
  have := h.deep
  omega

/-- A question that is not remembered and not on the path is answered by its own inquiry, with the
question added to the path. -/
theorem ask_conforms [LawfulBEq κ] {answer : κ → Search κ α α} {key : κ}
    (hsound : Sound rule memo) (hleads : LeadsTo rule memo.visiting (.question key : Inquiry κ α α))
    (hinside : key ∉ memo.visiting → Conforms rule name (key :: memo.visiting) (rule key)
      (answer key { memo with visiting := key :: memo.visiting })) :
    Conforms rule name memo.visiting (.question key) (ask name answer key memo) := by
  unfold ask
  split
  · rename_i value hknown
    exact ⟨hsound, rfl, settles_question.2 (hsound key value hknown)⟩
  · split
    · rename_i hmem
      have hmem := List.contains_iff_mem.1 hmem
      -- The question needs itself along the path, so it does not settle.
      have hcycle := hleads key hmem key (.inl rfl)
      exact ⟨hsound, rfl, key, .here (fun _ h => h.not_cycle hcycle) hmem, rfl⟩
    · rename_i hmem
      have hmem : key ∉ memo.visiting := fun h => hmem (List.contains_iff_mem.2 h)
      have h := hinside hmem
      split
      · rename_i value inner heq
        rw [heq] at h
        obtain ⟨hsound', -, hvalue⟩ := h
        exact ⟨hsound'.cons hvalue _, rfl, settles_question.2 hvalue⟩
      · rename_i cycle inner heq
        rw [heq] at h
        obtain ⟨hsound', -, culprit, hblame, hname⟩ := h
        exact ⟨hsound', rfl, culprit, .inside hblame.not_settles hmem hblame, hname⟩

theorem run_conforms_of {answer : κ → Search κ α α}
    (hanswer : ∀ key memo, Ready rule bound depth (.question key : Inquiry κ α α) memo →
      Conforms rule name memo.visiting (.question key) (answer key memo)) :
    ∀ (inquiry : Inquiry κ α β) (memo : Memo κ α), Ready rule bound depth inquiry memo →
      Conforms rule name memo.visiting inquiry (inquiry.run answer memo)
  | .done value, memo, h => ⟨h.sound, rfl, .done value⟩
  | .ask key next, memo, h => by
    have hkey : Ready rule bound depth (.question key : Inquiry κ α α) memo :=
      ⟨h.sound, h.nodup, fun visited hmem asked hasked =>
        h.leads visited hmem asked (.inl (asks_question.1 hasked)), h.deep⟩
    change Conforms rule name memo.visiting (.question key >>= next) _
    refine (hanswer key memo hkey).bind fun first memo' hfirst hsound hpath => ?_
    rw [← hpath]
    exact run_conforms_of hanswer (next first) memo' (h.later (settles_question.1 hfirst) hsound hpath)

section Search

variable [LawfulBEq κ]

theorem search_conforms (hbound : PathsWithin rule bound) :
    ∀ (depth : Nat) (key : κ) (memo : Memo κ α),
      Ready rule bound depth (.question key : Inquiry κ α α) memo →
        Conforms rule name memo.visiting (.question key) (search name rule depth key memo)
  | 0, _, _, h => absurd (h.depth_pos hbound) (Nat.lt_irrefl 0)
  | depth + 1, key, _, h =>
    ask_conforms h.sound h.leads fun hkey =>
      run_conforms_of (search_conforms hbound depth) (rule key) _ (h.inside hkey)

theorem run_conforms (hbound : PathsWithin rule bound) (inquiry : Inquiry κ α β)
    (h : Ready rule bound depth inquiry memo) :
    Conforms rule name memo.visiting inquiry (inquiry.run (search name rule depth) memo) :=
  run_conforms_of (search_conforms hbound depth) inquiry memo h

end Search

theorem ready_of_visiting_nil (hsound : Sound rule memo) (hvisiting : memo.visiting = [])
    (hdepth : bound < depth) (inquiry : Inquiry κ α β) : Ready rule bound depth inquiry memo where
  sound := hsound
  nodup := hvisiting ▸ List.nodup_nil
  leads := hvisiting ▸ leadsTo_nil
  deep := by omega

end Run

section Found

variable [BEq κ] {rule : κ → Inquiry κ α α} {name : κ → String} {bound depth : Nat}
  {path : List κ} {memo : Memo κ α} {inquiry : Inquiry κ α β}
  {result result' : EStateM.Result CyclicType (Memo κ α) β}

theorem Conforms.settles {value : β} (h : Conforms rule name path inquiry result)
    (hfound : found result = .ok value) : Settles rule inquiry value := by
  have := h.2.2
  rwa [hfound] at this

theorem Conforms.blames {cycle : CyclicType} (h : Conforms rule name path inquiry result)
    (hfound : found result = .error cycle) :
    ∃ culprit, Blames rule path inquiry culprit ∧ cycle.name = name culprit := by
  have := h.2.2
  rwa [hfound] at this

/-- What is found depends on the inquiry and the path to it alone. -/
theorem Conforms.found_eq (h : Conforms rule name path inquiry result)
    (h' : Conforms rule name path inquiry result') : found result = found result' := by
  cases hr : found result with
  | ok value =>
    have hvalue := h.settles hr
    cases hr' : found result' with
    | ok value' => rw [hvalue.unique (h'.settles hr')]
    | error cycle' =>
      obtain ⟨culprit, hblame, -⟩ := h'.blames hr'
      exact absurd hvalue (hblame.not_settles value)
  | error cycle =>
    obtain ⟨culprit, hblame, hname⟩ := h.blames hr
    cases hr' : found result' with
    | ok value' => exact absurd (h'.settles hr') (hblame.not_settles value')
    | error cycle' =>
      obtain ⟨culprit', hblame', hname'⟩ := h'.blames hr'
      obtain rfl := hblame.unique hblame'
      congr 1
      cases cycle
      cases cycle'
      simp only [] at hname hname'
      rw [hname, hname']

/-- With nothing on the path, a cycle is one of questions that the inquiry leads to. -/
theorem Conforms.cycle {cycle : CyclicType} (h : Conforms rule name [] inquiry result)
    (hfound : found result = .error cycle) :
    ∃ asked culprit, Asks rule inquiry asked ∧ ReflTransGen (Needs rule) asked culprit ∧
      TransGen (Needs rule) culprit culprit ∧ cycle.name = name culprit := by
  obtain ⟨culprit, hblame, hname⟩ := h.blames hfound
  obtain ⟨⟨asked, hasked, hreach⟩, hcycle⟩ := hblame.cycle leadsTo_nil
  exact ⟨asked, culprit, hasked, hreach, hcycle, hname⟩

end Found

section Session

variable [BEq κ] [LawfulBEq κ] {rule : κ → Inquiry κ α α} (name : κ → String)
  {bound depth : Nat}

theorem run_conforms_of_visiting_nil (hbound : PathsWithin rule bound) (hdepth : bound < depth)
    {memo : Memo κ α} (hsound : Sound rule memo) (hvisiting : memo.visiting = [])
    (inquiry : Inquiry κ α β) :
    Conforms rule name [] inquiry (inquiry.run (search name rule depth) memo) := by
  rw [← hvisiting]
  exact run_conforms hbound inquiry (ready_of_visiting_nil hsound hvisiting hdepth inquiry)

/-- Searches that share a memo find what each finds on an empty one, and after each of them nothing
is being visited. -/
theorem session_spec (hbound : PathsWithin rule bound) (hdepth : bound < depth) :
    ∀ (inquiries : List (Inquiry κ α β)) (memo : Memo κ α), Sound rule memo →
      memo.visiting = [] →
      (session (inquiries.map fun inquiry => inquiry.run (search name rule depth)) memo).map
          Prod.fst
        = inquiries.map (fun inquiry => found (inquiry.run (search name rule depth) empty))
      ∧ ∀ entry ∈ session (inquiries.map fun inquiry => inquiry.run (search name rule depth)) memo,
          entry.2.visiting = []
  | [], _, _, _ => by simp [session]
  | inquiry :: inquiries, memo, hsound, hvisiting => by
    have h := run_conforms_of_visiting_nil name hbound hdepth hsound hvisiting inquiry
    have hfresh := run_conforms_of_visiting_nil name hbound hdepth sound_empty rfl inquiry
    obtain ⟨ih, ih'⟩ := session_spec hbound hdepth inquiries _ h.1 h.2.1
    simp only [List.map_cons, session]
    refine ⟨?_, ?_⟩
    · rw [ih, h.found_eq hfresh]
    · intro entry hentry
      rcases List.mem_cons.1 hentry with rfl | hentry
      · exact h.2.1
      · exact ih' entry hentry

end Session

end NodeFactory.Memo
