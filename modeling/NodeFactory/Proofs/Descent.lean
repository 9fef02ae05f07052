import NodeFactory.Proofs.SearchOutcome
import NodeFactory.Proofs.Supertypes

/-!
# What a search for descent finds

A search on an empty memo finds whether the target is reached from its subject, unless it comes upon
a cycle that is reached from the subject (`search_decides_reachability`). The first supertype that
descends from the target decides, so a cycle behind it is not come upon. Still no history of a memo
can turn an answer into a cycle, or a cycle into an answer: what shares a memo finds what it would
find alone (`shared_searches_find_as_alone`).
-/

namespace NodeFactory.Subtype

open Relation Inquiry Memo

variable {table : SymbolTable} {target : SymbolId}

/-- The inquiry about the descent of a subject. -/
def Subject.descent (table : SymbolTable) (subject : Subject) : Option SymbolId → Descent Bool
  | some target => anyReaches target (subject.heads table)
  | none => return false

/-- The search for the descent of a subject. -/
def Subject.search (table : SymbolTable) : Subject → Option SymbolId → Search Bool
  | .decl id, target => ofDecl table id target
  | .type expr site, target => ofType table expr site target

/-- The same search, through chains of symbols up to a depth. -/
def Subject.searchWithin (table : SymbolTable) (depth : Nat) (subject : Subject)
    (target : Option SymbolId) : Search Bool :=
  (subject.descent table target).run (Subtype.search table depth)

theorem Subject.search_eq (subject : Subject) (target : Option SymbolId) :
    subject.search table target
      = subject.searchWithin table (table.symbols.size + 1) target := by
  cases subject <;> cases target <;> rfl

section Heads

theorem anyReaches_cons_self (ids : List SymbolId) :
    anyReaches target (target :: ids) = pure true := by
  simp only [anyReaches, List.anyM_cons, if_true]
  rfl

theorem anyReaches_cons_of_ne {id : SymbolId} (hne : id ≠ target) (ids : List SymbolId) :
    anyReaches target (id :: ids) = question (id, target) >>= fun descends =>
      if descends then pure true else anyReaches target ids := by
  simp only [anyReaches, List.anyM_cons, if_neg hne]

theorem asks_anyReaches {key : SymbolId × SymbolId} : ∀ {ids : List SymbolId},
    Asks (rule table) (anyReaches target ids) key →
      key.2 = target ∧ key.1 ∈ ids ∧ key.1 ≠ target
  | [], h => absurd h asks_pure
  | id :: ids, h => by
    by_cases hid : id = target
    · subst hid
      rw [anyReaches_cons_self] at h
      exact absurd h asks_pure
    · rw [anyReaches_cons_of_ne hid, asks_bind, asks_question] at h
      rcases h with rfl | ⟨descends, -, h⟩
      · exact ⟨rfl, List.mem_cons_self, hid⟩
      · cases descends with
        | true => exact absurd h asks_pure
        | false =>
          change Asks (rule table) (anyReaches target ids) key at h
          obtain ⟨htarget, hmem, hne⟩ := asks_anyReaches h
          exact ⟨htarget, List.mem_cons_of_mem _ hmem, hne⟩

/-- The inquiry settles on whether a symbol of the list descends from the target, if what it asks
does so. -/
theorem settles_anyReaches {descends : Bool} : ∀ {ids : List SymbolId},
    (∀ id, Asks (rule table) (anyReaches target ids) (id, target) →
      ∀ b, Settles (rule table) (rule table (id, target)) b →
        (b = true ↔ Descends table target id)) →
    Settles (rule table) (anyReaches target ids) descends →
      (descends = true ↔ ∃ id ∈ ids, Descends table target id)
  | [], _, h => by
    obtain rfl := settles_pure.1 h
    simp
  | id :: ids, hasked, h => by
    by_cases hid : id = target
    · subst hid
      rw [anyReaches_cons_self, settles_pure] at h
      subst h
      exact ⟨fun _ => ⟨_, List.mem_cons_self, .refl⟩, fun _ => rfl⟩
    · rw [anyReaches_cons_of_ne hid] at h hasked
      obtain ⟨first, hfirst, hrest⟩ := settles_bind.1 h
      rw [settles_question] at hfirst
      have hiff := hasked id (asks_bind.2 (.inl (asks_question.2 rfl))) first hfirst
      cases first with
      | true =>
        -- The others are not asked about, so nothing is known of them; nothing needs to be.
        obtain rfl := settles_pure.1 hrest
        exact ⟨fun _ => ⟨id, List.mem_cons_self, hiff.1 rfl⟩, fun _ => rfl⟩
      | false =>
        have hnot : ¬ Descends table target id := fun hd => Bool.false_ne_true (hiff.2 hd)
        change Settles (rule table) (anyReaches target ids) descends at hrest
        have ih := settles_anyReaches (fun id' hid' =>
          hasked id' (asks_bind.2 (.inr ⟨false, settles_question.2 hfirst, hid'⟩))) hrest
        rw [ih]
        constructor
        · rintro ⟨id', hmem, hd⟩
          exact ⟨id', List.mem_cons_of_mem _ hmem, hd⟩
        · rintro ⟨id', hmem, hd⟩
          rcases List.mem_cons.1 hmem with rfl | hmem
          · exact absurd hd hnot
          · exact ⟨id', hmem, hd⟩

end Heads

section Keys

variable {key needed : SymbolId × SymbolId}

theorem needs_spec (h : Needs (rule table) key needed) :
    needed.2 = key.2 ∧ needed.1 ∈ table.symbolSupertypes key.1 ∧ needed.1 ≠ key.2 :=
  asks_anyReaches h

/-- Where a question about a symbol other than the target needs another, the symbol leads to the
other's. -/
theorem leads_of_needs (h : TransGen (Needs (rule table)) key needed) :
    needed.2 = key.2 ∧ (key.1 ≠ key.2 → needed.1 ≠ needed.2
      ∧ TransGen (Leads table key.2) (.symbol key.1) (.symbol needed.1)) := by
  induction h with
  | single h =>
    obtain ⟨htarget, hmem, hne⟩ := needs_spec h
    exact ⟨htarget, fun hkey => ⟨htarget ▸ hne, leads_supertype hkey hmem⟩⟩
  | tail _ h ih =>
    obtain ⟨htarget, ih⟩ := ih
    obtain ⟨htarget', hmem, hne⟩ := needs_spec h
    refine ⟨htarget'.trans htarget, fun hkey => ?_⟩
    obtain ⟨hne', hreach⟩ := ih hkey
    refine ⟨htarget' ▸ hne, hreach.trans (leads_supertype ?_ hmem)⟩
    rw [← htarget]
    exact hne'

/-- One target is asked about on a path, and the symbols with supertypes are those of the table. -/
theorem pathsWithin_size (table : SymbolTable) : PathsWithin (rule table) table.symbols.size := by
  refine pathsWithin_of_label Prod.fst ?_ ?_
  · intro key needed h
    exact lt_size_of_supertype (needs_spec h).2.1
  · intro key key' asked h h' heq
    exact Prod.ext heq ((leads_of_needs h).1.symm.trans (leads_of_needs h').1)

theorem settles_rule {id : SymbolId} {descends : Bool} (hne : id ≠ target)
    (h : Settles (rule table) (rule table (id, target)) descends) :
    descends = true ↔ Descends table target id := by
  have hkey := h.induction (motive := fun key => key.1 ≠ key.2 → ∀ b,
    Settles (rule table) (rule table key) b → (b = true ↔ Descends table key.2 key.1)) ?_
  · exact hkey hne descends h
  · intro key _ _ ih hkey b hb
    rw [descends_iff hkey]
    refine settles_anyReaches (fun id hid b' hb' => ?_) hb
    exact ih (id, key.2) hid (asks_anyReaches hid).2.2 b' hb'

end Keys

section Search

variable {depth : Nat}

theorem searchWithin_conforms (hdepth : table.symbols.size < depth) (subject : Subject)
    (target : Option SymbolId) :
    Conforms (rule table) (fun key => table.symbolName key.1) [] (subject.descent table target)
      (subject.searchWithin table depth target empty) :=
  run_conforms_of_visiting_nil _ (pathsWithin_size table) hdepth sound_empty rfl _

theorem settles_descent {subject : Subject} {descends : Bool}
    (h : Settles (rule table) (subject.descent table (some target)) descends) :
    descends = true ↔ Reaches table target subject := by
  rw [reaches_iff]
  refine settles_anyReaches (fun id hid b hb => ?_) h
  exact settles_rule (asks_anyReaches hid).2.2 hb

theorem onCycle_of_needs {subject : Subject} {asked culprit : SymbolId × SymbolId}
    (hasked : Asks (rule table) (subject.descent table (some target)) asked)
    (hreach : ReflTransGen (Needs (rule table)) asked culprit)
    (hcycle : TransGen (Needs (rule table)) culprit culprit) :
    OnCycle table target subject culprit.1 := by
  obtain ⟨htarget, hmem, hne⟩ := asks_anyReaches hasked
  subst htarget
  have hhead : ReflTransGen (Leads table asked.2) (.subject subject) (.symbol asked.1) :=
    (reaches_head hmem).to_reflTransGen
  rcases reflTransGen_iff_eq_or_transGen.1 hreach with rfl | hreach
  · exact ⟨hhead, ((leads_of_needs hcycle).2 hne).2⟩
  · obtain ⟨htarget, hleads⟩ := leads_of_needs hreach
    obtain ⟨hne', hleads⟩ := hleads hne
    refine ⟨hhead.trans hleads.to_reflTransGen, ?_⟩
    rw [← htarget]
    exact ((leads_of_needs hcycle).2 hne').2

/-- On an empty memo a search finds whether the target is reached from the subject, or else the name
of a symbol on a cycle that is. Where no cycle is reached it finds an answer. And no chain of
symbols is cut off: a search that may nest deeper finds the same. -/
theorem search_decides_reachability (table : SymbolTable) (subject : Subject)
    (target : SymbolId) :
    (match found (subject.search table (some target) empty) with
      | .ok descends => (descends = true ↔ Reaches table target subject)
      | .error cycle =>
        ∃ id, OnCycle table target subject id ∧ cycle.name = table.symbolName id)
    ∧ ((∀ id, ¬ OnCycle table target subject id) →
        ∃ descends, found (subject.search table (some target) empty) = .ok descends
          ∧ (descends = true ↔ Reaches table target subject))
    ∧ ∀ depth, table.symbols.size < depth →
        found (subject.searchWithin table depth (some target) empty)
          = found (subject.search table (some target) empty) := by
  rw [Subject.search_eq]
  have h := searchWithin_conforms (Nat.lt_succ_self table.symbols.size) subject (some target)
  have herror : ∀ cycle, found (subject.searchWithin table (table.symbols.size + 1) (some target)
      empty) = .error cycle →
        ∃ id, OnCycle table target subject id ∧ cycle.name = table.symbolName id := by
    intro cycle hc
    obtain ⟨asked, culprit, hasked, hreach, hcycle, hname⟩ := h.cycle hc
    exact ⟨culprit.1, onCycle_of_needs hasked hreach hcycle, hname⟩
  refine ⟨?_, ?_, ?_⟩
  · split
    · rename_i descends hd
      exact settles_descent (h.settles hd)
    · rename_i cycle hc
      exact herror cycle hc
  · intro hacyclic
    cases hf : found (subject.searchWithin table (table.symbols.size + 1) (some target) empty) with
    | ok descends => exact ⟨descends, rfl, settles_descent (h.settles hf)⟩
    | error cycle =>
      obtain ⟨id, hid, -⟩ := herror cycle hf
      exact absurd hid (hacyclic id)
  · intro depth hdepth
    exact (searchWithin_conforms hdepth subject (some target)).found_eq h

end Search

section Queries

/-- A query about a subject and a target, if there is a target. -/
structure Query where
  subject : Subject
  target : Option SymbolId

def Query.search (table : SymbolTable) (query : Query) : Search Bool :=
  query.subject.search table query.target

/-- Whatever was asked before on a shared memo, and whether or not it was answered, a query finds
what it finds on an empty one, and leaves no question open. -/
theorem shared_searches_find_as_alone (table : SymbolTable) (queries : List Query) :
    (session (queries.map (Query.search table)) empty).map Prod.fst
        = queries.map (fun query => found (query.search table empty))
      ∧ ∀ entry ∈ session (queries.map (Query.search table)) empty, entry.2.visiting = [] := by
  have h := session_spec (fun key : SymbolId × SymbolId => table.symbolName key.1)
    (pathsWithin_size table) (Nat.lt_succ_self table.symbols.size)
    (queries.map fun query => query.subject.descent table query.target) empty sound_empty rfl
  simp only [List.map_map] at h
  have hsearch : Query.search table = fun query => (query.subject.descent table query.target).run
      (Memo.search (fun key => table.symbolName key.1) (rule table)
        (table.symbols.size + 1)) := by
    funext query
    exact Subject.search_eq query.subject query.target
  rw [hsearch]
  exact h

end Queries

end NodeFactory.Subtype
