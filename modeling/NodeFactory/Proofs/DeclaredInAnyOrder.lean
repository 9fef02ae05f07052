import Mathlib.Data.List.Sigma
import NodeFactory.Proofs.CorrespondingKinds
import NodeFactory.Proofs.EnumConstants
import NodeFactory.Proofs.KindOrder
import NodeFactory.Proofs.WellKnownRoles

/-!
# Declarations in any order

Where each statement declares a name of its own and the enums keep their order, what is declared at a path
does not depend on the order of the statements (`Reordered.occurrencesAt_eq`), so the tables correspond, and
every declaration has its match (`SymbolTable.exists_entries`). Each gives the same kinds as its match, hence
the kinds of all are the same, in the order of their constants (`kinds_of_reordered`).
-/

namespace NodeFactory

open List Relator

/-- The same statements in another order: each declares something other than a namespace, of a name of its
own, and the enums come in the same order. -/
structure Reordered (statements statements' : List Statement) : Prop where
  perm : statements.Perm statements'
  declares : ∀ statement ∈ statements, statement.declaredName?.isSome
  names : (statements.map Statement.declaredName?).Nodup
  enums : statements.filter Statement.isEnum = statements'.filter Statement.isEnum

/-- Where elements are matched one to one, some order of the others goes with the order of the first. -/
theorem exists_perm_forall₂ {α β : Type} {R : α → β → Prop} (hunique : BiUnique R) {as : List α} {bs : List β}
    (has : as.Nodup) (hbs : bs.Nodup) (htotal : ∀ a ∈ as, ∃ b ∈ bs, R a b)
    (honto : ∀ b ∈ bs, ∃ a ∈ as, R a b) : ∃ matched, matched.Perm bs ∧ Forall₂ R as matched := by
  have hexists : ∃ matched, Forall₂ R as matched := by
    clear has honto
    induction as with
    | nil => exact ⟨[], .nil⟩
    | cons a as ih =>
      obtain ⟨⟨b, -, hb⟩, hothers⟩ := forall_mem_cons.1 htotal
      obtain ⟨matched, hmatched⟩ := ih hothers
      exact ⟨b :: matched, .cons hb hmatched⟩
  obtain ⟨matched, hmatched⟩ := hexists
  refine ⟨matched, (perm_ext_iff_of_nodup ((rel_nodup hunique hmatched).1 has) hbs).2 fun b => ?_, hmatched⟩
  constructor
  · intro hb
    obtain ⟨a, ha, hab⟩ := exists_of_forall₂ hmatched hb
    obtain ⟨b', hb', hab'⟩ := htotal a ha
    rwa [hunique.right hab hab']
  · intro hb
    obtain ⟨a, ha, hab⟩ := honto b hb
    obtain ⟨b', hb', hab'⟩ := exists_of_forall₂ hmatched.flip ha
    rwa [hunique.right hab hab']

section Paths

variable {statements statements' : List Statement}

theorem Reordered.symm (h : Reordered statements statements') : Reordered statements' statements where
  perm := h.perm.symm
  declares statement hmem := h.declares statement (h.perm.mem_iff.2 hmem)
  names := (h.perm.map Statement.declaredName?).nodup_iff.1 h.names
  enums := h.enums.symm

/-- The statements of one name are the same. -/
theorem Reordered.filter_name (h : Reordered statements statements') (name? : Option String) :
    statements.filter (fun statement => statement.declaredName? = name?)
      = statements'.filter fun statement => statement.declaredName? = name? := by
  have hperm := h.perm.filter fun statement => statement.declaredName? = name?
  have hnames : ((statements.filter fun statement => statement.declaredName? = name?).map
      Statement.declaredName?).Nodup := h.names.sublist (filter_sublist.map _)
  have hname : ∀ statement ∈ statements.filter (fun statement => statement.declaredName? = name?),
      statement.declaredName? = name? := fun statement hmem => of_decide_eq_true (mem_filter.1 hmem).2
  generalize statements.filter (fun statement => statement.declaredName? = name?) = named at *
  match named with
  | [] => exact (nil_perm.1 hperm).symm
  | [statement] => exact singleton_perm.1 hperm
  | first :: second :: rest =>
    obtain ⟨hfirst, hsecond, -⟩ := forall_mem_cons.1 hname |>.imp_right forall_mem_cons.1
    simp [hfirst, hsecond] at hnames

/-- What is declared at a path is declared by the statements that have its outermost name. -/
theorem occurrencesAt_eq_filter (path : List String)
    (hdeclares : ∀ statement ∈ statements, statement.declaredName?.isSome) : occurrencesAt path statements
      = occurrencesAt path (statements.filter fun statement => statement.declaredName? = path.head?) := by
  induction statements with
  | nil => rfl
  | cons statement statements ih =>
    obtain ⟨hfirst, hothers⟩ := forall_mem_cons.1 hdeclares
    rw [← singleton_append, occurrencesAt_append, filter_append, occurrencesAt_append, ih hothers]
    congr 1
    by_cases hname : statement.declaredName? = path.head?
    · rw [filter_cons_of_pos (by simpa using hname), filter_nil]
    · rw [filter_cons_of_neg (by simpa using hname), filter_nil]
      obtain ⟨name, hdeclared⟩ := Option.isSome_iff_exists.1 hfirst
      refine filter_eq_nil_iff.2 fun occurrence hmem hfull => hname ?_
      rw [occurrencesIn_eq_flatMap, flatMap_singleton] at hmem
      rw [hdeclared, ← of_decide_eq_true hfull, statement.head_fullPath hdeclared hmem]

theorem Reordered.occurrencesAt_eq (h : Reordered statements statements') (path : List String) :
    occurrencesAt path statements = occurrencesAt path statements' := by
  rw [occurrencesAt_eq_filter path h.declares, h.filter_name, ← occurrencesAt_eq_filter path h.symm.declares]

end Paths

namespace SymbolTable

variable {statements statements' : List Statement} {table table' : SymbolTable}

/-- Everything in the same place is matched. -/
def samePlaces (table table' : SymbolTable) : Matching :=
  matchingAt (fun _ => True) (fun _ => True) table table'

theorem SamePath.symm {known : String → Prop} {i i' : SymbolId} (h : SamePath known table table' i i') :
    SamePath known table' table i' i := by
  obtain ⟨path, hknown, hpath, hpath'⟩ := h
  exact ⟨path, hknown, hpath', hpath⟩

theorem SamePlace.symm {known : String → Prop} {d d' : DeclId} (h : SamePlace known table table' d d') :
    SamePlace known table' table d' d := by
  obtain ⟨i, i', symbol, symbol', k, hi, hsymbol, hsymbol', hk, hk'⟩ := h
  exact ⟨i', i, symbol', symbol, k, hi.symm, hsymbol', hsymbol, hk', hk⟩

section Reordered

variable (h : Reordered statements statements')
include h

/-- The tables of reordered statements correspond. -/
theorem corresponds_of_reordered : (ofStatements statements).Corresponds
    (samePlaces (ofStatements statements) (ofStatements statements')) (ofStatements statements') := by
  refine corresponds_of_occurrences (fun path _ => h.occurrencesAt_eq path)
    (fun hi => value_of_enums h.declares h.symm.declares h.enums hi) (fun _ _ => trivial) fun occurrence _ => ?_
  exact ⟨fun _ _ => trivial, .node (.member occurrence.comments) ⟨0, 0⟩ [], trivial, rfl⟩

theorem exists_samePlace {d : DeclId} {decl : Declaration}
    (hdecl : (ofStatements statements).declarations[d]? = some decl) :
    ∃ d', SamePlace (fun _ => True) (ofStatements statements) (ofStatements statements') d d' := by
  have hc := Coherent.ofStatements statements
  have hsame : ∀ path, KnownPath (fun _ => True) path →
      occurrencesAt path statements = occurrencesAt path statements' := fun path _ => h.occurrencesAt_eq path
  obtain ⟨symbol, hsymbol, hmem, -⟩ := hc.declared hdecl
  obtain ⟨path, hpath⟩ := hc.exists_located (hasScope_of_symbol hsymbol)
  have hknown : KnownPath (fun _ => True) path := fun _ _ => trivial
  obtain ⟨i', hpath'⟩ := (exists_located_iff_of_same hsame hknown).1 ⟨_, hpath⟩
  obtain ⟨symbol', -, -, hsymbol', -⟩ := hpath'.cases_some
  have hdeclarations := samePlace_declarations hsame ⟨path, hknown, hpath, hpath'⟩ hsymbol hsymbol'
  obtain ⟨d', -, hd⟩ := exists_of_forall₂ hdeclarations.flip hmem
  exact ⟨d', hd⟩

/-- Numbered declarations of two tables in the same place. -/
structure SameEntry (table table' : SymbolTable) (entry entry' : Declaration × DeclId) : Prop where
  place : SamePlace (fun _ => True) table table' entry.2 entry'.2
  mem : entry ∈ table.declarations.toList.zipIdx
  mem' : entry' ∈ table'.declarations.toList.zipIdx

omit h in
theorem sameEntry_unique (hc : table.Coherent) (hc' : table'.Coherent) : BiUnique (SameEntry table table') := by
  have hunique : BiUnique (SamePlace (fun _ => True) table table') := samePlace_unique hc hc'
  constructor
  · intro entry other entry' h h'
    exact inj_on_of_nodup_map (nodup_zipIdx_map_snd _) h.mem h'.mem (hunique.left h.place h'.place)
  · intro entry entry' other' h h'
    exact inj_on_of_nodup_map (nodup_zipIdx_map_snd _) h.mem' h'.mem' (hunique.right h.place h'.place)

theorem SameEntry.agrees {entry entry' : Declaration × DeclId}
    (hentry : SameEntry (ofStatements statements) (ofStatements statements') entry entry') :
    entry.1.Agrees (samePlaces (ofStatements statements) (ofStatements statements')) entry'.1 := by
  obtain ⟨hplace, hmem, hmem'⟩ := hentry
  obtain ⟨decl, decl', hdecl, hdecl', hagrees⟩ := (corresponds_of_reordered h).decl hplace
  rw [mem_zipIdx_iff_getElem?, Array.getElem?_toList] at hmem hmem'
  obtain rfl := Option.some.inj (hdecl.symm.trans hmem)
  obtain rfl := Option.some.inj (hdecl'.symm.trans hmem')
  exact hagrees

theorem exists_sameEntry {entry : Declaration × DeclId}
    (hmem : entry ∈ (ofStatements statements).declarations.toList.zipIdx) :
    ∃ entry' ∈ (ofStatements statements').declarations.toList.zipIdx,
      SameEntry (ofStatements statements) (ofStatements statements') entry entry' := by
  have hdecl := hmem
  rw [mem_zipIdx_iff_getElem?, Array.getElem?_toList] at hdecl
  obtain ⟨d', hd⟩ := exists_samePlace h hdecl
  obtain ⟨-, decl', -, hdecl', -⟩ := (corresponds_of_reordered h).decl hd
  have hmem' : (decl', d') ∈ (ofStatements statements').declarations.toList.zipIdx := by
    rwa [mem_zipIdx_iff_getElem?, Array.getElem?_toList]
  exact ⟨(decl', d'), hmem', hd, hmem, hmem'⟩

/-- The declarations of reordered statements are the same but for their numbers, in another order. -/
theorem exists_entries : ∃ entries, entries.Perm (ofStatements statements').declarations.toList.zipIdx
    ∧ Forall₂ (SameEntry (ofStatements statements) (ofStatements statements'))
      (ofStatements statements).declarations.toList.zipIdx entries := by
  refine exists_perm_forall₂ (sameEntry_unique (Coherent.ofStatements _) (Coherent.ofStatements _))
    (nodup_zipIdx_map_snd _).of_map (nodup_zipIdx_map_snd _).of_map (fun _ => exists_sameEntry h)
    fun entry' hmem' => ?_
  obtain ⟨entry, hmem, hentry⟩ := exists_sameEntry h.symm hmem'
  exact ⟨entry, hmem, hentry.place.symm, hmem, hmem'⟩

end Reordered

end SymbolTable

section Roles

variable {names : WellKnownNames} {statements statements' : List Statement} {role : Role}

/-- Something is found for a role if a statement declares it. -/
theorem exists_get_iff : (∃ id, (WellKnown.find (.ofStatements statements) names).get role = some id)
    ↔ ∃ occurrence ∈ occurrencesIn [] statements, occurrence.node.role? names = some role := by
  have hrecords := (SymbolTable.ofStatements_adds statements []).2.1
  constructor
  · rintro ⟨id, hid⟩
    obtain ⟨decl, hmem, hrole, -⟩ := WellKnown.exists_declaration_of_get names hid
    obtain ⟨occurrence, hoccurrence, hrecorded⟩ := exists_of_forall₂ hrecords.flip hmem
    exact ⟨occurrence, hoccurrence, hrecorded.node ▸ hrole⟩
  · rintro ⟨occurrence, hmem, hrole⟩
    obtain ⟨decl, hdecl, hrecorded⟩ := exists_of_forall₂ hrecords hmem
    have hne : (SymbolTable.ofStatements statements).declarations.toList.filter
        (fun decl => decl.node.role? names = some role) ≠ [] :=
      ne_nil_of_mem (mem_filter.2 ⟨hdecl, by simpa [hrecorded.node] using hrole⟩)
    rw [WellKnown.get_find, getLast?_eq_some_getLast hne]
    exact ⟨_, rfl⟩

/-- What is found for a role is at the path of the name of the role. -/
theorem located_of_get (hdeclares : ∀ statement ∈ statements, statement.declaredName?.isSome) {id : SymbolId}
    (hid : (WellKnown.find (.ofStatements statements) names).get role = some id) :
    (SymbolTable.ofStatements statements).Located [names.name role] (some id) := by
  have hrecords := (SymbolTable.ofStatements_adds statements []).2.1
  obtain ⟨decl, hmem, hrole, rfl⟩ := WellKnown.exists_declaration_of_get names hid
  obtain ⟨occurrence, hoccurrence, hrecorded⟩ := exists_of_forall₂ hrecords.flip hmem
  rw [hrecorded.node] at hrole
  obtain ⟨statement, hstatement, hoccurrence⟩ := mem_occurrencesIn.1 hoccurrence
  obtain ⟨name, hname⟩ := Option.isSome_iff_exists.1 (hdeclares statement hstatement)
  rw [← statement.fullPath_of_role? hname hoccurrence hrole]
  exact hrecorded.symbol

end Roles

section Kinds

variable {config : Config} {text : List Char} {statements statements' : List Statement}
  {errors errors' : List ParseError}

/-- What has a role is in the same place. -/
theorem Reordered.get (h : Reordered statements statements') (names : WellKnownNames) (role : Role) :
    Option.Rel (SymbolTable.SamePath (fun _ => True) (.ofStatements statements) (.ofStatements statements'))
      ((WellKnown.find (.ofStatements statements) names).get role)
      ((WellKnown.find (.ofStatements statements') names).get role) := by
  have hexists : (∃ id, (WellKnown.find (.ofStatements statements) names).get role = some id)
      ↔ ∃ id, (WellKnown.find (.ofStatements statements') names).get role = some id := by
    simp only [exists_get_iff, mem_occurrencesIn, h.perm.mem_iff]
  cases hid : (WellKnown.find (.ofStatements statements) names).get role with
  | none =>
    cases hid' : (WellKnown.find (.ofStatements statements') names).get role with
    | none => exact .none
    | some id' =>
      obtain ⟨id, hfound⟩ := hexists.2 ⟨id', hid'⟩
      cases hid.symm.trans hfound
  | some id =>
    obtain ⟨id', hid'⟩ := hexists.1 ⟨id, hid⟩
    rw [hid']
    exact .some ⟨_, fun _ _ => trivial, located_of_get h.declares hid, located_of_get h.symm.declares hid'⟩

theorem Reordered.corresponds (h : Reordered statements statements') (config : Config) (text : List Char)
    (errors errors' : List ParseError) : (Model.ofSchema config ⟨text, statements, errors⟩).Corresponds
      (SymbolTable.samePlaces (.ofStatements statements) (.ofStatements statements'))
      (Model.ofSchema config ⟨text, statements', errors'⟩) :=
  ⟨rfl, SymbolTable.corresponds_of_reordered h, h.get _ .node, h.get _ .nodeArray, h.get _ .modifiersArray,
    h.get _ .declaration, fun _ _ => rfl, fun _ _ _ _ => rfl⟩

/-- A declaration gives the same kinds as its match. -/
theorem Reordered.given (h : Reordered statements statements') (config : Config) (text : List Char)
    (errors errors' : List ParseError) {kindEnum kindEnum' : SymbolId} (hkindEnum : SymbolTable.SamePath
      (fun _ => True) (.ofStatements statements) (.ofStatements statements') kindEnum kindEnum')
    {entry entry' : Declaration × DeclId}
    (hentry : SymbolTable.SameEntry (.ofStatements statements) (.ofStatements statements') entry entry') :
    AnswersAlike (Forall₂ (NodeKind.Agrees
        (SymbolTable.samePlaces (.ofStatements statements) (.ofStatements statements'))))
      ((Model.ofSchema config ⟨text, statements, errors⟩).given kindEnum entry)
      ((Model.ofSchema config ⟨text, statements', errors'⟩).given kindEnum' entry') := by
  have hplace : (SymbolTable.samePlaces (.ofStatements statements) (.ofStatements statements')).decl
      entry.2 entry'.2 := hentry.place
  exact (h.corresponds config text errors errors').given hkindEnum hplace (hentry.agrees h)

/-- The kinds of a model are those that its declarations give, sorted. -/
theorem Model.isStablySorted_kinds {model : Model} {kindEnum : SymbolId} {kinds : List NodeKind}
    (h : model.kinds kindEnum = .ok kinds) : ∃ found,
      collect (model.table.declarations.toList.zipIdx.map (model.given kindEnum)) = .ok found
        ∧ NodeKind.IsStablySorted found kinds := by
  rw [kinds_eq_collect] at h
  cases hfound : collect (model.table.declarations.toList.zipIdx.map (model.given kindEnum)) with
  | error cycle =>
    rw [hfound] at h
    cases h
  | ok found =>
    rw [hfound] at h
    obtain rfl := Except.ok.inj h
    exact ⟨found, rfl, NodeKind.isStablySorted_mergeSort found⟩

theorem Model.kinds_of_collect {model : Model} {kindEnum : SymbolId} {found : List NodeKind}
    (h : collect (model.table.declarations.toList.zipIdx.map (model.given kindEnum)) = .ok found) :
    model.kinds kindEnum = .ok (found.mergeSort fun a b => NodeKind.valueLe a.value b.value) := by
  rw [kinds_eq_collect, h]
  rfl

theorem map_unnumbered_eq {m : Matching} {kinds kinds' : List NodeKind}
    (h : Forall₂ (NodeKind.Agrees m) kinds kinds') :
    kinds.map NodeKind.unnumbered = kinds'.map NodeKind.unnumbered := by
  induction h with
  | nil => rfl
  | cons hfirst _ ih => rw [map_cons, map_cons, hfirst.2, ih]

/-- Where the kinds of statements are found, those of the statements in another order are. -/
theorem Reordered.exists_kinds (h : Reordered statements statements') {kinds : List NodeKind}
    (hkinds : Schema.kinds config ⟨text, statements, errors⟩ = .ok kinds) :
    ∃ kinds', Schema.kinds config ⟨text, statements', errors'⟩ = .ok kinds'
      ∧ (kinds.map NodeKind.unnumbered).Perm (kinds'.map NodeKind.unnumbered) := by
  obtain ⟨kindEnum, hkindEnum, hkinds⟩ := Schema.kinds_eq_ok_iff.1 hkinds
  obtain ⟨found, hfound, hsorted⟩ := Model.isStablySorted_kinds hkinds
  have hrole := h.get config.wellKnown .kindEnum
  rw [show (WellKnown.find (.ofStatements statements) config.wellKnown).get .kindEnum = some kindEnum
    from hkindEnum] at hrole
  generalize hkindEnum' : (WellKnown.find (.ofStatements statements') config.wellKnown).get .kindEnum
    = kindEnum? at hrole
  cases hrole with
  | @some _ kindEnum' hsame =>
    obtain ⟨entries, hperm, hentries⟩ := SymbolTable.exists_entries h
    have halike := Model.collect_alike (forall₂_map_left_iff.2 <| forall₂_map_right_iff.2 <|
      hentries.imp fun _ _ => h.given config text errors errors' hsame)
    change Model.collect (map _ (SymbolTable.ofStatements statements).declarations.toList.zipIdx) = _ at hfound
    rw [hfound] at halike
    generalize hmatched : Model.collect (entries.map ((Model.ofSchema config
      ⟨text, statements', errors'⟩).given kindEnum')) = answer at halike
    cases halike with
    | @ok _ matched hagree =>
      obtain ⟨found', hfound', hperm'⟩ := Model.collect_perm (hperm.map _) hmatched
      have hkinds' : (Model.ofSchema config ⟨text, statements', errors'⟩).kinds kindEnum'
          = .ok (found'.mergeSort fun a b => NodeKind.valueLe a.value b.value) :=
        Model.kinds_of_collect hfound'
      refine ⟨_, Schema.kinds_eq_ok_iff.2 ⟨kindEnum', hkindEnum', hkinds'⟩, ?_⟩
      calc
        kinds.map NodeKind.unnumbered ~ found.map NodeKind.unnumbered := hsorted.perm.map _
        _ = matched.map NodeKind.unnumbered := map_unnumbered_eq hagree
        _ ~ found'.map NodeKind.unnumbered := hperm'.map _
        _ ~ _ := (mergeSort_perm found' _).symm.map _

theorem Schema.ordered_of_kinds {schema : Schema} {kinds : List NodeKind}
    (h : schema.kinds config = .ok kinds) : kinds.Pairwise fun a b => NodeKind.ValueLe a.value b.value := by
  obtain ⟨kindEnum, -, hkinds⟩ := Schema.kinds_eq_ok_iff.1 h
  obtain ⟨found, -, hsorted⟩ := Model.isStablySorted_kinds hkinds
  exact hsorted.ordered

/-- A kind enum, and two kinds with a field each. -/
def pairSchema : Schema := Schema.parse
  "enum SyntaxKind \x7b List, Tail \x7d
// @kind(SyntaxKind.List)
interface List \x7b next: Tail; \x7d
// @kind(SyntaxKind.Tail)
interface Tail \x7b end: string; \x7d".toList

end Kinds

end NodeFactory
