import NodeFactory.Analysis
import NodeFactory.Proofs.AnnotationText
import NodeFactory.Proofs.FieldSelection
import NodeFactory.Proofs.KindOrder
import NodeFactory.Proofs.PropertyEnumeration

/-!
# Which kinds are found

Each interface and each alias declares the kinds that its leading comments annotate, as often as
they do, and the first declaration of a symbol those besides that the metadata list for its name
(`Declares`). Analysis builds one kind for each of these, in the order of the declarations, and then
puts them in the order of their constants; none is lost, and none is added (`discoverFrom_finds`).
-/

namespace NodeFactory

open Memo List

namespace DiscoveryMemo

/-- Neither search is asking anything, and what they remember is right. -/
structure AtRest (table : SymbolTable) (memo : DiscoveryMemo) : Prop where
  properties : Memo.AtRest (Property.rule table) memo.properties
  subtypes : Memo.AtRest (Subtype.rule table) memo.subtypes

variable {α : Type} {table : SymbolTable} {value : α → Prop} {failure : CyclicType → Prop}

theorem atRest_empty (table : SymbolTable) : AtRest table empty :=
  ⟨Memo.atRest_empty _, Memo.atRest_empty _⟩

theorem onProperties_gives {search : Property.Search α} {answer : Except CyclicType α}
    (h : Gives (Memo.AtRest (Property.rule table)) search answer) :
    Gives (AtRest table) (onProperties search) answer := by
  intro memo hmemo
  obtain ⟨hrest, houtcome⟩ := h memo.properties hmemo.properties
  unfold onProperties
  cases hs : search memo.properties with
  | ok _ _ | error _ _ =>
    rw [hs] at hrest houtcome
    exact ⟨⟨hrest, hmemo.subtypes⟩, houtcome⟩

theorem onSubtypes_gives {search : Subtype.Search α} {answer : Except CyclicType α}
    (h : Gives (Memo.AtRest (Subtype.rule table)) search answer) :
    Gives (AtRest table) (onSubtypes search) answer := by
  intro memo hmemo
  obtain ⟨hrest, houtcome⟩ := h memo.subtypes hmemo.subtypes
  unfold onSubtypes
  cases hs : search memo.subtypes with
  | ok _ _ | error _ _ =>
    rw [hs] at hrest houtcome
    exact ⟨⟨hmemo.properties, hrest⟩, houtcome⟩

theorem onProperties_finds {search : Property.Search α}
    (h : Finds (Memo.AtRest (Property.rule table)) search value failure) :
    Finds (AtRest table) (onProperties search) value failure := by
  obtain ⟨answer, hgives, hanswer⟩ := h
  exact ⟨answer, onProperties_gives hgives, hanswer⟩

theorem onSubtypes_finds {search : Subtype.Search α}
    (h : Finds (Memo.AtRest (Subtype.rule table)) search value failure) :
    Finds (AtRest table) (onSubtypes search) value failure := by
  obtain ⟨answer, hgives, hanswer⟩ := h
  exact ⟨answer, onSubtypes_gives hgives, hanswer⟩

end DiscoveryMemo

namespace Model

open DiscoveryMemo

variable (model : Model) (kindEnum : SymbolId)

/-- The members of the kind enum that names stand for. Other names are passed over. -/
def membersNamed (names : List String) : List SymbolId :=
  names.filterMap fun name => (model.table.exports kindEnum).lookup name

/-- Comments annotate kinds: one after the other, those that each names. -/
inductive Annotates : List Text.Span → List SymbolId → Prop
  | nil : Annotates [] []
  | comment {span : Text.Span} {spans : List Text.Span} {names : List String}
      {kinds : List SymbolId} :
      Annotation.Lists model.config.annotations.kind.toList
        model.config.wellKnown.kindEnum.toList (model.textOf span) names →
      Annotates spans kinds →
        Annotates (span :: spans) (model.membersNamed kindEnum names ++ kinds)

/-- A declaration is an interface or an alias. -/
inductive DeclaresType (decl : Declaration) : Prop
  | interface {interface : Interface} : decl.node = .interfaceDecl interface → DeclaresType decl
  | alias {typeAlias : TypeAlias} : decl.node = .aliasDecl typeAlias → DeclaresType decl

/-- A declaration is the first of its symbol. -/
def IsFirst (id : DeclId) (decl : Declaration) : Prop :=
  (model.table.firstDeclaration? decl.symbol).map Prod.fst = some id

/-- The kinds that a declaration declares. The metadata count for the first declaration of a symbol
only, and add each kind once. -/
inductive Declares (id : DeclId) (decl : Declaration) : List SymbolId → Prop
  | other : ¬ DeclaresType decl → Declares id decl []
  | merged {annotated : List SymbolId} : DeclaresType decl → ¬ model.IsFirst id decl →
      model.Annotates kindEnum decl.comments annotated → Declares id decl annotated
  | first {annotated : List SymbolId} : DeclaresType decl → model.IsFirst id decl →
      model.Annotates kindEnum decl.comments annotated →
        Declares id decl (annotated ++
          ((model.membersNamed kindEnum ((model.config.metadata.kinds.find?
            (model.table.symbolName decl.symbol)).getD [])).filter (· ∉ annotated)).eraseDups)

/-- The kinds that declarations, numbered from `id`, declare, each with the declared symbol. -/
inductive Discovers : DeclId → List Declaration → List (SymbolId × SymbolId) → Prop
  | nil {id : DeclId} : Discovers id [] []
  | declaration {id : DeclId} {decl : Declaration} {decls : List Declaration}
      {kinds : List SymbolId} {entries : List (SymbolId × SymbolId)} :
      model.Declares kindEnum id decl kinds → Discovers (id + 1) decls entries →
        Discovers id (decl :: decls) (kinds.map (decl.symbol, ·) ++ entries)

/-- What is built for a declared symbol and a kind that it declares. The fields are those that are
selected from the properties of the symbol. -/
structure IsBuilt (entry : SymbolId × SymbolId) (kind : NodeKind) : Prop where
  name : kind.name = model.table.symbolName entry.2
  value : kind.value = (model.table.symbols[entry.2]?).bind Symbol.value
  symbol : kind.symbol = entry.1
  declaringType : kind.declaringType = model.table.symbolName entry.1
  selected : ∃ isDeclaration properties,
    found (model.isDeclaration entry.1 empty) = .ok isDeclaration
      ∧ found (Property.ofSymbol model.table entry.1 empty) = .ok properties
      ∧ found (model.select ⟨kind.name, kind.declaringType, isDeclaration⟩ properties empty)
        = .ok ⟨kind.fields, kind.requiredCount⟩
  hasChildren : kind.hasChildren = true ↔ ∃ field ∈ kind.fields, field.fieldClass ≠ .plain

/-- The name is that of a symbol on a cycle, of supertypes or of properties. -/
def NamesAnyCycle (cycle : CyclicType) : Prop :=
  ∃ id, cycle.name = model.table.symbolName id
    ∧ ((∃ target subject, Subtype.OnCycle model.table target subject id)
      ∨ ∃ symbol, Property.OnCycle model.table symbol id)

variable {model kindEnum}

section Declared

theorem filter_notMem_concat (listed kinds : List SymbolId) (kind : SymbolId) :
    listed.filter (· ∉ kinds ++ [kind])
      = (listed.filter (· ∉ kinds)).filter fun other => !other == kind := by
  rw [List.filter_filter]
  refine filter_congr fun other _ => ?_
  by_cases h : other = kind <;> simp [h]

/-- Adding kinds one by one adds those that are not there yet, each once. -/
theorem foldl_addKind (listed : List SymbolId) : ∀ kinds : List SymbolId,
    listed.foldl addKind kinds = kinds ++ (listed.filter (· ∉ kinds)).eraseDups := by
  induction listed with
  | nil => simp
  | cons kind listed ih =>
    intro kinds
    rw [List.foldl_cons, addKind, ih]
    by_cases h : kind ∈ kinds
    · rw [if_pos (List.contains_iff_mem.2 h), List.filter_cons_of_neg (by simpa using h)]
    · rw [if_neg (fun hmem => h (List.contains_iff_mem.1 hmem)),
        List.filter_cons_of_pos (by simpa using h), List.eraseDups_cons, filter_notMem_concat,
        List.append_assoc, List.singleton_append]

theorem annotates_annotatedKinds (decl : Declaration) :
    model.Annotates kindEnum decl.comments (model.annotatedKinds kindEnum decl) := by
  unfold annotatedKinds
  simp only []
  induction decl.comments with
  | nil => exact .nil
  | cons span spans ih =>
    rw [List.flatMap_cons, List.filterMap_append]
    have hlists := Annotation.lists_find model.config.annotations.kind.toList
      model.config.wellKnown.kindEnum.toList (model.textOf span)
    have hspan := Annotates.comment hlists ih
    rwa [membersNamed, List.filterMap_map] at hspan

theorem declares_declaredKinds (id : DeclId) (decl : Declaration) :
    model.Declares kindEnum id decl (model.declaredKinds kindEnum id decl) := by
  have hannotates : model.Annotates kindEnum decl.comments (model.annotatedKinds kindEnum decl) :=
    annotates_annotatedKinds decl
  have htype : DeclaresType decl → model.Declares kindEnum id decl
      (if ((model.table.firstDeclaration? decl.symbol).map Prod.fst) == some id then
        (model.metadataKinds kindEnum decl).foldl addKind (model.annotatedKinds kindEnum decl)
      else model.annotatedKinds kindEnum decl) := by
    intro htype
    split
    · rename_i hfirst
      rw [foldl_addKind]
      exact .first htype (eq_of_beq hfirst) hannotates
    · rename_i hfirst
      refine .merged htype (fun h => hfirst ?_) hannotates
      rw [h]
      exact beq_self_eq_true _
  unfold declaredKinds
  split
  · rename_i hnode
    exact htype (.interface hnode)
  · rename_i hnode
    exact htype (.alias hnode)
  · rename_i hinterface halias
    refine .other fun h => ?_
    rcases h with hnode | hnode
    · exact hinterface _ hnode
    · exact halias _ hnode

end Declared

section Built

variable (model)

theorem isDeclaration_finds (symbol : SymbolId) :
    Finds (Memo.AtRest (Subtype.rule model.table)) (model.isDeclaration symbol) (fun _ => True)
      model.NamesAnyCycle := by
  unfold isDeclaration
  split
  · rename_i decl _ _
    refine (Subtype.Subject.search_finds model.table (.decl decl) model.wellKnown.declaration).mono
      (fun _ _ => trivial) ?_
    rintro cycle ⟨target, culprit, -, hcycle, hname⟩
    exact ⟨culprit, hname, .inl ⟨target, _, hcycle⟩⟩
  · exact .pure trivial

theorem ofSymbol_finds (symbol : SymbolId) :
    Finds (Memo.AtRest (Property.rule model.table)) (Property.ofSymbol model.table symbol)
      (fun properties => (Property.names properties).Nodup) model.NamesAnyCycle := by
  have hgives := gives_run model.table.symbolName (Property.pathsWithin_size model.table)
    (Nat.lt_succ_self _) (.question symbol : Property.Enumeration (List Property))
  rw [Inquiry.run_question] at hgives
  have hconforms := Property.ofSymbol_conforms_empty model.table symbol
  refine ⟨_, hgives, ?_⟩
  split
  · rename_i properties hfound
    exact Property.nodup_of_settles (Inquiry.settles_question.1 (hconforms.settles hfound))
  · rename_i cycle hfound
    obtain ⟨asked, culprit, hasked, hreach, hcycle, hname⟩ := hconforms.cycle hfound
    obtain rfl := Inquiry.asks_question.1 hasked
    exact ⟨culprit, hname, .inr ⟨_, Property.onCycle_of_needs hreach hcycle⟩⟩

theorem namesAnyCycle_of_select {target : Target} {properties : List Property} {cycle : CyclicType}
    (h : ∃ property ∈ properties, model.NamesCycleOf target property cycle) :
    model.NamesAnyCycle cycle := by
  obtain ⟨property, -, -, type, -, node, culprit, -, hcycle, hname⟩ := h
  exact ⟨culprit, hname, .inl ⟨node, _, hcycle⟩⟩

theorem any_isChild {fields : List Field} :
    (fields.any fun field => field.fieldClass.isChild) = true
      ↔ ∃ field ∈ fields, field.fieldClass ≠ .plain := by
  simp only [List.any_eq_true, ne_eq, ← isChild_eq_false, Bool.not_eq_false]

theorem buildKind_finds {symbol : SymbolId} {isDeclaration : Bool} {properties : List Property}
    (hdeclaration : found (model.isDeclaration symbol empty) = .ok isDeclaration)
    (hproperties : found (Property.ofSymbol model.table symbol empty) = .ok properties)
    (hnames : (Property.names properties).Nodup) (kind : SymbolId) :
    Finds (DiscoveryMemo.AtRest model.table)
      (model.buildKind symbol isDeclaration properties kind)
      (model.IsBuilt (symbol, kind)) model.NamesAnyCycle := by
  unfold buildKind
  have hselect := onSubtypes_finds (finds_alone (select_finds model
    ⟨model.table.symbolName kind, model.table.symbolName symbol, isDeclaration⟩ hnames))
  refine hselect.bind (fun selection hselection => .pure ?_) fun _ => model.namesAnyCycle_of_select
  exact ⟨rfl, rfl, rfl, rfl, ⟨isDeclaration, properties, hdeclaration, hproperties, hselection.2⟩,
    any_isChild⟩

theorem kindsOf_finds (kindEnum : SymbolId) (id : DeclId) (decl : Declaration) :
    Finds (DiscoveryMemo.AtRest model.table) (model.kindsOf kindEnum id decl)
      (fun kinds => Forall₂ model.IsBuilt
        ((model.declaredKinds kindEnum id decl).map (decl.symbol, ·)) kinds)
      model.NamesAnyCycle := by
  unfold kindsOf
  simp only []
  split
  · rename_i hempty
    rw [List.isEmpty_iff.1 hempty]
    exact .pure .nil
  · refine (onSubtypes_finds (finds_alone (model.isDeclaration_finds decl.symbol))).bind
      (fun isDeclaration hdeclaration => ?_) fun _ h => h
    refine (onProperties_finds (finds_alone (model.ofSymbol_finds decl.symbol))).bind
      (fun properties hproperties => ?_) fun _ h => h
    refine (Finds.mapM (model.buildKind_finds hdeclaration.2 hproperties.2 hproperties.1) _).mono
      (fun kinds hkinds => ?_) fun _ h => h
    exact forall₂_map_left_iff.2 hkinds

/-- The kinds that declarations, numbered from `id`, declare, each with the declared symbol. -/
def entriesFrom (kindEnum : SymbolId) (id : DeclId) (decls : List Declaration) :
    List (SymbolId × SymbolId) :=
  (decls.zipIdx id).flatMap fun (decl, id) =>
    (model.declaredKinds kindEnum id decl).map (decl.symbol, ·)

theorem discovers_entriesFrom (kindEnum : SymbolId) : ∀ (id : DeclId) (decls : List Declaration),
    model.Discovers kindEnum id decls (model.entriesFrom kindEnum id decls)
  | _, [] => .nil
  | id, decl :: decls =>
    .declaration (declares_declaredKinds id decl) (discovers_entriesFrom kindEnum (id + 1) decls)

theorem discoverFrom_builds (kindEnum : SymbolId) : ∀ (id : DeclId) (decls : List Declaration),
    Finds (DiscoveryMemo.AtRest model.table) (model.discoverFrom kindEnum id decls)
      (Forall₂ model.IsBuilt (model.entriesFrom kindEnum id decls)) model.NamesAnyCycle
  | _, [] => .pure .nil
  | id, decl :: decls => by
    unfold discoverFrom
    refine (model.kindsOf_finds kindEnum id decl).bind (fun kinds hkinds => ?_) fun _ h => h
    refine (discoverFrom_builds kindEnum (id + 1) decls).bind (fun others hothers => .pure ?_)
      fun _ h => h
    exact rel_append hkinds hothers

/-- Discovery builds one kind for each that the declarations declare, in their order, or else it
names a cycle. -/
theorem discoverFrom_finds (kindEnum : SymbolId) (id : DeclId) (decls : List Declaration) :
    Finds (DiscoveryMemo.AtRest model.table) (model.discoverFrom kindEnum id decls)
      (fun kinds => ∃ entries, model.Discovers kindEnum id decls entries
        ∧ Forall₂ model.IsBuilt entries kinds)
      model.NamesAnyCycle :=
  (model.discoverFrom_builds kindEnum id decls).mono
    (fun _ hbuilt => ⟨_, model.discovers_entriesFrom kindEnum id decls, hbuilt⟩) fun _ h => h

end Built

end Model

/-- The kinds of a model are those that its declarations declare, in the order of their constants.
-/
theorem Model.kinds_spec (model : Model) (kindEnum : SymbolId) :
    match model.kinds kindEnum with
    | .ok kinds => ∃ entries discovered,
        model.Discovers kindEnum 0 model.table.declarations.toList entries
          ∧ Forall₂ model.IsBuilt entries discovered
          ∧ NodeKind.IsStablySorted discovered kinds
    | .error cycle => model.NamesAnyCycle cycle := by
  have h := (model.discoverFrom_finds kindEnum 0 model.table.declarations.toList).outcome
    (DiscoveryMemo.atRest_empty model.table)
  unfold Model.kinds
  cases hrun : model.discoverFrom kindEnum 0 model.table.declarations.toList .empty with
  | ok discovered _ =>
    rw [hrun] at h
    obtain ⟨entries, hdiscovers, hbuilt⟩ := h
    exact ⟨entries, discovered, hdiscovers, hbuilt, NodeKind.isStablySorted_mergeSort discovered⟩
  | error cycle _ =>
    rw [hrun] at h
    exact h

/-- The kinds of a model are one for each entry. -/
theorem Model.kinds_builds {model : Model} {kindEnum : SymbolId} {kinds : List NodeKind}
    (h : model.kinds kindEnum = .ok kinds) :
    ∃ discovered, Forall₂ model.IsBuilt
        (model.entriesFrom kindEnum 0 model.table.declarations.toList) discovered
      ∧ kinds.Perm discovered := by
  have hbuilds := (model.discoverFrom_builds kindEnum 0 model.table.declarations.toList).outcome
    (DiscoveryMemo.atRest_empty model.table)
  unfold Model.kinds at h
  cases hrun : model.discoverFrom kindEnum 0 model.table.declarations.toList .empty with
  | ok discovered _ =>
    rw [hrun] at h hbuilds
    cases h
    exact ⟨discovered, hbuilds, mergeSort_perm discovered _⟩
  | error cycle _ =>
    rw [hrun] at h
    cases h

theorem analyze_eq_ok_iff {config : Config} {text : List Char} {kinds : List NodeKind} :
    analyze config text = .ok kinds ↔ (Schema.parse text).errors = []
      ∧ ∃ kindEnum, (Model.ofSchema config (Schema.parse text)).wellKnown.kindEnum = some kindEnum
        ∧ (Model.ofSchema config (Schema.parse text)).kinds kindEnum = .ok kinds := by
  by_cases herrors : (Schema.parse text).errors = []
  · cases henum : (Model.ofSchema config (Schema.parse text)).wellKnown.kindEnum with
    | none => simp [analyze, herrors, henum]
    | some kindEnum =>
      cases hrun : (Model.ofSchema config (Schema.parse text)).kinds kindEnum <;>
        simp [analyze, herrors, henum, hrun]
  · simp [analyze, herrors]

end NodeFactory
