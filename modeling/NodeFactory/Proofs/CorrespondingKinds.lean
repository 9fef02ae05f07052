import NodeFactory.Proofs.CorrespondingProperties
import NodeFactory.Proofs.KindDiscovery

/-!
# Corresponding kinds

In models whose tables correspond, with texts that read the same where types and comments are written, a
declaration declares the same kinds with the same fields, or the search for them fails at the same name
(`Corresponds.kindsOf`). The kinds of a model are put together from what each declaration gives
(`kinds_eq_collect`), so they are the same as far as the declarations are.
-/

namespace NodeFactory

open List DiscoveryMemo

/-- A kind without the number of the symbol that declares it. -/
def NodeKind.unnumbered (kind : NodeKind) : NodeKind :=
  { kind with symbol := 0 }

theorem NodeKind.eq_of_unnumbered {kind kind' : NodeKind} (hsymbol : kind.symbol = kind'.symbol)
    (h : kind.unnumbered = kind'.unnumbered) : kind = kind' := by
  cases kind
  cases kind'
  simp_all [unnumbered]

/-- Kinds that agree but for the numbers. -/
def NodeKind.Agrees (m : Matching) (kind kind' : NodeKind) : Prop :=
  m.symbol kind.symbol kind'.symbol ∧ kind.unnumbered = kind'.unnumbered

namespace DiscoveryMemo

variable {α α' : Type} {table table' : SymbolTable} {R : α → α' → Prop}

theorem onProperties_givesAlike {search : Property.Search α} {search' : Property.Search α'}
    (h : GivesAlike (Memo.AtRest (Property.rule table)) (Memo.AtRest (Property.rule table')) R search
      search') : GivesAlike (AtRest table) (AtRest table') R (onProperties search) (onProperties search') := by
  obtain ⟨answer, answer', hgives, hgives', halike⟩ := h
  exact ⟨answer, answer', onProperties_gives hgives, onProperties_gives hgives', halike⟩

theorem onSubtypes_givesAlike {search : Subtype.Search α} {search' : Subtype.Search α'}
    (h : GivesAlike (Memo.AtRest (Subtype.rule table)) (Memo.AtRest (Subtype.rule table')) R search
      search') : GivesAlike (AtRest table) (AtRest table') R (onSubtypes search) (onSubtypes search') := by
  obtain ⟨answer, answer', hgives, hgives', halike⟩ := h
  exact ⟨answer, answer', onSubtypes_gives hgives, onSubtypes_gives hgives', halike⟩

end DiscoveryMemo

namespace Model

/-- The tables and the well-known declarations correspond, and the texts of the types and of the
comments that the declarations have are the same. -/
structure Corresponds (m : Matching) (model model' : Model) : Prop where
  config : model'.config = model.config
  table : model.table.Corresponds m model'.table
  node : Option.Rel m.symbol model.wellKnown.node model'.wellKnown.node
  nodeArray : Option.Rel m.symbol model.wellKnown.nodeArray model'.wellKnown.nodeArray
  modifiersArray : Option.Rel m.symbol model.wellKnown.modifiersArray model'.wellKnown.modifiersArray
  declaration : Option.Rel m.symbol model.wellKnown.declaration model'.wellKnown.declaration
  typeText {node : Outline} : m.node node → node.sort = .type →
    model'.textOf node.span = model.textOf node.span
  commentText {node : Outline} {comments : List Text.Span} : m.node node →
    node.sort.comments? = some comments → ∀ span ∈ comments, model'.textOf span = model.textOf span

namespace Corresponds

variable {m : Matching} {model model' : Model} (h : model.Corresponds m model')

section Fields

include h

theorem beq_eq {a a' b b' : Option SymbolId} (ha : Option.Rel m.symbol a a')
    (hb : Option.Rel m.symbol b b') : (a == b) = (a' == b') := by
  cases ha with
  | none => cases hb <;> rfl
  | some ha =>
    cases hb with
    | none => rfl
    | some hb =>
      rw [Bool.eq_iff_iff, beq_iff_eq, beq_iff_eq, Option.some_inj, Option.some_inj]
      exact h.table.eq_iff ha hb

theorem ofType {type : TypeExpr} (htype : Outline.Every m.node [type.outline]) {site site' : DeclId}
    (hsite : m.decl site site') {target target' : Option SymbolId}
    (htarget : Option.Rel m.symbol target target') :
    GivesAlike (Memo.AtRest (Subtype.rule model.table)) (Memo.AtRest (Subtype.rule model'.table)) Eq
      (Subtype.ofType model.table type site target) (Subtype.ofType model'.table type site' target') := by
  cases htarget with
  | none => exact .pure rfl
  | some htarget =>
    exact h.table.find (h.table.anyReaches htarget (h.table.resolveAll hsite (TypeExpr.every_heads htype)))

theorem textOf_type {type : TypeExpr} (htype : Outline.Every m.node [type.outline]) :
    model'.textOf type.span = model.textOf type.span := by
  obtain ⟨shape, span⟩ := type
  rw [outline_type] at htype
  exact h.typeText (Outline.Every.cons.1 htype).1 rfl

theorem classify {type : TypeExpr} (htype : Outline.Every m.node [type.outline]) {site site' : DeclId}
    (hsite : m.decl site site') :
    GivesAlike (Memo.AtRest (Subtype.rule model.table)) (Memo.AtRest (Subtype.rule model'.table)) Eq
      (model.classify type site) (model'.classify type site') := by
  have hnamed : Option.Rel m.symbol (referent? model.table type site) (referent? model'.table type site') := by
    obtain ⟨shape, span⟩ := type
    cases shape with
    | reference name args =>
      have hname : m.node name.outline := (Outline.Every.cons.1 (Outline.Every.cons.1 htype).2.1).1
      exact h.table.resolveType hsite hname
    | _ => exact .none
  rw [classify_eq, classify_eq, optionRel_isSome hnamed, h.beq_eq hnamed h.nodeArray,
    h.beq_eq hnamed h.modifiersArray]
  split
  · exact .pure rfl
  · split
    · exact .pure rfl
    · refine (h.ofType htype hsite h.node).bind ?_
      rintro found _ rfl
      split <;> exact .pure rfl

theorem isDeclaration {i i' : SymbolId} (hi : m.symbol i i') :
    GivesAlike (Memo.AtRest (Subtype.rule model.table)) (Memo.AtRest (Subtype.rule model'.table)) Eq
      (model.isDeclaration i) (model'.isDeclaration i') := by
  have hfirst := h.table.firstDeclaration? hi
  have htarget := h.declaration
  unfold Model.isDeclaration
  generalize model.table.firstDeclaration? i = entry at hfirst
  generalize model'.table.firstDeclaration? i' = entry' at hfirst
  cases hfirst with
  | none => exact .pure rfl
  | some hentry =>
    dsimp only
    generalize model.wellKnown.declaration = target at htarget
    generalize model'.wellKnown.declaration = target' at htarget
    cases htarget with
    | none => exact .pure rfl
    | some htarget => exact h.table.find (h.table.anyReaches htarget (h.table.supertypes hentry.1))

section Properties

variable {target : Target} {property property' : Property} (hproperty : property.Agrees m property')
include hproperty

theorem isExcluded : model.isExcluded target property = model'.isExcluded target property' := by
  simp only [Model.isExcluded, h.config, hproperty.name, optionRel_isSome h.node,
    h.beq_eq hproperty.owner h.node]

theorem isFactoryOnly (declaringType : String) :
    model.isFactoryOnly declaringType property = model'.isFactoryOnly declaringType property' := by
  obtain ⟨node, hnode, hcomments⟩ := hproperty.led
  have htexts : ∀ tag : List Char, property.comments.any (fun span => occursIn tag (model.textOf span))
      = property'.comments.any fun span => occursIn tag (model'.textOf span) := by
    intro tag
    rw [← hproperty.comments, Bool.eq_iff_iff, any_eq_true, any_eq_true]
    refine exists_congr fun span => and_congr_right fun hspan => ?_
    rw [h.commentText hnode hcomments span hspan]
  simp only [Model.isFactoryOnly, h.config, hproperty.name, htexts]

theorem fieldOf? (target : Target) :
    GivesAlike (Memo.AtRest (Subtype.rule model.table)) (Memo.AtRest (Subtype.rule model'.table)) Eq
      (model.fieldOf? target property) (model'.fieldOf? target property') := by
  unfold Model.fieldOf?
  rw [h.isExcluded hproperty, h.isFactoryOnly hproperty, ← hproperty.type]
  split
  · exact .pure rfl
  · split
    · rename_i type htype
      have hevery := hproperty.typed type htype
      refine (h.classify hevery hproperty.site).bind ?_
      rintro fieldClass _ rfl
      dsimp only
      rw [hproperty.name, hproperty.optional, h.textOf_type hevery]
      split <;> exact .pure rfl
    · exact .pure rfl

end Properties

theorem fieldsOf (target : Target) {properties properties' : List Property}
    (hproperties : Forall₂ (Property.Agrees m) properties properties') :
    GivesAlike (Memo.AtRest (Subtype.rule model.table)) (Memo.AtRest (Subtype.rule model'.table)) Eq
      (model.fieldsOf target properties) (model'.fieldsOf target properties') := by
  induction hproperties with
  | nil => exact .pure rfl
  | cons hproperty _ ih =>
    unfold Model.fieldsOf
    refine (h.fieldOf? hproperty target).bind ?_
    rintro field _ rfl
    refine ih.bind ?_
    rintro fields _ rfl
    exact .pure rfl

theorem select (target : Target) {properties properties' : List Property}
    (hproperties : Forall₂ (Property.Agrees m) properties properties') :
    GivesAlike (Memo.AtRest (Subtype.rule model.table)) (Memo.AtRest (Subtype.rule model'.table)) Eq
      (model.select target properties) (model'.select target properties') := by
  have hprecedes : model'.precedes target.kind = model.precedes target.kind := by
    unfold Model.precedes
    rw [h.config]
  unfold Model.select
  refine (h.fieldsOf target hproperties).bind ?_
  rintro fields _ rfl
  exact .pure (by rw [hprecedes])

end Fields

section Kinds

include h

/-- Searches of two models for what goes into their kinds. -/
abbrev FindAlike (model model' : Model) {α α' : Type} (R : α → α' → Prop) (search : Search α)
    (search' : Search α') : Prop :=
  GivesAlike (AtRest model.table) (AtRest model'.table) R search search'

theorem buildKind {i i' : SymbolId} (hi : m.symbol i i') (isDeclaration : Bool)
    {properties properties' : List Property}
    (hproperties : Forall₂ (Property.Agrees m) properties properties') {kind kind' : SymbolId}
    (hkind : m.symbol kind kind') :
    FindAlike model model' (NodeKind.Agrees m) (model.buildKind i isDeclaration properties kind)
      (model'.buildKind i' isDeclaration properties' kind') := by
  obtain ⟨symbol, symbol', hsymbol, hsymbol', hagrees⟩ := h.table.symbol hkind
  unfold Model.buildKind
  rw [← h.table.symbolName hi, ← h.table.symbolName hkind]
  refine (onSubtypes_givesAlike (h.select _ hproperties)).bind ?_
  rintro selection _ rfl
  refine .pure ⟨hi, ?_⟩
  simp [NodeKind.unnumbered, hsymbol, hsymbol', hagrees.value]

section Declared

variable {kindEnum kindEnum' : SymbolId} (hkindEnum : m.symbol kindEnum kindEnum')
include hkindEnum

/-- Names stand for members of the kind enum alike. -/
theorem members {α : Type} (nameOf : α → String) (entries : List α) : Forall₂ m.symbol
    (entries.filterMap fun entry => (model.table.exports kindEnum).lookup (nameOf entry))
    (entries.filterMap fun entry => (model'.table.exports kindEnum').lookup (nameOf entry)) := by
  refine rel_filterMap (R := Eq) ?_ (forall₂_same.2 fun _ _ => rfl)
  rintro entry _ rfl
  exact h.table.exports hkindEnum (nameOf entry)

variable {decl decl' : Declaration} (hdecl : decl.Agrees m decl')
include hdecl

theorem annotatedKinds : Forall₂ m.symbol (model.annotatedKinds kindEnum decl)
    (model'.annotatedKinds kindEnum' decl') := by
  obtain ⟨node, hnode, hcomments⟩ := hdecl.led
  have htexts : ∀ tag enum : List Char,
      decl'.comments.flatMap (fun span => Annotation.find tag enum (model'.textOf span))
        = decl.comments.flatMap fun span => Annotation.find tag enum (model.textOf span) := by
    intro tag enum
    rw [← hdecl.comments, flatMap_def, flatMap_def]
    refine congrArg flatten (map_congr_left fun span hspan => ?_)
    rw [h.commentText hnode hcomments span hspan]
  simp only [Model.annotatedKinds, h.config, htexts]
  exact h.members hkindEnum Prod.fst _

theorem metadataKinds : Forall₂ m.symbol (model.metadataKinds kindEnum decl)
    (model'.metadataKinds kindEnum' decl') := by
  simp only [Model.metadataKinds, h.config, ← h.table.symbolName hdecl.symbol]
  exact h.members hkindEnum id _

theorem declaredKinds {d d' : DeclId} (hd : m.decl d d') :
    Forall₂ m.symbol (model.declaredKinds kindEnum d decl) (model'.declaredKinds kindEnum' d' decl') := by
  have hannotated := h.annotatedKinds hkindEnum hdecl
  have hadd : ∀ kinds kinds', Forall₂ m.symbol kinds kinds' → ∀ kind kind', m.symbol kind kind' →
      Forall₂ m.symbol (addKind kinds kind) (addKind kinds' kind') := by
    intro kinds kinds' hkinds kind kind' hkind
    have hmem : kind ∈ kinds ↔ kind' ∈ kinds' := rel_mem h.table.unique hkind hkinds
    simp only [addKind, contains_iff_mem, hmem]
    split
    · exact hkinds
    · exact rel_append hkinds (.cons hkind .nil)
  have hall := rel_foldl (P := Forall₂ m.symbol) (R := m.symbol) (fun _ _ h _ _ h' => hadd _ _ h _ _ h')
    hannotated (h.metadataKinds hkindEnum hdecl)
  have hfirst : ((model.table.firstDeclaration? decl.symbol).map Prod.fst == some d)
      = ((model'.table.firstDeclaration? decl'.symbol).map Prod.fst == some d') := by
    have hentries := h.table.firstDeclaration? hdecl.symbol
    generalize model.table.firstDeclaration? decl.symbol = entry at hentries
    generalize model'.table.firstDeclaration? decl'.symbol = entry' at hentries
    cases hentries with
    | none => rfl
    | some hentry =>
      rw [Bool.eq_iff_iff, beq_iff_eq, beq_iff_eq, Option.map_some, Option.map_some, Option.some_inj,
        Option.some_inj]
      exact ⟨fun heq => h.table.uniqueDecl.right (heq ▸ hentry.1) hd,
        fun heq => h.table.uniqueDecl.left (heq ▸ hentry.1) hd⟩
  unfold Model.declaredKinds
  rw [← hdecl.node, hfirst]
  split
  · split
    · exact hall
    · exact hannotated
  · split
    · exact hall
    · exact hannotated
  · exact .nil

/-- A declaration gives kinds that agree, or a failure at the same name. -/
theorem kindsOf {d d' : DeclId} (hd : m.decl d d') :
    FindAlike model model' (Forall₂ (NodeKind.Agrees m)) (model.kindsOf kindEnum d decl)
      (model'.kindsOf kindEnum' d' decl') := by
  have hkinds := h.declaredKinds hkindEnum hdecl hd
  unfold Model.kindsOf
  dsimp only
  generalize model.declaredKinds kindEnum d decl = kinds at hkinds
  generalize model'.declaredKinds kindEnum' d' decl' = kinds' at hkinds
  have hempty : kinds.isEmpty = kinds'.isEmpty := by cases hkinds <;> rfl
  rw [hempty]
  split
  · exact .pure .nil
  · refine (onSubtypes_givesAlike (h.isDeclaration hdecl.symbol)).bind ?_
    rintro isDeclaration _ rfl
    refine (onProperties_givesAlike (h.table.ofSymbol hdecl.symbol)).bind fun _ _ hproperties => ?_
    exact .mapM (fun _ _ hkind => h.buildKind hdecl.symbol isDeclaration hproperties hkind) hkinds

end Declared

end Kinds

end Corresponds

section Collected

variable {ε α β : Type}

/-- The lists that are given, one after the other, or else the first failure. -/
def collect : List (Except ε (List α)) → Except ε (List α)
  | [] => .ok []
  | .ok first :: rest => (collect rest).map (first ++ ·)
  | .error failure :: _ => .error failure

theorem collect_map_ok : ∀ lists : List (List α),
    collect (lists.map .ok : List (Except ε (List α))) = .ok lists.flatten
  | [] => rfl
  | first :: lists => by
    rw [map_cons, collect, collect_map_ok lists]
    rfl

/-- There is a list of all if each answer is a list. -/
theorem collect_eq_ok_iff {answers : List (Except ε (List α))} {all : List α} :
    collect answers = .ok all ↔ ∃ lists : List (List α), answers = lists.map .ok ∧ all = lists.flatten := by
  constructor
  · intro h
    suffices hlists : ∃ lists : List (List α), answers = lists.map .ok by
      obtain ⟨lists, rfl⟩ := hlists
      rw [collect_map_ok] at h
      exact ⟨lists, rfl, (Except.ok.inj h).symm⟩
    induction answers generalizing all with
    | nil => exact ⟨[], rfl⟩
    | cons answer answers ih =>
      cases answer with
      | error failure => cases h
      | ok first =>
        cases hrest : collect answers with
        | error failure =>
          rw [collect, hrest] at h
          cases h
        | ok others =>
          obtain ⟨lists, rfl⟩ := ih hrest
          exact ⟨first :: lists, rfl⟩
  · rintro ⟨lists, rfl, rfl⟩
    exact collect_map_ok lists

theorem collect_alike {R : α → β → Prop} {answers : List (Except ε (List α))}
    {answers' : List (Except ε (List β))} (h : Forall₂ (AnswersAlike (Forall₂ R)) answers answers') :
    AnswersAlike (Forall₂ R) (collect answers) (collect answers') := by
  induction h with
  | nil => exact .ok .nil
  | cons hfirst _ ih =>
    cases hfirst with
    | error failure => exact .error failure
    | ok hfirst =>
      unfold collect
      generalize collect _ = others at ih
      generalize collect _ = others' at ih
      cases ih with
      | ok hothers => exact .ok (rel_append hfirst hothers)
      | error failure => exact .error failure

/-- Answers in another order give the same elements. -/
theorem collect_perm {answers answers' : List (Except ε (List α))} (h : answers.Perm answers')
    {all : List α} (hall : collect answers = .ok all) :
    ∃ all', collect answers' = .ok all' ∧ all.Perm all' := by
  induction h generalizing all with
  | nil => exact ⟨all, hall, .refl all⟩
  | cons answer _ ih =>
    obtain ⟨lists, hlists, rfl⟩ := collect_eq_ok_iff.1 hall
    obtain ⟨first, others, rfl, rfl, hothers⟩ := map_eq_cons_iff.1 hlists.symm
    obtain ⟨all', hall', hperm⟩ := ih (collect_eq_ok_iff.2 ⟨others, hothers.symm, rfl⟩)
    exact ⟨first ++ all', by rw [collect, hall']; rfl, hperm.append_left first⟩
  | swap answer' answer answers =>
    obtain ⟨lists, hlists, rfl⟩ := collect_eq_ok_iff.1 hall
    obtain ⟨first, rest, rfl, rfl, hrest⟩ := map_eq_cons_iff.1 hlists.symm
    obtain ⟨second, rest, rfl, rfl, rfl⟩ := map_eq_cons_iff.1 hrest
    refine ⟨_, collect_eq_ok_iff.2 ⟨second :: first :: rest, rfl, rfl⟩, ?_⟩
    exact perm_append_comm_assoc first second rest.flatten
  | trans _ _ ih ih' =>
    obtain ⟨middle, hmiddle, hperm⟩ := ih hall
    obtain ⟨all', hall', hperm'⟩ := ih' hmiddle
    exact ⟨all', hall', hperm.trans hperm'⟩

theorem collect_append_of_forall_nil {answers more : List (Except ε (List α))}
    (h : ∀ answer ∈ more, answer = .ok []) : collect (answers ++ more) = collect answers := by
  induction answers with
  | nil =>
    have hmore : more = (replicate more.length ([] : List α)).map .ok := by
      rw [map_replicate]
      exact eq_replicate_of_mem h
    rw [nil_append, hmore, collect_map_ok]
    simp [collect]
  | cons answer answers ih =>
    cases answer with
    | ok first => rw [cons_append, collect, ih, collect]
    | error failure => rfl

variable (model : Model) (kindEnum : SymbolId)

/-- What a numbered declaration gives. -/
def given (entry : Declaration × DeclId) : Except CyclicType (List NodeKind) :=
  outcome (model.kindsOf kindEnum entry.2 entry.1 empty)

/-- A declaration that declares no kinds gives none. -/
theorem given_of_declaredKinds_nil {entry : Declaration × DeclId}
    (h : model.declaredKinds kindEnum entry.2 entry.1 = []) : model.given kindEnum entry = .ok [] := by
  rw [given, kindsOf, h]
  rfl

theorem kindsOf_gives (entry : Declaration × DeclId) :
    Gives (AtRest model.table) (model.kindsOf kindEnum entry.2 entry.1) (model.given kindEnum entry) := by
  obtain ⟨answer, hgives, -⟩ := model.kindsOf_finds kindEnum entry.2 entry.1
  rwa [given, (hgives empty (atRest_empty model.table)).2]

theorem discoverFrom_gives : ∀ (decls : List Declaration) (id : DeclId),
    Gives (AtRest model.table) (model.discoverFrom kindEnum id decls)
      (collect ((decls.zipIdx id).map (model.given kindEnum)))
  | [], _ => gives_pure []
  | decl :: decls, id => by
    have hfirst := model.kindsOf_gives kindEnum (decl, id)
    have hothers := discoverFrom_gives decls (id + 1)
    unfold discoverFrom
    rw [zipIdx_cons, map_cons]
    cases hanswer : model.given kindEnum (decl, id) with
    | error cycle =>
      rw [hanswer] at hfirst
      exact gives_bind_error hfirst
    | ok kinds =>
      rw [hanswer] at hfirst
      refine gives_bind_ok hfirst ?_
      rw [collect]
      cases hrest : collect ((decls.zipIdx (id + 1)).map (model.given kindEnum)) with
      | error cycle =>
        rw [hrest] at hothers
        exact gives_bind_error hothers
      | ok others =>
        rw [hrest] at hothers
        exact gives_bind_ok hothers (gives_pure _)

/-- The kinds of a model are what its declarations give, in the order of their constants. -/
theorem kinds_eq_collect : model.kinds kindEnum
    = (collect (model.table.declarations.toList.zipIdx.map (model.given kindEnum))).map
      fun kinds => kinds.mergeSort fun a b => NodeKind.valueLe a.value b.value := by
  have hgives := (model.discoverFrom_gives kindEnum model.table.declarations.toList 0 empty
    (atRest_empty model.table)).2
  rw [← hgives, kinds]
  cases model.discoverFrom kindEnum 0 model.table.declarations.toList empty <;> rfl

end Collected

theorem Corresponds.given {m : Matching} {model model' : Model} (h : model.Corresponds m model')
    {kindEnum kindEnum' : SymbolId} (hkindEnum : m.symbol kindEnum kindEnum')
    {entry entry' : Declaration × DeclId} (hd : m.decl entry.2 entry'.2)
    (hdecl : entry.1.Agrees m entry'.1) :
    AnswersAlike (Forall₂ (NodeKind.Agrees m)) (model.given kindEnum entry)
      (model'.given kindEnum' entry') :=
  (h.kindsOf hkindEnum hdecl hd).outcomes (atRest_empty model.table) (atRest_empty model'.table)

end Model

section Analyzed

/-- The kinds of a schema, whatever its errors. -/
def Schema.kinds (config : Config) (schema : Schema) : Except AnalysisError (List NodeKind) :=
  let model := Model.ofSchema config schema
  match model.wellKnown.kindEnum with
  | none => .error (.missingKindEnum config.wellKnown.kindEnum)
  | some kindEnum =>
    match model.kinds kindEnum with
    | .ok kinds => .ok kinds
    | .error cycle => .error (.cyclicType cycle.name)

theorem Schema.kinds_eq_ok_iff {config : Config} {schema : Schema} {kinds : List NodeKind} :
    schema.kinds config = .ok kinds ↔ ∃ kindEnum,
      (Model.ofSchema config schema).wellKnown.kindEnum = some kindEnum
        ∧ (Model.ofSchema config schema).kinds kindEnum = .ok kinds := by
  unfold Schema.kinds
  dsimp only
  cases (Model.ofSchema config schema).wellKnown.kindEnum with
  | none => simp
  | some kindEnum =>
    cases hkinds : (Model.ofSchema config schema).kinds kindEnum <;> simp [hkinds]

/-- A text without errors has the kinds of its schema. -/
theorem analyze_eq (config : Config) (text : List Char) : analyze config text
    = if (Schema.parse text).errors = [] then (Schema.parse text).kinds config
      else .error (.parse (Schema.parse text).errors) := by
  by_cases herrors : (Schema.parse text).errors = []
  · rw [analyze, herrors]
    rfl
  · simp [analyze, herrors]

end Analyzed

end NodeFactory
