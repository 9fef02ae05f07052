import NodeFactory.Proofs.BareTables
import NodeFactory.Proofs.CorrespondingInquiries
import NodeFactory.Proofs.PropertyEnumeration

/-!
# Properties of bare declarations

The properties of a symbol are found as if the declarations were bare, but for where their types are written
and the comments before them. So in tables that are the same once they are bare a symbol has properties of the
same names, types and optionality, in the same order (`foundAlike_of_bare_eq`).
-/

namespace NodeFactory

namespace Inquiry

variable {κ α α' β β' γ γ' : Type} {A : α → β → Prop} {A' : α' → β → Prop} {R : γ → β' → Prop}
  {R' : γ' → β' → Prop}

/-- Two inquiries that correspond to the same one correspond to each other. -/
theorem Corresponds.meet {inquiry : Inquiry κ α γ} {inquiry' : Inquiry κ α' γ'} {third : Inquiry κ β β'}
    (h : Corresponds Eq A R inquiry third) (h' : Corresponds Eq A' R' inquiry' third) :
    Corresponds Eq (fun answer answer' => ∃ b, A answer b ∧ A' answer' b)
      (fun value value' => ∃ b, R value b ∧ R' value' b) inquiry inquiry' := by
  induction h generalizing inquiry' with
  | done hvalue =>
    cases h' with
    | done hvalue' => exact .done ⟨_, hvalue, hvalue'⟩
  | ask hkey _ ih =>
    cases h' with
    | ask hkey' hnext' =>
      refine .ask (hkey.trans hkey'.symm) fun answer answer' ⟨b, hanswer, hanswer'⟩ => ?_
      exact ih _ _ hanswer (hnext' _ _ hanswer')

end Inquiry

namespace Property

/-- A property without the place of its type and without comments. -/
def bare (property : Property) : Property :=
  { property with type := relocate .erasing property.type, comments := [] }

/-- Lists of properties that are the same once they are bare. -/
def BareOf (properties bares : List Property) : Prop := bares = properties.map bare

variable {owner : Option SymbolId} {site : DeclId} {properties more : List Property}

section Lists

theorem names_bare (properties : List Property) : names (properties.map bare) = names properties := by
  rw [names, names, List.map_map]
  rfl

theorem addNew_bare (properties : List Property) (property : Property) :
    addNew (properties.map bare) property.bare = (addNew properties property).map bare := by
  rw [addNew, addNew, names_bare, show property.bare.name = property.name from rfl]
  split
  · rfl
  · rw [List.map_append]
    rfl

theorem merge_bare (properties more : List Property) :
    merge (properties.map bare) (more.map bare) = (merge properties more).map bare := by
  induction more generalizing properties with
  | nil => rfl
  | cons property more ih =>
    rw [List.map_cons, merge, List.foldl_cons, addNew_bare]
    exact ih _

theorem mergeAll_bare (lists : List (List Property)) (properties : List Property) :
    (lists.map (List.map bare)).foldl merge (properties.map bare) = (lists.foldl merge properties).map bare := by
  induction lists generalizing properties with
  | nil => rfl
  | cons first lists ih =>
    rw [List.map_cons, List.foldl_cons, List.foldl_cons, merge_bare]
    exact ih _

theorem common_bare (lists : List (List Property)) :
    common (lists.map (List.map bare)) = (common lists).map bare := by
  cases lists with
  | nil => rfl
  | cons first others =>
    have hall : ∀ name : String, (others.map (List.map bare)).all (fun other => (names other).contains name)
        = others.all fun other => (names other).contains name := fun name => by
      simp only [List.all_map, Function.comp_def, names_bare]
    rw [List.map_cons, common, common, List.filter_map, List.map_map, List.map_map]
    simp only [Function.comp_def, hall]
    rfl

end Lists

section Members

theorem ofMember?_bare (member : Member) :
    ofMember? owner site (relocate .erasing member) = (ofMember? owner site member).map bare := by
  obtain ⟨shape, span, comments⟩ := member
  rw [relocate_member]
  cases shape with
  | property name optional readonly type =>
    rw [relocate_property]
    rfl
  | method name optional signature =>
    obtain ⟨typeParams, params, returns⟩ := signature
    rw [relocate_method, relocate_signature]
    rfl
  | call | construct | index => rfl

theorem filterMap_ofMember?_bare (members : List Member) :
    (relocate .erasing members).filterMap (ofMember? owner site)
      = (members.filterMap (ofMember? owner site)).map bare := by
  show (members.map (relocate .erasing)).filterMap _ = _
  rw [List.filterMap_map, List.map_filterMap]
  exact List.filterMap_congr fun member _ => ofMember?_bare member

/-- Members without a name declare nothing. -/
theorem filterMap_ofMember?_withoutIndex (members : List Member) :
    (members.filter fun member => !member.isIndex).filterMap (ofMember? owner site)
      = members.filterMap (ofMember? owner site) := by
  rw [List.filterMap_filter]
  refine List.filterMap_congr fun member _ => ?_
  obtain ⟨shape, span, comments⟩ := member
  cases shape <;> rfl

theorem ofMembers_bare (members : List Member) :
    ofMembers owner site (relocate .erasing members) = (ofMembers owner site members).map bare := by
  rw [ofMembers, ofMembers, filterMap_ofMember?_bare]
  exact merge_bare [] _

end Members

end Property

namespace SymbolTable

variable {table : SymbolTable}

theorem declarationsOf_bare (id : SymbolId) : table.bare.declarationsOf id
    = (table.declarationsOf id).map fun entry => (entry.1, entry.2.bare) := by
  rw [declarationsOf, declarationsOf, List.map_filterMap]
  refine List.filterMap_congr fun decl _ => ?_
  show ((table.declarations.map Declaration.bare)[decl]?).map _ = _
  rw [Array.getElem?_map, Option.map_map, Option.map_map]
  rfl

theorem firstDeclaration?_bare (id : SymbolId) : table.bare.firstDeclaration? id
    = (table.firstDeclaration? id).map fun entry => (entry.1, entry.2.bare) := by
  rw [firstDeclaration?, firstDeclaration?, declarationsOf_bare, List.head?_map]

theorem typeParams_bare (node : DeclNode) (p : String → Bool) :
    node.bare.typeParams.any (fun param => p param.name.name)
      = node.typeParams.any fun param => p param.name.name := by
  have hparams : ∀ params : List TypeParam, (relocate .erasing params).any (fun param => p param.name.name)
      = params.any fun param => p param.name.name := fun params => by
    have hname : ∀ param : TypeParam, (relocate .erasing param).name.name = param.name.name := fun param => by
      cases param
      rfl
    show (params.map (relocate .erasing)).any _ = _
    simp only [List.any_map, Function.comp_def, hname]
  cases node with
  | interfaceDecl decl => exact hparams decl.typeParams
  | aliasDecl decl => exact hparams decl.typeParams
  | namespaceDecl | enumDecl | memberDecl => rfl

theorem resolveType_bare (site : DeclId) (name : EntityName) :
    table.bare.resolveType site (relocate .erasing name) = table.resolveType site name := by
  have hdecl : table.bare.declarations[site]? = (table.declarations[site]?).map Declaration.bare :=
    Array.getElem?_map
  have hrest : (relocate .erasing name).rest.isEmpty = name.rest.isEmpty := List.isEmpty_map
  rw [resolveType, resolveType, hdecl, hrest]
  cases table.declarations[site]? with
  | none => rfl
  | some decl =>
    have hparams := typeParams_bare decl.node fun name' => name' == name.first.name
    show (if (name.rest.isEmpty && decl.node.bare.typeParams.any
        (fun param => param.name.name == name.first.name)) = true then none
      else table.bare.resolve decl.scope (relocate .erasing name)) = _
    rw [hparams, resolve_bare, resolve_relocate]
    rfl

end SymbolTable

namespace Property

open SymbolTable

variable {table table' : SymbolTable}

section Types

mutual

theorem ofType_bare (site : DeclId) : ∀ type : TypeExpr,
    Inquiry.Corresponds Eq BareOf BareOf (ofType table site type)
      (ofType table.bare site (relocate .erasing type))
  | ⟨.reference name args, span⟩ => by
    rw [relocate_typeExpr, relocate_reference, ofType, ofType, resolveType_bare]
    cases table.resolveType site name with
    | none => exact .pure rfl
    | some id => exact .question rfl
  | ⟨.paren inner, span⟩ => by
    rw [relocate_typeExpr, relocate_paren, ofType, ofType]
    exact ofType_bare site inner
  | ⟨.literal members, span⟩ => by
    rw [relocate_typeExpr, relocate_literal, ofType, ofType]
    exact .pure (ofMembers_bare members)
  | ⟨.intersection parts, span⟩ => by
    rw [relocate_typeExpr, relocate_intersection, ofType, ofType]
    refine (ofTypes_bare site parts).bind ?_
    rintro lists _ rfl
    exact .pure (mergeAll_bare lists [])
  | ⟨.union parts, span⟩ => by
    rw [relocate_typeExpr, relocate_union, ofType, ofType]
    refine (ofTypes_bare site parts).bind ?_
    rintro lists _ rfl
    exact .pure (common_bare lists)
  | ⟨.array _, _⟩ | ⟨.indexed _ _, _⟩ | ⟨.tuple _, _⟩ | ⟨.function _ _, _⟩ | ⟨.literalValue, _⟩
  | ⟨.keyword _, _⟩ | ⟨.this, _⟩ | ⟨.query _, _⟩ | ⟨.keyof _, _⟩ | ⟨.predicate _ _, _⟩ => .pure rfl

theorem ofTypes_bare (site : DeclId) : ∀ types : List TypeExpr,
    Inquiry.Corresponds Eq BareOf (fun lists bares => bares = lists.map (List.map bare))
      (ofTypes table site types) (ofTypes table.bare site (relocate .erasing types))
  | [] => .pure rfl
  | type :: types => by
    rw [relocate_cons, ofTypes, ofTypes]
    refine (ofType_bare site type).bind ?_
    rintro first _ rfl
    refine (ofTypes_bare site types).bind ?_
    rintro rest _ rfl
    exact .pure rfl

end

end Types

section Symbols

theorem interfacesOf_bare (id : SymbolId) : interfacesOf table.bare id
    = (interfacesOf table id).map fun entry => (entry.1, (relocate .erasing entry.2).withoutIndex) := by
  rw [interfacesOf, interfacesOf, declarationsOf_bare, List.filterMap_map, List.map_filterMap]
  refine List.filterMap_congr fun entry _ => ?_
  obtain ⟨decl, node, symbol, scope, comments⟩ := entry
  cases node <;> rfl

theorem declared_bare (id : SymbolId) : declared table.bare id = (declared table id).map bare := by
  rw [declared, declared, interfacesOf_bare, List.flatMap_map, ← merge_bare, List.map_flatMap]
  refine congrArg (merge []) (List.flatMap_congr fun entry _ => ?_)
  obtain ⟨decl, interface⟩ := entry
  dsimp only [Interface.withoutIndex]
  rw [filterMap_ofMember?_withoutIndex]
  exact filterMap_ofMember?_bare interface.members

theorem bases_bare (id : SymbolId) : bases table.bare id = bases table id := by
  rw [bases, bases, interfacesOf_bare, List.flatMap_map]
  refine List.flatMap_congr fun entry _ => ?_
  obtain ⟨decl, interface⟩ := entry
  show (((interface.heritage.map (relocate .erasing)).filter fun clause => clause.word == .extending).flatMap
    HeritageClause.types).filterMap (fun type => table.bare.resolveType decl type.name) = _
  rw [List.filter_map, List.flatMap_map]
  show ((interface.heritage.filter fun clause => clause.word == .extending).flatMap
    fun clause => clause.types.map (relocate .erasing)).filterMap _ = _
  rw [← List.map_flatMap, List.filterMap_map]
  exact List.filterMap_congr fun type _ => resolveType_bare decl type.name

theorem rule_bare (id : SymbolId) :
    Inquiry.Corresponds Eq BareOf BareOf (rule table id) (rule table.bare id) := by
  have hkind : (table.bare.symbols[id]?).map Symbol.kind = (table.symbols[id]?).map Symbol.kind := rfl
  rw [rule, rule, hkind, bases_bare, declared_bare, firstDeclaration?_bare]
  cases (table.symbols[id]?).map Symbol.kind with
  | none => exact .pure rfl
  | some kind =>
    cases kind with
    | interfaceKind =>
      refine .foldlM (I := Eq) ?_ (List.forall₂_same.2 fun _ _ => rfl) rfl
      rintro properties _ base _ rfl rfl
      refine (Inquiry.Corresponds.question rfl).bind ?_
      rintro more _ rfl
      exact .pure (merge_bare properties more)
    | aliasKind =>
      cases table.firstDeclaration? id with
      | none => exact .pure rfl
      | some entry =>
        obtain ⟨decl, node, symbol, scope, comments⟩ := entry
        cases node with
        | aliasDecl typeAlias => exact ofType_bare decl typeAlias.type
        | namespaceDecl | interfaceDecl | enumDecl | memberDecl => exact .pure rfl
    | namespaceKind | enumKind | memberKind => exact .pure rfl

/-- Properties of the same name, type and optionality, wherever the types are written. -/
structure Resembles (property property' : Property) : Prop where
  name : property.name = property'.name
  type : Same .erasing .erasing property.type property'.type
  optional : property.optional = property'.optional

theorem resembles_of_bare {bares : List Property} {properties properties' : List Property}
    (h : BareOf properties bares) (h' : BareOf properties' bares) :
    List.Forall₂ Resembles properties properties' := by
  have hbare : List.Forall₂ Eq (properties.map bare) (properties'.map bare) := by
    rw [← show bares = _ from h, ← show bares = _ from h']
    exact List.forall₂_same.2 fun _ _ => rfl
  rw [List.forall₂_map_left_iff, List.forall₂_map_right_iff] at hbare
  refine hbare.imp fun property property' heq => ?_
  have htype : property.bare.type = property'.bare.type := by rw [heq]
  have hname : property.bare.name = property'.bare.name := by rw [heq]
  have hoptional : property.bare.optional = property'.bare.optional := by rw [heq]
  exact ⟨hname, htype, hoptional⟩

/-- In both tables a symbol has properties that resemble each other, in the same order, or both searches end
with the same failure. -/
def FoundAlike (table table' : SymbolTable) : Prop :=
  ∀ id, GivesAlike (Memo.AtRest (rule table)) (Memo.AtRest (rule table')) (List.Forall₂ Resembles)
    (ofSymbol table id) (ofSymbol table' id)

/-- In tables that are the same once they are bare, the properties of a symbol are found alike. -/
theorem foundAlike_of_bare_eq (h : table.bare = table'.bare) : FoundAlike table table' := by
  intro id
  have hsymbols : table.bare.symbols = table'.bare.symbols := by rw [h]
  have hname : ∀ key key' : SymbolId, key = key' → table.symbolName key = table'.symbolName key' := by
    rintro key _ rfl
    rw [symbolName, symbolName, show table.symbols = table'.symbols from hsymbols]
  have hrule : ∀ key key' : SymbolId, key = key' → Inquiry.Corresponds Eq
      (fun answer answer' => ∃ bares, BareOf answer bares ∧ BareOf answer' bares)
      (fun value value' => ∃ bares, BareOf value bares ∧ BareOf value' bares)
      (rule table key) (rule table' key') := by
    rintro key _ rfl
    have hthird := @rule_bare table' key
    rw [← h] at hthird
    exact (rule_bare key).meet hthird
  have hrun := givesAlike_run (pathsWithin_size table) (Nat.lt_succ_self _) (pathsWithin_size table')
    (Nat.lt_succ_self _) hrule ⟨fun _ _ _ h h' => h.trans h'.symm, fun _ _ _ h h' => h.symm.trans h'⟩ hname
    (.question (rfl : id = id))
  rw [Inquiry.run_question, Inquiry.run_question] at hrun
  obtain ⟨answer, answer', hgives, hgives', halike⟩ := hrun
  refine ⟨answer, answer', hgives, hgives', ?_⟩
  cases halike with
  | ok hvalue =>
    obtain ⟨bares, hbares, hbares'⟩ := hvalue
    exact .ok (resembles_of_bare hbares hbares')
  | error failure => exact .error failure

end Symbols

end Property

end NodeFactory
