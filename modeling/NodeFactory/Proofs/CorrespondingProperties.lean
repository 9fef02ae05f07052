import NodeFactory.Proofs.CorrespondingTables
import NodeFactory.Proofs.PropertyEnumeration

/-!
# Corresponding properties

Symbols that are matched in tables that correspond have the same properties, in the same order, up to the
numbers of their owners and of the declarations in which their types are written
(`Corresponds.ofSymbol`).
-/

namespace NodeFactory

open List

/-- Properties that agree but for the numbers; they are made of nodes of the declarations. -/
structure Property.Agrees (m : Matching) (property property' : Property) : Prop where
  name : property.name = property'.name
  type : property.type = property'.type
  optional : property.optional = property'.optional
  comments : property.comments = property'.comments
  owner : Option.Rel m.symbol property.owner property'.owner
  site : m.decl property.site property'.site
  typed : ∀ type ∈ property.type, Outline.Every m.node [type.outline]
  led : ∃ node, m.node node ∧ node.sort.comments? = some property.comments

namespace Property

variable {m : Matching} {owner owner' : Option SymbolId} {site site' : DeclId}
  {properties properties' more more' : List Property}

section Lists

theorem names_eq (h : Forall₂ (Agrees m) properties properties') : names properties = names properties' := by
  induction h with
  | nil => rfl
  | cons hfirst _ ih => rw [names, names, map_cons, map_cons, hfirst.name, ← names, ← names, ih]

theorem addNew_agrees (h : Forall₂ (Agrees m) properties properties') {property property' : Property}
    (hproperty : property.Agrees m property') :
    Forall₂ (Agrees m) (addNew properties property) (addNew properties' property') := by
  rw [addNew, addNew, names_eq h, hproperty.name]
  split
  · exact h
  · exact rel_append h (.cons hproperty .nil)

theorem merge_agrees (h : Forall₂ (Agrees m) properties properties')
    (hmore : Forall₂ (Agrees m) more more') :
    Forall₂ (Agrees m) (merge properties more) (merge properties' more') :=
  rel_foldl (P := Forall₂ (Agrees m)) (R := Agrees m)
    (fun _ _ hlist _ _ hproperty => addNew_agrees hlist hproperty) h hmore

theorem common_agrees {lists lists' : List (List Property)} (h : Forall₂ (Forall₂ (Agrees m)) lists lists') :
    Forall₂ (Agrees m) (common lists) (common lists') := by
  cases h with
  | nil => exact .nil
  | @cons first first' others others' hfirst hothers =>
    have hall : ∀ name : String, others.all (fun other => (names other).contains name)
        = others'.all fun other => (names other).contains name := by
      intro name
      induction hothers with
      | nil => rfl
      | cons hother _ ih => rw [all_cons, all_cons, ih, names_eq hother]
    simp only [common, hall]
    refine rel_map (fun property property' hproperty => { hproperty with owner := .none })
      (rel_filter (fun property property' hproperty => ?_) hfirst)
    simp only [hproperty.name]

end Lists

section Members

theorem ofMember?_agrees (howner : Option.Rel m.symbol owner owner') (hsite : m.decl site site')
    {member : Member} (hmember : Outline.Every m.node (outlines member)) :
    Option.Rel (Agrees m) (ofMember? owner site member) (ofMember? owner' site' member) := by
  obtain ⟨shape, span, comments⟩ := member
  rw [outlines_member, outline_member] at hmember
  obtain ⟨hnode, hparts, -⟩ := Outline.Every.cons.1 hmember
  have hled : ∃ node, m.node node ∧ node.sort.comments? = some comments := ⟨_, hnode, rfl⟩
  unfold ofMember?
  cases shape with
  | property name optional readonly type =>
    refine .some ⟨rfl, rfl, rfl, rfl, howner, hsite, ?_, hled⟩
    rintro type rfl
    exact (Outline.Every.cons.1 hparts).2.2
  | method name optional signature =>
    refine .some ⟨rfl, rfl, rfl, rfl, howner, hsite, ?_, hled⟩
    obtain ⟨typeParams, params, returns⟩ := signature
    rintro type rfl
    have hsignature := (Outline.Every.cons.1 hparts).2.2
    change Outline.Every m.node (outlines (Signature.mk typeParams params (some type))) at hsignature
    rw [outlines_signature] at hsignature
    exact (Outline.Every.append.1 hsignature).2
  | call | construct | index => exact .none

theorem ofMembers_agrees (howner : Option.Rel m.symbol owner owner') (hsite : m.decl site site')
    {members : List Member} (hmembers : ∀ member ∈ members, Outline.Every m.node (outlines member)) :
    Forall₂ (Agrees m) (members.filterMap (ofMember? owner site))
      (members.filterMap (ofMember? owner' site')) := by
  refine rel_filterMap (R := fun member member' => member = member' ∧ member ∈ members) ?_
    (forall₂_same.2 fun member hmem => ⟨rfl, hmem⟩)
  rintro member _ ⟨rfl, hmem⟩
  exact ofMember?_agrees howner hsite (hmembers member hmem)

end Members

end Property

namespace SymbolTable.Corresponds

open Property

variable {m : Matching} {table table' : SymbolTable}

section Types

mutual

theorem ofType (h : table.Corresponds m table') {site site' : DeclId} (hsite : m.decl site site') :
    ∀ {type : TypeExpr}, Outline.Every m.node [type.outline] →
    Inquiry.Corresponds m.symbol (Forall₂ (Agrees m)) (Forall₂ (Agrees m)) (Property.ofType table site type)
      (Property.ofType table' site' type)
  | ⟨.reference name args, _⟩, htype => by
    have hname : m.node name.outline := (Outline.Every.cons.1 (Outline.Every.cons.1 htype).2.1).1
    have hresolved := h.resolveType hsite hname
    rw [Property.ofType, Property.ofType]
    generalize table.resolveType site name = found at hresolved
    generalize table'.resolveType site' name = found' at hresolved
    cases hresolved with
    | none => exact .pure .nil
    | some hfound => exact .question hfound
  | ⟨.paren inner, _⟩, htype => by
    rw [Property.ofType, Property.ofType]
    exact h.ofType hsite (Outline.Every.cons.1 htype).2.1
  | ⟨.literal members, _⟩, htype => by
    rw [outline_type, outlines_literal] at htype
    rw [Property.ofType, Property.ofType]
    exact .pure (merge_agrees .nil (ofMembers_agrees .none hsite fun member hmem =>
      (Outline.Every.cons.1 htype).2.1.of_mem hmem))
  | ⟨.intersection parts, _⟩, htype => by
    rw [Property.ofType, Property.ofType]
    refine (h.ofTypes hsite (Outline.Every.cons.1 htype).2.1).bind fun lists lists' hlists => .pure ?_
    exact rel_foldl (P := Forall₂ (Agrees m)) (R := Forall₂ (Agrees m))
      (fun _ _ hlist _ _ hmore => merge_agrees hlist hmore) .nil hlists
  | ⟨.union parts, _⟩, htype => by
    rw [Property.ofType, Property.ofType]
    exact (h.ofTypes hsite (Outline.Every.cons.1 htype).2.1).bind fun lists lists' hlists =>
      .pure (common_agrees hlists)
  | ⟨.array _, _⟩, _ | ⟨.indexed _ _, _⟩, _ | ⟨.tuple _, _⟩, _ | ⟨.function _ _, _⟩, _
  | ⟨.literalValue, _⟩, _ | ⟨.keyword _, _⟩, _ | ⟨.this, _⟩, _ | ⟨.query _, _⟩, _ | ⟨.keyof _, _⟩, _
  | ⟨.predicate _ _, _⟩, _ => .pure .nil

theorem ofTypes (h : table.Corresponds m table') {site site' : DeclId} (hsite : m.decl site site') :
    ∀ {types : List TypeExpr}, Outline.Every m.node (TypeExpr.allOutlines types) →
    Inquiry.Corresponds m.symbol (Forall₂ (Agrees m)) (Forall₂ (Forall₂ (Agrees m)))
      (Property.ofTypes table site types) (Property.ofTypes table' site' types)
  | [], _ => .pure .nil
  | type :: types, htypes => by
    have hsplit := Outline.Every.append.1 (show Outline.Every m.node ([type.outline] ++ _) from htypes)
    rw [Property.ofTypes, Property.ofTypes]
    exact (h.ofType hsite hsplit.1).bind fun _ _ hfirst => (h.ofTypes hsite hsplit.2).bind fun _ _ hrest =>
      .pure (.cons hfirst hrest)

end

end Types

section Symbols

variable (h : table.Corresponds m table') {i i' : SymbolId} (hi : m.symbol i i')
include h hi

theorem interfacesOf : Forall₂ (fun entry entry' => m.decl entry.1 entry'.1 ∧ entry.2 = entry'.2
    ∧ Outline.Every m.node (outlines entry.2)) (Property.interfacesOf table i)
      (Property.interfacesOf table' i') := by
  refine rel_filterMap ?_ (h.declarationsOf hi)
  rintro ⟨d, decl⟩ ⟨d', decl'⟩ ⟨hd, hagrees⟩
  have hnodes := hagrees.nodes
  dsimp only at hd hnodes ⊢
  rw [← hagrees.node]
  cases hnode : decl.node with
  | interfaceDecl interface =>
    rw [hnode] at hnodes
    exact .some ⟨hd, rfl, hnodes⟩
  | namespaceDecl | aliasDecl | enumDecl | memberDecl => exact .none

theorem declared : Forall₂ (Agrees m) (Property.declared table i) (Property.declared table' i') := by
  refine merge_agrees .nil (rel_flatMap (h.interfacesOf hi) ?_)
  rintro ⟨d, interface⟩ ⟨d', _⟩ ⟨hd, rfl, hnodes⟩
  exact ofMembers_agrees (.some hi) hd fun member hmem => Interface.every_member hnodes hmem

theorem bases : Forall₂ m.symbol (Property.bases table i) (Property.bases table' i') := by
  refine rel_flatMap (h.interfacesOf hi) ?_
  rintro ⟨d, interface⟩ ⟨d', _⟩ ⟨hd, rfl, hnodes⟩
  dsimp only
  refine rel_filterMap (R := fun type type' => type = type' ∧ m.node type.name.outline) ?_
    (forall₂_same.2 fun type hmem => ⟨rfl, ?_⟩)
  · rintro type _ ⟨rfl, hname⟩
    exact h.resolveType hd hname
  · obtain ⟨clause, hclause, htype⟩ := mem_flatMap.1 hmem
    exact Interface.every_heritage hnodes (mem_of_mem_filter hclause) htype

theorem propertyRule : Inquiry.Corresponds m.symbol (Forall₂ (Agrees m)) (Forall₂ (Agrees m))
    (Property.rule table i) (Property.rule table' i') := by
  obtain ⟨symbol, symbol', hsymbol, hsymbol', hagrees⟩ := h.symbol hi
  simp only [Property.rule, hsymbol, hsymbol', Option.map_some, ← hagrees.kind]
  cases symbol.kind with
  | interfaceKind =>
    refine .foldlM (fun list list' base base' hlist hbase => ?_) (h.bases hi) (h.declared hi)
    exact (Inquiry.Corresponds.question hbase).bind fun _ _ hmore => .pure (merge_agrees hlist hmore)
  | aliasKind =>
    have hfirst := h.firstDeclaration? hi
    generalize table.firstDeclaration? i = entry at hfirst
    generalize table'.firstDeclaration? i' = entry' at hfirst
    cases hfirst with
    | none => exact .pure .nil
    | @some entry entry' hentry =>
      obtain ⟨d, node, s, scope, comments⟩ := entry
      obtain ⟨d', node', s', scope', comments'⟩ := entry'
      obtain ⟨hd, hagree⟩ := hentry
      obtain rfl : node = node' := hagree.node
      cases node with
      | aliasDecl decl => exact h.ofType hd (TypeAlias.every_type hagree.nodes)
      | namespaceDecl | interfaceDecl | enumDecl | memberDecl => exact .pure .nil
  | namespaceKind | enumKind | memberKind => exact .pure .nil

/-- The properties of a symbol are found alike. -/
theorem ofSymbol : GivesAlike (Memo.AtRest (Property.rule table)) (Memo.AtRest (Property.rule table'))
    (Forall₂ (Agrees m)) (Property.ofSymbol table i) (Property.ofSymbol table' i') := by
  have hrun : GivesAlike (Memo.AtRest (Property.rule table)) (Memo.AtRest (Property.rule table'))
      (Forall₂ (Agrees m)) ((.question i : Enumeration (List Property)).run (Property.ofSymbol table))
      ((.question i' : Enumeration (List Property)).run (Property.ofSymbol table')) :=
    givesAlike_run (Property.pathsWithin_size table) (Nat.lt_succ_self _)
      (Property.pathsWithin_size table') (Nat.lt_succ_self _) (fun _ _ => h.propertyRule) h.unique
      (fun _ _ => h.symbolName) (.question hi)
  rwa [Inquiry.run_question, Inquiry.run_question] at hrun

end Symbols

end SymbolTable.Corresponds

end NodeFactory
