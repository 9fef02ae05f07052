import Mathlib.Logic.Relation
import NodeFactory.Subtype

/-!
# The graph of supertypes

A declaration and a type lead, through the parts of unions and the types of aliases, to the symbols
that they refer to, and a symbol leads to its first declaration (`Leads`). The target leads nowhere.
From a declaration or a type the target is reached through one of its heads, and from another symbol
through one of its supertypes (`reaches_iff`, `descends_iff`).
-/

namespace NodeFactory.Subtype

open Relation

/-- What may descend from a target: a declaration, or a type written inside one. -/
inductive Subject where
  | decl (id : DeclId)
  | type (type : TypeExpr) (site : DeclId)

/-- What leads to a target, or is one. -/
inductive Place where
  | subject (subject : Subject)
  | symbol (id : SymbolId)

variable (table : SymbolTable) (target : SymbolId)

/-- Where a place leads in one step: an interface to what the types of its first heritage clause
refer to, an alias to its type, a union to its parts, a reference to the symbol that it refers to,
and a symbol other than the target to its first declaration. -/
inductive Leads : Place → Place → Prop
  | base {decl : DeclId} {declaration : Declaration} {interface : Interface}
      {clause : HeritageClause} {type : HeritageType} {id : SymbolId} :
      table.declarations[decl]? = some declaration → declaration.node = .interfaceDecl interface →
      interface.heritage.head? = some clause → type ∈ clause.types →
      table.resolveType decl type.name = some id → Leads (.subject (.decl decl)) (.symbol id)
  | aliased {decl : DeclId} {declaration : Declaration} {typeAlias : TypeAlias} :
      table.declarations[decl]? = some declaration → declaration.node = .aliasDecl typeAlias →
      Leads (.subject (.decl decl)) (.subject (.type typeAlias.type decl))
  | part {parts : List TypeExpr} {span : Text.Span} {part : TypeExpr} {site : DeclId} :
      part ∈ parts → Leads (.subject (.type ⟨.union parts, span⟩ site)) (.subject (.type part site))
  | reference {name : EntityName} {args : List TypeExpr} {span : Text.Span} {site : DeclId}
      {id : SymbolId} :
      table.resolveType site name = some id →
      Leads (.subject (.type ⟨.reference name args, span⟩ site)) (.symbol id)
  | declared {id : SymbolId} {decl : DeclId} {declaration : Declaration} :
      id ≠ target → table.firstDeclaration? id = some (decl, declaration) →
      Leads (.symbol id) (.subject (.decl decl))

/-- The target is reached from a subject. References alone lead to symbols, so the way goes through
at least one. -/
def Reaches (subject : Subject) : Prop :=
  ReflTransGen (Leads table target) (.subject subject) (.symbol target)

/-- A symbol is the target or leads to it. -/
def Descends (id : SymbolId) : Prop :=
  ReflTransGen (Leads table target) (.symbol id) (.symbol target)

/-- A symbol is reached from a subject, and then from itself again. -/
def OnCycle (subject : Subject) (id : SymbolId) : Prop :=
  ReflTransGen (Leads table target) (.subject subject) (.symbol id)
    ∧ TransGen (Leads table target) (.symbol id) (.symbol id)

/-- The symbols that a subject leads to without going through another symbol. -/
def Subject.heads : Subject → List SymbolId
  | .decl id => table.supertypes id
  | .type expr site => table.resolveAll site expr.heads

section Types

theorem mem_headsOfParts {name : EntityName} : ∀ {parts : List TypeExpr},
    name ∈ TypeExpr.headsOfParts parts ↔ ∃ part ∈ parts, name ∈ part.heads
  | [] => by simp [TypeExpr.headsOfParts]
  | part :: parts => by
    simp only [TypeExpr.headsOfParts, List.mem_append, mem_headsOfParts, List.mem_cons,
      or_and_right, exists_or, exists_eq_left]

variable {table target} {site : DeclId} {name : EntityName} {id : SymbolId}

mutual

theorem reaches_head_of_type (hid : table.resolveType site name = some id) :
    ∀ type : TypeExpr, name ∈ type.heads →
      TransGen (Leads table target) (.subject (.type type site)) (.symbol id)
  | ⟨.reference name' _, _⟩, h => by
    obtain rfl : name = name' := by simpa [TypeExpr.heads] using h
    exact .single (.reference hid)
  | ⟨.union parts, _⟩, h => by
    obtain ⟨part, hpart, hreach⟩ := reaches_head_of_parts hid parts h
    exact .head (.part hpart) hreach
  | ⟨.intersection _, _⟩, h | ⟨.array _, _⟩, h | ⟨.indexed _ _, _⟩, h | ⟨.tuple _, _⟩, h
  | ⟨.paren _, _⟩, h | ⟨.function _ _, _⟩, h | ⟨.literal _, _⟩, h | ⟨.literalValue, _⟩, h
  | ⟨.keyword _, _⟩, h | ⟨.this, _⟩, h | ⟨.query _, _⟩, h | ⟨.keyof _, _⟩, h
  | ⟨.predicate _ _, _⟩, h => absurd h List.not_mem_nil

theorem reaches_head_of_parts (hid : table.resolveType site name = some id) :
    ∀ parts : List TypeExpr, name ∈ TypeExpr.headsOfParts parts →
      ∃ part ∈ parts, TransGen (Leads table target) (.subject (.type part site)) (.symbol id)
  | [], h => absurd h List.not_mem_nil
  | part :: parts, h => by
    rcases List.mem_append.1 h with h | h
    · exact ⟨part, List.mem_cons_self, reaches_head_of_type hid part h⟩
    · obtain ⟨part', hpart', hreach⟩ := reaches_head_of_parts hid parts h
      exact ⟨part', List.mem_cons_of_mem _ hpart', hreach⟩

end

end Types

section Subjects

variable {table target} {subject : Subject} {id : SymbolId}

theorem mem_resolveAll {site : DeclId} {names : List EntityName} :
    id ∈ table.resolveAll site names ↔ ∃ name ∈ names, table.resolveType site name = some id :=
  List.mem_filterMap

theorem supertypes_of_interface {decl : DeclId} {declaration : Declaration} {interface : Interface}
    (h : table.declarations[decl]? = some declaration)
    (hnode : declaration.node = .interfaceDecl interface) :
    id ∈ table.supertypes decl ↔ ∃ clause type, interface.heritage.head? = some clause
      ∧ type ∈ clause.types ∧ table.resolveType decl type.name = some id := by
  simp only [SymbolTable.supertypes, h, hnode, DeclNode.supertypes, mem_resolveAll, List.mem_map]
  constructor
  · rintro ⟨name, ⟨type, htype, rfl⟩, hid⟩
    cases hclause : interface.heritage.head? with
    | none =>
      rw [hclause] at htype
      exact absurd htype List.not_mem_nil
    | some clause =>
      rw [hclause] at htype
      exact ⟨clause, type, rfl, htype, hid⟩
  · rintro ⟨clause, type, hclause, htype, hid⟩
    rw [hclause]
    exact ⟨type.name, ⟨type, htype, rfl⟩, hid⟩

theorem supertypes_of_alias {decl : DeclId} {declaration : Declaration} {typeAlias : TypeAlias}
    (h : table.declarations[decl]? = some declaration)
    (hnode : declaration.node = .aliasDecl typeAlias) :
    table.supertypes decl = Subject.heads table (.type typeAlias.type decl) := by
  simp only [SymbolTable.supertypes, h, hnode, DeclNode.supertypes, Subject.heads]

theorem node_of_mem_supertypes {decl : DeclId} (h : id ∈ table.supertypes decl) :
    ∃ declaration, table.declarations[decl]? = some declaration
      ∧ ((∃ interface, declaration.node = .interfaceDecl interface)
        ∨ ∃ typeAlias, declaration.node = .aliasDecl typeAlias) := by
  unfold SymbolTable.supertypes at h
  split at h
  · rename_i declaration hdecl
    refine ⟨declaration, hdecl, ?_⟩
    obtain ⟨name, hname, -⟩ := mem_resolveAll.1 h
    cases hnode : declaration.node with
    | interfaceDecl interface => exact .inl ⟨interface, rfl⟩
    | aliasDecl typeAlias => exact .inr ⟨typeAlias, rfl⟩
    | _ =>
      rw [hnode] at hname
      exact absurd hname List.not_mem_nil
  · exact absurd h List.not_mem_nil

theorem reaches_head (h : id ∈ subject.heads table) :
    TransGen (Leads table target) (.subject subject) (.symbol id) := by
  cases subject with
  | type type site =>
    obtain ⟨name, hname, hid⟩ := mem_resolveAll.1 h
    exact reaches_head_of_type hid type hname
  | decl decl =>
    obtain ⟨declaration, hdecl, ⟨interface, hnode⟩ | ⟨typeAlias, hnode⟩⟩ := node_of_mem_supertypes h
    · obtain ⟨clause, type, hclause, htype, hid⟩ := (supertypes_of_interface hdecl hnode).1 h
      exact .single (.base hdecl hnode hclause htype hid)
    · rw [Subject.heads, supertypes_of_alias hdecl hnode] at h
      obtain ⟨name, hname, hid⟩ := mem_resolveAll.1 h
      exact .head (.aliased hdecl hnode) (reaches_head_of_type hid typeAlias.type hname)

/-- A step from a subject goes to one of its heads, or to a subject that has no other heads. -/
theorem step_of_subject {place : Place} (h : Leads table target (.subject subject) place) :
    (∃ head ∈ subject.heads table, place = .symbol head)
      ∨ ∃ next, place = .subject next ∧ next.heads table ⊆ subject.heads table := by
  cases h with
  | base hdecl hnode hclause htype hid =>
    exact .inl ⟨_, (supertypes_of_interface hdecl hnode).2 ⟨_, _, hclause, htype, hid⟩, rfl⟩
  | aliased hdecl hnode =>
    refine .inr ⟨_, rfl, ?_⟩
    rw [← supertypes_of_alias hdecl hnode]
    exact fun _ h => h
  | part hpart =>
    refine .inr ⟨_, rfl, fun id hid => ?_⟩
    obtain ⟨name, hname, hid⟩ := mem_resolveAll.1 hid
    exact mem_resolveAll.2 ⟨name, mem_headsOfParts.2 ⟨_, hpart, hname⟩, hid⟩
  | reference hid =>
    exact .inl ⟨_, mem_resolveAll.2 ⟨_, by simp [TypeExpr.heads], hid⟩, rfl⟩

/-- The way from a subject to a symbol goes through one of the subject's heads. -/
theorem exists_head_of_reaches
    (h : ReflTransGen (Leads table target) (.subject subject) (.symbol id)) :
    ∃ head ∈ subject.heads table,
      ReflTransGen (Leads table target) (.symbol head) (.symbol id) := by
  generalize hplace : Place.subject subject = place at h
  -- Subjects on the way have no other heads, so the first symbol on it is one of them.
  induction h using ReflTransGen.head_induction_on generalizing subject with
  | refl => cases hplace
  | head hstep hrest ih =>
    subst hplace
    rcases step_of_subject hstep with ⟨head, hhead, rfl⟩ | ⟨next, rfl, hsub⟩
    · exact ⟨head, hhead, hrest⟩
    · obtain ⟨head, hhead, hreach⟩ := ih rfl
      exact ⟨head, hsub hhead, hreach⟩

theorem reaches_iff :
    Reaches table target subject ↔ ∃ head ∈ subject.heads table, Descends table target head := by
  constructor
  · exact exists_head_of_reaches
  · rintro ⟨head, hhead, hreach⟩
    exact (reaches_head hhead).to_reflTransGen.trans hreach

end Subjects

section Symbols

variable {table target} {id head : SymbolId}

theorem symbolSupertypes_eq {decl : DeclId} {declaration : Declaration}
    (h : table.firstDeclaration? id = some (decl, declaration)) :
    table.symbolSupertypes id = Subject.heads table (.decl decl) := by
  simp only [SymbolTable.symbolSupertypes, h, Subject.heads]

theorem leads_supertype (hne : id ≠ target) (h : head ∈ table.symbolSupertypes id) :
    TransGen (Leads table target) (.symbol id) (.symbol head) := by
  cases hfirst : table.firstDeclaration? id with
  | none =>
    simp only [SymbolTable.symbolSupertypes, hfirst] at h
    exact absurd h List.not_mem_nil
  | some first =>
    rw [symbolSupertypes_eq hfirst] at h
    exact .head (.declared hne hfirst) (reaches_head h)

theorem descends_iff (hne : id ≠ target) :
    Descends table target id
      ↔ ∃ head ∈ table.symbolSupertypes id, Descends table target head := by
  constructor
  · intro h
    rcases ReflTransGen.cases_head h with heq | ⟨place, hstep, hrest⟩
    · exact absurd (Place.symbol.inj heq) hne
    · cases hstep with
      | declared _ hfirst =>
        rw [symbolSupertypes_eq hfirst]
        exact exists_head_of_reaches hrest
  · rintro ⟨head, hhead, hreach⟩
    exact (leads_supertype hne hhead).to_reflTransGen.trans hreach

theorem lt_size_of_supertype (h : head ∈ table.symbolSupertypes id) : id < table.symbols.size := by
  refine Nat.lt_of_not_le fun hge => ?_
  have hnone : table.symbols[id]? = none := Array.getElem?_eq_none hge
  simp [SymbolTable.symbolSupertypes, SymbolTable.firstDeclaration?, SymbolTable.declarationsOf,
    hnone] at h

end Symbols

end NodeFactory.Subtype
