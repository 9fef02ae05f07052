import NodeFactory.Proofs.SearchOutcome
import NodeFactory.Property.Enumeration

/-!
# What properties are drawn from

An interface draws on the types that its declarations extend, and an alias on the types that its own
mentions through parentheses, intersections and unions (`DrawsOn`). The inquiry about a symbol asks
about nothing else (`drawsOn_of_needs`), and if it settles, it has asked about all of them
(`needs_of_drawsOn`). So the properties of a symbol settle only where no cycle is drawn on
(`not_onCycle_of_settles`).
-/

namespace NodeFactory.Property

open Relation Inquiry

/-- A type mentions a name where its properties are drawn from. -/
inductive Mentions (name : EntityName) : TypeExpr → Prop
  | reference {args : List TypeExpr} {span : Text.Span} : Mentions name ⟨.reference name args, span⟩
  | paren {inner : TypeExpr} {span : Text.Span} :
      Mentions name inner → Mentions name ⟨.paren inner, span⟩
  | intersection {parts : List TypeExpr} {part : TypeExpr} {span : Text.Span} :
      part ∈ parts → Mentions name part → Mentions name ⟨.intersection parts, span⟩
  | union {parts : List TypeExpr} {part : TypeExpr} {span : Text.Span} :
      part ∈ parts → Mentions name part → Mentions name ⟨.union parts, span⟩

variable (table : SymbolTable)

/-- The type that a symbol is an alias of, and the declaration inside which it is written. -/
def aliased? (id : SymbolId) : Option (DeclId × TypeExpr) :=
  match table.symbols[id]?.map Symbol.kind, table.firstDeclaration? id with
  | some .aliasKind, some (decl, ⟨.aliasDecl typeAlias, _, _, _⟩) => some (decl, typeAlias.type)
  | _, _ => none

/-- The properties of a symbol are drawn from those of another. -/
inductive DrawsOn : SymbolId → SymbolId → Prop
  | base {id base : SymbolId} {decl : DeclId} {declaration : Declaration} {interface : Interface}
      {clause : HeritageClause} {type : HeritageType} :
      table.symbols[id]?.map Symbol.kind = some .interfaceKind →
      (decl, declaration) ∈ table.declarationsOf id →
      declaration.node = .interfaceDecl interface → clause ∈ interface.heritage →
      clause.word = .extending → type ∈ clause.types →
      table.resolveType decl type.name = some base → DrawsOn id base
  | mentioned {id other : SymbolId} {decl : DeclId} {type : TypeExpr} {name : EntityName} :
      aliased? table id = some (decl, type) → Mentions name type →
      table.resolveType decl name = some other → DrawsOn id other

/-- A symbol is among those that a symbol draws on in the end, and draws on itself. -/
def OnCycle (id other : SymbolId) : Prop :=
  ReflTransGen (DrawsOn table) id other ∧ TransGen (DrawsOn table) other other

variable {table}

section Bases

theorem mem_interfacesOf {id : SymbolId} {decl : DeclId} {interface : Interface} :
    (decl, interface) ∈ interfacesOf table id ↔
      ∃ declaration, (decl, declaration) ∈ table.declarationsOf id
        ∧ declaration.node = .interfaceDecl interface := by
  simp only [interfacesOf, List.mem_filterMap, Prod.exists]
  constructor
  · rintro ⟨decl', declaration, hmem, h⟩
    split at h
    · rename_i interface' hnode
      simp only [Option.some.injEq, Prod.mk.injEq] at h
      obtain ⟨rfl, rfl⟩ := h
      exact ⟨declaration, hmem, hnode⟩
    · cases h
  · rintro ⟨declaration, hmem, hnode⟩
    exact ⟨decl, declaration, hmem, by simp only [hnode]⟩

theorem mem_bases {id base : SymbolId} : base ∈ bases table id ↔
    ∃ decl interface clause type, (decl, interface) ∈ interfacesOf table id
      ∧ clause ∈ interface.heritage ∧ clause.word = .extending ∧ type ∈ clause.types
      ∧ table.resolveType decl type.name = some base := by
  simp only [bases, List.mem_flatMap, List.mem_filterMap, List.mem_filter, Prod.exists,
    beq_iff_eq]
  constructor
  · rintro ⟨decl, interface, hmem, type, ⟨clause, ⟨hclause, hword⟩, htype⟩, hbase⟩
    exact ⟨decl, interface, clause, type, hmem, hclause, hword, htype, hbase⟩
  · rintro ⟨decl, interface, clause, type, hmem, hclause, hword, htype, hbase⟩
    exact ⟨decl, interface, hmem, type, ⟨clause, ⟨hclause, hword⟩, htype⟩, hbase⟩

/-- Asks for the properties of a base, and adds them. -/
def inherit (properties : List Property) (base : SymbolId) : Enumeration (List Property) :=
  return merge properties (← .question base)

@[simp] theorem settles_inherit {properties list : List Property} {base : SymbolId} :
    Settles (rule table) (inherit properties base) list ↔
      ∃ inherited, Settles (rule table) (rule table base) inherited
        ∧ list = merge properties inherited := by
  unfold inherit
  simp only [settles_bind, settles_question, settles_pure]

@[simp] theorem asks_inherit {properties : List Property} {base asked : SymbolId} :
    Asks (rule table) (inherit properties base) asked ↔ asked = base := by
  unfold inherit
  simp only [asks_bind, asks_question, asks_pure, and_false, exists_false, or_false]

theorem mem_of_asks_inherits {asked : SymbolId} :
    ∀ {bases : List SymbolId} {properties : List Property},
      Asks (rule table) (bases.foldlM inherit properties) asked → asked ∈ bases
  | [], _, h => absurd h asks_pure
  | base :: bases, properties, h => by
    rw [List.foldlM_cons, asks_bind, asks_inherit] at h
    rcases h with rfl | ⟨_, -, h⟩
    · exact List.mem_cons_self
    · exact List.mem_cons_of_mem _ (mem_of_asks_inherits h)

theorem asks_inherits_of_mem {asked : SymbolId} {list : List Property} :
    ∀ {bases : List SymbolId} {properties : List Property},
      Settles (rule table) (bases.foldlM inherit properties) list → asked ∈ bases →
        Asks (rule table) (bases.foldlM inherit properties) asked
  | base :: bases, properties, h, hmem => by
    rw [List.foldlM_cons, settles_bind] at h
    rw [List.foldlM_cons, asks_bind, asks_inherit]
    obtain ⟨first, hfirst, hrest⟩ := h
    rcases List.mem_cons.1 hmem with rfl | hmem
    · exact .inl rfl
    · exact .inr ⟨first, hfirst, asks_inherits_of_mem hrest hmem⟩

end Bases

section Types

variable {site : DeclId} {asked : SymbolId}

mutual

theorem mentions_of_asks : ∀ type : TypeExpr, Asks (rule table) (ofType table site type) asked →
    ∃ name, Mentions name type ∧ table.resolveType site name = some asked
  | ⟨.reference name _, _⟩, h => by
    rw [ofType] at h
    split at h
    · rename_i id hid
      obtain rfl := asks_question.1 h
      exact ⟨name, .reference, hid⟩
    · exact absurd h asks_pure
  | ⟨.paren inner, _⟩, h => by
    rw [ofType] at h
    obtain ⟨name, hname, hid⟩ := mentions_of_asks inner h
    exact ⟨name, .paren hname, hid⟩
  | ⟨.intersection parts, _⟩, h => by
    simp only [ofType, asks_bind, asks_pure, and_false, exists_false, or_false] at h
    obtain ⟨part, hpart, name, hname, hid⟩ := mentions_of_asks_parts parts h
    exact ⟨name, .intersection hpart hname, hid⟩
  | ⟨.union parts, _⟩, h => by
    simp only [ofType, asks_bind, asks_pure, and_false, exists_false, or_false] at h
    obtain ⟨part, hpart, name, hname, hid⟩ := mentions_of_asks_parts parts h
    exact ⟨name, .union hpart hname, hid⟩
  | ⟨.literal _, _⟩, h | ⟨.array _, _⟩, h | ⟨.indexed _ _, _⟩, h | ⟨.tuple _, _⟩, h
  | ⟨.function _ _, _⟩, h | ⟨.literalValue, _⟩, h | ⟨.keyword _, _⟩, h | ⟨.this, _⟩, h
  | ⟨.query _, _⟩, h | ⟨.keyof _, _⟩, h | ⟨.predicate _ _, _⟩, h => absurd h asks_pure

theorem mentions_of_asks_parts : ∀ parts : List TypeExpr,
    Asks (rule table) (ofTypes table site parts) asked →
      ∃ part ∈ parts, ∃ name, Mentions name part ∧ table.resolveType site name = some asked
  | [], h => absurd h asks_pure
  | part :: parts, h => by
    simp only [ofTypes, asks_bind, asks_pure, and_false, exists_false, or_false] at h
    rcases h with h | ⟨_, -, h⟩
    · exact ⟨part, List.mem_cons_self, mentions_of_asks part h⟩
    · obtain ⟨part', hpart', hname⟩ := mentions_of_asks_parts parts h
      exact ⟨part', List.mem_cons_of_mem _ hpart', hname⟩

end

theorem asks_part {part : TypeExpr} : ∀ {parts : List TypeExpr} {lists : List (List Property)},
    Settles (rule table) (ofTypes table site parts) lists → part ∈ parts →
      (∃ list, Settles (rule table) (ofType table site part) list)
        ∧ (Asks (rule table) (ofType table site part) asked →
            Asks (rule table) (ofTypes table site parts) asked)
  | first :: parts, lists, h, hpart => by
    simp only [ofTypes, settles_bind, settles_pure] at h
    obtain ⟨list, hlist, rest, hrest, -⟩ := h
    simp only [ofTypes, asks_bind, asks_pure, and_false, exists_false, or_false]
    rcases List.mem_cons.1 hpart with rfl | hpart
    · exact ⟨⟨list, hlist⟩, .inl⟩
    · obtain ⟨hsettles, hasks⟩ := asks_part hrest hpart
      exact ⟨hsettles, fun hasked => .inr ⟨list, hlist, hasks hasked⟩⟩

theorem asks_of_mentions {name : EntityName} {type : TypeExpr} {list : List Property}
    (hname : Mentions name type) (hid : table.resolveType site name = some asked)
    (h : Settles (rule table) (ofType table site type) list) :
    Asks (rule table) (ofType table site type) asked := by
  induction hname generalizing list with
  | reference =>
    simp only [ofType, hid, asks_question]
  | paren _ ih =>
    rw [ofType] at h ⊢
    exact ih h
  | intersection hpart _ ih | union hpart _ ih =>
    simp only [ofType, settles_bind] at h
    simp only [ofType, asks_bind]
    obtain ⟨lists, hlists, -⟩ := h
    obtain ⟨⟨list', hlist'⟩, hasks⟩ := asks_part hlists hpart
    exact .inl (hasks (ih hlist'))

end Types

section Symbols

variable {id other : SymbolId}

theorem rule_of_interface (h : table.symbols[id]?.map Symbol.kind = some .interfaceKind) :
    rule table id = (bases table id).foldlM inherit (declared table id) := by
  unfold rule
  rw [h]
  rfl

theorem rule_of_aliased {decl : DeclId} {type : TypeExpr}
    (h : aliased? table id = some (decl, type)) : rule table id = ofType table decl type := by
  unfold aliased? at h
  split at h
  · rename_i hkind hfirst
    simp only [Option.some.injEq, Prod.mk.injEq] at h
    obtain ⟨rfl, rfl⟩ := h
    simp only [rule, hkind, hfirst]
  · cases h

theorem rule_of_other (hinterface : table.symbols[id]?.map Symbol.kind ≠ some .interfaceKind)
    (halias : aliased? table id = none) : rule table id = pure [] := by
  unfold rule
  split
  · contradiction
  · rename_i hkind
    split
    · rename_i hfirst
      simp only [aliased?, hkind, hfirst] at halias
      cases halias
    · rfl
  · rfl

theorem drawsOn_of_needs (h : Needs (rule table) id other) : DrawsOn table id other := by
  unfold Needs at h
  by_cases hinterface : table.symbols[id]?.map Symbol.kind = some .interfaceKind
  · rw [rule_of_interface hinterface] at h
    obtain ⟨decl, interface, clause, type, hmem, hclause, hword, htype, hbase⟩ :=
      mem_bases.1 (mem_of_asks_inherits h)
    obtain ⟨declaration, hdecl, hnode⟩ := mem_interfacesOf.1 hmem
    exact .base hinterface hdecl hnode hclause hword htype hbase
  · cases halias : aliased? table id with
    | none =>
      rw [rule_of_other hinterface halias] at h
      exact absurd h asks_pure
    | some aliased =>
      rw [rule_of_aliased halias] at h
      obtain ⟨name, hname, hother⟩ := mentions_of_asks _ h
      exact .mentioned halias hname hother

theorem needs_of_drawsOn {list : List Property} (h : DrawsOn table id other)
    (hsettles : Settles (rule table) (rule table id) list) : Needs (rule table) id other := by
  unfold Needs
  cases h with
  | base hinterface hdecl hnode hclause hword htype hbase =>
    rw [rule_of_interface hinterface] at hsettles ⊢
    refine asks_inherits_of_mem hsettles (mem_bases.2 ?_)
    exact ⟨_, _, _, _, mem_interfacesOf.2 ⟨_, hdecl, hnode⟩, hclause, hword, htype, hbase⟩
  | mentioned halias hname hother =>
    rw [rule_of_aliased halias] at hsettles ⊢
    exact asks_of_mentions hname hother hsettles

theorem lt_size_of_drawsOn (h : DrawsOn table id other) : id < table.symbols.size := by
  refine Nat.lt_of_not_le fun hge => ?_
  have hnone : table.symbols[id]? = none := Array.getElem?_eq_none hge
  cases h with
  | base hinterface => simp [hnone] at hinterface
  | mentioned halias => simp [aliased?, hnone] at halias

theorem pathsWithin_size (table : SymbolTable) :
    Memo.PathsWithin (rule table) table.symbols.size :=
  Memo.pathsWithin_of_label (fun id => id) (fun _ _ h => lt_size_of_drawsOn (drawsOn_of_needs h))
    fun _ _ _ _ _ heq => heq

theorem onCycle_of_needs (hreach : ReflTransGen (Needs (rule table)) id other)
    (hcycle : TransGen (Needs (rule table)) other other) : OnCycle table id other :=
  ⟨ReflTransGen.mono (fun _ _ => drawsOn_of_needs) id other hreach,
    TransGen.mono (fun _ _ => drawsOn_of_needs) other other hcycle⟩

/-- What a symbol with settled properties draws on in the end does not draw on itself. -/
theorem not_onCycle_of_settles {list : List Property}
    (h : Settles (rule table) (rule table id) list) (other : SymbolId) :
    ¬ OnCycle table id other := by
  have hacc : Acc (Function.swap (DrawsOn table)) id :=
    h.induction fun key list hkey ih =>
      .intro _ fun needed hdraws => ih needed (needs_of_drawsOn hdraws hkey)
  rintro ⟨hreach, hcycle⟩
  have hother : Acc (Function.swap (DrawsOn table)) other := by
    clear hcycle
    induction hreach with
    | refl => exact hacc
    | tail _ hdraws ih => exact ih.inv hdraws
  exact not_cycle_of_acc hother hcycle

end Symbols

end NodeFactory.Property
