import Mathlib.Data.List.Forall2
import NodeFactory.Proofs.CoherentTables
import NodeFactory.Proofs.CorrespondingInquiries
import NodeFactory.Proofs.Descent
import NodeFactory.Proofs.Outlines

/-!
# Tables that correspond

Two tables may have the same declarations under different numbers, and each may have others besides. They
correspond where the symbols and declarations that are matched agree but for the numbers, and where the
names that occur in matched declarations stand for matched symbols or for none (`Corresponds`). Then
names are resolved alike (`Corresponds.resolveType`), and a declaration descends from a target in one
table as it does in the other (`Corresponds.find`).
-/

namespace NodeFactory

open Relator

/-- Each of the nodes, and each node inside them, has a property. -/
def Outline.Every (P : Outline → Prop) (nodes : List Outline) : Prop :=
  ∀ node ∈ allOf nodes, P node

namespace Outline.Every

variable {P : Outline → Prop} {nodes nodes' : List Outline}

theorem append : Every P (nodes ++ nodes') ↔ Every P nodes ∧ Every P nodes' := by
  simp only [Every, allOf_append, List.forall_mem_append]

theorem cons {sort : NodeSort} {span : Text.Span} {parts : List Outline} :
    Every P (node sort span parts :: nodes) ↔ P (node sort span parts) ∧ Every P parts ∧ Every P nodes := by
  simp only [Every, allOf, all, List.cons_append, List.forall_mem_cons, List.forall_mem_append]

theorem of_mem {α : Type} [Outlined α] {as : List α} (h : Every P (outlines as)) {a : α} (ha : a ∈ as) :
    Every P (outlines a) := by
  induction as with
  | nil => cases ha
  | cons first rest ih =>
    rw [outlines_cons, append] at h
    rcases List.mem_cons.1 ha with rfl | ha
    · exact h.1
    · exact ih h.2 ha

end Outline.Every

instance : Outlined DeclNode := ⟨fun
  | .namespaceDecl => []
  | .interfaceDecl decl => outlines decl
  | .aliasDecl decl => outlines decl
  | .enumDecl decl => outlines decl
  | .memberDecl member => outlines member⟩

/-- Which symbols and which declarations of two tables stand for the same, and what nodes the
declarations consist of. -/
structure Matching where
  symbol : SymbolId → SymbolId → Prop
  decl : DeclId → DeclId → Prop
  node : Outline → Prop

/-- Symbols that agree but for the numbers. -/
structure Symbol.Agrees (m : Matching) (symbol symbol' : Symbol) : Prop where
  name : symbol.name = symbol'.name
  kind : symbol.kind = symbol'.kind
  value : symbol.value = symbol'.value
  declarations : List.Forall₂ m.decl symbol.declarations symbol'.declarations
  parent : Option.Rel m.symbol symbol.parent symbol'.parent
  exports (name : String) : Option.Rel m.symbol (symbol.exports.lookup name) (symbol'.exports.lookup name)

/-- Declarations that agree but for the numbers. -/
structure Declaration.Agrees (m : Matching) (decl decl' : Declaration) : Prop where
  node : decl.node = decl'.node
  comments : decl.comments = decl'.comments
  symbol : m.symbol decl.symbol decl'.symbol
  scope : Option.Rel m.symbol decl.scope decl'.scope
  nodes : Outline.Every m.node (outlines decl.node)
  led : ∃ node, m.node node ∧ node.sort.comments? = some decl.comments

/-- Numbered declarations that are matched and agree. -/
def DeclarationsAgree (m : Matching) (entry entry' : DeclId × Declaration) : Prop :=
  m.decl entry.1 entry'.1 ∧ entry.2.Agrees m entry'.2

theorem optionRel_isSome {α α' : Type} {R : α → α' → Prop} {a : Option α} {a' : Option α'}
    (h : Option.Rel R a a') : a.isSome = a'.isSome := by
  cases h <;> rfl

theorem optionRel_bind {α α' β β' : Type} {R : α → α' → Prop} {Q : β → β' → Prop} {a : Option α}
    {a' : Option α'} {f : α → Option β} {f' : α' → Option β'} (h : Option.Rel R a a')
    (hf : ∀ a a', R a a' → Option.Rel Q (f a) (f' a')) : Option.Rel Q (a.bind f) (a'.bind f') := by
  cases h with
  | none => exact .none
  | some hvalue => exact hf _ _ hvalue

mutual

theorem TypeExpr.every_heads {P : Outline → Prop} : ∀ {type : TypeExpr}, Outline.Every P [type.outline] →
    ∀ name ∈ type.heads, P name.outline
  | ⟨.reference name args, span⟩, h, name', hmem => by
    obtain rfl := List.mem_singleton.1 hmem
    exact (Outline.Every.cons.1 (Outline.Every.cons.1 h).2.1).1
  | ⟨.union parts, span⟩, h, name, hmem =>
    TypeExpr.every_headsOfParts (Outline.Every.cons.1 h).2.1 name hmem

theorem TypeExpr.every_headsOfParts {P : Outline → Prop} : ∀ {parts : List TypeExpr},
    Outline.Every P (TypeExpr.allOutlines parts) →
    ∀ name ∈ TypeExpr.headsOfParts parts, P name.outline
  | part :: parts, h, name, hmem => by
    have hsplit := Outline.Every.append.1 (show Outline.Every P ([part.outline] ++ _) from h)
    rcases List.mem_append.1 hmem with hmem | hmem
    · exact TypeExpr.every_heads hsplit.1 name hmem
    · exact TypeExpr.every_headsOfParts hsplit.2 name hmem

end

theorem HeritageType.every_name {P : Outline → Prop} {type : HeritageType}
    (h : Outline.Every P (outlines type)) : P type.name.outline :=
  (Outline.Every.cons.1 (Outline.Every.cons.1 h).2.1).1

section Interfaces

variable {P : Outline → Prop} {decl : Interface} (h : Outline.Every P (outlines decl))
include h

theorem Interface.every_heritage {clause : HeritageClause} (hclause : clause ∈ decl.heritage)
    {type : HeritageType} (htype : type ∈ clause.types) : P type.name.outline := by
  have hparts := (Outline.Every.cons.1 h).2.2
  have hclauses := (Outline.Every.append.1 (Outline.Every.append.1 hparts).1).2
  have htypes := (Outline.Every.cons.1 (hclauses.of_mem hclause)).2.1
  exact HeritageType.every_name (htypes.of_mem htype)

theorem Interface.every_member {member : Member} (hmember : member ∈ decl.members) :
    Outline.Every P (outlines member) :=
  (Outline.Every.append.1 (Outline.Every.cons.1 h).2.2).2.of_mem hmember

end Interfaces

theorem TypeAlias.every_type {P : Outline → Prop} {decl : TypeAlias}
    (h : Outline.Every P (outlines decl)) : Outline.Every P [decl.type.outline] :=
  (Outline.Every.append.1 (Outline.Every.cons.1 h).2.2).2

theorem DeclNode.every_supertypes {P : Outline → Prop} {node : DeclNode}
    (h : Outline.Every P (outlines node)) : ∀ name ∈ node.supertypes, P name.outline := by
  intro name hmem
  cases node with
  | namespaceDecl | enumDecl | memberDecl => cases hmem
  | interfaceDecl decl =>
    obtain ⟨type, htype, rfl⟩ := List.mem_map.1 hmem
    cases hhead : decl.heritage.head? with
    | none =>
      rw [hhead] at htype
      cases htype
    | some clause =>
      rw [hhead] at htype
      exact Interface.every_heritage h (List.mem_of_mem_head? hhead) htype
  | aliasDecl decl => exact TypeExpr.every_heads (TypeAlias.every_type h) name hmem

namespace SymbolTable

/-- What is matched agrees, and the names that occur stand for what is matched. -/
structure Corresponds (m : Matching) (table table' : SymbolTable) : Prop where
  coherent : table.Coherent
  coherent' : table'.Coherent
  unique : BiUnique m.symbol
  uniqueDecl : BiUnique m.decl
  symbol {i i' : SymbolId} : m.symbol i i' → ∃ symbol symbol', table.symbols[i]? = some symbol
    ∧ table'.symbols[i']? = some symbol' ∧ symbol.Agrees m symbol'
  decl {d d' : DeclId} : m.decl d d' → ∃ decl decl', table.declarations[d]? = some decl
    ∧ table'.declarations[d']? = some decl' ∧ decl.Agrees m decl'
  global {name : EntityName} : m.node name.outline → Option.Rel m.symbol
    (table.globals.lookup name.first.name) (table'.globals.lookup name.first.name)

theorem Coherent.lookup_some {table : SymbolTable} (hc : table.Coherent) {id : SymbolId} {symbol : Symbol}
    (hsymbol : table.symbols[id]? = some symbol) (name : String) :
    table.lookup (some id) name = (symbol.exports.lookup name).or (table.lookup symbol.parent name) := by
  rw [lookup, lookupFrom, hsymbol]
  dsimp only
  cases symbol.exports.lookup name with
  | some found => rfl
  | none =>
    cases hparent : symbol.parent with
    | none => rfl
    | some parent =>
      dsimp only
      rw [if_pos (hc.parent_lt hsymbol hparent)]
      rfl

namespace Corresponds

variable {m : Matching} {table table' : SymbolTable} (h : table.Corresponds m table')
include h

section Names

theorem symbolName {i i' : SymbolId} (hi : m.symbol i i') : table.symbolName i = table'.symbolName i' := by
  obtain ⟨symbol, symbol', hsymbol, hsymbol', hagrees⟩ := h.symbol hi
  simp [SymbolTable.symbolName, hsymbol, hsymbol', hagrees.name]

theorem exports {i i' : SymbolId} (hi : m.symbol i i') (name : String) :
    Option.Rel m.symbol ((table.exports i).lookup name) ((table'.exports i').lookup name) := by
  obtain ⟨symbol, symbol', hsymbol, hsymbol', hagrees⟩ := h.symbol hi
  simpa [SymbolTable.exports, hsymbol, hsymbol'] using hagrees.exports name

theorem hasScope {scope scope' : Option SymbolId} (hscope : Option.Rel m.symbol scope scope') :
    table.HasScope scope := by
  rintro i rfl
  cases hscope with
  | some hi =>
    obtain ⟨symbol, _, hsymbol, -⟩ := h.symbol hi
    exact hasScope_of_symbol hsymbol i rfl

theorem lookup {name : String}
    (hname : Option.Rel m.symbol (table.globals.lookup name) (table'.globals.lookup name))
    {scope scope' : Option SymbolId} (hscope : Option.Rel m.symbol scope scope') :
    Option.Rel m.symbol (table.lookup scope name) (table'.lookup scope' name) := by
  obtain ⟨scopes, henclosed⟩ : ∃ scopes, table.EnclosedBy scope scopes :=
    h.coherent.exists_enclosing (h.hasScope hscope)
  induction henclosed generalizing scope' with
  | file =>
    cases hscope
    exact hname
  | symbol hsymbol _ ih =>
    cases hscope with
    | some hi =>
      obtain ⟨symbol, symbol', hsymbol₁, hsymbol', hagrees⟩ := h.symbol hi
      obtain rfl := Option.some.inj (hsymbol.symm.trans hsymbol₁)
      rw [h.coherent.lookup_some hsymbol, h.coherent'.lookup_some hsymbol']
      have hexports := hagrees.exports name
      generalize List.lookup name _ = found at hexports
      generalize List.lookup name _ = found' at hexports
      cases hexports with
      | some hfound => exact .some hfound
      | none => exact ih hagrees.parent

theorem resolve {scope scope' : Option SymbolId} (hscope : Option.Rel m.symbol scope scope')
    {name : EntityName} (hname : m.node name.outline) :
    Option.Rel m.symbol (table.resolve scope name) (table'.resolve scope' name) := by
  have hrest : ∀ (parts : List Ident) {i i' : SymbolId}, m.symbol i i' → Option.Rel m.symbol
      (parts.foldlM (fun id part => (table.exports id).lookup part.name) i)
      (parts.foldlM (fun id part => (table'.exports id).lookup part.name) i') := by
    intro parts
    induction parts with
    | nil => exact fun hi => .some hi
    | cons part parts ih =>
      intro i i' hi
      rw [List.foldlM_cons, List.foldlM_cons]
      exact optionRel_bind (h.exports hi part.name) fun _ _ => ih
  exact optionRel_bind (h.lookup (h.global hname) hscope) fun _ _ => hrest name.rest

theorem resolveType {site site' : DeclId} (hsite : m.decl site site') {name : EntityName}
    (hname : m.node name.outline) :
    Option.Rel m.symbol (table.resolveType site name) (table'.resolveType site' name) := by
  obtain ⟨decl, decl', hdecl, hdecl', hagrees⟩ := h.decl hsite
  simp only [SymbolTable.resolveType, hdecl, hdecl', Option.bind_eq_bind, Option.bind_some, hagrees.node]
  split
  · exact .none
  · exact h.resolve hagrees.scope hname

theorem resolveAll {site site' : DeclId} (hsite : m.decl site site') {names : List EntityName}
    (hnames : ∀ name ∈ names, m.node name.outline) :
    List.Forall₂ m.symbol (table.resolveAll site names) (table'.resolveAll site' names) := by
  refine List.rel_filterMap (R := fun name name' => name = name' ∧ m.node name.outline) ?_
    (List.forall₂_same.2 fun name hmem => ⟨rfl, hnames name hmem⟩)
  rintro name _ ⟨rfl, hname⟩
  exact h.resolveType hsite hname

end Names

section Supertypes

theorem declarationsOf {i i' : SymbolId} (hi : m.symbol i i') :
    List.Forall₂ (DeclarationsAgree m) (table.declarationsOf i) (table'.declarationsOf i') := by
  obtain ⟨symbol, symbol', hsymbol, hsymbol', hagrees⟩ := h.symbol hi
  simp only [SymbolTable.declarationsOf, hsymbol, hsymbol', Option.map_some, Option.getD_some]
  refine List.rel_filterMap ?_ hagrees.declarations
  intro d d' hd
  obtain ⟨decl, decl', hdecl, hdecl', hagree⟩ := h.decl hd
  dsimp only
  rw [hdecl, hdecl']
  exact .some ⟨hd, hagree⟩

theorem firstDeclaration? {i i' : SymbolId} (hi : m.symbol i i') : Option.Rel (DeclarationsAgree m)
    (table.firstDeclaration? i) (table'.firstDeclaration? i') := by
  have hdeclarations := h.declarationsOf hi
  unfold SymbolTable.firstDeclaration?
  generalize table.declarationsOf i = entries at hdeclarations
  generalize table'.declarationsOf i' = entries' at hdeclarations
  cases hdeclarations with
  | nil => exact .none
  | cons hfirst _ => exact .some hfirst

theorem supertypes {d d' : DeclId} (hd : m.decl d d') :
    List.Forall₂ m.symbol (table.supertypes d) (table'.supertypes d') := by
  obtain ⟨decl, decl', hdecl, hdecl', hagrees⟩ := h.decl hd
  rw [SymbolTable.supertypes, SymbolTable.supertypes, hdecl, hdecl']
  dsimp only
  rw [← hagrees.node]
  exact h.resolveAll hd (DeclNode.every_supertypes hagrees.nodes)

theorem symbolSupertypes {i i' : SymbolId} (hi : m.symbol i i') :
    List.Forall₂ m.symbol (table.symbolSupertypes i) (table'.symbolSupertypes i') := by
  have hfirst := h.firstDeclaration? hi
  unfold SymbolTable.symbolSupertypes
  generalize table.firstDeclaration? i = entry at hfirst
  generalize table'.firstDeclaration? i' = entry' at hfirst
  cases hfirst with
  | none => exact .nil
  | some hentry => exact h.supertypes hentry.1

end Supertypes

section Descent

/-- Questions about matched symbols. -/
def QueriesMatch (m : Matching) (key key' : SymbolId × SymbolId) : Prop :=
  m.symbol key.1 key'.1 ∧ m.symbol key.2 key'.2

theorem queriesMatch_unique : BiUnique (QueriesMatch m) where
  left := fun _ _ _ h₁ h₂ => Prod.ext (h.unique.left h₁.1 h₂.1) (h.unique.left h₁.2 h₂.2)
  right := fun _ _ _ h₁ h₂ => Prod.ext (h.unique.right h₁.1 h₂.1) (h.unique.right h₁.2 h₂.2)

theorem eq_iff {i i' j j' : SymbolId} (hi : m.symbol i i') (hj : m.symbol j j') : i = j ↔ i' = j' :=
  ⟨fun heq => h.unique.right (heq ▸ hi) hj, fun heq => h.unique.left (heq ▸ hi) hj⟩

theorem anyReaches {target target' : SymbolId} (htarget : m.symbol target target')
    {ids ids' : List SymbolId} (hids : List.Forall₂ m.symbol ids ids') :
    Inquiry.Corresponds (QueriesMatch m) Eq Eq (Subtype.anyReaches target ids)
      (Subtype.anyReaches target' ids') := by
  refine .anyM (fun i i' hi => ?_) hids
  simp only [h.eq_iff hi htarget]
  split
  · exact .pure rfl
  · exact .question ⟨hi, htarget⟩

theorem subtypeRule (key key' : SymbolId × SymbolId) (hkey : QueriesMatch m key key') :
    Inquiry.Corresponds (QueriesMatch m) Eq Eq (Subtype.rule table key) (Subtype.rule table' key') :=
  h.anyReaches hkey.2 (h.symbolSupertypes hkey.1)

theorem find {α α' : Type} {R : α → α' → Prop} {descent : Subtype.Descent α} {descent' : Subtype.Descent α'}
    (hdescent : Inquiry.Corresponds (QueriesMatch m) Eq R descent descent') :
    GivesAlike (Memo.AtRest (Subtype.rule table)) (Memo.AtRest (Subtype.rule table')) R
      (Subtype.find table descent) (Subtype.find table' descent') :=
  givesAlike_run (Subtype.pathsWithin_size table) (Nat.lt_succ_self _) (Subtype.pathsWithin_size table')
    (Nat.lt_succ_self _) h.subtypeRule h.queriesMatch_unique (fun _ _ hkey => h.symbolName hkey.1) hdescent

end Descent

end Corresponds

end SymbolTable

end NodeFactory
