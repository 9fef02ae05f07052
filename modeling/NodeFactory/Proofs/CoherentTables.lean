import Mathlib.Data.List.Nodup
import NodeFactory.Proofs.BindingSteps

/-!
# Tables that fit together

Symbols, declarations and the names bound in scopes refer to each other by number. They fit together
in every table that statements are bound into (`Coherent`): what a declaration adds fits what is there
(`Coherent.declare`), and a value is no part of it. As a scope is made before the symbols in it, the
scopes around a scope are finitely many (`Coherent.exists_enclosing`), and a name is looked up in them
from the inside out (`lookup_eq_findSome?`).
-/

namespace NodeFactory

open Relation Text

namespace SymbolTable

/-- The numbers in a table refer to what they should. -/
structure Coherent (table : SymbolTable) : Prop where
  /-- The scope of a symbol is made before the symbol. -/
  parent_lt {id : SymbolId} {symbol : Symbol} {parent : SymbolId} :
    table.symbols[id]? = some symbol → symbol.parent = some parent → parent < id
  /-- The scope of a symbol binds its name to it. -/
  bound {id : SymbolId} {symbol : Symbol} : table.symbols[id]? = some symbol →
    (table.bindings symbol.parent).lookup symbol.name = some id
  /-- A name is bound in a scope to a symbol of that name and scope. -/
  entry {scope : Option SymbolId} {name : String} {id : SymbolId} :
    (name, id) ∈ table.bindings scope →
    ∃ symbol, table.symbols[id]? = some symbol ∧ symbol.name = name ∧ symbol.parent = scope
  /-- A scope binds a name once. -/
  names_nodup (scope : Option SymbolId) : ((table.bindings scope).map Prod.fst).Nodup
  /-- A declaration is one of its symbol's, and in the scope of the symbol. -/
  declared {d : DeclId} {decl : Declaration} : table.declarations[d]? = some decl →
    ∃ symbol, table.symbols[decl.symbol]? = some symbol ∧ d ∈ symbol.declarations
      ∧ decl.scope = symbol.parent
  /-- The declarations of a symbol are declarations of it. -/
  listed {id : SymbolId} {symbol : Symbol} {d : DeclId} : table.symbols[id]? = some symbol →
    d ∈ symbol.declarations → ∃ decl, table.declarations[d]? = some decl ∧ decl.symbol = id
  /-- The declarations of a symbol are in the order of declaration. -/
  ascending {id : SymbolId} {symbol : Symbol} : table.symbols[id]? = some symbol →
    symbol.declarations.Pairwise (· < ·)
  /-- A symbol is declared, and is of the kind of its first declaration. -/
  first {id : SymbolId} {symbol : Symbol} : table.symbols[id]? = some symbol →
    ∃ d decl, symbol.declarations.head? = some d ∧ table.declarations[d]? = some decl
      ∧ decl.node.kind = symbol.kind

variable {table table' : SymbolTable} {scope : Option SymbolId} {name : String} {node : DeclNode}
  {comments : List Span} {id : SymbolId}

theorem getElem?_push_of_some {declarations : Array Declaration} {d : DeclId} {decl : Declaration}
    (h : declarations[d]? = some decl) (last : Declaration) :
    (declarations.push last)[d]? = some decl := by
  rw [Array.getElem?_push, if_neg (Nat.ne_of_lt (Array.getElem?_eq_some_iff.1 h).1), h]

theorem mem_of_lookup {bindings : Bindings} (h : bindings.lookup name = some id) :
    (name, id) ∈ bindings := by
  obtain ⟨before, after, rfl, -⟩ := List.lookup_eq_some_iff.1 h
  simp

namespace Coherent

theorem empty : SymbolTable.empty.Coherent where
  parent_lt h := by simp [SymbolTable.empty] at h
  bound h := by simp [SymbolTable.empty] at h
  entry {scope} _ _ h := by cases scope <;> exact absurd h List.not_mem_nil
  names_nodup scope := by cases scope <;> simp [SymbolTable.empty, bindings, exports]
  declared h := by simp [SymbolTable.empty] at h
  listed h := by simp [SymbolTable.empty] at h
  ascending h := by simp [SymbolTable.empty] at h
  first h := by simp [SymbolTable.empty] at h

/-- A name stands for a symbol of that name in that scope. -/
theorem of_lookup (h : table.Coherent) (hlookup : (table.bindings scope).lookup name = some id) :
    ∃ symbol, table.symbols[id]? = some symbol ∧ symbol.name = name ∧ symbol.parent = scope :=
  h.entry (mem_of_lookup hlookup)

theorem lt_of_mem (h : table.Coherent) {symbol : Symbol} {d : DeclId}
    (hsymbol : table.symbols[id]? = some symbol) (hd : d ∈ symbol.declarations) :
    d < table.declarations.size := by
  obtain ⟨decl, hdecl, -⟩ := h.listed hsymbol hd
  exact (Array.getElem?_eq_some_iff.1 hdecl).1

end Coherent

section Declaring

variable {kind : SymbolKind}

/-- The symbol of a declaration has its name and scope. -/
theorem Adds.target (h : Adds table scope name kind table' id) (hc : table.Coherent) :
    ∃ symbol, table'.symbols[id]? = some symbol ∧ symbol.name = name ∧ symbol.parent = scope
      ∧ table.declarations.size ∈ symbol.declarations := by
  cases h with
  | joins hlookup hsymbols _ =>
    obtain ⟨symbol, hsymbol, rfl, rfl⟩ := hc.of_lookup hlookup
    exact ⟨symbol.declaredAt table.declarations.size, by simp [hsymbols, hsymbol], rfl, rfl,
      by simp [Symbol.declaredAt]⟩
  | makes _ _ hsymbols _ => exact ⟨_, by rw [hsymbols, if_pos rfl], rfl, rfl, by simp⟩

theorem Adds.mem_cases (h : Adds table scope name kind table' id) {s : Option SymbolId} {n : String}
    {i : SymbolId} (hmem : (n, i) ∈ table'.bindings s) :
    (n, i) ∈ table.bindings s ∨ n = name ∧ i = id ∧ s = scope := by
  cases h with
  | joins _ _ hbindings => exact .inl (hbindings s ▸ hmem)
  | makes _ _ _ hbindings =>
    rw [hbindings, List.mem_append] at hmem
    refine hmem.imp_right fun hnew => ?_
    split at hnew
    · simpa [*] using hnew
    · cases hnew

theorem Adds.names_nodup (h : Adds table scope name kind table' id) {s : Option SymbolId}
    (hnodup : ((table.bindings s).map Prod.fst).Nodup) : ((table'.bindings s).map Prod.fst).Nodup := by
  cases h with
  | joins _ _ hbindings => rwa [hbindings]
  | makes hlookup _ _ hbindings =>
    rw [hbindings]
    split
    · subst s
      have hfresh : ∀ entry ∈ table.bindings scope, ¬ entry.1 = name := fun entry hentry hname =>
        absurd (List.lookup_eq_none_iff.1 hlookup entry hentry) (by simp [hname])
      simpa [List.nodup_append, hnodup] using fun n i hentry => hfresh (n, i) hentry
    · simpa using hnodup

section Fields

variable (h : Adds table scope name node.kind table' id) (hc : table.Coherent)
  (hdeclarations : table'.declarations = table.declarations.push ⟨node, id, scope, comments⟩)
include h hc hdeclarations

theorem Adds.declared {d : DeclId} {decl : Declaration} (hdecl : table'.declarations[d]? = some decl) :
    ∃ symbol, table'.symbols[decl.symbol]? = some symbol ∧ d ∈ symbol.declarations
      ∧ decl.scope = symbol.parent := by
  rw [hdeclarations, Array.getElem?_push] at hdecl
  split at hdecl
  · obtain rfl := Option.some.inj hdecl
    subst d
    obtain ⟨symbol, hsymbol, -, hparent, hmem⟩ := h.target hc
    exact ⟨symbol, hsymbol, hmem, hparent.symm⟩
  · obtain ⟨symbol, hsymbol, hmem, hparent⟩ := hc.declared hdecl
    obtain ⟨symbol', hsymbol', hcontinues, -⟩ := h.continues hsymbol
    exact ⟨symbol', hsymbol', by rw [hcontinues.declarations]; exact List.mem_append_left _ hmem,
      hcontinues.parent ▸ hparent⟩

theorem Adds.listed {i : SymbolId} {symbol' : Symbol} {d : DeclId}
    (hsymbol' : table'.symbols[i]? = some symbol') (hd : d ∈ symbol'.declarations) :
    ∃ decl, table'.declarations[d]? = some decl ∧ decl.symbol = i := by
  rw [hdeclarations]
  obtain ⟨symbol, hsymbol, hcontinues⟩ | ⟨-, rfl, -, rfl⟩ := h.symbol_cases hsymbol'
  · rw [hcontinues.declarations, List.mem_append] at hd
    obtain hd | hd := hd
    · obtain ⟨decl, hdecl, hid⟩ := hc.listed hsymbol hd
      exact ⟨decl, getElem?_push_of_some hdecl _, hid⟩
    · split at hd
      · obtain rfl := List.mem_singleton.1 hd
        exact ⟨_, Array.getElem?_push_size, by symm; assumption⟩
      · cases hd
  · obtain rfl := List.mem_singleton.1 hd
    exact ⟨_, Array.getElem?_push_size, rfl⟩

theorem Adds.first {i : SymbolId} {symbol' : Symbol} (hsymbol' : table'.symbols[i]? = some symbol') :
    ∃ d decl, symbol'.declarations.head? = some d ∧ table'.declarations[d]? = some decl
      ∧ decl.node.kind = symbol'.kind := by
  rw [hdeclarations]
  obtain ⟨symbol, hsymbol, hcontinues⟩ | ⟨-, rfl, -, rfl⟩ := h.symbol_cases hsymbol'
  · obtain ⟨d, decl, hd, hdecl, hkind⟩ := hc.first hsymbol
    exact ⟨d, decl, by rw [hcontinues.declarations, List.head?_append, hd, Option.some_or],
      getElem?_push_of_some hdecl _, hcontinues.kind ▸ hkind⟩
  · exact ⟨_, _, rfl, Array.getElem?_push_size, rfl⟩

end Fields

theorem Adds.ascending (h : Adds table scope name kind table' id) (hc : table.Coherent)
    {i : SymbolId} {symbol' : Symbol} (hsymbol' : table'.symbols[i]? = some symbol') :
    symbol'.declarations.Pairwise (· < ·) := by
  obtain ⟨symbol, hsymbol, hcontinues⟩ | ⟨-, rfl, -, rfl⟩ := h.symbol_cases hsymbol'
  · rw [hcontinues.declarations, List.pairwise_append]
    refine ⟨hc.ascending hsymbol, by split <;> simp, fun d hd d' hd' => ?_⟩
    split at hd'
    · exact List.mem_singleton.1 hd' ▸ hc.lt_of_mem hsymbol hd
    · cases hd'
  · exact List.pairwise_singleton ..

/-- What a declaration adds fits what is there. -/
theorem Adds.coherent (h : Adds table scope name node.kind table' id) (hc : table.Coherent)
    (hscope : table.HasScope scope)
    (hdeclarations : table'.declarations = table.declarations.push ⟨node, id, scope, comments⟩) :
    table'.Coherent where
  parent_lt {i symbol' parent} hsymbol' hparent := by
    obtain ⟨symbol, hsymbol, hcontinues⟩ | ⟨-, rfl, rfl, rfl⟩ := h.symbol_cases hsymbol'
    · exact hc.parent_lt hsymbol (hcontinues.parent ▸ hparent)
    · exact hscope parent hparent
  bound {i symbol'} hsymbol' := by
    obtain ⟨symbol, hsymbol, hcontinues⟩ | ⟨-, rfl, -, rfl⟩ := h.symbol_cases hsymbol'
    · rw [hcontinues.parent, hcontinues.name]
      exact h.lookup_mono (hc.bound hsymbol)
    · exact h.lookup_self
  entry {s n i} hmem := by
    obtain hold | ⟨rfl, rfl, rfl⟩ := h.mem_cases hmem
    · obtain ⟨symbol, hsymbol, rfl, rfl⟩ := hc.entry hold
      obtain ⟨symbol', hsymbol', hcontinues, -⟩ := h.continues hsymbol
      exact ⟨symbol', hsymbol', hcontinues.name, hcontinues.parent⟩
    · obtain ⟨symbol, hsymbol, hname, hparent, -⟩ := h.target hc
      exact ⟨symbol, hsymbol, hname, hparent⟩
  names_nodup s := h.names_nodup (hc.names_nodup s)
  declared := h.declared hc hdeclarations
  listed := h.listed hc hdeclarations
  ascending := h.ascending hc
  first := h.first hc hdeclarations

end Declaring

namespace Coherent

theorem declare (hc : table.Coherent) (hscope : table.HasScope scope) (name : String) (node : DeclNode)
    (comments : List Span) : (table.declare scope name node comments).1.Coherent :=
  (declare_adds hscope name node comments).coherent hc hscope declarations_declare

/-- A value is no part of what fits together. -/
theorem setValue (hc : table.Coherent) (id : SymbolId) (value : Option Binary64) :
    (table.setValue id value).Coherent where
  parent_lt h hparent := by
    obtain ⟨symbol, hsymbol, hcontinues⟩ := symbol_of_setValue h
    exact hc.parent_lt hsymbol (hcontinues.parent ▸ hparent)
  bound h := by
    obtain ⟨symbol, hsymbol, hcontinues⟩ := symbol_of_setValue h
    rw [bindings_setValue, hcontinues.parent, hcontinues.name]
    exact hc.bound hsymbol
  entry hmem := by
    rw [bindings_setValue] at hmem
    obtain ⟨symbol, hsymbol, rfl, rfl⟩ := hc.entry hmem
    obtain ⟨symbol', hsymbol', hcontinues, -⟩ := continues_setValue id value hsymbol
    exact ⟨symbol', hsymbol', hcontinues.name, hcontinues.parent⟩
  names_nodup s := by
    rw [bindings_setValue]
    exact hc.names_nodup s
  declared hdecl := by
    obtain ⟨symbol, hsymbol, hmem, hparent⟩ := hc.declared hdecl
    obtain ⟨symbol', hsymbol', hcontinues, -⟩ := continues_setValue id value hsymbol
    exact ⟨symbol', hsymbol', by simpa [hcontinues.declarations] using hmem,
      hcontinues.parent ▸ hparent⟩
  listed h hd := by
    obtain ⟨symbol, hsymbol, hcontinues⟩ := symbol_of_setValue h
    exact hc.listed hsymbol (by simpa [hcontinues.declarations] using hd)
  ascending h := by
    obtain ⟨symbol, hsymbol, hcontinues⟩ := symbol_of_setValue h
    simpa [hcontinues.declarations] using hc.ascending hsymbol
  first h := by
    obtain ⟨symbol, hsymbol, hcontinues⟩ := symbol_of_setValue h
    rw [hcontinues.declarations, List.append_nil, hcontinues.kind]
    exact hc.first hsymbol

theorem step (hc : table.Coherent) (step : BindingStep table table') : table'.Coherent := by
  cases step with
  | declares name node comments hscope => exact hc.declare hscope name node comments
  | values name member comments value hscope =>
    exact (hc.declare hscope name (.memberDecl member) comments).setValue _ value

theorem run (hc : table.Coherent) (run : table.Binds table') : table'.Coherent := by
  induction run with
  | refl => exact hc
  | tail _ step ih => exact ih.step step

/-- A name in a scope has one symbol. -/
theorem unique (hc : table.Coherent) {id id' : SymbolId} {symbol symbol' : Symbol}
    (h : table.symbols[id]? = some symbol) (h' : table.symbols[id']? = some symbol')
    (hname : symbol.name = symbol'.name) (hparent : symbol.parent = symbol'.parent) : id = id' := by
  have hbound := hc.bound h
  rw [hname, hparent, hc.bound h'] at hbound
  exact (Option.some.inj hbound).symm

theorem symbol_of_mem (hc : table.Coherent) {id : SymbolId} {symbol : Symbol} {d : DeclId}
    {decl : Declaration} (hsymbol : table.symbols[id]? = some symbol) (hd : d ∈ symbol.declarations)
    (hdecl : table.declarations[d]? = some decl) : decl.symbol = id := by
  obtain ⟨decl', hdecl', hid⟩ := hc.listed hsymbol hd
  obtain rfl := Option.some.inj (hdecl.symm.trans hdecl')
  exact hid

/-- A declaration is listed once, by its symbol. -/
theorem count_declarations (hc : table.Coherent) {d : DeclId} {decl : Declaration} {id : SymbolId}
    {symbol : Symbol} (hdecl : table.declarations[d]? = some decl)
    (hsymbol : table.symbols[id]? = some symbol) :
    symbol.declarations.count d = if id = decl.symbol then 1 else 0 := by
  split
  · rename_i hid
    obtain ⟨_, hsymbol', hmem, -⟩ := hc.declared hdecl
    obtain rfl := Option.some.inj ((hid ▸ hsymbol).symm.trans hsymbol')
    have hnodup : symbol.declarations.Nodup := (hc.ascending hsymbol).imp Nat.ne_of_lt
    exact List.count_eq_one_of_mem hnodup hmem
  · rename_i hid
    exact List.count_eq_zero_of_not_mem fun hmem => hid (hc.symbol_of_mem hsymbol hmem hdecl).symm

/-- What a declaration belongs to is there to be a scope. -/
theorem hasScope_declare (hc : table.Coherent) (hscope : table.HasScope scope) (name : String)
    (node : DeclNode) (comments : List Span) :
    (table.declare scope name node comments).1.HasScope
      (some (table.declare scope name node comments).2) := by
  obtain ⟨symbol, hsymbol, -⟩ := (declare_adds hscope name node comments).target hc
  exact hasScope_of_symbol hsymbol

end Coherent

section Statements

theorem bindMembers_run {enum : SymbolId} : ∀ (members : List EnumMember) {table : SymbolTable}
    (previous : Option (Option Binary64)), table.HasScope (some enum) →
    table.Binds (bindMembers enum previous table members)
  | [], _, _, _ => .refl
  | member :: members, table, previous, hscope => by
    have step : BindingStep table _ := .values member.name.name member member.comments
      (table.memberValue enum previous member) hscope
    exact .head step (bindMembers_run members _ (hscope.step step))

theorem bindPath_run (comments : List Span) : ∀ (parts : List Ident) {scope : Option SymbolId}
    {table : SymbolTable}, table.Coherent → table.HasScope scope →
    table.Binds (bindPath comments scope table parts).1
      ∧ (bindPath comments scope table parts).1.HasScope (bindPath comments scope table parts).2
  | [], _, _, _, hscope => ⟨.refl, hscope⟩
  | part :: parts, _, table, hc, hscope => by
    have step : BindingStep table _ := .declares part.name .namespaceDecl comments hscope
    obtain ⟨run, hinner⟩ := bindPath_run comments parts (hc.step step)
      (hc.hasScope_declare hscope part.name .namespaceDecl comments)
    exact ⟨.head step run, hinner⟩

mutual

theorem bindStatement_run : ∀ (statement : Statement) {scope : Option SymbolId} {table : SymbolTable},
    table.Coherent → table.HasScope scope → table.Binds (bindStatement scope table statement)
  | .namespaceDecl place name body, _, _, hc, hscope => by
    obtain ⟨run, hinner⟩ := bindPath_run place.comments name.parts hc hscope
    exact run.trans (bindStatements_run body (hc.run run) hinner)
  | .interfaceDecl place decl, _, _, _, hscope =>
    .single (.declares decl.name.name (.interfaceDecl decl) place.comments hscope)
  | .aliasDecl place decl, _, _, _, hscope =>
    .single (.declares decl.name.name (.aliasDecl decl) place.comments hscope)
  | .enumDecl place decl, _, table, hc, hscope => by
    have step : BindingStep table _ :=
      .declares decl.name.name (.enumDecl decl) place.comments hscope
    exact .head step (bindMembers_run decl.members none
      (hc.hasScope_declare hscope decl.name.name (.enumDecl decl) place.comments))
  | .skipped _, _, _, _, _ => .refl

/-- Binding statements is a run of declarations, each in a scope that is there. -/
theorem bindStatements_run : ∀ (statements : List Statement) {scope : Option SymbolId}
    {table : SymbolTable}, table.Coherent → table.HasScope scope →
    table.Binds (bindStatements scope table statements)
  | [], _, _, _, _ => .refl
  | statement :: statements, _, _, hc, hscope => by
    have run := bindStatement_run statement hc hscope
    exact run.trans (bindStatements_run statements (hc.run run) (hscope.run run))

end

theorem hasScope_none (table : SymbolTable) : table.HasScope none :=
  fun _ h => by cases h

theorem Coherent.ofStatements (statements : List Statement) :
    (SymbolTable.ofStatements statements).Coherent :=
  Coherent.empty.run (bindStatements_run statements .empty (hasScope_none _))

end Statements

section Enclosing

/-- The scopes from a scope outwards, which end with the file. -/
inductive EnclosedBy (table : SymbolTable) : Option SymbolId → List (Option SymbolId) → Prop
  | file : EnclosedBy table none [none]
  | symbol {id : SymbolId} {symbol : Symbol} {scopes : List (Option SymbolId)} :
      table.symbols[id]? = some symbol → EnclosedBy table symbol.parent scopes →
      EnclosedBy table (some id) (some id :: scopes)

/-- The scopes around a scope are finitely many, as each is made before the one inside it. -/
theorem Coherent.exists_enclosing (hc : table.Coherent) : ∀ {scope : Option SymbolId},
    table.HasScope scope → ∃ scopes, table.EnclosedBy scope scopes := by
  suffices h : ∀ id < table.symbols.size, ∃ scopes, table.EnclosedBy (some id) scopes by
    intro scope hscope
    cases scope with
    | none => exact ⟨_, .file⟩
    | some id => exact h id (hscope id rfl)
  intro id
  induction id using Nat.strongRecOn with
  | ind id ih =>
    intro hid
    have hsymbol := Array.getElem?_eq_getElem hid
    cases hparent : table.symbols[id].parent with
    | none => exact ⟨_, .symbol hsymbol (by rw [hparent]; exact .file)⟩
    | some parent =>
      have hlt : parent < id := hc.parent_lt hsymbol hparent
      obtain ⟨scopes, h⟩ := ih parent hlt (Nat.lt_trans hlt hid)
      exact ⟨_, .symbol hsymbol (by rw [hparent]; exact h)⟩

theorem EnclosedBy.unique {scopes scopes' : List (Option SymbolId)} (h : table.EnclosedBy scope scopes)
    (h' : table.EnclosedBy scope scopes') : scopes' = scopes := by
  induction h generalizing scopes' with
  | file => cases h'; rfl
  | symbol hsymbol _ ih =>
    cases h' with
    | symbol hsymbol' h' =>
      obtain rfl := Option.some.inj (hsymbol.symm.trans hsymbol')
      rw [ih h']

/-- A name is looked up in the scopes around a scope, from the inside out. -/
theorem Coherent.lookup_eq_findSome? (hc : table.Coherent) {scopes : List (Option SymbolId)}
    (h : table.EnclosedBy scope scopes) (name : String) :
    table.lookup scope name = scopes.findSome? fun scope => (table.bindings scope).lookup name := by
  induction h with
  | file => simp [lookup, bindings]
  | @symbol id symbol scopes hsymbol hparent ih =>
    rw [lookup, lookupFrom, hsymbol]
    have hbindings : table.bindings (some id) = symbol.exports := by
      rw [bindings_some, hsymbol]; rfl
    rw [List.findSome?_cons, hbindings]
    dsimp only
    cases symbol.exports.lookup name with
    | some found => rfl
    | none =>
      rw [← ih]
      dsimp only
      split
      · rename_i hp; rw [hp]; rfl
      · rename_i parent hp
        rw [if_pos (hc.parent_lt hsymbol hp), hp]
        rfl

/-- The tables of statements fit together. A declaration is listed once, by its symbol; a name in a scope
has one symbol; and a name is looked up in the scopes around a scope, from the inside out. -/
theorem ofStatements_coherent (statements : List Statement) :
    (ofStatements statements).Coherent
    ∧ (∀ (d : DeclId) (decl : Declaration) (id : SymbolId) (symbol : Symbol),
      (ofStatements statements).declarations[d]? = some decl →
      (ofStatements statements).symbols[id]? = some symbol →
      symbol.declarations.count d = if id = decl.symbol then 1 else 0)
    ∧ (∀ (id id' : SymbolId) (symbol symbol' : Symbol),
      (ofStatements statements).symbols[id]? = some symbol →
      (ofStatements statements).symbols[id']? = some symbol' →
      symbol.name = symbol'.name → symbol.parent = symbol'.parent → id = id')
    ∧ ∀ scope, (ofStatements statements).HasScope scope →
      ∃ scopes, (ofStatements statements).EnclosedBy scope scopes
        ∧ (∀ scopes', (ofStatements statements).EnclosedBy scope scopes' → scopes' = scopes)
        ∧ ∀ name, (ofStatements statements).lookup scope name
          = scopes.findSome? fun scope => ((ofStatements statements).bindings scope).lookup name := by
  have hc := Coherent.ofStatements statements
  refine ⟨hc, fun _ _ _ _ => hc.count_declarations, fun _ _ _ _ => hc.unique, fun scope hscope => ?_⟩
  obtain ⟨scopes, h⟩ := hc.exists_enclosing hscope
  exact ⟨scopes, h, fun _ h' => h.unique h', hc.lookup_eq_findSome? h⟩

end Enclosing

end SymbolTable

end NodeFactory
