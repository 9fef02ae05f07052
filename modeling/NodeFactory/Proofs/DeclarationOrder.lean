import Mathlib.Data.List.Forall2
import NodeFactory.Proofs.CoherentTables

/-!
# Declarations in order

Binding only adds: the tables of more statements extend those of fewer (`Extends`), and a symbol has
another value only where its enum member is declared again. The declarations are those that the
statements make (`Statement.occurrences`), each once and in the order of the text, each in the scope that
the text has it in (`bindStatements_records`).
-/

namespace NodeFactory

open Relation Text

/-- A declaration as statements make it: the names of the scopes around it, from the outside in, its
name, what is declared and the comments that lead it. -/
structure Occurrence where
  path : List String
  name : String
  node : DeclNode
  comments : List Span

def EnumMember.occurrence (path : List String) (member : EnumMember) : Occurrence :=
  ⟨path, member.name.name, .memberDecl member, member.comments⟩

/-- Each part of a namespace name declares a namespace inside the one before. -/
def pathOccurrences (comments : List Span) (path : List String) : List Ident → List Occurrence
  | [] => []
  | part :: parts =>
    ⟨path, part.name, .namespaceDecl, comments⟩
      :: pathOccurrences comments (path ++ [part.name]) parts

mutual

/-- The declarations of a statement in the order of the text. -/
def Statement.occurrences (path : List String) : Statement → List Occurrence
  | .namespaceDecl place name body =>
    pathOccurrences place.comments path name.parts
      ++ occurrencesIn (path ++ name.parts.map Ident.name) body
  | .interfaceDecl place decl => [⟨path, decl.name.name, .interfaceDecl decl, place.comments⟩]
  | .aliasDecl place decl => [⟨path, decl.name.name, .aliasDecl decl, place.comments⟩]
  | .enumDecl place decl =>
    ⟨path, decl.name.name, .enumDecl decl, place.comments⟩
      :: decl.members.map (EnumMember.occurrence (path ++ [decl.name.name]))
  | .skipped _ => []

def occurrencesIn (path : List String) : List Statement → List Occurrence
  | [] => []
  | statement :: statements => statement.occurrences path ++ occurrencesIn path statements

end

theorem occurrencesIn_eq_flatMap (path : List String) (statements : List Statement) :
    occurrencesIn path statements = statements.flatMap (Statement.occurrences path) := by
  induction statements with
  | nil => rfl
  | cons statement statements ih => rw [occurrencesIn, ih, List.flatMap_cons]

theorem mem_occurrencesIn {path : List String} {statements : List Statement} {occurrence : Occurrence} :
    occurrence ∈ occurrencesIn path statements
      ↔ ∃ statement ∈ statements, occurrence ∈ statement.occurrences path := by
  rw [occurrencesIn_eq_flatMap, List.mem_flatMap]

namespace SymbolTable

variable {table table' table'' : SymbolTable} {scope : Option SymbolId} {name : String}
  {node : DeclNode} {comments : List Span} {id : SymbolId} {path : List String}

section Extension

/-- A later table has a new declaration of an enum member that belongs to a symbol. -/
def RedeclaresMember (table table' : SymbolTable) (id : SymbolId) : Prop :=
  ∃ d decl member, table.declarations.size ≤ d ∧ table'.declarations[d]? = some decl
    ∧ decl.symbol = id ∧ decl.node = .memberDecl member

/-- What is in a table stays in a later one, where more is added at the end. -/
structure Extends (table table' : SymbolTable) : Prop where
  declarations : table.declarations.toList <+: table'.declarations.toList
  globals : table.globals <+: table'.globals
  symbols {id : SymbolId} {symbol : Symbol} : table.symbols[id]? = some symbol →
    ∃ symbol' more, table'.symbols[id]? = some symbol' ∧ symbol.Continues more symbol'
      ∧ (symbol'.value ≠ symbol.value → table.RedeclaresMember table' id)

theorem Extends.declaration (h : table.Extends table') {d : DeclId} {decl : Declaration}
    (hdecl : table.declarations[d]? = some decl) : table'.declarations[d]? = some decl := by
  rw [← Array.getElem?_toList] at hdecl ⊢
  obtain ⟨more, hmore⟩ := h.declarations
  rw [← hmore, List.getElem?_append_left (List.getElem?_eq_some_iff.1 hdecl).1, hdecl]

theorem Extends.refl (table : SymbolTable) : table.Extends table :=
  ⟨List.prefix_refl _, List.prefix_refl _, fun {_ symbol} h =>
    ⟨symbol, [], h, .refl symbol, fun hne => absurd rfl hne⟩⟩

theorem Extends.trans (h : table.Extends table') (h' : table'.Extends table'') :
    table.Extends table'' where
  declarations := h.declarations.trans h'.declarations
  globals := h.globals.trans h'.globals
  symbols {id symbol} hsymbol := by
    obtain ⟨symbol', more, hsymbol', hcontinues, hvalue⟩ := h.symbols hsymbol
    obtain ⟨symbol'', more', hsymbol'', hcontinues', hvalue'⟩ := h'.symbols hsymbol'
    refine ⟨symbol'', more ++ more', hsymbol'', hcontinues.trans hcontinues', fun hne => ?_⟩
    by_cases hfirst : symbol'.value = symbol.value
    · obtain ⟨d, decl, member, hd, hdecl⟩ := hvalue' (hfirst ▸ hne)
      have hsize := h.declarations.length_le
      simp only [Array.length_toList] at hsize
      exact ⟨d, decl, member, Nat.le_trans hsize hd, hdecl⟩
    · obtain ⟨d, decl, member, hd, hdecl, hmember⟩ := hvalue hfirst
      exact ⟨d, decl, member, hd, h'.declaration hdecl, hmember⟩

theorem declarations_prefix_push (declarations : Array Declaration) (decl : Declaration) :
    declarations.toList <+: (declarations.push decl).toList :=
  ⟨[decl], by simp⟩

theorem BindingStep.extends (step : BindingStep table table') : table.Extends table' := by
  cases step with
  | declares name node comments hscope =>
    have h := declare_adds hscope name node comments
    refine ⟨declarations_declare ▸ declarations_prefix_push _ _, h.bindings_extend none,
      fun hsymbol => ?_⟩
    obtain ⟨symbol', hsymbol', hcontinues, hvalue⟩ := h.continues hsymbol
    exact ⟨symbol', _, hsymbol', hcontinues, fun hne => absurd hvalue hne⟩
  | @values scope name member comments value hscope =>
    have h := declare_adds hscope name (.memberDecl member) comments
    refine ⟨declarations_declare ▸ declarations_prefix_push _ _, h.bindings_extend none,
      fun {i symbol} hsymbol => ?_⟩
    obtain ⟨symbol', hsymbol', hcontinues, hvalue⟩ := h.continues hsymbol
    obtain ⟨symbol'', hsymbol'', hcontinues', hvalue'⟩ := continues_setValue
      (table.declare scope name (.memberDecl member) comments).2 value hsymbol'
    refine ⟨symbol'', _, hsymbol'', hcontinues.trans hcontinues', fun hne => ?_⟩
    -- only the symbol that the member belongs to has another value
    have hid := not_not.1 fun hi => hne ((hvalue' hi).trans hvalue)
    let decl : Declaration := ⟨.memberDecl member,
      (table.declare scope name (.memberDecl member) comments).2, scope, comments⟩
    have hlast : (table.declare scope name (.memberDecl member) comments).1.declarations[
        table.declarations.size]? = some decl := by
      rw [declarations_declare, Array.getElem?_push_size]
    exact ⟨table.declarations.size, decl, member, Nat.le_refl _, hlast, hid.symm, rfl⟩

theorem Binds.extends (run : table.Binds table') : table.Extends table' := by
  induction run with
  | refl => exact .refl table
  | tail _ step ih => exact ih.trans step.extends

end Extension

section Places

/-- A path names a scope: the symbols of its names, each in the scope of the one before. -/
inductive Located (table : SymbolTable) : List String → Option SymbolId → Prop
  | file : Located table [] none
  | inside {id : SymbolId} {symbol : Symbol} {path : List String} : table.symbols[id]? = some symbol →
      Located table path symbol.parent → Located table (path ++ [symbol.name]) (some id)

/-- A declaration is the one that statements make: it is in the scope that their path names, and its
symbol has their name there. -/
structure IsRecorded (table : SymbolTable) (decl : Declaration) (occurrence : Occurrence) : Prop where
  node : decl.node = occurrence.node
  comments : decl.comments = occurrence.comments
  scope : table.Located occurrence.path decl.scope
  symbol : table.Located (occurrence.path ++ [occurrence.name]) (some decl.symbol)

/-- What a later table adds is the given declarations, in that order. -/
def Records (table : SymbolTable) (occurrences : List Occurrence) (table' : SymbolTable) : Prop :=
  ∃ new, table'.declarations.toList = table.declarations.toList ++ new
    ∧ List.Forall₂ table'.IsRecorded new occurrences

theorem Located.extends (located : table.Located path scope) (h : table.Extends table') :
    table'.Located path scope := by
  induction located with
  | file => exact .file
  | inside hsymbol _ ih =>
    obtain ⟨symbol', _, hsymbol', hcontinues, -⟩ := h.symbols hsymbol
    rw [← hcontinues.name]
    exact .inside hsymbol' (hcontinues.parent ▸ ih)

theorem IsRecorded.extends {decl : Declaration} {occurrence : Occurrence}
    (recorded : table.IsRecorded decl occurrence) (h : table.Extends table') :
    table'.IsRecorded decl occurrence :=
  ⟨recorded.node, recorded.comments, recorded.scope.extends h, recorded.symbol.extends h⟩

theorem Records.append {before after : List Occurrence} (h : table.Records before table')
    (hextends : table'.Extends table'') (h' : table'.Records after table'') :
    table.Records (before ++ after) table'' := by
  obtain ⟨new, hnew, hbefore⟩ := h
  obtain ⟨new', hnew', hafter⟩ := h'
  refine ⟨new ++ new', by rw [hnew', hnew, List.append_assoc], List.rel_append ?_ hafter⟩
  exact hbefore.imp fun _ _ recorded => recorded.extends hextends

theorem Records.nil (table : SymbolTable) : table.Records [] table :=
  ⟨[], (List.append_nil _).symm, .nil⟩

theorem Records.cons {occurrence : Occurrence} {after : List Occurrence}
    (h : table.Records [occurrence] table') (hextends : table'.Extends table'')
    (h' : table'.Records after table'') : table.Records (occurrence :: after) table'' :=
  h.append hextends h'

/-- A declaration that is added last, and whose symbol has the name of an occurrence in its scope,
records the occurrence. -/
theorem records_of_last {symbol : Symbol} (located : table.Located path scope)
    (hextends : table.Extends table')
    (hdeclarations : table'.declarations = table.declarations.push ⟨node, id, scope, comments⟩)
    (hsymbol : table'.symbols[id]? = some symbol) (hname : symbol.name = name)
    (hparent : symbol.parent = scope) :
    table.Records [⟨path, name, node, comments⟩] table'
      ∧ table'.Located (path ++ [name]) (some id) := by
  subst hname hparent
  have hid : table'.Located (path ++ [symbol.name]) (some id) :=
    .inside hsymbol (located.extends hextends)
  refine ⟨⟨[⟨node, id, symbol.parent, comments⟩], by rw [hdeclarations, Array.toList_push], ?_⟩, hid⟩
  exact .cons ⟨rfl, rfl, located.extends hextends, hid⟩ .nil

theorem records_declare (hc : table.Coherent) (hscope : table.HasScope scope)
    (located : table.Located path scope) (name : String) (node : DeclNode) (comments : List Span) :
    table.Records [⟨path, name, node, comments⟩] (table.declare scope name node comments).1
      ∧ (table.declare scope name node comments).1.Located (path ++ [name])
        (some (table.declare scope name node comments).2) := by
  have step : BindingStep table _ := .declares name node comments hscope
  obtain ⟨symbol, hsymbol, hname, hparent, -⟩ := (declare_adds hscope name node comments).target hc
  exact records_of_last located step.extends declarations_declare hsymbol hname hparent

theorem records_member (hc : table.Coherent) (hscope : table.HasScope scope)
    (located : table.Located path scope) (member : EnumMember) (value : Option Binary64) :
    table.Records [member.occurrence path]
      ((table.declare scope member.name.name (.memberDecl member) member.comments).1.setValue
        (table.declare scope member.name.name (.memberDecl member) member.comments).2 value) := by
  have step : BindingStep table _ :=
    .values member.name.name member member.comments value hscope
  obtain ⟨symbol, hsymbol, hname, hparent, -⟩ := (declare_adds hscope
    member.name.name (.memberDecl member) member.comments).target hc
  obtain ⟨symbol', hsymbol', hcontinues, -⟩ := continues_setValue
    (table.declare scope member.name.name (.memberDecl member) member.comments).2 value hsymbol
  exact (records_of_last located step.extends declarations_declare hsymbol'
    (hcontinues.name.trans hname) (hcontinues.parent.trans hparent)).1

end Places

section Statements

theorem bindMembers_records {enum : SymbolId} : ∀ (members : List EnumMember) {table : SymbolTable}
    (previous : Option (Option Binary64)), table.Coherent → table.HasScope (some enum) →
    table.Located path (some enum) →
    table.Records (members.map (EnumMember.occurrence path)) (bindMembers enum previous table members)
  | [], table, _, _, _, _ => .nil table
  | member :: members, table, previous, hc, hscope, located => by
    have step : BindingStep table _ := .values member.name.name member member.comments
      (table.memberValue enum previous member) hscope
    exact .cons (records_member hc hscope located member _)
      (bindMembers_run members _ (hscope.step step)).extends
      (bindMembers_records members _ (hc.step step) (hscope.step step) (located.extends step.extends))

theorem bindPath_records (comments : List Span) : ∀ (parts : List Ident) {path : List String}
    {scope : Option SymbolId} {table : SymbolTable}, table.Coherent → table.HasScope scope →
    table.Located path scope →
    table.Records (pathOccurrences comments path parts) (bindPath comments scope table parts).1
      ∧ (bindPath comments scope table parts).1.Located (path ++ parts.map Ident.name)
        (bindPath comments scope table parts).2
  | [], path, _, table, _, _, located =>
    ⟨.nil table, by rw [List.map_nil, List.append_nil]; exact located⟩
  | part :: parts, path, scope, table, hc, hscope, located => by
    have step : BindingStep table _ := .declares part.name .namespaceDecl comments hscope
    have hinner := hc.hasScope_declare hscope part.name .namespaceDecl comments
    obtain ⟨hrecord, hlocated⟩ := records_declare hc hscope located part.name .namespaceDecl comments
    obtain ⟨hrecords, hlast⟩ := bindPath_records comments parts (hc.step step) hinner hlocated
    refine ⟨.cons hrecord (bindPath_run comments parts (hc.step step) hinner).1.extends hrecords, ?_⟩
    simpa [bindPath] using hlast

mutual

theorem bindStatement_records : ∀ (statement : Statement) {path : List String}
    {scope : Option SymbolId} {table : SymbolTable}, table.Coherent → table.HasScope scope →
    table.Located path scope →
    table.Records (statement.occurrences path) (bindStatement scope table statement)
  | .namespaceDecl place name body, _, _, table, hc, hscope, located => by
    obtain ⟨run, hinner⟩ := bindPath_run place.comments name.parts hc hscope
    obtain ⟨hrecords, hlocated⟩ :=
      bindPath_records place.comments name.parts hc hscope located
    exact hrecords.append (bindStatements_run body (hc.run run) hinner).extends
      (bindStatements_records body (hc.run run) hinner hlocated)
  | .interfaceDecl place decl, _, _, _, hc, hscope, located =>
    (records_declare hc hscope located decl.name.name (.interfaceDecl decl) place.comments).1
  | .aliasDecl place decl, _, _, _, hc, hscope, located =>
    (records_declare hc hscope located decl.name.name (.aliasDecl decl) place.comments).1
  | .enumDecl place decl, _, _, table, hc, hscope, located => by
    have step : BindingStep table _ :=
      .declares decl.name.name (.enumDecl decl) place.comments hscope
    have hinner := hc.hasScope_declare hscope decl.name.name (.enumDecl decl) place.comments
    obtain ⟨hrecord, hlocated⟩ :=
      records_declare hc hscope located decl.name.name (.enumDecl decl) place.comments
    exact .cons hrecord (bindMembers_run decl.members none hinner).extends
      (bindMembers_records decl.members none (hc.step step) hinner hlocated)
  | .skipped _, _, _, table, _, _, _ => .nil table

/-- Binding statements adds their declarations, in the order of the text. -/
theorem bindStatements_records : ∀ (statements : List Statement) {path : List String}
    {scope : Option SymbolId} {table : SymbolTable}, table.Coherent → table.HasScope scope →
    table.Located path scope →
    table.Records (occurrencesIn path statements) (bindStatements scope table statements)
  | [], _, _, table, _, _, _ => .nil table
  | statement :: statements, _, _, _, hc, hscope, located => by
    have run := bindStatement_run statement hc hscope
    exact (bindStatement_records statement hc hscope located).append
      (bindStatements_run statements (hc.run run) (hscope.run run)).extends
      (bindStatements_records statements (hc.run run) (hscope.run run) (located.extends run.extends))

end

theorem bindStatements_append (scope : Option SymbolId) (after : List Statement) :
    ∀ (before : List Statement) (table : SymbolTable), bindStatements scope table (before ++ after)
      = bindStatements scope (bindStatements scope table before) after
  | [], _ => rfl
  | statement :: before, table =>
    bindStatements_append scope after before (bindStatement scope table statement)

/-- Binding only adds, and all that it adds are the declarations of the statements, each once and in the
order of the text. -/
theorem ofStatements_adds (before after : List Statement) :
    (ofStatements before).Extends (ofStatements (before ++ after))
    ∧ List.Forall₂ (ofStatements before).IsRecorded (ofStatements before).declarations.toList
      (occurrencesIn [] before)
    ∧ (ofStatements before).Records (occurrencesIn [] after) (ofStatements (before ++ after)) := by
  have hc := Coherent.ofStatements before
  have hlast : ofStatements (before ++ after) = bindStatements none (ofStatements before) after :=
    bindStatements_append none after before empty
  have run := bindStatements_run after hc (hasScope_none _)
  refine ⟨hlast ▸ run.extends, ?_, hlast ▸ bindStatements_records after hc (hasScope_none _) .file⟩
  obtain ⟨new, hnew, hrecords⟩ :=
    bindStatements_records before Coherent.empty (hasScope_none _) .file
  rw [show (ofStatements before).declarations.toList = new from hnew]
  exact hrecords

end Statements

end SymbolTable

end NodeFactory
