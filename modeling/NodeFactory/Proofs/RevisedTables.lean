import NodeFactory.Proofs.DeclarationOrder

/-!
# The record of declarations

Declarations are recorded beside the symbols: what a name stands for and what a constant is do not depend
on them. Binding adds to the record and reads no more than how long it is. So it comes to the same whether
the record is revised before statements are bound or afterwards, as long as the revision concerns what is
in the record already (`bindStatements_revised`).
-/

namespace NodeFactory

open Text

/-- A change to the record of declarations, and what becomes of the numbers that symbols list. It concerns
the declarations before a number: one that is added behind is added in the same way afterwards. -/
structure Revision where
  bound : DeclId
  record : Array Declaration → Array Declaration
  numbers : List DeclId → List DeclId
  numbers_nil : numbers [] = []
  record_push : ∀ {declarations : Array Declaration}, bound ≤ declarations.size →
    ∀ decl, record (declarations.push decl) = (record declarations).push decl
  numbers_concat : ∀ {declarations : Array Declaration}, bound ≤ declarations.size →
    ∀ listed, numbers (listed ++ [declarations.size]) = numbers listed ++ [(record declarations).size]

def Symbol.revised (symbol : Symbol) (revision : Revision) : Symbol :=
  { symbol with declarations := revision.numbers symbol.declarations }

namespace SymbolTable

/-- The table with its record revised. Names, kinds, scopes and values stay. -/
def revised (table : SymbolTable) (revision : Revision) : SymbolTable where
  symbols := table.symbols.map fun symbol => symbol.revised revision
  declarations := revision.record table.declarations
  globals := table.globals

variable {table : SymbolTable} {revision : Revision}

theorem ext_symbols {table table' : SymbolTable}
    (hsymbols : ∀ id : SymbolId, table.symbols[id]? = table'.symbols[id]?)
    (hdeclarations : table.declarations = table'.declarations) (hglobals : table.globals = table'.globals) :
    table = table' := by
  obtain ⟨symbols, declarations, globals⟩ := table
  obtain ⟨symbols', declarations', globals'⟩ := table'
  obtain rfl := hdeclarations
  obtain rfl := hglobals
  obtain rfl : symbols = symbols' := Array.ext_getElem? hsymbols
  rfl

section Names

variable (table revision)

theorem symbols_revised (id : SymbolId) :
    (table.revised revision).symbols[id]? = (table.symbols[id]?).map fun symbol => symbol.revised revision :=
  Array.getElem?_map

theorem size_symbols_revised : (table.revised revision).symbols.size = table.symbols.size :=
  Array.size_map

theorem exports_revised (id : SymbolId) : (table.revised revision).exports id = table.exports id := by
  rw [exports, exports, symbols_revised, Option.map_map]
  rfl

theorem bindings_revised (scope : Option SymbolId) :
    (table.revised revision).bindings scope = table.bindings scope := by
  cases scope with
  | none => rfl
  | some id => exact exports_revised table revision id

theorem lookupFrom_revised (name : String) (id : SymbolId) :
    (table.revised revision).lookupFrom name id = table.lookupFrom name id := by
  induction id using Nat.strongRecOn with
  | ind id ih =>
    rw [lookupFrom, lookupFrom, symbols_revised]
    cases table.symbols[id]? with
    | none => rfl
    | some symbol =>
      simp only [Option.map_some, Symbol.revised]
      cases symbol.exports.lookup name with
      | some found => rfl
      | none =>
        cases symbol.parent with
        | none => rfl
        | some parent =>
          dsimp only
          split
          · exact ih parent (by assumption)
          · rfl

theorem lookup_revised (scope : Option SymbolId) (name : String) :
    (table.revised revision).lookup scope name = table.lookup scope name := by
  cases scope with
  | none => rfl
  | some id => exact lookupFrom_revised table revision name id

/-- A name stands for the same symbol. -/
theorem resolve_revised (scope : Option SymbolId) (name : EntityName) :
    (table.revised revision).resolve scope name = table.resolve scope name := by
  unfold resolve
  simp only [lookup_revised, exports_revised]

theorem constant?_revised (id : SymbolId) :
    (table.revised revision).constant? id = table.constant? id := by
  unfold constant?
  rw [symbols_revised]
  cases table.symbols[id]? <;> rfl

theorem evaluate_revised (scope : Option SymbolId) (expr : ConstExpr) :
    (table.revised revision).evaluate scope expr = table.evaluate scope expr := by
  induction expr with
  | number | string => rfl
  | name name =>
    rw [evaluate, evaluate, resolve_revised]
    congr 1
    exact funext (constant?_revised table revision)
  | unary op operand ih => rw [evaluate, evaluate, ih]
  | binary op left right ihl ihr => rw [evaluate, evaluate, ihl, ihr]

theorem memberValue_revised (enum : SymbolId) (previous : Option (Option Binary64))
    (member : EnumMember) : (table.revised revision).memberValue enum previous member
      = table.memberValue enum previous member := by
  unfold memberValue
  simp only [evaluate_revised]

end Names

section Declaring

variable {scope : Option SymbolId}

theorem bind_revised (name : String) (id : SymbolId) :
    (table.revised revision).bind scope name id = (table.bind scope name id).revised revision := by
  refine ext_symbols (fun i => ?_) (by cases scope <;> rfl) (by cases scope <;> rfl)
  rw [symbols_bind, symbols_revised, symbols_revised, symbols_bind, Option.map_map, Option.map_map]
  congr 1
  funext symbol
  simp only [Function.comp_apply]
  split <;> rfl

/-- A symbol that is not declared yet is made in the same way. -/
theorem revised_push {symbol : Symbol} (h : symbol.declarations = []) :
    { table with symbols := table.symbols.push symbol }.revised revision
      = { table.revised revision with symbols := (table.revised revision).symbols.push symbol } := by
  have hsymbol : symbol.revised revision = symbol := by
    unfold Symbol.revised
    rw [h, revision.numbers_nil, ← h]
  simp only [revised, Array.map_push, hsymbol]

theorem intern_revised (name : String) (kind : SymbolKind) :
    (table.revised revision).intern scope name kind
      = ((table.intern scope name kind).1.revised revision, (table.intern scope name kind).2) := by
  have hbindings := bindings_revised table revision scope
  cases hlookup : (table.bindings scope).lookup name with
  | some id => rw [intern_of_bound hlookup, intern_of_bound (hbindings ▸ hlookup)]
  | none =>
    rw [intern_of_unbound hlookup, intern_of_unbound (hbindings ▸ hlookup), size_symbols_revised,
      ← bind_revised, revised_push rfl]

theorem register_revised (h : revision.bound ≤ table.declarations.size) (decl : Declaration) :
    (table.revised revision).register decl = (table.register decl).revised revision := by
  refine ext_symbols (fun i => ?_) (revision.record_push h decl).symm rfl
  rw [symbols_register, symbols_revised, symbols_revised, symbols_register, Option.map_map, Option.map_map]
  congr 1
  funext symbol
  simp only [Function.comp_apply]
  split
  · simp only [Symbol.revised, Symbol.declaredAt, revision.numbers_concat h]
    rfl
  · rfl

theorem declarations_intern (name : String) (kind : SymbolKind) :
    (table.intern scope name kind).1.declarations = table.declarations := by
  unfold intern bind
  cases (table.bindings scope).lookup name with
  | some id => rfl
  | none => cases scope <;> rfl

theorem declare_revised (h : revision.bound ≤ table.declarations.size) (name : String) (node : DeclNode)
    (comments : List Span) : (table.revised revision).declare scope name node comments
      = ((table.declare scope name node comments).1.revised revision,
        (table.declare scope name node comments).2) := by
  rw [declare_eq, declare_eq, intern_revised, register_revised (by rwa [declarations_intern])]

theorem setValue_revised (id : SymbolId) (value : Option Binary64) :
    (table.revised revision).setValue id value = (table.setValue id value).revised revision := by
  refine ext_symbols (fun i => ?_) rfl rfl
  rw [symbols_setValue, symbols_revised, symbols_revised, symbols_setValue, Option.map_map, Option.map_map]
  congr 1
  funext symbol
  simp only [Function.comp_apply]
  split <;> rfl

theorem le_size_declare {n : Nat} (h : n ≤ table.declarations.size) (name : String) (node : DeclNode)
    (comments : List Span) : n ≤ (table.declare scope name node comments).1.declarations.size := by
  rw [declarations_declare, Array.size_push]
  exact Nat.le_succ_of_le h

end Declaring

section Statements

/-- Members are bound in the same way, and the values found for them are the same. -/
theorem bindMembers_revised {enum : SymbolId} : ∀ (members : List EnumMember) {table : SymbolTable}
    (previous : Option (Option Binary64)), revision.bound ≤ table.declarations.size →
    bindMembers enum previous (table.revised revision) members
      = (bindMembers enum previous table members).revised revision
      ∧ revision.bound ≤ (bindMembers enum previous table members).declarations.size
  | [], _, _, h => ⟨rfl, h⟩
  | member :: members, table, previous, h => by
    rw [bindMembers, bindMembers, memberValue_revised, declare_revised h]
    dsimp only
    rw [setValue_revised]
    exact bindMembers_revised members _ (le_size_declare h ..)

theorem bindPath_revised (comments : List Span) : ∀ (parts : List Ident) (scope : Option SymbolId)
    {table : SymbolTable}, revision.bound ≤ table.declarations.size →
    bindPath comments scope (table.revised revision) parts
      = ((bindPath comments scope table parts).1.revised revision,
        (bindPath comments scope table parts).2)
      ∧ revision.bound ≤ (bindPath comments scope table parts).1.declarations.size
  | [], _, _, h => ⟨rfl, h⟩
  | part :: parts, _, table, h => by
    rw [bindPath, bindPath, declare_revised h]
    exact bindPath_revised comments parts _ (le_size_declare h ..)

mutual

theorem bindStatement_revised : ∀ (statement : Statement) {scope : Option SymbolId}
    {table : SymbolTable}, revision.bound ≤ table.declarations.size →
    bindStatement scope (table.revised revision) statement
      = (bindStatement scope table statement).revised revision
      ∧ revision.bound ≤ (bindStatement scope table statement).declarations.size
  | .namespaceDecl place name body, scope, table, h => by
    obtain ⟨hpath, hinner⟩ := bindPath_revised place.comments name.parts scope h
    rw [bindStatement, bindStatement, hpath]
    exact bindStatements_revised body hinner
  | .interfaceDecl place decl, _, _, h | .aliasDecl place decl, _, _, h => by
    rw [bindStatement, bindStatement, declare_revised h]
    exact ⟨rfl, le_size_declare h ..⟩
  | .enumDecl place decl, _, _, h => by
    rw [bindStatement, bindStatement, declare_revised h]
    exact bindMembers_revised decl.members none (le_size_declare h ..)
  | .skipped _, _, _, h => ⟨rfl, h⟩

/-- A revision of what is recorded may be made before statements are bound or afterwards. -/
theorem bindStatements_revised : ∀ (statements : List Statement) {scope : Option SymbolId}
    {table : SymbolTable}, revision.bound ≤ table.declarations.size →
    bindStatements scope (table.revised revision) statements
      = (bindStatements scope table statements).revised revision
      ∧ revision.bound ≤ (bindStatements scope table statements).declarations.size
  | [], _, _, h => ⟨rfl, h⟩
  | statement :: statements, _, _, h => by
    obtain ⟨hfirst, hsize⟩ := bindStatement_revised statement h
    rw [bindStatements, bindStatements, hfirst]
    exact bindStatements_revised statements hsize

end

end Statements

end SymbolTable

end NodeFactory
