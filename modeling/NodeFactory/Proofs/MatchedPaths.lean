import Mathlib.Data.List.Sort
import NodeFactory.Proofs.CorrespondingTables
import NodeFactory.Proofs.DeclarationOrder

/-!
# Symbols matched by their paths

A symbol is told by its path, the names of the scopes around it and its own (`Located.unique`), and its
declarations are those that the statements make at that path, in the order of the text
(`declarations_located`). So where two lists of statements make the same declarations at some paths,
their tables correspond at these paths (`corresponds_of_occurrences`).
-/

namespace NodeFactory

open Relator List

/-- The path of what is declared. -/
def Occurrence.fullPath (occurrence : Occurrence) : List String :=
  occurrence.path ++ [occurrence.name]

/-- The outermost name of a path has a property. -/
def KnownPath (known : String → Prop) (path : List String) : Prop :=
  ∀ head ∈ path.head?, known head

theorem knownPath_concat {known : String → Prop} {path : List String} {name : String}
    (h : KnownPath known (path ++ [name])) : KnownPath known path := by
  cases path with
  | nil => nofun
  | cons head path => exact h

theorem KnownPath.concat {known : String → Prop} {path : List String} (h : KnownPath known path)
    (hne : path ≠ []) (name : String) : KnownPath known (path ++ [name]) := by
  cases path with
  | nil => exact absurd rfl hne
  | cons head path => exact h

/-- The declarations at a path. -/
def occurrencesAt (path : List String) (statements : List Statement) : List Occurrence :=
  (occurrencesIn [] statements).filter fun occurrence => occurrence.fullPath = path

/-- The name of a statement that declares something other than a namespace. -/
def Statement.declaredName? : Statement → Option String
  | interfaceDecl _ decl => some decl.name.name
  | aliasDecl _ decl => some decl.name.name
  | enumDecl _ decl => some decl.name.name
  | namespaceDecl .. | skipped _ => none

theorem occurrencesAt_append (path : List String) (before after : List Statement) :
    occurrencesAt path (before ++ after) = occurrencesAt path before ++ occurrencesAt path after := by
  simp only [occurrencesAt, occurrencesIn_eq_flatMap, flatMap_append, filter_append]

/-- What a statement declares is at a path that begins with its name. -/
theorem Statement.head_fullPath {statement : Statement} {name : String}
    (h : statement.declaredName? = some name) {occurrence : Occurrence}
    (hmem : occurrence ∈ statement.occurrences []) : occurrence.fullPath.head? = some name := by
  cases statement with
  | namespaceDecl | skipped => cases h
  | interfaceDecl place decl | aliasDecl place decl =>
    obtain rfl := mem_singleton.1 hmem
    exact h
  | enumDecl place decl =>
    rcases mem_cons.1 hmem with rfl | hmem
    · exact h
    · obtain ⟨member, -, rfl⟩ := mem_map.1 hmem
      exact h

theorem exists_of_forall₂ {α β : Type} {R : α → β → Prop} {as : List α} {bs : List β}
    (h : Forall₂ R as bs) {b : β} (hb : b ∈ bs) : ∃ a ∈ as, R a b := by
  induction h with
  | nil => cases hb
  | cons hfirst _ ih =>
    rcases mem_cons.1 hb with rfl | hb
    · exact ⟨_, mem_cons_self, hfirst⟩
    · obtain ⟨a, ha, hab⟩ := ih hb
      exact ⟨a, mem_cons_of_mem _ ha, hab⟩

namespace SymbolTable

section Located

variable {table : SymbolTable} {path path' : List String} {scope scope' : Option SymbolId} {name : String}
  {id : SymbolId}

theorem Located.cases_some (h : table.Located path (some id)) : ∃ symbol before,
    path = before ++ [symbol.name] ∧ table.symbols[id]? = some symbol ∧ table.Located before symbol.parent := by
  cases h with
  | inside hsymbol hparent => exact ⟨_, _, rfl, hsymbol, hparent⟩

/-- A path names one scope. -/
theorem Coherent.located_unique (hc : table.Coherent) (h : table.Located path scope)
    (h' : table.Located path scope') : scope = scope' := by
  induction h generalizing scope' with
  | file =>
    cases scope' with
    | none => rfl
    | some id =>
      obtain ⟨symbol, before, hpath, -⟩ := h'.cases_some
      exact absurd hpath.symm (concat_ne_nil _ _)
  | @inside id symbol path hsymbol _ ih =>
    generalize hwhole : path ++ [symbol.name] = whole at h'
    cases h' with
    | file => exact absurd hwhole (concat_ne_nil _ _)
    | @inside id' symbol' path' hsymbol' hparent' =>
      obtain ⟨rfl, hnames⟩ := append_inj' hwhole rfl
      rw [hc.unique hsymbol hsymbol' (singleton_inj.1 hnames) (ih hparent')]

/-- A scope has one path. -/
theorem Located.path_unique (h : table.Located path scope) (h' : table.Located path' scope) :
    path = path' := by
  induction h generalizing path' with
  | file =>
    cases h'
    rfl
  | inside hsymbol _ ih =>
    obtain ⟨symbol', before, rfl, hsymbol', hparent'⟩ := h'.cases_some
    obtain rfl := Option.some.inj (hsymbol.symm.trans hsymbol')
    rw [ih hparent']

theorem Coherent.exists_located (hc : table.Coherent) (hscope : table.HasScope scope) :
    ∃ path, table.Located path scope := by
  obtain ⟨scopes, henclosed⟩ := hc.exists_enclosing hscope
  clear hscope
  induction henclosed with
  | file => exact ⟨[], .file⟩
  | symbol hsymbol _ ih =>
    obtain ⟨path, hpath⟩ := ih
    exact ⟨_, .inside hsymbol hpath⟩

/-- A name stands in a scope for the symbol at the path that it makes there. -/
theorem Coherent.lookup_eq_some_iff (hc : table.Coherent) (hscope : table.Located path scope) :
    (table.bindings scope).lookup name = some id ↔ table.Located (path ++ [name]) (some id) := by
  constructor
  · intro h
    obtain ⟨symbol, hsymbol, rfl, rfl⟩ := hc.of_lookup h
    exact .inside hsymbol hscope
  · intro h
    obtain ⟨symbol, before, hpath, hsymbol, hparent⟩ := h.cases_some
    obtain ⟨rfl, hnames⟩ := append_inj' hpath rfl
    rw [singleton_inj.1 hnames, hc.located_unique hscope hparent, hc.bound hsymbol]

theorem Coherent.scope_eq (hc : table.Coherent) {symbol : Symbol} {d : DeclId} {decl : Declaration}
    (hdecl : table.declarations[d]? = some decl) (hsymbol : table.symbols[decl.symbol]? = some symbol) :
    decl.scope = symbol.parent := by
  obtain ⟨symbol', hsymbol', -, hscope⟩ := hc.declared hdecl
  obtain rfl := Option.some.inj (hsymbol.symm.trans hsymbol')
  exact hscope

end Located

section Declarations

variable {statements : List Statement} {path : List String} {id : SymbolId} {symbol : Symbol}

/-- The declaration of a number is the one that statements make. -/
def RecordedAt (table : SymbolTable) (d : DeclId) (occurrence : Occurrence) : Prop :=
  ∃ decl, table.declarations[d]? = some decl ∧ table.IsRecorded decl occurrence

theorem recordedAt_range (statements : List Statement) :
    Forall₂ (ofStatements statements).RecordedAt (range (ofStatements statements).declarations.size)
      (occurrencesIn [] statements) := by
  have hrecords := (ofStatements_adds statements []).2.1
  rw [forall₂_iff_get] at hrecords ⊢
  obtain ⟨hlength, hrecords⟩ := hrecords
  refine ⟨by rw [length_range, ← hlength, Array.length_toList], fun d hd hd' => ?_⟩
  have hsize : d < (ofStatements statements).declarations.size := by simpa using hd
  refine ⟨(ofStatements statements).declarations[d], ?_, ?_⟩
  · simp [hsize]
  · simpa using hrecords d (by simpa using hsize) hd'

/-- The declarations of a symbol are those made at its path, in the order of the text. -/
theorem declarations_located (hsymbol : (ofStatements statements).symbols[id]? = some symbol)
    (hpath : (ofStatements statements).Located path (some id)) :
    Forall₂ (ofStatements statements).RecordedAt symbol.declarations (occurrencesAt path statements) := by
  have hc := Coherent.ofStatements statements
  let own : DeclId → Bool := fun d =>
    ((ofStatements statements).declarations[d]?).any fun decl => decl.symbol = id
  have hown : symbol.declarations = (range (ofStatements statements).declarations.size).filter own := by
    refine (hc.ascending hsymbol).eq_of_mem_iff (pairwise_lt_range.filter _) fun d => ?_
    rw [mem_filter, mem_range]
    constructor
    · intro hd
      obtain ⟨decl, hdecl, hid⟩ := hc.listed hsymbol hd
      exact ⟨hc.lt_of_mem hsymbol hd, by simp [own, hdecl, hid]⟩
    · rintro ⟨hlt, hd⟩
      obtain ⟨decl, hdecl⟩ : ∃ decl, (ofStatements statements).declarations[d]? = some decl :=
        ⟨_, Array.getElem?_eq_getElem hlt⟩
      obtain ⟨symbol', hsymbol', hmem, -⟩ := hc.declared hdecl
      obtain rfl : decl.symbol = id := by simpa [own, hdecl] using hd
      obtain rfl := Option.some.inj (hsymbol.symm.trans hsymbol')
      exact hmem
  rw [hown]
  refine rel_filter ?_ (recordedAt_range statements)
  rintro d occurrence ⟨decl, hdecl, hrecorded⟩
  simp only [own, hdecl, Option.any_some, decide_eq_true_eq]
  constructor
  · rintro rfl
    exact hrecorded.symbol.path_unique hpath
  · rintro rfl
    exact Option.some.inj (hc.located_unique hrecorded.symbol hpath)

end Declarations

section Matching

variable {known : String → Prop} {node : Outline → Prop} {table table' : SymbolTable}

/-- Symbols that have the same path, whose outermost name has a property. -/
def SamePath (known : String → Prop) (table table' : SymbolTable) (i i' : SymbolId) : Prop :=
  ∃ path, KnownPath known path ∧ table.Located path (some i) ∧ table'.Located path (some i')

/-- Declarations of symbols that have the same path, in the same place among the others. -/
def SamePlace (known : String → Prop) (table table' : SymbolTable) (d d' : DeclId) : Prop :=
  ∃ i i' symbol symbol', ∃ k : Nat, SamePath known table table' i i'
    ∧ table.symbols[i]? = some symbol ∧ table'.symbols[i']? = some symbol'
    ∧ symbol.declarations[k]? = some d ∧ symbol'.declarations[k]? = some d'

/-- What is in the same place is matched. -/
def matchingAt (known : String → Prop) (node : Outline → Prop) (table table' : SymbolTable) : Matching where
  symbol := SamePath known table table'
  decl := SamePlace known table table'
  node := node

theorem samePath_unique (hc : table.Coherent) (hc' : table'.Coherent) :
    BiUnique (SamePath known table table') := by
  constructor
  · rintro i j i' ⟨path, -, hi, hi'⟩ ⟨path', -, hj, hj'⟩
    obtain rfl := hi'.path_unique hj'
    exact Option.some.inj (hc.located_unique hi hj)
  · rintro i i' j' ⟨path, -, hi, hi'⟩ ⟨path', -, hj, hj'⟩
    obtain rfl := hi.path_unique hj
    exact Option.some.inj (hc'.located_unique hi' hj')

/-- A declaration is one of one symbol, and there in one place. -/
theorem Coherent.place_unique (hc : table.Coherent) {i j : SymbolId} {symbol symbol' : Symbol} {k l : Nat}
    {d : DeclId} (hi : table.symbols[i]? = some symbol) (hj : table.symbols[j]? = some symbol')
    (hk : symbol.declarations[k]? = some d) (hl : symbol'.declarations[l]? = some d) :
    i = j ∧ k = l := by
  obtain ⟨decl, hdecl, rfl⟩ := hc.listed hi (mem_of_getElem? hk)
  obtain rfl := hc.symbol_of_mem hj (mem_of_getElem? hl) hdecl
  obtain rfl := Option.some.inj (hi.symm.trans hj)
  have hnodup : symbol.declarations.Nodup := (hc.ascending hi).imp Nat.ne_of_lt
  obtain ⟨hlt, hk⟩ := List.getElem?_eq_some_iff.1 hk
  obtain ⟨hlt', hl⟩ := List.getElem?_eq_some_iff.1 hl
  exact ⟨rfl, hnodup.getElem_inj_iff.1 (hk.trans hl.symm)⟩

theorem samePlace_unique (hc : table.Coherent) (hc' : table'.Coherent) :
    BiUnique (SamePlace known table table') := by
  have hunique : BiUnique (SamePath known table table') := samePath_unique hc hc'
  constructor
  · rintro d e d' ⟨i, i', s, s', k, hi, hs, hs', hk, hk'⟩ ⟨j, j', t, t', l, hj, ht, ht', hl, hl'⟩
    obtain ⟨rfl, rfl⟩ := hc'.place_unique hs' ht' hk' hl'
    obtain rfl := hunique.left hi hj
    obtain rfl := Option.some.inj (hs.symm.trans ht)
    exact Option.some.inj (hk.symm.trans hl)
  · rintro d d' e' ⟨i, i', s, s', k, hi, hs, hs', hk, hk'⟩ ⟨j, j', t, t', l, hj, ht, ht', hl, hl'⟩
    obtain ⟨rfl, rfl⟩ := hc.place_unique hs ht hk hl
    obtain rfl := hunique.right hi hj
    obtain rfl := Option.some.inj (hs'.symm.trans ht')
    exact Option.some.inj (hk'.symm.trans hl')

end Matching

section SameOccurrences

variable {known : String → Prop} {node : Outline → Prop} {statements statements' : List Statement}

/-- There is a symbol at a path if something is declared there. -/
theorem exists_located_iff {path : List String} :
    (∃ i, (ofStatements statements).Located path (some i)) ↔ occurrencesAt path statements ≠ [] := by
  constructor
  · rintro ⟨i, hi⟩ hnil
    obtain ⟨symbol, -, -, hsymbol, -⟩ := hi.cases_some
    obtain ⟨d, -, hd, -⟩ := (Coherent.ofStatements statements).first hsymbol
    have hdeclarations := declarations_located hsymbol hi
    rw [hnil] at hdeclarations
    rw [forall₂_nil_right_iff.1 hdeclarations] at hd
    cases hd
  · intro hne
    obtain ⟨occurrence, hmem⟩ := exists_mem_of_ne_nil _ hne
    obtain ⟨hmem, hfull⟩ := mem_filter.1 hmem
    have hrecords := (ofStatements_adds statements []).2.1
    obtain ⟨decl, -, hrecorded⟩ := exists_of_forall₂ hrecords hmem
    obtain rfl := of_decide_eq_true hfull
    exact ⟨decl.symbol, hrecorded.symbol⟩

variable (hsame : ∀ path, KnownPath known path → occurrencesAt path statements = occurrencesAt path statements')
include hsame

theorem exists_located_iff_of_same {path : List String} (hpath : KnownPath known path) :
    (∃ i, (ofStatements statements).Located path (some i))
      ↔ ∃ i', (ofStatements statements').Located path (some i') := by
  rw [exists_located_iff, exists_located_iff, hsame path hpath]

theorem lookup_of_same {path : List String} {scope scope' : Option SymbolId}
    (hscope : (ofStatements statements).Located path scope)
    (hscope' : (ofStatements statements').Located path scope') {name : String}
    (hpath : KnownPath known (path ++ [name])) :
    Option.Rel (SamePath known (ofStatements statements) (ofStatements statements'))
      (((ofStatements statements).bindings scope).lookup name)
      (((ofStatements statements').bindings scope').lookup name) := by
  have hexists := exists_located_iff_of_same hsame hpath
  cases hfound : ((ofStatements statements).bindings scope).lookup name with
  | some i =>
    have hi := ((Coherent.ofStatements statements).lookup_eq_some_iff hscope).1 hfound
    obtain ⟨i', hi'⟩ := hexists.1 ⟨i, hi⟩
    rw [((Coherent.ofStatements statements').lookup_eq_some_iff hscope').2 hi']
    exact .some ⟨_, hpath, hi, hi'⟩
  | none =>
    cases hfound' : ((ofStatements statements').bindings scope').lookup name with
    | none => exact .none
    | some i' =>
      have hi' := ((Coherent.ofStatements statements').lookup_eq_some_iff hscope').1 hfound'
      obtain ⟨i, hi⟩ := hexists.2 ⟨i', hi'⟩
      rw [((Coherent.ofStatements statements).lookup_eq_some_iff hscope).2 hi] at hfound
      cases hfound

/-- The declarations of symbols that have the same path are the same, one by one. -/
theorem declarations_of_same {i i' : SymbolId}
    (hi : SamePath known (ofStatements statements) (ofStatements statements') i i') {symbol symbol' : Symbol}
    (hsymbol : (ofStatements statements).symbols[i]? = some symbol)
    (hsymbol' : (ofStatements statements').symbols[i']? = some symbol') :
    Forall₂ (fun d d' => ∃ occurrence ∈ occurrencesIn [] statements,
      (ofStatements statements).RecordedAt d occurrence ∧ (ofStatements statements').RecordedAt d' occurrence)
      symbol.declarations symbol'.declarations := by
  obtain ⟨path, hpath, hlocated, hlocated'⟩ := hi
  have hdeclarations := declarations_located hsymbol hlocated
  have hdeclarations' := declarations_located hsymbol' hlocated'
  rw [← hsame path hpath] at hdeclarations'
  have hmem : ∀ occurrence ∈ occurrencesAt path statements, occurrence ∈ occurrencesIn [] statements :=
    fun _ => mem_of_mem_filter
  generalize occurrencesAt path statements = occurrences at hdeclarations hdeclarations' hmem
  generalize symbol.declarations = ds at hdeclarations
  generalize symbol'.declarations = ds' at hdeclarations'
  induction hdeclarations generalizing ds' with
  | nil =>
    cases hdeclarations'
    exact .nil
  | cons hfirst _ ih =>
    cases hdeclarations' with
    | cons hfirst' hrest' =>
      exact .cons ⟨_, hmem _ mem_cons_self, hfirst, hfirst'⟩
        (ih (fun _ h => hmem _ (mem_cons_of_mem _ h)) _ hrest')

theorem samePlace_declarations {i i' : SymbolId}
    (hi : SamePath known (ofStatements statements) (ofStatements statements') i i') {symbol symbol' : Symbol}
    (hsymbol : (ofStatements statements).symbols[i]? = some symbol)
    (hsymbol' : (ofStatements statements').symbols[i']? = some symbol') :
    Forall₂ (SamePlace known (ofStatements statements) (ofStatements statements')) symbol.declarations
      symbol'.declarations := by
  have hlength := (declarations_of_same hsame hi hsymbol hsymbol').length_eq
  refine forall₂_iff_get.2 ⟨hlength, fun k hk hk' => ?_⟩
  exact ⟨i, i', symbol, symbol', k, hi, hsymbol, hsymbol', getElem?_eq_getElem hk, getElem?_eq_getElem hk'⟩

omit hsame in
/-- Scopes of one path are both the file, or symbols of that path. -/
theorem rel_of_located {table table' : SymbolTable} {path : List String} {scope scope' : Option SymbolId}
    (hpath : KnownPath known path) (h : table.Located path scope) (h' : table'.Located path scope') :
    Option.Rel (SamePath known table table') scope scope' := by
  cases scope with
  | none =>
    cases h
    cases scope' with
    | none => exact .none
    | some id =>
      obtain ⟨symbol, before, hempty, -⟩ := h'.cases_some
      exact absurd hempty.symm (concat_ne_nil _ _)
  | some i =>
    cases scope' with
    | none =>
      cases h'
      obtain ⟨symbol, before, hempty, -⟩ := h.cases_some
      exact absurd hempty.symm (concat_ne_nil _ _)
    | some i' => exact .some ⟨path, hpath, h, h'⟩

variable
  (hvalue : ∀ {i i' symbol symbol'}, SamePath known (ofStatements statements) (ofStatements statements') i i' →
    (ofStatements statements).symbols[i]? = some symbol →
    (ofStatements statements').symbols[i']? = some symbol' → symbol.value = symbol'.value)
include hvalue

theorem agrees_of_same {i i' : SymbolId}
    (hi : SamePath known (ofStatements statements) (ofStatements statements') i i') {symbol symbol' : Symbol}
    (hsymbol : (ofStatements statements).symbols[i]? = some symbol)
    (hsymbol' : (ofStatements statements').symbols[i']? = some symbol') :
    symbol.Agrees (matchingAt known node (ofStatements statements) (ofStatements statements')) symbol' := by
  have hc := Coherent.ofStatements statements
  have hc' := Coherent.ofStatements statements'
  obtain ⟨path, hpath, hlocated, hlocated'⟩ := id hi
  obtain ⟨_, before, rfl, hsymbol₁, hparent⟩ := hlocated.cases_some
  obtain rfl := Option.some.inj (hsymbol.symm.trans hsymbol₁)
  obtain ⟨_, before', hwhole, hsymbol₁, hparent'⟩ := hlocated'.cases_some
  obtain rfl := Option.some.inj (hsymbol'.symm.trans hsymbol₁)
  obtain ⟨rfl, hnames⟩ := append_inj' hwhole rfl
  have hdeclarations := declarations_of_same hsame hi hsymbol hsymbol'
  refine ⟨singleton_inj.1 hnames, ?_, hvalue hi hsymbol hsymbol',
    samePlace_declarations hsame hi hsymbol hsymbol',
    rel_of_located (knownPath_concat hpath) hparent hparent', fun name => ?_⟩
  · -- The kind is that of the first declaration.
    obtain ⟨d, decl, hd, hdecl, hkind⟩ := hc.first hsymbol
    obtain ⟨d', decl', hd', hdecl', hkind'⟩ := hc'.first hsymbol'
    generalize symbol.declarations = ds at hdeclarations hd
    generalize symbol'.declarations = ds' at hdeclarations hd'
    cases hdeclarations with
    | nil => cases hd
    | cons hfirst _ =>
      cases hd
      cases hd'
      obtain ⟨occurrence, -, ⟨_, hdecl₁, hrecorded⟩, _, hdecl₁', hrecorded'⟩ := hfirst
      obtain rfl := Option.some.inj (hdecl.symm.trans hdecl₁)
      obtain rfl := Option.some.inj (hdecl'.symm.trans hdecl₁')
      rw [← hkind, ← hkind', hrecorded.node, hrecorded'.node]
  · have hlookup := lookup_of_same hsame hlocated hlocated' (hpath.concat (concat_ne_nil _ _) name)
    rwa [bindings_some, bindings_some, hsymbol, hsymbol'] at hlookup

/-- Where two lists of statements make the same declarations, with the same values, their tables
correspond. -/
theorem corresponds_of_occurrences
    (hknown : ∀ name : EntityName, node name.outline → known name.first.name)
    (hnodes : ∀ occurrence ∈ occurrencesIn [] statements, Outline.Every node (outlines occurrence.node)
      ∧ ∃ first, node first ∧ first.sort.comments? = some occurrence.comments) :
    (ofStatements statements).Corresponds
      (matchingAt known node (ofStatements statements) (ofStatements statements'))
      (ofStatements statements') := by
  have hc := Coherent.ofStatements statements
  have hc' := Coherent.ofStatements statements'
  refine ⟨hc, hc', samePath_unique hc hc', samePlace_unique hc hc', fun {i i'} hi => ?_,
    fun {d d'} hd => ?_, fun {name} hname => ?_⟩
  · obtain ⟨path, hpath, hlocated, hlocated'⟩ := id hi
    obtain ⟨symbol, -, -, hsymbol, -⟩ := hlocated.cases_some
    obtain ⟨symbol', -, -, hsymbol', -⟩ := hlocated'.cases_some
    exact ⟨symbol, symbol', hsymbol, hsymbol', agrees_of_same hsame hvalue hi hsymbol hsymbol'⟩
  · obtain ⟨i, i', symbol, symbol', k, hi, hsymbol, hsymbol', hk, hk'⟩ := id hd
    obtain ⟨hlt, rfl⟩ := List.getElem?_eq_some_iff.1 hk
    obtain ⟨hlt', rfl⟩ := List.getElem?_eq_some_iff.1 hk'
    obtain ⟨occurrence, hmem, ⟨decl, hdecl, hrecorded⟩, decl', hdecl', hrecorded'⟩ :=
      (forall₂_iff_get.1 (declarations_of_same hsame hi hsymbol hsymbol')).2 k hlt hlt'
    rw [get_eq_getElem] at hdecl hdecl'
    obtain ⟨hevery, hled⟩ := hnodes occurrence hmem
    have hid : decl.symbol = i := hc.symbol_of_mem hsymbol (mem_of_getElem? hk) hdecl
    have hid' : decl'.symbol = i' := hc'.symbol_of_mem hsymbol' (mem_of_getElem? hk') hdecl'
    have hscope : decl.scope = symbol.parent := hc.scope_eq hdecl (hid ▸ hsymbol)
    have hscope' : decl'.scope = symbol'.parent := hc'.scope_eq hdecl' (hid' ▸ hsymbol')
    have hagrees : symbol.Agrees (matchingAt known node _ _) symbol' :=
      agrees_of_same hsame hvalue hi hsymbol hsymbol'
    exact ⟨decl, decl', hdecl, hdecl', hrecorded.node.trans hrecorded'.node.symm,
      hrecorded.comments.trans hrecorded'.comments.symm, hid ▸ hid' ▸ hi,
      hscope ▸ hscope' ▸ hagrees.parent, hrecorded.node ▸ hevery, hrecorded.comments ▸ hled⟩
  · have hhead : KnownPath known ([] ++ [name.first.name]) := by
      rintro _ ⟨⟩
      exact hknown name hname
    exact lookup_of_same hsame .file .file hhead

end SameOccurrences

end SymbolTable

end NodeFactory
