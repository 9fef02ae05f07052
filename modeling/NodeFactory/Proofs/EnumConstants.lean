import NodeFactory.Proofs.CorrespondingTables
import NodeFactory.Proofs.MatchedPaths

/-!
# The constants of enums

Where statements declare interfaces, aliases and enums only, the constants of enum members are told by the
names of the enum and of the member, without any tables (`Constants.bindStatement`). Binding finds these
constants (`constants_ofStatements`), and so they depend on the enums alone, in their order
(`value_of_enums`).
-/

namespace NodeFactory

/-- What is known of the members of enums, by the names of the enum and of the member; a member may have
no constant. -/
abbrev Constants := String → String → Option (Option Binary64)

namespace Constants

/-- The constant that a name stands for inside an enum: that of a member of the enum, or of a member of the
enum that the name begins with. -/
def ofName (constants : Constants) (enum : String) (name : EntityName) : Option Binary64 :=
  match constants enum name.first.name, name.rest with
  | some value, [] => value
  | none, [part] => (constants name.first.name part.name).join
  | _, _ => none

def evaluate (constants : Constants) (enum : String) : ConstExpr → Option Binary64
  | .number value => some value
  | .string _ => none
  | .name name => constants.ofName enum name
  | .unary op operand => (constants.evaluate enum operand).map op.apply
  | .binary op left right => do
    let a ← constants.evaluate enum left
    let b ← constants.evaluate enum right
    return op.apply a b

def memberValue (constants : Constants) (enum : String) (previous : Option (Option Binary64))
    (member : EnumMember) : Option Binary64 :=
  match member.value, previous with
  | some value, _ => constants.evaluate enum value
  | none, some previous => previous.map fun value => value.add 1
  | none, none => some 0

def set (constants : Constants) (enum member : String) (value : Option Binary64) : Constants :=
  fun enum' member' => if enum' = enum ∧ member' = member then some value else constants enum' member'

def bindMembers (enum : String) (previous : Option (Option Binary64)) (constants : Constants) :
    List EnumMember → Constants
  | [] => constants
  | member :: members =>
    let value := constants.memberValue enum previous member
    bindMembers enum (some value) (constants.set enum member.name.name value) members

/-- Only enums have constants. -/
def bindStatement (constants : Constants) : Statement → Constants
  | .enumDecl _ decl => bindMembers decl.name.name none constants decl.members
  | _ => constants

/-- The value of what is at a path: only the members of enums have one. -/
def atPath (constants : Constants) : List String → Option Binary64
  | [enum, member] => (constants enum member).join
  | _ => none

end Constants

def Statement.isEnum : Statement → Bool
  | enumDecl .. => true
  | _ => false

theorem Constants.foldl_isEnum (constants : Constants) (statements : List Statement) :
    (statements.filter Statement.isEnum).foldl bindStatement constants
      = statements.foldl bindStatement constants := by
  have hstep : (fun constants statement => if Statement.isEnum statement = true then
      bindStatement constants statement else constants) = bindStatement := by
    funext constants statement
    cases statement <;> rfl
  rw [List.foldl_filter, hstep]

namespace SymbolTable

variable {table table' : SymbolTable}

/-- The symbol of a member of an enum in the file scope. -/
def memberAt (table : SymbolTable) (enum member : String) : Option SymbolId :=
  (table.globals.lookup enum).bind fun id => (table.exports id).lookup member

/-- The constants of the enums in the file scope. -/
def constants (table : SymbolTable) : Constants := fun enum member =>
  (table.memberAt enum member).map table.constant?

/-- In the file scope there are no members of enums, and elsewhere nothing else; a member is inside what
is in the file scope. -/
structure IsFlat (table : SymbolTable) : Prop where
  outer {id : SymbolId} {symbol : Symbol} : table.symbols[id]? = some symbol → symbol.parent = none →
    symbol.kind ≠ .memberKind ∧ symbol.value = none
  inner {id parent : SymbolId} {symbol : Symbol} : table.symbols[id]? = some symbol →
    symbol.parent = some parent → symbol.kind = .memberKind
      ∧ ∃ enum, table.symbols[parent]? = some enum ∧ enum.parent = none

theorem memberAt_of_bindings (h : ∀ s, table'.bindings s = table.bindings s) :
    table'.memberAt = table.memberAt := by
  funext enum member
  have hglobals : table'.globals = table.globals := h none
  have hexports : ∀ i, table'.exports i = table.exports i := fun i => h (some i)
  simp only [memberAt, hglobals, hexports]

/-- A member is at the path of the names of its enum and of itself. -/
theorem Coherent.memberAt_eq_some_iff (hc : table.Coherent) {enum member : String} {id : SymbolId} :
    table.memberAt enum member = some id ↔ table.Located [enum, member] (some id) := by
  rw [memberAt, Option.bind_eq_some_iff]
  constructor
  · rintro ⟨e, henum, hmember⟩
    have hlocated : table.Located [enum] (some e) := (hc.lookup_eq_some_iff .file).1 henum
    exact (hc.lookup_eq_some_iff hlocated).1 hmember
  · intro h
    obtain ⟨symbol, path, hpath, hsymbol, hparent⟩ := h.cases_some
    obtain ⟨rfl, -⟩ := List.append_inj' (show [enum] ++ [member] = path ++ [symbol.name] from hpath) rfl
    cases hscope : symbol.parent with
    | none =>
      rw [hscope] at hparent
      cases Located.path_unique .file hparent
    | some e =>
      rw [hscope] at hparent
      exact ⟨e, (hc.lookup_eq_some_iff .file).2 hparent, (hc.lookup_eq_some_iff hparent).2 h⟩

section Evaluated

variable (hc : table.Coherent) (hflat : table.IsFlat)
include hc hflat

/-- Nothing is bound in what is bound in a symbol. -/
theorem IsFlat.exports_eq_nil {i id : SymbolId} {name : String}
    (h : (table.exports i).lookup name = some id) : table.exports id = [] := by
  obtain ⟨symbol, hsymbol, -, hparent⟩ := hc.of_lookup (show (table.bindings (some i)).lookup name = _ from h)
  refine List.eq_nil_iff_forall_not_mem.2 fun ⟨name', i'⟩ hmem => ?_
  obtain ⟨inside, hinside, -, hscope⟩ := hc.entry (show (name', i') ∈ table.bindings (some id) from hmem)
  obtain ⟨-, enum, henum, hnone⟩ := hflat.inner hinside hscope
  obtain rfl := Option.some.inj (hsymbol.symm.trans henum)
  rw [hparent] at hnone
  cases hnone

theorem IsFlat.constant?_global {name : String} {id : SymbolId} (h : table.globals.lookup name = some id) :
    table.constant? id = none := by
  obtain ⟨symbol, hsymbol, -, hparent⟩ := hc.of_lookup (show (table.bindings none).lookup name = _ from h)
  simp [constant?, hsymbol, (hflat.outer hsymbol hparent).1]

variable {e : SymbolId} {enum : Symbol} (henum : table.symbols[e]? = some enum) (hparent : enum.parent = none)
include henum hparent

omit hflat in
/-- What is bound in a symbol of the file scope are the members of its name. -/
theorem Coherent.lookup_exports (name : String) :
    (table.exports e).lookup name = table.memberAt enum.name name := by
  have hbound := hc.bound henum
  rw [hparent] at hbound
  rw [memberAt, show table.globals.lookup enum.name = some e from hbound, Option.bind_some]

/-- A name stands inside an enum for the constant that is told by names. -/
theorem IsFlat.resolve_bind (name : EntityName) : (table.resolve (some e) name).bind table.constant?
    = table.constants.ofName enum.name name := by
  obtain ⟨first, rest, span⟩ := name
  have hexports := hc.lookup_exports henum hparent first.name
  have hlookup : table.lookup (some e) first.name
      = ((table.exports e).lookup first.name).or (table.globals.lookup first.name) := by
    rw [hc.lookup_some henum, hparent, exports, henum]
    rfl
  unfold resolve Constants.ofName
  dsimp only
  rw [hlookup, constants, ← hexports]
  cases hmember : (table.exports e).lookup first.name with
  | some m =>
    cases rest with
    | nil => rfl
    | cons part rest => simp [hflat.exports_eq_nil hc hmember]
  | none =>
    cases hglobal : table.globals.lookup first.name with
    | none => cases rest with
      | nil => rfl
      | cons part rest => cases rest <;> simp [constants, memberAt, hglobal]
    | some g =>
      cases rest with
      | nil => exact hflat.constant?_global hc hglobal
      | cons part rest =>
        have hmembers : table.memberAt first.name part.name = (table.exports g).lookup part.name := by
          rw [memberAt, hglobal, Option.bind_some]
        cases hpart : (table.exports g).lookup part.name with
        | none => cases rest <;> simp [constants, hmembers, hpart]
        | some m =>
          cases rest with
          | nil => simp [constants, hmembers, hpart]
          | cons part' rest => simp [hpart, hflat.exports_eq_nil hc hpart]

theorem IsFlat.evaluate_eq (expr : ConstExpr) :
    table.evaluate (some e) expr = table.constants.evaluate enum.name expr := by
  induction expr with
  | number | string => rfl
  | name name => exact hflat.resolve_bind hc henum hparent name
  | unary op operand ih => rw [evaluate, Constants.evaluate, ih]
  | binary op left right ih ih' => rw [evaluate, Constants.evaluate, ih, ih']

theorem IsFlat.memberValue_eq (previous : Option (Option Binary64)) (member : EnumMember) :
    table.memberValue e previous member = table.constants.memberValue enum.name previous member := by
  obtain ⟨name, value, span, comments⟩ := member
  cases value with
  | some value => exact hflat.evaluate_eq hc henum hparent value
  | none => cases previous <;> rfl

end Evaluated

section Steps

variable {scope : Option SymbolId} {name : String} {kind : SymbolKind} {id : SymbolId}

/-- A declaration in the file scope that is no member of an enum, or in a symbol of the file scope that is
one. -/
def FitsFlat (table : SymbolTable) (kind : SymbolKind) : Option SymbolId → Prop
  | none => kind ≠ .memberKind
  | some e => kind = .memberKind ∧ ∃ enum, table.symbols[e]? = some enum ∧ enum.parent = none

theorem IsFlat.of_adds (hflat : table.IsFlat) (h : Adds table scope name kind table' id)
    (hfits : table.FitsFlat kind scope) : table'.IsFlat where
  outer {i symbol'} hsymbol' hparent := by
    obtain ⟨symbol, hsymbol, hcontinues⟩ | ⟨-, -, -, rfl⟩ := h.symbol_cases hsymbol'
    · obtain ⟨symbol'', hsymbol'', -, hvalue⟩ := h.continues hsymbol
      obtain rfl := Option.some.inj (hsymbol'.symm.trans hsymbol'')
      rw [hcontinues.kind, hvalue]
      exact hflat.outer hsymbol (hcontinues.parent ▸ hparent)
    · obtain rfl : scope = none := hparent
      exact ⟨hfits, rfl⟩
  inner {i parent symbol'} hsymbol' hparent := by
    have hkept : ∀ enum, table.symbols[parent]? = some enum → enum.parent = none →
        ∃ enum', table'.symbols[parent]? = some enum' ∧ enum'.parent = none := by
      intro enum henum hnone
      obtain ⟨enum', henum', hcontinues, -⟩ := h.continues henum
      exact ⟨enum', henum', hcontinues.parent.trans hnone⟩
    obtain ⟨symbol, hsymbol, hcontinues⟩ | ⟨-, -, -, rfl⟩ := h.symbol_cases hsymbol'
    · obtain ⟨hkind, enum, henum, hnone⟩ := hflat.inner hsymbol (hcontinues.parent ▸ hparent)
      exact ⟨hcontinues.kind.trans hkind, hkept enum henum hnone⟩
    · obtain rfl : scope = some parent := hparent
      obtain ⟨hkind, enum, henum, hnone⟩ := hfits
      exact ⟨hkind, hkept enum henum hnone⟩

theorem IsFlat.setValue (hflat : table.IsFlat) {symbol : Symbol} (hsymbol : table.symbols[id]? = some symbol)
    (hinside : symbol.parent ≠ none) (value : Option Binary64) : (table.setValue id value).IsFlat where
  outer {i symbol'} hsymbol' hparent := by
    obtain ⟨symbol₁, hsymbol₁, hcontinues⟩ := symbol_of_setValue hsymbol'
    have hnone := hcontinues.parent.symm.trans hparent
    have hi : i ≠ id := by
      rintro rfl
      obtain rfl := Option.some.inj (hsymbol.symm.trans hsymbol₁)
      exact hinside hnone
    obtain ⟨symbol'', hsymbol'', -, hvalue⟩ := continues_setValue id value hsymbol₁
    obtain rfl := Option.some.inj (hsymbol'.symm.trans hsymbol'')
    rw [hcontinues.kind, hvalue hi]
    exact hflat.outer hsymbol₁ hnone
  inner {i parent symbol'} hsymbol' hparent := by
    obtain ⟨symbol₁, hsymbol₁, hcontinues⟩ := symbol_of_setValue hsymbol'
    obtain ⟨hkind, enum, henum, hnone⟩ := hflat.inner hsymbol₁ (hcontinues.parent ▸ hparent)
    obtain ⟨enum', henum', hcontinues', -⟩ := continues_setValue id value henum
    exact ⟨hcontinues.kind.trans hkind, enum', henum', hcontinues'.parent.trans hnone⟩

/-- What is declared in the file scope has no members yet. -/
theorem Adds.memberAt_outer (h : Adds table none name kind table' id) : table'.memberAt = table.memberAt := by
  cases h with
  | joins _ _ hbindings => exact memberAt_of_bindings hbindings
  | makes hlookup hid _ hbindings =>
    funext enum member
    have hglobals : table'.globals = table.globals ++ [(name, id)] := hbindings none
    have hexports : ∀ i, table'.exports i = table.exports i := fun i =>
      (hbindings (some i)).trans (List.append_nil _)
    have hempty : table.exports id = [] := by
      rw [exports, hid, Array.getElem?_eq_none (Nat.le_refl _)]
      rfl
    rw [memberAt, memberAt, hglobals, List.lookup_append]
    cases hglobal : table.globals.lookup enum with
    | some e => rw [Option.some_or, Option.bind_some, Option.bind_some, hexports]
    | none =>
      rw [Option.none_or, Option.bind_none, Option.bind_eq_none_iff]
      intro i hi
      obtain ⟨rfl, rfl⟩ : enum = name ∧ i = id := by simpa [List.lookup_cons] using mem_of_lookup hi
      rw [hexports, hempty]
      rfl

section Members

variable (hc : table.Coherent) {e : SymbolId} {enum : Symbol} (henum : table.symbols[e]? = some enum)
  (hparent : enum.parent = none)
include hc henum hparent

/-- Of the members in the file scope, one that is declared in an enum is the only new one. -/
theorem Adds.memberAt_inner (h : Adds table (some e) name kind table' id) (enum' member : String) :
    table'.memberAt enum' member
      = if enum' = enum.name ∧ member = name then some id else table.memberAt enum' member := by
  have hbound : table.globals.lookup enum.name = some e := by
    have hbound := hc.bound henum
    rwa [hparent] at hbound
  cases h with
  | joins hlookup _ hbindings =>
    have hself : table.memberAt enum.name name = some id := by
      rw [memberAt, hbound]
      exact hlookup
    rw [memberAt_of_bindings hbindings]
    split
    · rename_i hnames
      rw [hnames.1, hnames.2]
      exact hself
    · rfl
  | makes hlookup _ _ hbindings =>
    have hglobals : table'.globals = table.globals := (hbindings none).trans (List.append_nil _)
    have hexports : ∀ i, table'.exports i
        = table.exports i ++ if some i = some e then [(name, id)] else [] := fun i => hbindings (some i)
    rw [memberAt, memberAt, hglobals]
    cases hglobal : table.globals.lookup enum' with
    | none =>
      have hne : enum' ≠ enum.name := by
        rintro rfl
        rw [hbound] at hglobal
        cases hglobal
      rw [if_neg fun hnames => hne hnames.1]
      rfl
    | some i =>
      rw [Option.bind_some, Option.bind_some, hexports]
      by_cases hi : i = e
      · obtain rfl := hi
        obtain ⟨symbol, hsymbol, rfl, -⟩ :=
          hc.of_lookup (show (table.bindings none).lookup enum' = _ from hglobal)
        obtain rfl := Option.some.inj (henum.symm.trans hsymbol)
        rw [if_pos rfl, List.lookup_append]
        by_cases hmember : member = name
        · obtain rfl := hmember
          rw [show (table.exports i).lookup member = none from hlookup, if_pos ⟨rfl, rfl⟩]
          simp
        · have hbeq : (member == name) = false := by simpa using hmember
          rw [if_neg fun hnames => hmember hnames.2]
          simp [List.lookup_cons, hbeq]
      · have hne : enum' ≠ enum.name := by
          rintro rfl
          exact hi (Option.some.inj (hglobal.symm.trans hbound))
        rw [if_neg fun h => hi (Option.some.inj h), List.append_nil, if_neg fun hnames => hne hnames.1]

end Members

theorem Adds.constant?_eq (h : Adds table scope name kind table' id) {i : SymbolId} {symbol : Symbol}
    (hsymbol : table.symbols[i]? = some symbol) : table'.constant? i = table.constant? i := by
  obtain ⟨symbol', hsymbol', hcontinues, hvalue⟩ := h.continues hsymbol
  simp [constant?, hsymbol, hsymbol', hcontinues.kind, hvalue]

theorem constant?_setValue_of_ne {i : SymbolId} (hi : i ≠ id) (value : Option Binary64) :
    (table.setValue id value).constant? i = table.constant? i := by
  cases hsymbol : table.symbols[i]? <;> simp [constant?, symbols_setValue, hsymbol, hi]

/-- A declaration in the file scope leaves the constants as they are. -/
theorem Adds.constants_outer (hc : table.Coherent) (h : Adds table none name kind table' id) :
    table'.constants = table.constants := by
  funext enum member
  rw [constants, constants, h.memberAt_outer]
  cases hfound : table.memberAt enum member with
  | none => rfl
  | some i =>
    obtain ⟨symbol, -, -, hsymbol, -⟩ := (hc.memberAt_eq_some_iff.1 hfound).cases_some
    exact congrArg some (h.constant?_eq hsymbol)

/-- A symbol at a path of one name is in the file scope. -/
theorem Located.outer {e : SymbolId} (h : table.Located [name] (some e)) :
    ∃ symbol, table.symbols[e]? = some symbol ∧ symbol.parent = none ∧ symbol.name = name := by
  obtain ⟨symbol, before, hpath, hsymbol, hparent⟩ := h.cases_some
  obtain ⟨rfl, hname⟩ := List.append_inj' (show [] ++ [name] = before ++ [symbol.name] from hpath) rfl
  refine ⟨symbol, hsymbol, ?_, (List.singleton_inj.1 hname).symm⟩
  cases hscope : symbol.parent with
  | none => rfl
  | some p =>
    rw [hscope] at hparent
    obtain ⟨_, _, hempty, -⟩ := hparent.cases_some
    exact absurd hempty.symm (List.concat_ne_nil _ _)

section Member

variable (hc : table.Coherent) (hflat : table.IsFlat) {e : SymbolId} {enum : String}
  (henum : table.Located [enum] (some e)) (member : EnumMember) (value : Option Binary64)
include hc hflat henum

/-- The table after a member is declared in an enum and has its value. -/
def withMember (table : SymbolTable) (e : SymbolId) (member : EnumMember) (value : Option Binary64) :
    SymbolTable :=
  (table.declare (some e) member.name.name (.memberDecl member) member.comments).1.setValue
    (table.declare (some e) member.name.name (.memberDecl member) member.comments).2 value

omit hc hflat in
theorem Located.hasScope : table.HasScope (some e) := by
  obtain ⟨symbol, hsymbol, -⟩ := henum.outer
  exact hasScope_of_symbol hsymbol

theorem IsFlat.withMember : (table.withMember e member value).IsFlat := by
  obtain ⟨symbol, hsymbol, hparent, -⟩ := henum.outer
  have h := declare_adds henum.hasScope member.name.name (.memberDecl member) member.comments
  obtain ⟨target, htarget, -, hinside, -⟩ := h.target hc
  have hflat' := hflat.of_adds h ⟨rfl, symbol, hsymbol, hparent⟩
  exact hflat'.setValue htarget (by rw [hinside]; nofun) value

/-- A member in an enum has its value from then on, and the others keep theirs. -/
theorem constants_withMember : (table.withMember e member value).constants
    = table.constants.set enum member.name.name value := by
  obtain ⟨symbol, hsymbol, hparent, rfl⟩ := henum.outer
  have h := declare_adds henum.hasScope member.name.name (.memberDecl member) member.comments
  have hc' := hc.declare henum.hasScope member.name.name (.memberDecl member) member.comments
  have hflat' := hflat.of_adds h ⟨rfl, symbol, hsymbol, hparent⟩
  have hat := h.memberAt_inner hc hsymbol hparent
  obtain ⟨target, htarget, -, hinside, -⟩ := h.target hc
  funext enum' member'
  rw [constants, SymbolTable.withMember, memberAt_of_bindings (bindings_setValue _ _ _), hat, Constants.set]
  split
  · have hkind := (hflat'.inner htarget hinside).1
    simp [constant?, symbols_setValue, htarget, hkind]
  · rename_i hother
    cases hfound : table.memberAt enum' member' with
    | none => simp [constants, hfound]
    | some i =>
      obtain ⟨found, -, -, hfoundAt, -⟩ := (hc.memberAt_eq_some_iff.1 hfound).cases_some
      have hi : i ≠ (table.declare (some e) member.name.name (.memberDecl member) member.comments).2 := by
        rintro rfl
        have hpath := hc'.memberAt_eq_some_iff.1 ((hat _ _).trans (if_pos ⟨rfl, rfl⟩))
        have hpath' := hc'.memberAt_eq_some_iff.1 (((hat _ _).trans (if_neg hother)).trans hfound)
        obtain ⟨rfl, rfl⟩ : enum' = symbol.name ∧ member' = member.name.name := by
          simpa using hpath'.path_unique hpath
        exact hother ⟨rfl, rfl⟩
      rw [constants, hfound, Option.map_some, Option.map_some, constant?_setValue_of_ne hi,
        h.constant?_eq hfoundAt]

end Member

end Steps

section Runs

/-- Declaring the members of an enum finds their constants. -/
theorem bindMembers_constants {e : SymbolId} {enum : String} : ∀ (members : List EnumMember)
    {table : SymbolTable} (previous : Option (Option Binary64)), table.Coherent → table.IsFlat →
    table.Located [enum] (some e) → (bindMembers e previous table members).IsFlat
      ∧ (bindMembers e previous table members).constants
        = Constants.bindMembers enum previous table.constants members
  | [], _, _, _, hflat, _ => ⟨hflat, rfl⟩
  | member :: members, table, previous, hc, hflat, henum => by
    let value := table.memberValue e previous member
    have step : BindingStep table (table.withMember e member value) :=
      .values member.name.name member member.comments value henum.hasScope
    obtain ⟨symbol, hsymbol, hparent, hname⟩ := henum.outer
    have hvalue : value = table.constants.memberValue enum previous member :=
      hname ▸ hflat.memberValue_eq hc hsymbol hparent previous member
    obtain ⟨hflat', hconstants⟩ := bindMembers_constants members (some value) (hc.step step)
      (hflat.withMember hc henum member value) (henum.extends step.extends)
    refine ⟨hflat', hconstants.trans ?_⟩
    rw [Constants.bindMembers, constants_withMember hc hflat henum, hvalue]

/-- A statement that is no namespace finds the constants of its members. -/
theorem bindStatement_constants {table : SymbolTable} (hc : table.Coherent) (hflat : table.IsFlat)
    {statement : Statement} (hdeclares : statement.declaredName?.isSome) :
    (bindStatement none table statement).IsFlat
      ∧ (bindStatement none table statement).constants = table.constants.bindStatement statement := by
  have houter : ∀ (name : String) (node : DeclNode) (comments : List Text.Span), node.kind ≠ .memberKind →
      (table.declare none name node comments).1.IsFlat
        ∧ (table.declare none name node comments).1.constants = table.constants := by
    intro name node comments hkind
    have h := declare_adds (hasScope_none table) name node comments
    exact ⟨hflat.of_adds h hkind, h.constants_outer hc⟩
  cases statement with
  | namespaceDecl | skipped => cases hdeclares
  | interfaceDecl place decl => exact houter _ _ _ nofun
  | aliasDecl place decl => exact houter _ _ _ nofun
  | enumDecl place decl =>
    obtain ⟨hflat', hconstants⟩ := houter decl.name.name (.enumDecl decl) place.comments nofun
    have hlocated := (records_declare hc (hasScope_none _) .file decl.name.name (.enumDecl decl)
      place.comments).2
    obtain ⟨hflat'', hconstants'⟩ := bindMembers_constants decl.members none
      (hc.declare (hasScope_none _) decl.name.name (.enumDecl decl) place.comments) hflat' hlocated
    exact ⟨hflat'', hconstants'.trans (by rw [hconstants]; rfl)⟩

theorem bindStatements_constants : ∀ (statements : List Statement) {table : SymbolTable},
    table.Coherent → table.IsFlat → (∀ statement ∈ statements, statement.declaredName?.isSome) →
    (bindStatements none table statements).IsFlat
      ∧ (bindStatements none table statements).constants
        = statements.foldl Constants.bindStatement table.constants
  | [], _, _, hflat, _ => ⟨hflat, rfl⟩
  | statement :: statements, _, hc, hflat, hdeclares => by
    obtain ⟨hfirst, hothers⟩ := List.forall_mem_cons.1 hdeclares
    obtain ⟨hflat', hconstants⟩ := bindStatement_constants hc hflat hfirst
    have hc' := hc.run (bindStatement_run statement hc (hasScope_none _))
    obtain ⟨hflat'', hconstants'⟩ := bindStatements_constants statements hc' hflat' hothers
    exact ⟨hflat'', hconstants'.trans (by rw [hconstants, List.foldl_cons])⟩

variable {statements statements' : List Statement}

/-- The constants of statements that are no namespaces, as their enums tell them by names. -/
theorem constants_ofStatements (hdeclares : ∀ statement ∈ statements, statement.declaredName?.isSome) :
    (ofStatements statements).IsFlat
      ∧ (ofStatements statements).constants
        = statements.foldl Constants.bindStatement fun _ _ => none := by
  have hempty : IsFlat empty := ⟨nofun, nofun⟩
  exact bindStatements_constants statements .empty hempty hdeclares

/-- A symbol has the value that is told by its path. -/
theorem IsFlat.value_eq {table : SymbolTable} (hc : table.Coherent) (hflat : table.IsFlat)
    {path : List String} {id : SymbolId} {symbol : Symbol} (hsymbol : table.symbols[id]? = some symbol)
    (hpath : table.Located path (some id)) : symbol.value = table.constants.atPath path := by
  obtain ⟨symbol', before, rfl, hsymbol', hparent⟩ := hpath.cases_some
  obtain rfl := Option.some.inj (hsymbol.symm.trans hsymbol')
  cases hscope : symbol.parent with
  | none =>
    rw [hscope] at hparent
    cases hparent
    exact (hflat.outer hsymbol hscope).2
  | some e =>
    obtain ⟨hkind, enum, henum, hnone⟩ := hflat.inner hsymbol hscope
    have hlocated : table.Located ([] ++ [enum.name]) (some e) := .inside henum (by rw [hnone]; exact .file)
    obtain rfl := (hscope ▸ hparent).path_unique hlocated
    have hmember : table.memberAt enum.name symbol.name = some id := hc.memberAt_eq_some_iff.2 hpath
    show symbol.value = (table.constants enum.name symbol.name).join
    rw [constants, hmember]
    simp [constant?, hsymbol, hkind]

/-- The values of symbols depend on the enums alone. -/
theorem value_of_enums {known : String → Prop}
    (hdeclares : ∀ statement ∈ statements, statement.declaredName?.isSome)
    (hdeclares' : ∀ statement ∈ statements', statement.declaredName?.isSome)
    (henums : statements.filter Statement.isEnum = statements'.filter Statement.isEnum)
    {i i' : SymbolId} (hi : SamePath known (ofStatements statements) (ofStatements statements') i i')
    {symbol symbol' : Symbol} (hsymbol : (ofStatements statements).symbols[i]? = some symbol)
    (hsymbol' : (ofStatements statements').symbols[i']? = some symbol') : symbol.value = symbol'.value := by
  obtain ⟨path, -, hpath, hpath'⟩ := hi
  obtain ⟨hflat, hconstants⟩ := constants_ofStatements hdeclares
  obtain ⟨hflat', hconstants'⟩ := constants_ofStatements hdeclares'
  rw [hflat.value_eq (Coherent.ofStatements _) hsymbol hpath,
    hflat'.value_eq (Coherent.ofStatements _) hsymbol' hpath', hconstants, hconstants',
    ← Constants.foldl_isEnum _ statements, henums, Constants.foldl_isEnum]

end Runs

end SymbolTable

end NodeFactory
