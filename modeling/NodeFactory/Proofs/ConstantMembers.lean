import NodeFactory.Proofs.EnumConstants
import NodeFactory.Proofs.RegroupedNamespaces

/-!
# Which members of an enum are constants

An initializer has a value if no string occurs in it and each of its names stands for a member with a value
(`isSome_evaluate_iff`), as the tables are just before the member is declared. A member without an
initializer has one if it is the first or the member before it has one. So it is for every enum of a text
whose members are new names, among any statements and inside any namespaces (`constant_members`).
-/

namespace NodeFactory

namespace ConstExpr

def strings : ConstExpr → List String
  | number _ | name _ => []
  | string text => [text]
  | unary _ operand => operand.strings
  | binary _ left right => left.strings ++ right.strings

def names : ConstExpr → List EntityName
  | number _ | string _ => []
  | name used => [used]
  | unary _ operand => operand.names
  | binary _ left right => left.names ++ right.names

end ConstExpr

namespace SymbolTable

variable {table : SymbolTable} {scope : Option SymbolId} {e : SymbolId}

/-- A name stands in a scope for a member with a value. -/
def NamesConstant (table : SymbolTable) (scope : Option SymbolId) (used : EntityName) : Prop :=
  ∃ id symbol, table.resolve scope used = some id ∧ table.symbols[id]? = some symbol
    ∧ symbol.kind = .memberKind ∧ symbol.value.isSome = true

/-- No string occurs in the expression, and each of its names stands for a member with a value. -/
def IsConstant (table : SymbolTable) (scope : Option SymbolId) (expr : ConstExpr) : Prop :=
  expr.strings = [] ∧ ∀ name ∈ expr.names, table.NamesConstant scope name

/-- A name is bound in an enum to a member that has this value, or has none. -/
def HasMember (table : SymbolTable) (e : SymbolId) (name : String) (value : Option Binary64) : Prop :=
  ∃ id symbol, (table.exports e).lookup name = some id ∧ table.symbols[id]? = some symbol
    ∧ symbol.kind = .memberKind ∧ symbol.value = value

section Evaluation

theorem namesConstant_iff {name : EntityName} : table.NamesConstant scope name
    ↔ ((table.resolve scope name).bind table.constant?).isSome = true := by
  unfold NamesConstant
  cases table.resolve scope name with
  | none => simp
  | some id =>
    cases hsymbol : table.symbols[id]? with
    | none => simp [constant?, hsymbol]
    | some symbol => by_cases hkind : symbol.kind = .memberKind <;> simp [constant?, hsymbol, hkind]

theorem isConstant_binary {op : BinaryOp} {left right : ConstExpr} :
    table.IsConstant scope (.binary op left right)
      ↔ table.IsConstant scope left ∧ table.IsConstant scope right := by
  simp only [IsConstant, ConstExpr.strings, ConstExpr.names, List.append_eq_nil_iff, List.forall_mem_append]
  exact and_and_and_comm

/-- An expression has a value if all that it is made of has one. -/
theorem isSome_evaluate_iff (expr : ConstExpr) :
    (table.evaluate scope expr).isSome = true ↔ table.IsConstant scope expr := by
  induction expr with
  | number value => exact iff_of_true rfl ⟨rfl, nofun⟩
  | string text => exact iff_of_false nofun fun h => nomatch h.1
  | name name =>
    rw [evaluate, ← namesConstant_iff]
    exact ⟨fun h => ⟨rfl, List.forall_mem_singleton.2 h⟩, fun h => List.forall_mem_singleton.1 h.2⟩
  | unary op operand ih => rw [evaluate, Option.isSome_map, ih]; rfl
  | binary op left right ih ih' =>
    rw [isConstant_binary, ← ih, ← ih', evaluate]
    cases table.evaluate scope left with
    | none => simp
    | some a => cases table.evaluate scope right <;> simp

/-- Which members have a value, by the value of the member before. -/
theorem isSome_memberValue_iff (previous : Option (Option Binary64)) (member : EnumMember) :
    (table.memberValue e previous member).isSome = true ↔ match member.value with
      | some expr => table.IsConstant (some e) expr
      | none => ∀ value ∈ previous, value.isSome = true := by
  unfold memberValue
  cases member.value with
  | some expr => exact isSome_evaluate_iff expr
  | none => cases previous <;> simp

end Evaluation

section Members

variable {name : String} {member : EnumMember} {value value' : Option Binary64}

theorem lookup_withMember_of_ne (hscope : table.HasScope (some e)) (hne : name ≠ member.name.name) :
    ((table.withMember e member value).exports e).lookup name = (table.exports e).lookup name := by
  have h := declare_adds hscope member.name.name (.memberDecl member) member.comments
  have hbeq : (name == member.name.name) = false := by simpa using hne
  show ((table.withMember e member value).bindings (some e)).lookup name = _
  rw [withMember, bindings_setValue]
  cases h with
  | joins _ _ hbindings => rw [hbindings]; rfl
  | makes _ _ _ hbindings =>
    rw [hbindings, if_pos rfl, List.lookup_append, List.lookup_cons, hbeq, List.lookup_nil, Option.or_none]
    rfl

/-- A new member has its value. -/
theorem hasMember_withMember (hscope : table.HasScope (some e))
    (hunbound : (table.exports e).lookup member.name.name = none) :
    (table.withMember e member value).HasMember e member.name.name value := by
  have h := declare_adds hscope member.name.name (.memberDecl member) member.comments
  have hself := h.lookup_self
  unfold withMember
  generalize table.declare (some e) member.name.name (.memberDecl member) member.comments = declared
    at h hself ⊢
  cases h with
  | joins hlookup => simp [bindings, hunbound] at hlookup
  | makes _ _ hsymbols _ =>
    have hsymbol := symbols_setValue declared.1 declared.2 value declared.2
    rw [hsymbols, if_pos rfl, Option.map_some, if_pos rfl] at hsymbol
    refine ⟨declared.2, _, ?_, hsymbol, rfl, rfl⟩
    show ((declared.1.setValue declared.2 value).bindings (some e)).lookup _ = _
    rw [bindings_setValue, hself]

/-- The other members keep their values. -/
theorem HasMember.withMember (hc : table.Coherent) (hscope : table.HasScope (some e))
    (hne : name ≠ member.name.name) (h : table.HasMember e name value) :
    (table.withMember e member value').HasMember e name value := by
  obtain ⟨id, symbol, hlookup, hsymbol, hkind, hvalue⟩ := h
  have hadds := declare_adds hscope member.name.name (.memberDecl member) member.comments
  obtain ⟨symbol', hsymbol', hcontinues, hvalue'⟩ := hadds.continues hsymbol
  obtain ⟨target, htarget, hname, -⟩ := hadds.target hc
  have hid : id ≠ (table.declare (some e) member.name.name (.memberDecl member) member.comments).2 := by
    rintro rfl
    obtain ⟨named, hnamed, rfl, -⟩ :=
      hc.of_lookup (show (table.bindings (some e)).lookup name = _ from hlookup)
    obtain rfl := Option.some.inj (hsymbol.symm.trans hnamed)
    obtain rfl := Option.some.inj (hsymbol'.symm.trans htarget)
    exact hne (hcontinues.name.symm.trans hname)
  obtain ⟨symbol'', hsymbol'', hcontinues', hvalue''⟩ := continues_setValue _ value' hsymbol'
  refine ⟨id, symbol'', (lookup_withMember_of_ne hscope hne).trans hlookup, hsymbol'', ?_, ?_⟩
  · rw [hcontinues'.kind, hcontinues.kind, hkind]
  · rw [hvalue'' hid, hvalue', hvalue]

theorem bindMembers_cons (previous : Option (Option Binary64)) (members : List EnumMember) :
    bindMembers e previous table (member :: members)
      = bindMembers e (some (table.memberValue e previous member))
        (table.withMember e member (table.memberValue e previous member)) members := rfl

theorem step_withMember (hscope : table.HasScope (some e)) :
    BindingStep table (table.withMember e member value) :=
  .values member.name.name member member.comments value hscope

/-- Members of other names leave a member as it is. -/
theorem HasMember.bindMembers : ∀ {members : List EnumMember} {table : SymbolTable}
    {previous : Option (Option Binary64)}, table.Coherent → table.HasScope (some e) →
    (∀ member ∈ members, name ≠ member.name.name) → table.HasMember e name value →
      (bindMembers e previous table members).HasMember e name value
  | [], _, _, _, _, _, h => h
  | member :: members, table, previous, hc, hscope, hne, h => by
    obtain ⟨hfirst, hothers⟩ := List.forall_mem_cons.1 hne
    have step : BindingStep table (table.withMember e member (table.memberValue e previous member)) :=
      step_withMember hscope
    rw [bindMembers_cons]
    exact HasMember.bindMembers (hc.step step) (hscope.step step) hothers
      (h.withMember hc hscope hfirst)

end Members

section Values

/-- The value before that of a member, if there is one. -/
def valueBefore (previous : Option (Option Binary64)) (value : Nat → Option Binary64) :
    Nat → Option (Option Binary64)
  | 0 => previous
  | i + 1 => some (value i)

/-- Each member has the value that is found for it before it is declared, and keeps it while the others are
declared. -/
theorem exists_values : ∀ (members : List EnumMember) {table : SymbolTable}
    (previous : Option (Option Binary64)), table.Coherent → table.HasScope (some e) →
    (members.map fun member => member.name.name).Nodup →
    (∀ member ∈ members, (table.exports e).lookup member.name.name = none) →
    ∃ value : Nat → Option Binary64, ∀ i member, members[i]? = some member →
      (∀ j, i < j → (bindMembers e previous table (members.take j)).HasMember e member.name.name (value i))
      ∧ value i = (bindMembers e previous table (members.take i)).memberValue e
        (valueBefore previous value i) member
  | [], _, _, _, _, _, _ => ⟨fun _ => none, nofun⟩
  | member :: members, table, previous, hc, hscope, hdistinct, hunbound => by
    obtain ⟨hother, hdistinct'⟩ := List.nodup_cons.1 hdistinct
    obtain ⟨hfirst, hunbound'⟩ := List.forall_mem_cons.1 hunbound
    have hne : ∀ later ∈ members, member.name.name ≠ later.name.name := fun later hmem hname =>
      hother (List.mem_map.2 ⟨later, hmem, hname.symm⟩)
    generalize hvalue : table.memberValue e previous member = first
    have step : BindingStep table (table.withMember e member first) := step_withMember hscope
    obtain ⟨value, hvalues⟩ := exists_values members (some first) (hc.step step) (hscope.step step) hdistinct'
      fun later hmem => (lookup_withMember_of_ne hscope (hne later hmem).symm).trans (hunbound' later hmem)
    have htake : ∀ j, bindMembers e previous table ((member :: members).take (j + 1))
        = bindMembers e (some first) (table.withMember e member first) (members.take j) := by
      intro j
      rw [List.take_succ_cons, bindMembers_cons, hvalue]
    refine ⟨fun | 0 => first | i + 1 => value i, fun i later hlater => ?_⟩
    cases i with
    | zero =>
      obtain rfl := Option.some.inj hlater
      refine ⟨fun j hj => ?_, hvalue.symm⟩
      obtain ⟨j, rfl⟩ := Nat.exists_eq_succ_of_ne_zero (Nat.ne_of_gt hj)
      rw [Nat.succ_eq_add_one, htake]
      exact (hasMember_withMember hscope hfirst).bindMembers (hc.step step) (hscope.step step)
        fun later hmem => hne later (List.mem_of_mem_take hmem)
    | succ i =>
      obtain ⟨hstored, hfound⟩ := hvalues i later hlater
      rw [htake]
      refine ⟨fun j hj => ?_, ?_⟩
      · obtain ⟨j, rfl⟩ := Nat.exists_eq_succ_of_ne_zero (Nat.ne_of_gt (Nat.zero_lt_of_lt hj))
        rw [Nat.succ_eq_add_one, htake]
        exact hstored j (Nat.lt_of_succ_lt_succ hj)
      · refine hfound.trans ?_
        cases i <;> rfl

end Values

end SymbolTable

namespace Surroundings

/-- The tables and the scope when the statements inside are reached. -/
def reach : Surroundings → Option SymbolId → SymbolTable → SymbolTable × Option SymbolId
  | among before _, scope, table => (SymbolTable.bindStatements scope table before, scope)
  | inside before place name inner _, scope, table =>
    let table := SymbolTable.bindStatements scope table before
    let (table, innermost) := SymbolTable.bindPath place.comments scope table name.parts
    inner.reach innermost table

/-- What is bound behind the statements inside, which have led to the tables `bound`. -/
def leave : Surroundings → Option SymbolId → SymbolTable → SymbolTable → SymbolTable
  | among _ after, scope, _, bound => SymbolTable.bindStatements scope bound after
  | inside before place name inner after, scope, table, bound =>
    let table := SymbolTable.bindStatements scope table before
    let (table, innermost) := SymbolTable.bindPath place.comments scope table name.parts
    SymbolTable.bindStatements scope (inner.leave innermost table bound) after

/-- The tables when an enum among its surroundings is declared, and its symbol. -/
def enumAt (surroundings : Surroundings) (place : Placement) (decl : Enum) : SymbolTable × SymbolId :=
  (surroundings.reach none .empty).1.declare (surroundings.reach none .empty).2 decl.name.name
    (.enumDecl decl) place.comments

/-- The tables when a number of the members of the enum are bound. -/
def tablesAt (surroundings : Surroundings) (place : Placement) (decl : Enum) (bound : Nat) : SymbolTable :=
  SymbolTable.bindMembers (surroundings.enumAt place decl).2 none (surroundings.enumAt place decl).1
    (decl.members.take bound)

end Surroundings

namespace SymbolTable

section Reaching

theorem bindStatements_around (statements : List Statement) : ∀ (surroundings : Surroundings)
    {scope : Option SymbolId} {table : SymbolTable},
    bindStatements scope table (surroundings.around statements)
      = surroundings.leave scope table (bindStatements (surroundings.reach scope table).2
        (surroundings.reach scope table).1 statements)
  | .among before after, scope, table => by
    rw [Surroundings.around, bindStatements_append, bindStatements_append]
    rfl
  | .inside before place name inner after, scope, table => by
    rw [Surroundings.around, bindStatements_append, bindStatements, bindStatement]
    dsimp only
    rw [bindStatements_around statements inner]
    rfl

theorem coherent_reach : ∀ (surroundings : Surroundings) {scope : Option SymbolId} {table : SymbolTable},
    table.Coherent → table.HasScope scope → (surroundings.reach scope table).1.Coherent
      ∧ (surroundings.reach scope table).1.HasScope (surroundings.reach scope table).2
  | .among before _, _, _, hc, hscope => by
    have run := bindStatements_run before hc hscope
    exact ⟨hc.run run, hscope.run run⟩
  | .inside before place name inner _, _, _, hc, hscope => by
    have run := bindStatements_run before hc hscope
    obtain ⟨run', hinner⟩ := bindPath_run place.comments name.parts (hc.run run) (hscope.run run)
    exact coherent_reach inner ((hc.run run).run run') hinner

/-- Binding statements comes to the tables in which an enum among them is bound. -/
theorem ofStatements_around (surroundings : Surroundings) (place : Placement) (decl : Enum) :
    ofStatements (surroundings.around [.enumDecl place decl])
      = surroundings.leave none .empty (surroundings.tablesAt place decl decl.members.length) := by
  rw [ofStatements, bindStatements_around, Surroundings.tablesAt, List.take_length]
  rfl

end Reaching

/-- Which members of an enum have a value, where `tables i` is what is bound when `i` of them are. -/
structure ConstantMembers (e : SymbolId) (tables : Nat → SymbolTable) (members : List EnumMember)
    (value : Nat → Option Binary64) : Prop where
  stored {i : Nat} {member : EnumMember} : members[i]? = some member → ∀ j, i < j →
    (tables j).HasMember e member.name.name (value i)
  initialized {i : Nat} {member : EnumMember} {expr : ConstExpr} : members[i]? = some member →
    member.value = some expr → ((value i).isSome = true ↔ (tables i).IsConstant (some e) expr)
  continued {i : Nat} {member : EnumMember} : members[i]? = some member → member.value = none →
    ((value i).isSome = true ↔ i = 0 ∨ (value (i - 1)).isSome = true)

section Enums

variable {tables : Nat → SymbolTable} {members : List EnumMember} {value : Nat → Option Binary64}

/-- Up to the next initializer, members have a value if the one before them has. -/
theorem ConstantMembers.inherited (h : ConstantMembers e tables members value) {i : Nat} :
    ∀ {j : Nat}, i ≤ j → j < members.length →
    (∀ k member, i < k → k ≤ j → members[k]? = some member → member.value = none) →
      ((value j).isSome = true ↔ (value i).isSome = true)
  | 0, hle, _, _ => by rw [Nat.le_zero.1 hle]
  | j + 1, hle, hlt, hnone => by
    rcases Nat.eq_or_lt_of_le hle with rfl | hlt'
    · exact Iff.rfl
    have hmember : members[j + 1]? = some members[j + 1] := List.getElem?_eq_getElem hlt
    have hinherits := h.continued hmember (hnone (j + 1) _ hlt' (Nat.le_refl _) hmember)
    rw [hinherits, or_iff_right (Nat.succ_ne_zero j), Nat.add_sub_cancel]
    exact h.inherited (Nat.le_of_lt_succ hlt') (Nat.lt_of_succ_lt hlt) fun k member hk hkj =>
      hnone k member hk (Nat.le_succ_of_le hkj)

/-- Wherever an enum stands in a text, its members have a value exactly if their initializers are made of
constants, as the tables are just before them, or if they have none and do not follow a member without a
value. A member without a value leaves those behind it without one up to the next initializer. -/
theorem constant_members (surroundings : Surroundings) (place : Placement) (decl : Enum)
    (hdistinct : (decl.members.map fun member => member.name.name).Nodup)
    (hunbound : ∀ member ∈ decl.members, ((surroundings.tablesAt place decl 0).exports
      (surroundings.enumAt place decl).2).lookup member.name.name = none) :
    ofStatements (surroundings.around [.enumDecl place decl])
        = surroundings.leave none .empty (surroundings.tablesAt place decl decl.members.length)
    ∧ ∃ value, ConstantMembers (surroundings.enumAt place decl).2 (surroundings.tablesAt place decl)
        decl.members value
      ∧ ∀ i j, i < j → j < decl.members.length →
        (∀ k member, i < k → k ≤ j → decl.members[k]? = some member → member.value = none) →
          ((value j).isSome = true ↔ (value i).isSome = true) := by
  obtain ⟨hc, hscope⟩ := coherent_reach surroundings .empty (hasScope_none _)
  have hdeclared := hc.declare hscope decl.name.name (.enumDecl decl) place.comments
  have hinside := hc.hasScope_declare hscope decl.name.name (.enumDecl decl) place.comments
  obtain ⟨value, hvalue⟩ := exists_values decl.members none hdeclared hinside hdistinct hunbound
  have hmembers : ConstantMembers (surroundings.enumAt place decl).2 (surroundings.tablesAt place decl)
      decl.members value :=
    { stored := fun hmember => (hvalue _ _ hmember).1
      initialized := fun hmember hexpr => by
        rw [(hvalue _ _ hmember).2, isSome_memberValue_iff, hexpr]
        rfl
      continued := fun {i member} hmember hnone => by
        rw [(hvalue _ _ hmember).2, isSome_memberValue_iff, hnone]
        cases i with
        | zero => simp [valueBefore]
        | succ i => simp [valueBefore] }
  exact ⟨ofStatements_around surroundings place decl, value, hmembers,
    fun i j hij hj hnone => hmembers.inherited (Nat.le_of_lt hij) hj hnone⟩

/-- Flags of which the first two have no value, and the third has that of a member declared before. -/
def mixedFlags : Enum where
  name := ⟨"Flags", ⟨0, 0⟩⟩
  isConst := false
  members := [⟨⟨"Label", ⟨0, 0⟩⟩, some (.string "flag"), ⟨0, 0⟩, []⟩, ⟨⟨"Next", ⟨0, 0⟩⟩, none, ⟨0, 0⟩, []⟩,
    ⟨⟨"All", ⟨0, 0⟩⟩, some (.name (nameOf "ts" ["Flags", "None"])), ⟨0, 0⟩, []⟩,
    ⟨⟨"More", ⟨0, 0⟩⟩, none, ⟨0, 0⟩, []⟩]

/-- Inside a namespace, behind a declaration of the same enum. -/
def behindFlags : Surroundings :=
  .inside [] (ledBy []) (nameOf "ts" []) (.among [flags "None" (.number 0)] []) []

theorem constant_members_flags :
    (mixedFlags.members.map fun member => member.name.name).Nodup
    ∧ (∀ member ∈ mixedFlags.members, ((behindFlags.tablesAt (ledBy []) mixedFlags 0).exports
        (behindFlags.enumAt (ledBy []) mixedFlags).2).lookup member.name.name = none)
    ∧ ∃ value, ConstantMembers (behindFlags.enumAt (ledBy []) mixedFlags).2
        (behindFlags.tablesAt (ledBy []) mixedFlags) mixedFlags.members value
      ∧ (value 0).isSome = false ∧ (value 1).isSome = false ∧ (value 2).isSome = true
      ∧ (value 3).isSome = true := by
  have hdistinct : (mixedFlags.members.map fun member => member.name.name).Nodup := by decide
  have hunbound : ∀ member ∈ mixedFlags.members, ((behindFlags.tablesAt (ledBy []) mixedFlags 0).exports
      (behindFlags.enumAt (ledBy []) mixedFlags).2).lookup member.name.name = none := by decide +kernel
  obtain ⟨-, value, hvalue, hinherits⟩ :=
    constant_members behindFlags (ledBy []) mixedFlags hdistinct hunbound
  have hfirst : (value 0).isSome = false :=
    eq_false_of_ne_true fun h => nomatch ((hvalue.initialized rfl rfl).1 h).1
  have hall : (value 2).isSome = true :=
    (hvalue.initialized rfl rfl).2 ((isSome_evaluate_iff _).1 (by decide +kernel))
  have hnone : ∀ k member, k = 1 ∨ k = 3 → mixedFlags.members[k]? = some member → member.value = none := by
    rintro k member (rfl | rfl) hmember <;> cases hmember <;> rfl
  have hnext := hinherits 0 1 (by decide) (by decide) fun k member _ _ => hnone k member (by omega)
  have hmore := hinherits 2 3 (by decide) (by decide) fun k member _ _ => hnone k member (by omega)
  exact ⟨hdistinct, hunbound, value, hvalue, hfirst, by rw [Bool.eq_iff_iff, hnext, hfirst], hall,
    hmore.2 hall⟩

end Enums

end SymbolTable

end NodeFactory
