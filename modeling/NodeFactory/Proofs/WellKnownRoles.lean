import Mathlib.Tactic.SplitIfs
import NodeFactory.Model
import NodeFactory.Proofs.MatchedPaths

/-!
# Roles of declarations

A declaration has at most one of the five roles that classification starts from, and it has it by its name
and by being an interface or an enum (`DeclNode.role?`). What is found for a role is the symbol of the last
declaration that has it (`WellKnown.get_find`).

A role asks for declarations by its name alone (`DeclNode.Fits`). Where the settings give one name to two
roles of interfaces, only the first of them gets the interfaces of that name; in all other cases the last
declaration that a role asks for is what is found (`WellKnown.handles_by_name_iff`).
-/

namespace NodeFactory

inductive Role where
  | node
  | nodeArray
  | modifiersArray
  | declaration
  | kindEnum
deriving DecidableEq

/-- The role of an interface of a name: the first that the settings give to the name. -/
def WellKnownNames.interfaceRole? (names : WellKnownNames) (name : String) : Option Role :=
  if name = names.node then some .node
  else if name = names.nodeArray then some .nodeArray
  else if name = names.modifiersArray then some .modifiersArray
  else if name = names.declaration then some .declaration
  else none

def DeclNode.role? (names : WellKnownNames) : DeclNode → Option Role
  | interfaceDecl decl => names.interfaceRole? decl.name.name
  | enumDecl decl => if decl.name.name = names.kindEnum then some .kindEnum else none
  | namespaceDecl | aliasDecl _ | memberDecl _ => none

/-- The name that the settings give to what has a role. -/
def WellKnownNames.name (names : WellKnownNames) : Role → String
  | .node => names.node
  | .nodeArray => names.nodeArray
  | .modifiersArray => names.modifiersArray
  | .declaration => names.declaration
  | .kindEnum => names.kindEnum

section Fitting

/-- A declaration is one that a role asks for: an interface, or an enum for the kind enum, of the name
that the settings give to the role. -/
def DeclNode.Fits (names : WellKnownNames) (role : Role) : DeclNode → Prop
  | interfaceDecl decl => role ≠ .kindEnum ∧ decl.name.name = names.name role
  | enumDecl decl => role = .kindEnum ∧ decl.name.name = names.name role
  | namespaceDecl | aliasDecl _ | memberDecl _ => False

instance (names : WellKnownNames) (role : Role) : DecidablePred (DeclNode.Fits names role)
  | .interfaceDecl decl => inferInstanceAs (Decidable (role ≠ .kindEnum ∧ decl.name.name = names.name role))
  | .enumDecl decl => inferInstanceAs (Decidable (role = .kindEnum ∧ decl.name.name = names.name role))
  | .namespaceDecl | .aliasDecl _ | .memberDecl _ => inferInstanceAs (Decidable False)

/-- The roles that an interface is given before another, where it has the names of both. -/
def Role.before : Role → List Role
  | .node | .kindEnum => []
  | .nodeArray => [.node]
  | .modifiersArray => [.node, .nodeArray]
  | .declaration => [.node, .nodeArray, .modifiersArray]

/-- An earlier role has the name of a role. -/
def WellKnownNames.IsTaken (names : WellKnownNames) (role : Role) : Prop :=
  ∃ earlier ∈ role.before, names.name earlier = names.name role

/-- A declaration has a role if it is one that the role asks for, and no earlier role has its name. -/
theorem DeclNode.role?_eq_some_iff {names : WellKnownNames} {role : Role} {node : DeclNode} :
    node.role? names = some role ↔ node.Fits names role ∧ ¬ names.IsTaken role := by
  cases node with
  | namespaceDecl | aliasDecl | memberDecl => simp [role?, Fits]
  | enumDecl decl =>
    dsimp only [role?, Fits, WellKnownNames.IsTaken]
    split_ifs with h
    · cases role <;> simp [WellKnownNames.name, Role.before, h]
    · cases role <;> simp [WellKnownNames.name, h]
  | interfaceDecl decl =>
    dsimp only [role?, Fits, WellKnownNames.IsTaken, WellKnownNames.interfaceRole?]
    cases role <;> split_ifs <;> simp_all [WellKnownNames.name, Role.before, eq_comm]

end Fitting

section Statements

variable {names : WellKnownNames} {statement : Statement} {name : String}
  (hname : statement.declaredName? = some name) {occurrence : Occurrence}
  (hmem : occurrence ∈ statement.occurrences []) {role : Role}
  (hrole : occurrence.node.role? names = some role)
include hname hmem hrole

/-- What has a role is in the file scope and has the name of that role. -/
theorem Statement.fullPath_of_role? : occurrence.fullPath = [names.name role] := by
  cases statement with
  | namespaceDecl | skipped => cases hname
  | aliasDecl place decl =>
    obtain rfl := List.mem_singleton.1 hmem
    cases hrole
  | interfaceDecl place decl =>
    obtain rfl := List.mem_singleton.1 hmem
    change names.interfaceRole? _ = _ at hrole
    unfold WellKnownNames.interfaceRole? at hrole
    split_ifs at hrole with h h h h <;> cases hrole <;> exact congrArg (fun name => [name]) h
  | enumDecl place decl =>
    rcases List.mem_cons.1 hmem with rfl | hmem
    · change (if _ then _ else _) = _ at hrole
      split_ifs at hrole with h
      cases hrole
      exact congrArg (fun name => [name]) h
    · obtain ⟨member, -, rfl⟩ := List.mem_map.1 hmem
      cases hrole

theorem Statement.name_of_role? : name = names.name role := by
  have hhead := statement.head_fullPath hname hmem
  rw [statement.fullPath_of_role? hname hmem hrole] at hhead
  exact (Option.some.inj hhead).symm

end Statements

namespace WellKnown

/-- What is found for a role. -/
def get (found : WellKnown) : Role → Option SymbolId
  | .node => found.node
  | .nodeArray => found.nodeArray
  | .modifiersArray => found.modifiersArray
  | .declaration => found.declaration
  | .kindEnum => found.kindEnum

def set (found : WellKnown) (role : Role) (id : SymbolId) : WellKnown :=
  match role with
  | .node => { found with node := some id }
  | .nodeArray => { found with nodeArray := some id }
  | .modifiersArray => { found with modifiersArray := some id }
  | .declaration => { found with declaration := some id }
  | .kindEnum => { found with kindEnum := some id }

theorem get_set (found : WellKnown) (role role' : Role) (id : SymbolId) :
    (found.set role id).get role' = if role = role' then some id else found.get role' := by
  cases role <;> cases role' <;> rfl

theorem ext_get {found found' : WellKnown} (h : ∀ role, found.get role = found'.get role) :
    found = found' := by
  cases found
  cases found'
  simp only [mk.injEq]
  exact ⟨h .node, h .nodeArray, h .modifiersArray, h .declaration, h .kindEnum⟩

variable (names : WellKnownNames)

/-- A declaration is noted for its role. -/
theorem note_eq (found : WellKnown) (decl : Declaration) : note names found decl
    = ((decl.node.role? names).map fun role => found.set role decl.symbol).getD found := by
  obtain ⟨node, symbol, scope, comments⟩ := decl
  cases node with
  | namespaceDecl | aliasDecl | memberDecl => rfl
  | enumDecl enum =>
    unfold note DeclNode.role?
    dsimp only
    split_ifs <;> rfl
  | interfaceDecl interface =>
    unfold note DeclNode.role? WellKnownNames.interfaceRole?
    dsimp only
    split_ifs <;> rfl

theorem get_note (found : WellKnown) (decl : Declaration) (role : Role) :
    (note names found decl).get role
      = if decl.node.role? names = some role then some decl.symbol else found.get role := by
  rw [note_eq]
  cases decl.node.role? names with
  | none => rfl
  | some role' => simp only [Option.map_some, Option.getD_some, get_set, Option.some_inj]

/-- Of the declarations that have a role, the last counts. -/
theorem get_foldl_note (decls : List Declaration) (found : WellKnown) (role : Role) :
    (decls.foldl (note names) found).get role
      = (((decls.filter fun decl => decl.node.role? names = some role).getLast?).map
          Declaration.symbol).or (found.get role) := by
  induction decls generalizing found with
  | nil => rfl
  | cons decl decls ih =>
    rw [List.foldl_cons, ih, get_note]
    by_cases hrole : decl.node.role? names = some role
    · rw [if_pos hrole, List.filter_cons_of_pos (by simpa using hrole), List.getLast?_cons]
      cases (decls.filter fun decl => decl.node.role? names = some role).getLast? <;> rfl
    · rw [if_neg hrole, List.filter_cons_of_neg (by simpa using hrole)]

theorem get_find (table : SymbolTable) (role : Role) : (find table names).get role
    = ((table.declarations.toList.filter fun decl => decl.node.role? names = some role).getLast?).map
        Declaration.symbol := by
  rw [find, ← Array.foldl_toList, get_foldl_note, show ({} : WellKnown).get role = none by cases role <;> rfl,
    Option.or_none]

/-- What is found is declared. -/
theorem exists_declaration_of_get {table : SymbolTable} {role : Role} {id : SymbolId}
    (h : (find table names).get role = some id) :
    ∃ decl ∈ table.declarations.toList, decl.node.role? names = some role ∧ decl.symbol = id := by
  rw [get_find] at h
  obtain ⟨decl, hlast, hid⟩ := Option.map_eq_some_iff.1 h
  obtain ⟨hmem, hrole⟩ := List.mem_filter.1 (List.mem_of_getLast? hlast)
  exact ⟨decl, hmem, of_decide_eq_true hrole, hid⟩

section Handles

/-- The symbol of the last declaration that a role asks for. -/
def lastFitting (table : SymbolTable) (names : WellKnownNames) (role : Role) : Option SymbolId :=
  ((table.declarations.toList.filter (·.node.Fits names role)).getLast?).map Declaration.symbol

theorem handle_of_not_isTaken (table : SymbolTable) {names : WellKnownNames} {role : Role}
    (h : ¬ names.IsTaken role) : (find table names).get role = lastFitting table names role := by
  rw [get_find, lastFitting]
  congr 3
  funext decl
  simp only [DeclNode.role?_eq_some_iff, h, not_false_eq_true, and_true]

theorem handle_of_isTaken (table : SymbolTable) {names : WellKnownNames} {role : Role}
    (h : names.IsTaken role) : (find table names).get role = none := by
  rw [get_find]
  simp [DeclNode.role?_eq_some_iff, h]

theorem lastFitting_eq_none_iff (table : SymbolTable) (names : WellKnownNames) (role : Role) :
    lastFitting table names role = none
      ↔ ∀ decl ∈ table.declarations.toList, ¬ decl.node.Fits names role := by
  simp [lastFitting]

/-- What is found for a role is the last declaration that the role asks for, except where an earlier role
has the same name and is asked for: then nothing is found. -/
theorem handles_by_name_iff (table : SymbolTable) (names : WellKnownNames) (role : Role) :
    ((find table names).get role = lastFitting table names role
      ↔ ¬ names.IsTaken role ∨ ∀ decl ∈ table.declarations.toList, ¬ decl.node.Fits names role)
    ∧ ((find table names).get role = none
      ↔ names.IsTaken role ∨ ∀ decl ∈ table.declarations.toList, ¬ decl.node.Fits names role) := by
  rw [← lastFitting_eq_none_iff]
  by_cases h : names.IsTaken role
  · rw [handle_of_isTaken table h]
    simp [h, eq_comm]
  · rw [handle_of_not_isTaken table h]
    simp [h]

/-- The table of an interface. -/
def loneNode : SymbolTable :=
  .ofStatements (Schema.parse "interface Node \x7b\x7d".toList).statements

/-- An interface that is named for two roles is found for the first of them only. -/
theorem loneNode_hidden_from_nodeArray :
    (find loneNode { nodeArray := "Node" }).get .node = some 0
      ∧ (find loneNode { nodeArray := "Node" }).get .nodeArray = none
      ∧ lastFitting loneNode { nodeArray := "Node" } .nodeArray = some 0 := by
  decide +kernel

end Handles

end WellKnown

end NodeFactory
