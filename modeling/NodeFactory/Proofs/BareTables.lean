import NodeFactory.Proofs.InsertedStatements
import NodeFactory.Proofs.RevisedTables

/-!
# Tables of bare declarations

A statement is made bare by erasing where it is and the comments before it, and by leaving out the members
without a name that index signatures and mapped members are. Names are resolved, and values of constants
found, as if they were not made bare; so a table of bare statements is the table of the statements with its
declarations made bare (`ofStatements_bare`). Statements of which one gains members without a name are the same
once they are bare (`GainIn.bare_eq`).
-/

namespace NodeFactory

open Text

section Bare

/-- Index signatures and mapped members. -/
def Member.isIndex (member : Member) : Bool :=
  match member.shape with
  | .index => true
  | _ => false

def Interface.withoutIndex (decl : Interface) : Interface :=
  { decl with members := decl.members.filter fun member => !member.isIndex }

mutual

def Statement.withoutIndex : Statement → Statement
  | .namespaceDecl place name body => .namespaceDecl place name (Statement.allWithoutIndex body)
  | .interfaceDecl place decl => .interfaceDecl place decl.withoutIndex
  | .aliasDecl place decl => .aliasDecl place decl
  | .enumDecl place decl => .enumDecl place decl
  | .skipped place => .skipped place

def Statement.allWithoutIndex : List Statement → List Statement
  | [] => []
  | statement :: statements => statement.withoutIndex :: Statement.allWithoutIndex statements

end

/-- A statement without its place, its comments and the members that have no name. -/
def Statement.bare (statement : Statement) : Statement :=
  (NodeFactory.relocate .erasing statement).withoutIndex

def DeclNode.bare : DeclNode → DeclNode
  | .namespaceDecl => .namespaceDecl
  | .interfaceDecl decl => .interfaceDecl (relocate .erasing decl).withoutIndex
  | .aliasDecl decl => .aliasDecl (relocate .erasing decl)
  | .enumDecl decl => .enumDecl (relocate .erasing decl)
  | .memberDecl member => .memberDecl (relocate .erasing member)

def Declaration.bare (decl : Declaration) : Declaration := { decl with node := decl.node.bare, comments := [] }

/-- The same symbols, with bare declarations. -/
def SymbolTable.bare (table : SymbolTable) : SymbolTable :=
  { table with declarations := table.declarations.map Declaration.bare }

theorem Statement.allWithoutIndex_eq (statements : List Statement) :
    Statement.allWithoutIndex statements = statements.map Statement.withoutIndex := by
  induction statements with
  | nil => rfl
  | cons statement statements ih => rw [allWithoutIndex, ih, List.map_cons]

theorem Statement.bare_namespace (place : Placement) (name : EntityName) (body : List Statement) :
    (Statement.namespaceDecl place name body).bare = .namespaceDecl (NodeFactory.relocate .erasing place)
      (NodeFactory.relocate .erasing name) (body.map Statement.bare) := by
  rw [bare, relocate_namespaceDecl, withoutIndex, allWithoutIndex_eq]
  show Statement.namespaceDecl _ _ ((body.map (NodeFactory.relocate .erasing)).map withoutIndex) = _
  rw [List.map_map]
  rfl

theorem DeclNode.kind_bare (node : DeclNode) : node.bare.kind = node.kind := by
  cases node <;> rfl

end Bare

section Gains

variable {added : List Member} {statements statements' : List Statement}

theorem map_bare_of_same (h : Same .erasing .erasing statements statements') :
    statements.map Statement.bare = statements'.map Statement.bare := by
  have hmap : ∀ statements : List Statement, statements.map Statement.bare
      = (relocate .erasing statements).map Statement.withoutIndex := fun _ => List.map_map.symm
  rw [hmap, hmap, h]

/-- Members without a name are left out. -/
theorem Statement.Gains.bare_eq {statement statement' : Statement} (h : statement.Gains added statement')
    (hadded : ∀ member ∈ added, member.shape = .index) : statement.bare = statement'.bare := by
  induction h with
  | @inInterface place place' decl base behind behind' hplace hmembers hbehind =>
    have hnone : (NodeFactory.relocate .erasing added).filter (fun member => !member.isIndex) = [] := by
      rw [List.filter_eq_nil_iff]
      intro member hmem
      obtain ⟨⟨shape, span, comments⟩, hmem', rfl⟩ := List.mem_map.1 hmem
      obtain rfl : shape = .index := hadded ⟨shape, span, comments⟩ hmem'
      simp [relocate_member, Member.isIndex]
    obtain ⟨name, typeParams, heritage, members⟩ := decl
    obtain rfl : members = base ++ behind := hmembers
    simp only [Statement.bare, relocate_interfaceDecl, relocate_interface, Statement.withoutIndex,
      Interface.withoutIndex, relocate_append, List.filter_append, hnone, List.append_nil]
    rw [hbehind, hplace]
  | inNamespace hplace _ hbehind ih =>
    rw [bare_namespace, bare_namespace, List.map_append, List.map_append, List.map_cons, List.map_cons, ih,
      map_bare_of_same hbehind, hplace]

theorem GainIn.bare_eq (h : GainIn added statements statements')
    (hadded : ∀ member ∈ added, member.shape = .index) :
    statements.map Statement.bare = statements'.map Statement.bare := by
  obtain ⟨base, statement, statement', behind, behind', rfl, rfl, hgains, hbehind⟩ := h
  rw [List.map_append, List.map_append, List.map_cons, List.map_cons, hgains.bare_eq hadded,
    map_bare_of_same hbehind]

end Gains

namespace SymbolTable

variable {table : SymbolTable}

section Names

/-- Another record of declarations is a revision of the one there is. -/
def replacing (table : SymbolTable) (declarations : Array Declaration) : Revision where
  bound := table.declarations.size + 1
  record record := if record.size ≤ table.declarations.size then declarations else record
  numbers := id
  numbers_nil := rfl
  record_push {record} h decl := by
    have hlt : table.declarations.size < record.size := h
    rw [if_neg (by rw [Array.size_push]; omega), if_neg (Nat.not_le.2 hlt)]
  numbers_concat {record} h listed := by rw [if_neg (Nat.not_le.2 h), id, id]

theorem revised_replacing (declarations : Array Declaration) :
    table.revised (table.replacing declarations) = { table with declarations } := by
  refine ext_symbols (fun id => ?_) (if_pos (Nat.le_refl _)) rfl
  rw [symbols_revised]
  exact Option.map_id'

theorem resolve_bare (scope : Option SymbolId) (name : EntityName) :
    table.bare.resolve scope name = table.resolve scope name := by
  rw [bare, ← revised_replacing, resolve_revised]

/-- Where a name is written does not matter to what it stands for. -/
theorem resolve_relocate (m : Relocation) (scope : Option SymbolId) (name : EntityName) :
    table.resolve scope (relocate m name) = table.resolve scope name := by
  obtain ⟨first, rest, span⟩ := name
  rw [relocate_entityName, resolve, resolve]
  show (table.lookup scope first.name).bind (fun id => (rest.map (relocate m)).foldlM _ id) = _
  simp only [List.foldlM_map]
  rfl

theorem evaluate_bare (scope : Option SymbolId) (expr : ConstExpr) :
    table.bare.evaluate scope (relocate .erasing expr) = table.evaluate scope expr := by
  induction expr with
  | number | string => rfl
  | name name =>
    rw [relocate_nameConst, evaluate, evaluate, resolve_bare, resolve_relocate]
    rfl
  | unary op operand ih => rw [relocate_unary, evaluate, evaluate, ih]
  | binary op left right ihl ihr => rw [relocate_binary, evaluate, evaluate, ihl, ihr]

theorem memberValue_bare (enum : SymbolId) (previous : Option (Option Binary64)) (member : EnumMember) :
    table.bare.memberValue enum previous (relocate .erasing member)
      = table.memberValue enum previous member := by
  obtain ⟨name, value, span, comments⟩ := member
  cases value with
  | none => cases previous <;> rfl
  | some value => exact evaluate_bare (some enum) value

end Names

section Declaring

variable {scope : Option SymbolId}

theorem intern_bare (name : String) (kind : SymbolKind) : table.bare.intern scope name kind
    = ((table.intern scope name kind).1.bare, (table.intern scope name kind).2) := by
  have hbindings : table.bare.bindings scope = table.bindings scope := by cases scope <;> rfl
  unfold intern
  rw [hbindings]
  cases (table.bindings scope).lookup name with
  | some id => rfl
  | none => cases scope <;> rfl

theorem register_bare (decl : Declaration) :
    table.bare.register decl.bare = (table.register decl).bare := by
  have hsize : table.bare.declarations.size = table.declarations.size := Array.size_map
  refine ext_symbols (fun id => ?_) Array.map_push.symm rfl
  show (table.bare.register decl.bare).symbols[id]? = (table.register decl).symbols[id]?
  rw [symbols_register, symbols_register, hsize]
  rfl

theorem declare_bare (name : String) (node : DeclNode) (comments : List Span) :
    table.bare.declare scope name node.bare []
      = ((table.declare scope name node comments).1.bare, (table.declare scope name node comments).2) := by
  rw [declare_eq, declare_eq, node.kind_bare, intern_bare, ← register_bare]
  rfl

end Declaring

section Statements

theorem bindMembers_bare {enum : SymbolId} : ∀ (members : List EnumMember) {table : SymbolTable}
    (previous : Option (Option Binary64)),
    bindMembers enum previous table.bare (relocate .erasing members)
      = (bindMembers enum previous table members).bare
  | [], _, _ => rfl
  | member :: members, table, previous => by
    have hdeclare : table.bare.declare (some enum) (relocate .erasing member).name.name
        (.memberDecl (relocate .erasing member)) (relocate .erasing member).comments
        = ((table.declare (some enum) member.name.name (.memberDecl member) member.comments).1.bare,
          (table.declare (some enum) member.name.name (.memberDecl member) member.comments).2) :=
      declare_bare member.name.name (.memberDecl member) member.comments
    rw [relocate_cons, bindMembers, bindMembers, memberValue_bare, hdeclare]
    let declared := table.declare (some enum) member.name.name (.memberDecl member) member.comments
    exact @bindMembers_bare enum members (declared.1.setValue declared.2 _) _

theorem bindPath_bare (comments : List Span) : ∀ (parts : List Ident) (scope : Option SymbolId)
    {table : SymbolTable}, bindPath [] scope table.bare (relocate .erasing parts)
      = ((bindPath comments scope table parts).1.bare, (bindPath comments scope table parts).2)
  | [], _, _ => rfl
  | part :: parts, scope, table => by
    have hdeclare : table.bare.declare scope (relocate .erasing part).name .namespaceDecl []
        = ((table.declare scope part.name .namespaceDecl comments).1.bare,
          (table.declare scope part.name .namespaceDecl comments).2) :=
      declare_bare part.name .namespaceDecl comments
    rw [relocate_cons, bindPath, bindPath, hdeclare]
    exact bindPath_bare comments parts _

mutual

theorem bindStatement_bare : ∀ (statement : Statement) {scope : Option SymbolId} {table : SymbolTable},
    bindStatement scope table.bare statement.bare = (bindStatement scope table statement).bare
  | .namespaceDecl place name body, scope, table => by
    have hpath : bindPath (relocate .erasing place).comments scope table.bare (relocate .erasing name).parts
        = ((bindPath place.comments scope table name.parts).1.bare,
          (bindPath place.comments scope table name.parts).2) := bindPath_bare place.comments name.parts scope
    rw [Statement.bare_namespace, bindStatement, bindStatement, hpath]
    exact bindStatements_bare body
  | .interfaceDecl place decl, _, _ =>
    congrArg Prod.fst (declare_bare decl.name.name (.interfaceDecl decl) place.comments)
  | .aliasDecl place decl, _, _ =>
    congrArg Prod.fst (declare_bare decl.name.name (.aliasDecl decl) place.comments)
  | .enumDecl place decl, scope, table => by
    have hdeclare : table.bare.declare scope (relocate .erasing decl).name.name
        (.enumDecl (relocate .erasing decl)) (relocate .erasing place).comments
        = ((table.declare scope decl.name.name (.enumDecl decl) place.comments).1.bare,
          (table.declare scope decl.name.name (.enumDecl decl) place.comments).2) :=
      declare_bare decl.name.name (.enumDecl decl) place.comments
    show bindStatement scope table.bare (.enumDecl (relocate .erasing place) (relocate .erasing decl)) = _
    rw [bindStatement, bindStatement, hdeclare]
    exact bindMembers_bare decl.members none
  | .skipped _, _, _ => rfl

theorem bindStatements_bare : ∀ (statements : List Statement) {scope : Option SymbolId} {table : SymbolTable},
    bindStatements scope table.bare (statements.map Statement.bare)
      = (bindStatements scope table statements).bare
  | [], _, _ => rfl
  | statement :: statements, _, _ => by
    rw [List.map_cons, bindStatements, bindStatements, bindStatement_bare statement]
    exact bindStatements_bare statements

end

theorem ofStatements_bare (statements : List Statement) :
    ofStatements (statements.map Statement.bare) = (ofStatements statements).bare := by
  have hempty : empty.bare = empty := by rw [bare, empty, Array.map_empty]
  rw [ofStatements, ← hempty, bindStatements_bare]
  rfl

end Statements

end SymbolTable

end NodeFactory
