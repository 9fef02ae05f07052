import NodeFactory.Schema.Statement

/-!
# The types that a schema declares

The types that the properties of a schema have and its methods return, wherever in it the
declarations stand: in interfaces and type literals, inside other types, and in the namespaces.
-/

namespace NodeFactory

def TypeExpr.isPredicate (type : TypeExpr) : Bool :=
  match type.shape with
  | .predicate .. => true
  | _ => false

/-- What may have properties and methods in it. `declaredTypes` are the types of the properties, and
the types that the methods return unless they are predicates. -/
class Declaring (α : Type) where
  declaredTypes : α → List TypeExpr

export Declaring (declaredTypes)

mutual

def TypeShape.declaredTypes : TypeShape → List TypeExpr
  | .reference _ args => TypeExpr.allDeclaredTypes args
  | .union parts => TypeExpr.allDeclaredTypes parts
  | .intersection parts => TypeExpr.allDeclaredTypes parts
  | .array element => element.declaredTypes
  | .indexed object index => object.declaredTypes ++ index.declaredTypes
  | .tuple elements => TypeExpr.allDeclaredTypes elements
  | .paren inner => inner.declaredTypes
  | .function _ signature => signature.declaredTypes
  | .literal members => Member.allDeclaredTypes members
  | .literalValue => []
  | .keyword _ => []
  | .this => []
  | .query _ => []
  | .keyof type => type.declaredTypes
  | .predicate _ type => type.declaredTypes

def TypeExpr.declaredTypes : TypeExpr → List TypeExpr
  | ⟨shape, _⟩ => shape.declaredTypes

def TypeExpr.allDeclaredTypes : List TypeExpr → List TypeExpr
  | [] => []
  | type :: types => type.declaredTypes ++ TypeExpr.allDeclaredTypes types

def TypeExpr.someDeclaredTypes : Option TypeExpr → List TypeExpr
  | none => []
  | some type => type.declaredTypes

def MemberShape.declaredTypes : MemberShape → List TypeExpr
  | .property _ _ _ type => type.toList ++ TypeExpr.someDeclaredTypes type
  | .method _ _ signature =>
    signature.returns.toList.filter (fun type => !type.isPredicate) ++ signature.declaredTypes
  | .call signature => signature.declaredTypes
  | .construct signature => signature.declaredTypes
  | .index => []

def Member.declaredTypes : Member → List TypeExpr
  | ⟨shape, _, _⟩ => shape.declaredTypes

def Member.allDeclaredTypes : List Member → List TypeExpr
  | [] => []
  | member :: members => member.declaredTypes ++ Member.allDeclaredTypes members

def Signature.declaredTypes : Signature → List TypeExpr
  | ⟨typeParams, params, returns⟩ => TypeParam.allDeclaredTypes typeParams
    ++ Param.allDeclaredTypes params ++ TypeExpr.someDeclaredTypes returns

def Param.declaredTypes : Param → List TypeExpr
  | ⟨_, _, _, type⟩ => TypeExpr.someDeclaredTypes type

def Param.allDeclaredTypes : List Param → List TypeExpr
  | [] => []
  | param :: params => param.declaredTypes ++ Param.allDeclaredTypes params

def TypeParam.declaredTypes : TypeParam → List TypeExpr
  | ⟨_, bound, fallback⟩ =>
    TypeExpr.someDeclaredTypes bound ++ TypeExpr.someDeclaredTypes fallback

def TypeParam.allDeclaredTypes : List TypeParam → List TypeExpr
  | [] => []
  | param :: params => param.declaredTypes ++ TypeParam.allDeclaredTypes params

end

section Types

instance {α : Type} [Declaring α] : Declaring (List α) := ⟨List.flatMap declaredTypes⟩

instance {α : Type} [Declaring α] : Declaring (Option α) := ⟨fun a => a.toList.flatMap declaredTypes⟩

instance : Declaring TypeShape := ⟨TypeShape.declaredTypes⟩

instance : Declaring TypeExpr := ⟨TypeExpr.declaredTypes⟩

instance : Declaring MemberShape := ⟨MemberShape.declaredTypes⟩

instance : Declaring Member := ⟨Member.declaredTypes⟩

instance : Declaring Signature := ⟨Signature.declaredTypes⟩

instance : Declaring Param := ⟨Param.declaredTypes⟩

instance : Declaring TypeParam := ⟨TypeParam.declaredTypes⟩

end Types

section Statements

instance : Declaring HeritageType := ⟨fun type => declaredTypes type.args⟩

instance : Declaring HeritageClause := ⟨fun clause => declaredTypes clause.types⟩

instance : Declaring Interface := ⟨fun decl =>
  declaredTypes decl.typeParams ++ declaredTypes decl.heritage ++ declaredTypes decl.members⟩

instance : Declaring TypeAlias := ⟨fun decl =>
  declaredTypes decl.typeParams ++ declaredTypes decl.type⟩

mutual

def Statement.declaredTypes : Statement → List TypeExpr
  | .namespaceDecl _ _ body => Statement.allDeclaredTypes body
  | .interfaceDecl _ decl => NodeFactory.declaredTypes decl
  | .aliasDecl _ decl => NodeFactory.declaredTypes decl
  | .enumDecl _ _ => []
  | .skipped _ => []

def Statement.allDeclaredTypes : List Statement → List TypeExpr
  | [] => []
  | statement :: statements => statement.declaredTypes ++ Statement.allDeclaredTypes statements

end

instance : Declaring Statement := ⟨Statement.declaredTypes⟩

end Statements

section Lists

theorem TypeExpr.allDeclaredTypes_eq : ∀ types : List TypeExpr,
    TypeExpr.allDeclaredTypes types = NodeFactory.declaredTypes types
  | [] => rfl
  | type :: types => by
    rw [TypeExpr.allDeclaredTypes, TypeExpr.allDeclaredTypes_eq types]
    rfl

theorem TypeExpr.someDeclaredTypes_eq : ∀ type : Option TypeExpr,
    TypeExpr.someDeclaredTypes type = NodeFactory.declaredTypes type
  | none => rfl
  | some type => (List.append_nil type.declaredTypes).symm

theorem Member.allDeclaredTypes_eq : ∀ members : List Member,
    Member.allDeclaredTypes members = NodeFactory.declaredTypes members
  | [] => rfl
  | member :: members => by
    rw [Member.allDeclaredTypes, Member.allDeclaredTypes_eq members]
    rfl

theorem Param.allDeclaredTypes_eq : ∀ params : List Param,
    Param.allDeclaredTypes params = NodeFactory.declaredTypes params
  | [] => rfl
  | param :: params => by
    rw [Param.allDeclaredTypes, Param.allDeclaredTypes_eq params]
    rfl

theorem TypeParam.allDeclaredTypes_eq : ∀ params : List TypeParam,
    TypeParam.allDeclaredTypes params = NodeFactory.declaredTypes params
  | [] => rfl
  | param :: params => by
    rw [TypeParam.allDeclaredTypes, TypeParam.allDeclaredTypes_eq params]
    rfl

theorem Statement.allDeclaredTypes_eq : ∀ statements : List Statement,
    Statement.allDeclaredTypes statements = NodeFactory.declaredTypes statements
  | [] => rfl
  | statement :: statements => by
    rw [Statement.allDeclaredTypes, Statement.allDeclaredTypes_eq statements]
    rfl

end Lists

/-- Something declares only types with a property. -/
def DeclaresOnly {α : Type} [Declaring α] (P : TypeExpr → Prop) (a : α) : Prop :=
  ∀ type ∈ declaredTypes a, P type

section Constructors

variable (P : TypeExpr → Prop) {α : Type} [Declaring α]

@[simp] theorem declaresOnly_nil : DeclaresOnly P ([] : List α) :=
  fun _ h => absurd h List.not_mem_nil

@[simp] theorem declaresOnly_cons (a : α) (as : List α) :
    DeclaresOnly P (a :: as) ↔ DeclaresOnly P a ∧ DeclaresOnly P as :=
  List.forall_mem_append

@[simp] theorem declaresOnly_append (as bs : List α) :
    DeclaresOnly P (as ++ bs) ↔ DeclaresOnly P as ∧ DeclaresOnly P bs := by
  have h : declaredTypes (as ++ bs) = declaredTypes as ++ declaredTypes bs := List.flatMap_append
  rw [DeclaresOnly, h, List.forall_mem_append]
  rfl

@[simp] theorem declaresOnly_none : DeclaresOnly P (none : Option α) :=
  fun _ h => absurd h List.not_mem_nil

@[simp] theorem declaresOnly_some (a : α) : DeclaresOnly P (some a) ↔ DeclaresOnly P a := by
  have h : declaredTypes (some a) = declaredTypes a := List.append_nil _
  rw [DeclaresOnly, h]
  rfl

@[simp] theorem declaresOnly_reference (name : EntityName) (args : List TypeExpr) :
    DeclaresOnly P (TypeShape.reference name args) ↔ DeclaresOnly P args := by
  rw [DeclaresOnly, DeclaresOnly, ← TypeExpr.allDeclaredTypes_eq]
  rfl

@[simp] theorem declaresOnly_union (parts : List TypeExpr) :
    DeclaresOnly P (TypeShape.union parts) ↔ DeclaresOnly P parts := by
  rw [DeclaresOnly, DeclaresOnly, ← TypeExpr.allDeclaredTypes_eq]
  rfl

@[simp] theorem declaresOnly_intersection (parts : List TypeExpr) :
    DeclaresOnly P (TypeShape.intersection parts) ↔ DeclaresOnly P parts := by
  rw [DeclaresOnly, DeclaresOnly, ← TypeExpr.allDeclaredTypes_eq]
  rfl

@[simp] theorem declaresOnly_array (element : TypeExpr) :
    DeclaresOnly P (TypeShape.array element) ↔ DeclaresOnly P element := Iff.rfl

@[simp] theorem declaresOnly_indexed (object index : TypeExpr) :
    DeclaresOnly P (TypeShape.indexed object index)
      ↔ DeclaresOnly P object ∧ DeclaresOnly P index :=
  List.forall_mem_append

@[simp] theorem declaresOnly_tuple (elements : List TypeExpr) :
    DeclaresOnly P (TypeShape.tuple elements) ↔ DeclaresOnly P elements := by
  rw [DeclaresOnly, DeclaresOnly, ← TypeExpr.allDeclaredTypes_eq]
  rfl

@[simp] theorem declaresOnly_paren (inner : TypeExpr) :
    DeclaresOnly P (TypeShape.paren inner) ↔ DeclaresOnly P inner := Iff.rfl

@[simp] theorem declaresOnly_function (isConstructor : Bool) (signature : Signature) :
    DeclaresOnly P (TypeShape.function isConstructor signature) ↔ DeclaresOnly P signature := Iff.rfl

@[simp] theorem declaresOnly_literal (members : List Member) :
    DeclaresOnly P (TypeShape.literal members) ↔ DeclaresOnly P members := by
  rw [DeclaresOnly, DeclaresOnly, ← Member.allDeclaredTypes_eq]
  rfl

@[simp] theorem declaresOnly_literalValue : DeclaresOnly P TypeShape.literalValue :=
  fun _ h => absurd h List.not_mem_nil

@[simp] theorem declaresOnly_keywordType (type : KeywordType) :
    DeclaresOnly P (TypeShape.keyword type) :=
  fun _ h => absurd h List.not_mem_nil

@[simp] theorem declaresOnly_this : DeclaresOnly P TypeShape.this :=
  fun _ h => absurd h List.not_mem_nil

@[simp] theorem declaresOnly_query (name : EntityName) : DeclaresOnly P (TypeShape.query name) :=
  fun _ h => absurd h List.not_mem_nil

@[simp] theorem declaresOnly_keyof (type : TypeExpr) :
    DeclaresOnly P (TypeShape.keyof type) ↔ DeclaresOnly P type := Iff.rfl

@[simp] theorem declaresOnly_predicate (param : Ident) (type : TypeExpr) :
    DeclaresOnly P (TypeShape.predicate param type) ↔ DeclaresOnly P type := Iff.rfl

@[simp] theorem declaresOnly_typeExpr (shape : TypeShape) (span : Text.Span) :
    DeclaresOnly P (⟨shape, span⟩ : TypeExpr) ↔ DeclaresOnly P shape := Iff.rfl

theorem declaresOnly_shape (type : TypeExpr) :
    DeclaresOnly P type.shape ↔ DeclaresOnly P type := by
  obtain ⟨shape, span⟩ := type
  exact Iff.rfl

@[simp] theorem declaresOnly_property (name : Ident) (optional readonly : Bool)
    (type : Option TypeExpr) : DeclaresOnly P (MemberShape.property name optional readonly type)
      ↔ (∀ t ∈ type, P t) ∧ DeclaresOnly P type := by
  rw [DeclaresOnly, DeclaresOnly, ← TypeExpr.someDeclaredTypes_eq]
  show (∀ t ∈ type.toList ++ TypeExpr.someDeclaredTypes type, P t) ↔ _
  rw [List.forall_mem_append]
  simp only [Option.mem_toList, Option.mem_def]

@[simp] theorem declaresOnly_method (name : Ident) (optional : Bool) (signature : Signature) :
    DeclaresOnly P (MemberShape.method name optional signature)
      ↔ (∀ t ∈ signature.returns, t.isPredicate = false → P t) ∧ DeclaresOnly P signature := by
  show (∀ t ∈ signature.returns.toList.filter (fun type => !type.isPredicate)
    ++ signature.declaredTypes, P t) ↔ _
  rw [List.forall_mem_append]
  simp only [List.mem_filter, Option.mem_toList, Bool.not_eq_true', and_imp]
  rfl

@[simp] theorem declaresOnly_call (signature : Signature) :
    DeclaresOnly P (MemberShape.call signature) ↔ DeclaresOnly P signature := Iff.rfl

@[simp] theorem declaresOnly_construct (signature : Signature) :
    DeclaresOnly P (MemberShape.construct signature) ↔ DeclaresOnly P signature := Iff.rfl

@[simp] theorem declaresOnly_index : DeclaresOnly P MemberShape.index :=
  fun _ h => absurd h List.not_mem_nil

@[simp] theorem declaresOnly_member (shape : MemberShape) (span : Text.Span)
    (comments : List Text.Span) :
    DeclaresOnly P (⟨shape, span, comments⟩ : Member) ↔ DeclaresOnly P shape := Iff.rfl

@[simp] theorem declaresOnly_signature (typeParams : List TypeParam) (params : List Param)
    (returns : Option TypeExpr) : DeclaresOnly P (⟨typeParams, params, returns⟩ : Signature)
      ↔ (DeclaresOnly P typeParams ∧ DeclaresOnly P params) ∧ DeclaresOnly P returns := by
  rw [DeclaresOnly, DeclaresOnly, DeclaresOnly, DeclaresOnly, ← TypeParam.allDeclaredTypes_eq,
    ← Param.allDeclaredTypes_eq, ← TypeExpr.someDeclaredTypes_eq, ← List.forall_mem_append,
    ← List.forall_mem_append]
  rfl

@[simp] theorem declaresOnly_param (name : Ident) (rest optional : Bool) (type : Option TypeExpr) :
    DeclaresOnly P (⟨name, rest, optional, type⟩ : Param) ↔ DeclaresOnly P type := by
  rw [DeclaresOnly, DeclaresOnly, ← TypeExpr.someDeclaredTypes_eq]
  rfl

@[simp] theorem declaresOnly_typeParam (name : Ident) (bound fallback : Option TypeExpr) :
    DeclaresOnly P (⟨name, bound, fallback⟩ : TypeParam)
      ↔ DeclaresOnly P bound ∧ DeclaresOnly P fallback := by
  rw [DeclaresOnly, DeclaresOnly, DeclaresOnly, ← TypeExpr.someDeclaredTypes_eq,
    ← TypeExpr.someDeclaredTypes_eq, ← List.forall_mem_append]
  rfl

@[simp] theorem declaresOnly_heritageType (name : EntityName) (args : List TypeExpr)
    (span : Text.Span) :
    DeclaresOnly P (⟨name, args, span⟩ : HeritageType) ↔ DeclaresOnly P args := Iff.rfl

@[simp] theorem declaresOnly_heritageClause (word : HeritageWord) (types : List HeritageType)
    (span : Text.Span) :
    DeclaresOnly P (⟨word, types, span⟩ : HeritageClause) ↔ DeclaresOnly P types := Iff.rfl

@[simp] theorem declaresOnly_interface (name : Ident) (typeParams : List TypeParam)
    (heritage : List HeritageClause) (members : List Member) :
    DeclaresOnly P (⟨name, typeParams, heritage, members⟩ : Interface)
      ↔ (DeclaresOnly P typeParams ∧ DeclaresOnly P heritage) ∧ DeclaresOnly P members := by
  rw [DeclaresOnly, DeclaresOnly, DeclaresOnly, DeclaresOnly, ← List.forall_mem_append,
    ← List.forall_mem_append]
  rfl

@[simp] theorem declaresOnly_typeAlias (name : Ident) (typeParams : List TypeParam)
    (type : TypeExpr) : DeclaresOnly P (⟨name, typeParams, type⟩ : TypeAlias)
      ↔ DeclaresOnly P typeParams ∧ DeclaresOnly P type :=
  List.forall_mem_append

@[simp] theorem declaresOnly_namespaceDecl (place : Placement) (name : EntityName)
    (body : List Statement) :
    DeclaresOnly P (Statement.namespaceDecl place name body) ↔ DeclaresOnly P body := by
  rw [DeclaresOnly, DeclaresOnly, ← Statement.allDeclaredTypes_eq]
  rfl

@[simp] theorem declaresOnly_interfaceDecl (place : Placement) (decl : Interface) :
    DeclaresOnly P (Statement.interfaceDecl place decl) ↔ DeclaresOnly P decl := Iff.rfl

@[simp] theorem declaresOnly_aliasDecl (place : Placement) (decl : TypeAlias) :
    DeclaresOnly P (Statement.aliasDecl place decl) ↔ DeclaresOnly P decl := Iff.rfl

@[simp] theorem declaresOnly_enumDecl (place : Placement) (decl : Enum) :
    DeclaresOnly P (Statement.enumDecl place decl) :=
  fun _ h => absurd h List.not_mem_nil

@[simp] theorem declaresOnly_skipped (place : Placement) :
    DeclaresOnly P (Statement.skipped place) :=
  fun _ h => absurd h List.not_mem_nil

end Constructors

end NodeFactory
