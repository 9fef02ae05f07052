import NodeFactory.Grammar.Statement

/-!
# Relocation

What is read from a text keeps the positions at which it was read, and the comments before it. A
relocation maps the positions, and may leave the comments out, in everything that the grammar gives.
Values are the same up to two relocations if these make them equal (`Same`). Where positions move by
nothing, every value stays as it is (`relocate_zero`).
-/

namespace NodeFactory

open Text

structure Relocation where
  position : Nat → Nat
  monotone : ∀ {a b : Nat}, a ≤ b → position a ≤ position b
  keepsComments : Bool

namespace Relocation

/-- All positions become one, and comments are left out. -/
def erasing : Relocation := ⟨fun _ => 0, fun _ => Nat.le_refl 0, false⟩

/-- All positions move by a distance. -/
def shift (distance : Nat) : Relocation := ⟨(· + distance), fun h => Nat.add_le_add_right h _, true⟩

theorem position_max (m : Relocation) (a b : Nat) :
    m.position (max a b) = max (m.position a) (m.position b) := by
  rcases Nat.le_total a b with h | h
  · rw [Nat.max_eq_right h, Nat.max_eq_right (m.monotone h)]
  · rw [Nat.max_eq_left h, Nat.max_eq_left (m.monotone h)]

end Relocation

class Relocatable (α : Type) where
  relocate : Relocation → α → α

export Relocatable (relocate)

section Values

variable (m : Relocation)

instance : Relocatable Span := ⟨fun m span => ⟨m.position span.start, m.position span.stop⟩⟩

/-- The comments before a member or a statement. -/
def Relocation.comments (spans : List Span) : List Span :=
  if m.keepsComments then spans.map (relocate m) else []

instance {α : Type} [Relocatable α] : Relocatable (List α) := ⟨fun m => List.map (relocate m)⟩

instance {α : Type} [Relocatable α] : Relocatable (Option α) := ⟨fun m => Option.map (relocate m)⟩

instance : Relocatable Ident := ⟨fun m ident => ⟨ident.name, relocate m ident.span⟩⟩

instance : Relocatable EntityName :=
  ⟨fun m name => ⟨relocate m name.first, relocate m name.rest, relocate m name.span⟩⟩

mutual

def TypeShape.relocate : TypeShape → TypeShape
  | .reference name args => .reference (NodeFactory.relocate m name) (TypeExpr.relocateAll args)
  | .union parts => .union (TypeExpr.relocateAll parts)
  | .intersection parts => .intersection (TypeExpr.relocateAll parts)
  | .array element => .array element.relocate
  | .indexed object index => .indexed object.relocate index.relocate
  | .tuple elements => .tuple (TypeExpr.relocateAll elements)
  | .paren inner => .paren inner.relocate
  | .function isConstructor signature => .function isConstructor signature.relocate
  | .literal members => .literal (Member.relocateAll members)
  | .literalValue => .literalValue
  | .keyword type => .keyword type
  | .this => .this
  | .query name => .query (NodeFactory.relocate m name)
  | .keyof type => .keyof type.relocate
  | .predicate param type => .predicate (NodeFactory.relocate m param) type.relocate

def TypeExpr.relocate : TypeExpr → TypeExpr
  | ⟨shape, span⟩ => ⟨shape.relocate, NodeFactory.relocate m span⟩

def TypeExpr.relocateAll : List TypeExpr → List TypeExpr
  | [] => []
  | type :: types => type.relocate :: TypeExpr.relocateAll types

def TypeExpr.relocateOption : Option TypeExpr → Option TypeExpr
  | none => none
  | some type => some type.relocate

def MemberShape.relocate : MemberShape → MemberShape
  | .property name optional readonly type =>
    .property (NodeFactory.relocate m name) optional readonly (TypeExpr.relocateOption type)
  | .method name optional signature =>
    .method (NodeFactory.relocate m name) optional signature.relocate
  | .call signature => .call signature.relocate
  | .construct signature => .construct signature.relocate
  | .index => .index

def Member.relocate : Member → Member
  | ⟨shape, span, comments⟩ =>
    ⟨shape.relocate, NodeFactory.relocate m span, m.comments comments⟩

def Member.relocateAll : List Member → List Member
  | [] => []
  | member :: members => member.relocate :: Member.relocateAll members

def Signature.relocate : Signature → Signature
  | ⟨typeParams, params, returns⟩ =>
    ⟨TypeParam.relocateAll typeParams, Param.relocateAll params, TypeExpr.relocateOption returns⟩

def Param.relocate : Param → Param
  | ⟨name, rest, optional, type⟩ =>
    ⟨NodeFactory.relocate m name, rest, optional, TypeExpr.relocateOption type⟩

def Param.relocateAll : List Param → List Param
  | [] => []
  | param :: params => param.relocate :: Param.relocateAll params

def TypeParam.relocate : TypeParam → TypeParam
  | ⟨name, bound, fallback⟩ =>
    ⟨NodeFactory.relocate m name, TypeExpr.relocateOption bound, TypeExpr.relocateOption fallback⟩

def TypeParam.relocateAll : List TypeParam → List TypeParam
  | [] => []
  | param :: params => param.relocate :: TypeParam.relocateAll params

end

end Values

section Types

instance : Relocatable TypeShape := ⟨TypeShape.relocate⟩

instance : Relocatable TypeExpr := ⟨TypeExpr.relocate⟩

instance : Relocatable Member := ⟨Member.relocate⟩

instance : Relocatable MemberShape := ⟨MemberShape.relocate⟩

instance : Relocatable Signature := ⟨Signature.relocate⟩

instance : Relocatable Param := ⟨Param.relocate⟩

instance : Relocatable TypeParam := ⟨TypeParam.relocate⟩

/-- Numbers and strings have no position of their own. -/
def ConstExpr.relocate (m : Relocation) : ConstExpr → ConstExpr
  | .number value => .number value
  | .string text => .string text
  | .name entity => .name (NodeFactory.relocate m entity)
  | .unary op operand => .unary op (operand.relocate m)
  | .binary op left right => .binary op (left.relocate m) (right.relocate m)

instance : Relocatable ConstExpr := ⟨ConstExpr.relocate⟩

end Types

section Statements

instance : Relocatable HeritageType :=
  ⟨fun m type => ⟨relocate m type.name, relocate m type.args, relocate m type.span⟩⟩

instance : Relocatable HeritageClause :=
  ⟨fun m clause => ⟨clause.word, relocate m clause.types, relocate m clause.span⟩⟩

instance : Relocatable Interface :=
  ⟨fun m decl => ⟨relocate m decl.name, relocate m decl.typeParams, relocate m decl.heritage,
    relocate m decl.members⟩⟩

instance : Relocatable TypeAlias :=
  ⟨fun m decl => ⟨relocate m decl.name, relocate m decl.typeParams, relocate m decl.type⟩⟩

instance : Relocatable EnumMember :=
  ⟨fun m member => ⟨relocate m member.name, relocate m member.value, relocate m member.span,
    m.comments member.comments⟩⟩

instance : Relocatable Enum :=
  ⟨fun m decl => ⟨relocate m decl.name, decl.isConst, relocate m decl.members⟩⟩

instance : Relocatable Placement :=
  ⟨fun m place => ⟨relocate m place.span, m.comments place.comments⟩⟩

mutual

def Statement.relocate (m : Relocation) : Statement → Statement
  | .namespaceDecl place name body => .namespaceDecl (NodeFactory.relocate m place)
    (NodeFactory.relocate m name) (Statement.relocateAll m body)
  | .interfaceDecl place decl =>
    .interfaceDecl (NodeFactory.relocate m place) (NodeFactory.relocate m decl)
  | .aliasDecl place decl =>
    .aliasDecl (NodeFactory.relocate m place) (NodeFactory.relocate m decl)
  | .enumDecl place decl => .enumDecl (NodeFactory.relocate m place) (NodeFactory.relocate m decl)
  | .skipped place => .skipped (NodeFactory.relocate m place)

def Statement.relocateAll (m : Relocation) : List Statement → List Statement
  | [] => []
  | statement :: statements => statement.relocate m :: Statement.relocateAll m statements

end

instance : Relocatable Statement := ⟨Statement.relocate⟩

def ParseError.relocate (m : Relocation) : ParseError → ParseError
  | .unexpectedToken expected found span =>
    .unexpectedToken expected found (NodeFactory.relocate m span)
  | .unterminatedComment span => .unterminatedComment (NodeFactory.relocate m span)
  | .unterminatedString span => .unterminatedString (NodeFactory.relocate m span)
  | .unknownToken span => .unknownToken (NodeFactory.relocate m span)

instance : Relocatable ParseError := ⟨ParseError.relocate⟩

end Statements

section Lists

variable (m : Relocation)

@[simp] theorem relocate_nil {α : Type} [Relocatable α] : relocate m ([] : List α) = [] := rfl

@[simp] theorem relocate_cons {α : Type} [Relocatable α] (a : α) (as : List α) :
    relocate m (a :: as) = relocate m a :: relocate m as := rfl

@[simp] theorem relocate_append {α : Type} [Relocatable α] (as bs : List α) :
    relocate m (as ++ bs) = relocate m as ++ relocate m bs :=
  List.map_append

@[simp] theorem relocate_none {α : Type} [Relocatable α] : relocate m (none : Option α) = none :=
  rfl

@[simp] theorem relocate_some {α : Type} [Relocatable α] (a : α) :
    relocate m (some a) = some (relocate m a) := rfl

end Lists

section Same

variable (m m' : Relocation) {α : Type} [Relocatable α]

/-- Equal up to where they are, when each is moved by a relocation of its own. -/
def Same (a a' : α) : Prop := relocate m a = relocate m' a'

variable {m m'} {a a' : α} {as as' : List α}

theorem Same.nil : Same m m' ([] : List α) [] := rfl

theorem Same.none : Same m m' (none : Option α) none := rfl

theorem Same.some (h : Same m m' a a') : Same m m' (some a) (some a') :=
  congrArg Option.some h

theorem Same.concat (has : Same m m' as as') (ha : Same m m' a a') :
    Same m m' (as ++ [a]) (as' ++ [a']) := by
  unfold Same at *
  rw [relocate_append, relocate_append, has]
  simp [ha]

end Same

section Lists

variable (m : Relocation)

theorem TypeExpr.relocateAll_eq : ∀ types : List TypeExpr,
    TypeExpr.relocateAll m types = NodeFactory.relocate m types
  | [] => rfl
  | type :: types => by
    rw [TypeExpr.relocateAll, TypeExpr.relocateAll_eq types]
    rfl

theorem TypeExpr.relocateOption_eq : ∀ type : Option TypeExpr,
    TypeExpr.relocateOption m type = NodeFactory.relocate m type
  | none => rfl
  | some _ => rfl

theorem Member.relocateAll_eq : ∀ members : List Member,
    Member.relocateAll m members = NodeFactory.relocate m members
  | [] => rfl
  | member :: members => by
    rw [Member.relocateAll, Member.relocateAll_eq members]
    rfl

theorem Param.relocateAll_eq : ∀ params : List Param,
    Param.relocateAll m params = NodeFactory.relocate m params
  | [] => rfl
  | param :: params => by
    rw [Param.relocateAll, Param.relocateAll_eq params]
    rfl

theorem TypeParam.relocateAll_eq : ∀ params : List TypeParam,
    TypeParam.relocateAll m params = NodeFactory.relocate m params
  | [] => rfl
  | param :: params => by
    rw [TypeParam.relocateAll, TypeParam.relocateAll_eq params]
    rfl

theorem Statement.relocateAll_eq : ∀ statements : List Statement,
    Statement.relocateAll m statements = NodeFactory.relocate m statements
  | [] => rfl
  | statement :: statements => by
    rw [Statement.relocateAll, Statement.relocateAll_eq statements]
    rfl

end Lists

section Constructors

variable (m : Relocation)

@[simp] theorem relocate_ident (name : String) (span : Span) :
    relocate m (⟨name, span⟩ : Ident) = ⟨name, relocate m span⟩ := rfl

@[simp] theorem relocate_entityName (first : Ident) (rest : List Ident) (span : Span) :
    relocate m (⟨first, rest, span⟩ : EntityName)
      = ⟨relocate m first, relocate m rest, relocate m span⟩ := rfl

@[simp] theorem relocate_reference (name : EntityName) (args : List TypeExpr) :
    relocate m (TypeShape.reference name args) = .reference (relocate m name) (relocate m args) :=
  congrArg _ (TypeExpr.relocateAll_eq m args)

@[simp] theorem relocate_union (parts : List TypeExpr) :
    relocate m (TypeShape.union parts) = .union (relocate m parts) :=
  congrArg _ (TypeExpr.relocateAll_eq m parts)

@[simp] theorem relocate_intersection (parts : List TypeExpr) :
    relocate m (TypeShape.intersection parts) = .intersection (relocate m parts) :=
  congrArg _ (TypeExpr.relocateAll_eq m parts)

@[simp] theorem relocate_array (element : TypeExpr) :
    relocate m (TypeShape.array element) = .array (relocate m element) := rfl

@[simp] theorem relocate_indexed (object index : TypeExpr) :
    relocate m (TypeShape.indexed object index)
      = .indexed (relocate m object) (relocate m index) := rfl

@[simp] theorem relocate_tuple (elements : List TypeExpr) :
    relocate m (TypeShape.tuple elements) = .tuple (relocate m elements) :=
  congrArg _ (TypeExpr.relocateAll_eq m elements)

@[simp] theorem relocate_paren (inner : TypeExpr) :
    relocate m (TypeShape.paren inner) = .paren (relocate m inner) := rfl

@[simp] theorem relocate_function (isConstructor : Bool) (signature : Signature) :
    relocate m (TypeShape.function isConstructor signature)
      = .function isConstructor (relocate m signature) := rfl

@[simp] theorem relocate_literal (members : List Member) :
    relocate m (TypeShape.literal members) = .literal (relocate m members) :=
  congrArg _ (Member.relocateAll_eq m members)

@[simp] theorem relocate_literalValue :
    relocate m TypeShape.literalValue = .literalValue := rfl

@[simp] theorem relocate_keywordType (type : KeywordType) :
    relocate m (TypeShape.keyword type) = .keyword type := rfl

@[simp] theorem relocate_this : relocate m TypeShape.this = .this := rfl

@[simp] theorem relocate_query (name : EntityName) :
    relocate m (TypeShape.query name) = .query (relocate m name) := rfl

@[simp] theorem relocate_keyof (type : TypeExpr) :
    relocate m (TypeShape.keyof type) = .keyof (relocate m type) := rfl

@[simp] theorem relocate_predicate (param : Ident) (type : TypeExpr) :
    relocate m (TypeShape.predicate param type)
      = .predicate (relocate m param) (relocate m type) := rfl

@[simp] theorem relocate_typeExpr (shape : TypeShape) (span : Span) :
    relocate m (⟨shape, span⟩ : TypeExpr) = ⟨relocate m shape, relocate m span⟩ := rfl

@[simp] theorem relocate_property (name : Ident) (optional readonly : Bool)
    (type : Option TypeExpr) : relocate m (MemberShape.property name optional readonly type)
      = .property (relocate m name) optional readonly (relocate m type) :=
  congrArg _ (TypeExpr.relocateOption_eq m type)

@[simp] theorem relocate_method (name : Ident) (optional : Bool) (signature : Signature) :
    relocate m (MemberShape.method name optional signature)
      = .method (relocate m name) optional (relocate m signature) := rfl

@[simp] theorem relocate_call (signature : Signature) :
    relocate m (MemberShape.call signature) = .call (relocate m signature) := rfl

@[simp] theorem relocate_construct (signature : Signature) :
    relocate m (MemberShape.construct signature) = .construct (relocate m signature) := rfl

@[simp] theorem relocate_index : relocate m MemberShape.index = .index := rfl

@[simp] theorem relocate_member (shape : MemberShape) (span : Span) (comments : List Span) :
    relocate m (⟨shape, span, comments⟩ : Member)
      = ⟨relocate m shape, relocate m span, m.comments comments⟩ := rfl

@[simp] theorem relocate_signature (typeParams : List TypeParam) (params : List Param)
    (returns : Option TypeExpr) : relocate m (⟨typeParams, params, returns⟩ : Signature)
      = ⟨relocate m typeParams, relocate m params, relocate m returns⟩ := by
  rw [← TypeParam.relocateAll_eq, ← Param.relocateAll_eq, ← TypeExpr.relocateOption_eq]
  rfl

@[simp] theorem relocate_param (name : Ident) (rest optional : Bool) (type : Option TypeExpr) :
    relocate m (⟨name, rest, optional, type⟩ : Param)
      = ⟨relocate m name, rest, optional, relocate m type⟩ := by
  rw [← TypeExpr.relocateOption_eq]
  rfl

@[simp] theorem relocate_typeParam (name : Ident) (bound fallback : Option TypeExpr) :
    relocate m (⟨name, bound, fallback⟩ : TypeParam)
      = ⟨relocate m name, relocate m bound, relocate m fallback⟩ := by
  rw [← TypeExpr.relocateOption_eq, ← TypeExpr.relocateOption_eq]
  rfl

@[simp] theorem relocate_numberConst (value : Binary64) :
    relocate m (ConstExpr.number value) = .number value := rfl

@[simp] theorem relocate_stringConst (text : String) :
    relocate m (ConstExpr.string text) = .string text := rfl

@[simp] theorem relocate_nameConst (entity : EntityName) :
    relocate m (ConstExpr.name entity) = .name (relocate m entity) := rfl

@[simp] theorem relocate_unary (op : UnaryOp) (operand : ConstExpr) :
    relocate m (ConstExpr.unary op operand) = .unary op (relocate m operand) := rfl

@[simp] theorem relocate_binary (op : BinaryOp) (left right : ConstExpr) :
    relocate m (ConstExpr.binary op left right)
      = .binary op (relocate m left) (relocate m right) := rfl

@[simp] theorem relocate_heritageType (name : EntityName) (args : List TypeExpr) (span : Span) :
    relocate m (⟨name, args, span⟩ : HeritageType)
      = ⟨relocate m name, relocate m args, relocate m span⟩ := rfl

@[simp] theorem relocate_heritageClause (word : HeritageWord) (types : List HeritageType)
    (span : Span) : relocate m (⟨word, types, span⟩ : HeritageClause)
      = ⟨word, relocate m types, relocate m span⟩ := rfl

@[simp] theorem relocate_interface (name : Ident) (typeParams : List TypeParam)
    (heritage : List HeritageClause) (members : List Member) :
    relocate m (⟨name, typeParams, heritage, members⟩ : Interface)
      = ⟨relocate m name, relocate m typeParams, relocate m heritage, relocate m members⟩ := rfl

@[simp] theorem relocate_typeAlias (name : Ident) (typeParams : List TypeParam) (type : TypeExpr) :
    relocate m (⟨name, typeParams, type⟩ : TypeAlias)
      = ⟨relocate m name, relocate m typeParams, relocate m type⟩ := rfl

@[simp] theorem relocate_enumMember (name : Ident) (value : Option ConstExpr) (span : Span)
    (comments : List Span) : relocate m (⟨name, value, span, comments⟩ : EnumMember)
      = ⟨relocate m name, relocate m value, relocate m span, m.comments comments⟩ := rfl

@[simp] theorem relocate_enum (name : Ident) (isConst : Bool) (members : List EnumMember) :
    relocate m (⟨name, isConst, members⟩ : Enum)
      = ⟨relocate m name, isConst, relocate m members⟩ := rfl

@[simp] theorem relocate_placement (span : Span) (comments : List Span) :
    relocate m (⟨span, comments⟩ : Placement) = ⟨relocate m span, m.comments comments⟩ := rfl

@[simp] theorem relocate_namespaceDecl (place : Placement) (name : EntityName)
    (body : List Statement) : relocate m (Statement.namespaceDecl place name body)
      = .namespaceDecl (relocate m place) (relocate m name) (relocate m body) :=
  congrArg _ (Statement.relocateAll_eq m body)

@[simp] theorem relocate_interfaceDecl (place : Placement) (decl : Interface) :
    relocate m (Statement.interfaceDecl place decl)
      = .interfaceDecl (relocate m place) (relocate m decl) := rfl

@[simp] theorem relocate_aliasDecl (place : Placement) (decl : TypeAlias) :
    relocate m (Statement.aliasDecl place decl)
      = .aliasDecl (relocate m place) (relocate m decl) := rfl

@[simp] theorem relocate_enumDecl (place : Placement) (decl : Enum) :
    relocate m (Statement.enumDecl place decl)
      = .enumDecl (relocate m place) (relocate m decl) := rfl

@[simp] theorem relocate_skipped (place : Placement) :
    relocate m (Statement.skipped place) = .skipped (relocate m place) := rfl

end Constructors

section Unmoved

variable {α : Type} [Relocatable α]

/-- Relocation by nothing, in all values of a type, leaves them as they are. -/
class Unmoved (α : Type) [Relocatable α] : Prop where
  relocate_zero : ∀ a : α, relocate (.shift 0) a = a

export Unmoved (relocate_zero)

attribute [simp] relocate_zero

theorem Relocation.comments_zero (spans : List Span) : (shift 0).comments spans = spans :=
  List.map_id spans

instance : Unmoved Span := ⟨fun _ => rfl⟩

instance [Unmoved α] : Unmoved (List α) := ⟨List.map_id'' relocate_zero⟩

instance [Unmoved α] : Unmoved (Option α) := ⟨fun a => by cases a <;> simp⟩

instance : Unmoved Ident := ⟨fun _ => rfl⟩

instance : Unmoved EntityName := ⟨fun ⟨first, rest, span⟩ => by simp⟩

mutual

theorem TypeShape.relocate_zero : ∀ shape : TypeShape, TypeShape.relocate (.shift 0) shape = shape
  | .reference name args => by simp [TypeShape.relocate, TypeExpr.relocateAll_zero args]
  | .union parts => by simp [TypeShape.relocate, TypeExpr.relocateAll_zero parts]
  | .intersection parts => by simp [TypeShape.relocate, TypeExpr.relocateAll_zero parts]
  | .array element => by simp [TypeShape.relocate, element.relocate_zero]
  | .indexed object index => by simp [TypeShape.relocate, object.relocate_zero, index.relocate_zero]
  | .tuple elements => by simp [TypeShape.relocate, TypeExpr.relocateAll_zero elements]
  | .paren inner => by simp [TypeShape.relocate, inner.relocate_zero]
  | .function isConstructor signature => by simp [TypeShape.relocate, signature.relocate_zero]
  | .literal members => by simp [TypeShape.relocate, Member.relocateAll_zero members]
  | .literalValue | .keyword _ | .this => rfl
  | .query name => by simp [TypeShape.relocate]
  | .keyof type => by simp [TypeShape.relocate, type.relocate_zero]
  | .predicate param type => by simp [TypeShape.relocate, type.relocate_zero]

theorem TypeExpr.relocate_zero : ∀ type : TypeExpr, TypeExpr.relocate (.shift 0) type = type
  | ⟨shape, span⟩ => by simp [TypeExpr.relocate, shape.relocate_zero]

theorem TypeExpr.relocateAll_zero : ∀ types : List TypeExpr,
    TypeExpr.relocateAll (.shift 0) types = types
  | [] => rfl
  | type :: types => by simp [TypeExpr.relocateAll, type.relocate_zero, TypeExpr.relocateAll_zero types]

theorem TypeExpr.relocateOption_zero : ∀ type : Option TypeExpr,
    TypeExpr.relocateOption (.shift 0) type = type
  | none => rfl
  | some type => by simp [TypeExpr.relocateOption, type.relocate_zero]

theorem MemberShape.relocate_zero : ∀ shape : MemberShape,
    MemberShape.relocate (.shift 0) shape = shape
  | .property name optional readonly type => by
    simp [MemberShape.relocate, TypeExpr.relocateOption_zero type]
  | .method name optional signature => by simp [MemberShape.relocate, signature.relocate_zero]
  | .call signature => by simp [MemberShape.relocate, signature.relocate_zero]
  | .construct signature => by simp [MemberShape.relocate, signature.relocate_zero]
  | .index => rfl

theorem Member.relocate_zero : ∀ member : Member, Member.relocate (.shift 0) member = member
  | ⟨shape, span, comments⟩ => by
    simp [Member.relocate, shape.relocate_zero, Relocation.comments_zero]

theorem Member.relocateAll_zero : ∀ members : List Member,
    Member.relocateAll (.shift 0) members = members
  | [] => rfl
  | member :: members => by
    simp [Member.relocateAll, member.relocate_zero, Member.relocateAll_zero members]

theorem Signature.relocate_zero : ∀ signature : Signature,
    Signature.relocate (.shift 0) signature = signature
  | ⟨typeParams, params, returns⟩ => by
    simp [Signature.relocate, TypeParam.relocateAll_zero typeParams, Param.relocateAll_zero params,
      TypeExpr.relocateOption_zero returns]

theorem Param.relocate_zero : ∀ param : Param, Param.relocate (.shift 0) param = param
  | ⟨name, rest, optional, type⟩ => by simp [Param.relocate, TypeExpr.relocateOption_zero type]

theorem Param.relocateAll_zero : ∀ params : List Param, Param.relocateAll (.shift 0) params = params
  | [] => rfl
  | param :: params => by
    simp [Param.relocateAll, param.relocate_zero, Param.relocateAll_zero params]

theorem TypeParam.relocate_zero : ∀ param : TypeParam, TypeParam.relocate (.shift 0) param = param
  | ⟨name, bound, fallback⟩ => by
    simp [TypeParam.relocate, TypeExpr.relocateOption_zero bound, TypeExpr.relocateOption_zero fallback]

theorem TypeParam.relocateAll_zero : ∀ params : List TypeParam,
    TypeParam.relocateAll (.shift 0) params = params
  | [] => rfl
  | param :: params => by
    simp [TypeParam.relocateAll, param.relocate_zero, TypeParam.relocateAll_zero params]

end

instance : Unmoved TypeExpr := ⟨TypeExpr.relocate_zero⟩

instance : Unmoved Member := ⟨Member.relocate_zero⟩

instance : Unmoved TypeParam := ⟨TypeParam.relocate_zero⟩

theorem ConstExpr.relocate_zero (value : ConstExpr) : value.relocate (.shift 0) = value := by
  induction value with
  | number _ | string _ => rfl
  | name entity => simp [ConstExpr.relocate]
  | unary op operand ih => rw [ConstExpr.relocate, ih]
  | binary op left right ih ih' => rw [ConstExpr.relocate, ih, ih']

instance : Unmoved ConstExpr := ⟨ConstExpr.relocate_zero⟩

instance : Unmoved HeritageType := ⟨fun ⟨name, args, span⟩ => by simp⟩

instance : Unmoved HeritageClause := ⟨fun ⟨word, types, span⟩ => by simp⟩

instance : Unmoved Interface := ⟨fun ⟨name, typeParams, heritage, members⟩ => by simp⟩

instance : Unmoved TypeAlias := ⟨fun ⟨name, typeParams, type⟩ => by simp⟩

instance : Unmoved EnumMember :=
  ⟨fun ⟨name, value, span, comments⟩ => by simp [Relocation.comments_zero]⟩

instance : Unmoved Enum := ⟨fun ⟨name, isConst, members⟩ => by simp⟩

instance : Unmoved Placement := ⟨fun ⟨span, comments⟩ => by simp [Relocation.comments_zero]⟩

mutual

theorem Statement.relocate_zero : ∀ statement : Statement,
    Statement.relocate (.shift 0) statement = statement
  | .namespaceDecl place name body => by simp [Statement.relocate, Statement.relocateAll_zero body]
  | .interfaceDecl place decl => by simp [Statement.relocate]
  | .aliasDecl place decl => by simp [Statement.relocate]
  | .enumDecl place decl => by simp [Statement.relocate]
  | .skipped place => by simp [Statement.relocate]

theorem Statement.relocateAll_zero : ∀ statements : List Statement,
    Statement.relocateAll (.shift 0) statements = statements
  | [] => rfl
  | statement :: statements => by
    simp [Statement.relocateAll, statement.relocate_zero, Statement.relocateAll_zero statements]

end

instance : Unmoved Statement := ⟨Statement.relocate_zero⟩

instance : Unmoved ParseError := ⟨fun error => by cases error <;> rfl⟩

end Unmoved

end NodeFactory
