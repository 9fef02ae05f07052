import NodeFactory.Schema.Statement

/-!
# The outline of a schema

What is read from a text is a tree of nodes: statements, members, types and names, each with the span
in which it is written, and made of other nodes. The outline keeps these and leaves out the rest; a
parameter or a constant expression has no span, and stands for the nodes it is made of.
-/

namespace NodeFactory

open Text

inductive NodeSort where
  | statement (comments : List Span)
  | heritageClause
  | heritageType
  | member (comments : List Span)
  | enumMember (comments : List Span)
  | type
  | entityName
  | ident (name : String)

/-- The comments that lead a node, if it is of a sort that keeps them. -/
def NodeSort.comments? : NodeSort → Option (List Span)
  | statement comments | member comments | enumMember comments => some comments
  | heritageClause | heritageType | type | entityName | ident _ => none

inductive Outline where
  | node (sort : NodeSort) (span : Span) (parts : List Outline)

namespace Outline

def sort : Outline → NodeSort
  | node sort _ _ => sort

def span : Outline → Span
  | node _ span _ => span

def parts : Outline → List Outline
  | node _ _ parts => parts

mutual

/-- A node with all nodes inside it. -/
def all : Outline → List Outline
  | node sort span parts => node sort span parts :: allOf parts

def allOf : List Outline → List Outline
  | [] => []
  | outline :: outlines => outline.all ++ allOf outlines

end

@[simp] theorem allOf_append (outlines outlines' : List Outline) :
    allOf (outlines ++ outlines') = allOf outlines ++ allOf outlines' := by
  induction outlines with
  | nil => rfl
  | cons outline outlines ih => rw [List.cons_append, allOf, ih, allOf, List.append_assoc]

end Outline

/-- What is made of nodes, which are given in the order of the text. -/
class Outlined (α : Type) where
  outlines : α → List Outline

export Outlined (outlines)

section Names

instance {α : Type} [Outlined α] : Outlined (List α) := ⟨List.flatMap outlines⟩

instance {α : Type} [Outlined α] : Outlined (Option α) := ⟨fun a => a.toList.flatMap outlines⟩

def Ident.outline (ident : Ident) : Outline := .node (.ident ident.name) ident.span []

instance : Outlined Ident := ⟨fun ident => [ident.outline]⟩

def EntityName.outline (name : EntityName) : Outline :=
  .node .entityName name.span (outlines name.parts)

instance : Outlined EntityName := ⟨fun name => [name.outline]⟩

def ConstExpr.outlines : ConstExpr → List Outline
  | .number _ => []
  | .string _ => []
  | .name entity => [entity.outline]
  | .unary _ operand => operand.outlines
  | .binary _ left right => left.outlines ++ right.outlines

instance : Outlined ConstExpr := ⟨ConstExpr.outlines⟩

end Names

section Types

mutual

def TypeShape.outlines : TypeShape → List Outline
  | .reference name args => name.outline :: TypeExpr.allOutlines args
  | .union parts => TypeExpr.allOutlines parts
  | .intersection parts => TypeExpr.allOutlines parts
  | .array element => [element.outline]
  | .indexed object index => [object.outline, index.outline]
  | .tuple elements => TypeExpr.allOutlines elements
  | .paren inner => [inner.outline]
  | .function _ signature => signature.outlines
  | .literal members => Member.allOutlines members
  | .literalValue => []
  | .keyword _ => []
  | .this => []
  | .query name => [name.outline]
  | .keyof type => [type.outline]
  | .predicate param type => [param.outline, type.outline]

def TypeExpr.outline : TypeExpr → Outline
  | ⟨shape, span⟩ => .node .type span shape.outlines

def TypeExpr.allOutlines : List TypeExpr → List Outline
  | [] => []
  | type :: types => type.outline :: TypeExpr.allOutlines types

def TypeExpr.someOutlines : Option TypeExpr → List Outline
  | none => []
  | some type => [type.outline]

def MemberShape.outlines : MemberShape → List Outline
  | .property name _ _ type => name.outline :: TypeExpr.someOutlines type
  | .method name _ signature => name.outline :: signature.outlines
  | .call signature => signature.outlines
  | .construct signature => signature.outlines
  | .index => []

def Member.outline : Member → Outline
  | ⟨shape, span, comments⟩ => .node (.member comments) span shape.outlines

def Member.allOutlines : List Member → List Outline
  | [] => []
  | member :: members => member.outline :: Member.allOutlines members

def Signature.outlines : Signature → List Outline
  | ⟨typeParams, params, returns⟩ => TypeParam.allOutlines typeParams ++ Param.allOutlines params
    ++ TypeExpr.someOutlines returns

def Param.outlines : Param → List Outline
  | ⟨name, _, _, type⟩ => name.outline :: TypeExpr.someOutlines type

def Param.allOutlines : List Param → List Outline
  | [] => []
  | param :: params => param.outlines ++ Param.allOutlines params

def TypeParam.outlines : TypeParam → List Outline
  | ⟨name, bound, fallback⟩ =>
    name.outline :: (TypeExpr.someOutlines bound ++ TypeExpr.someOutlines fallback)

def TypeParam.allOutlines : List TypeParam → List Outline
  | [] => []
  | param :: params => param.outlines ++ TypeParam.allOutlines params

end

instance : Outlined TypeShape := ⟨TypeShape.outlines⟩

instance : Outlined TypeExpr := ⟨fun type => [type.outline]⟩

instance : Outlined MemberShape := ⟨MemberShape.outlines⟩

instance : Outlined Member := ⟨fun member => [member.outline]⟩

instance : Outlined Signature := ⟨Signature.outlines⟩

instance : Outlined Param := ⟨Param.outlines⟩

instance : Outlined TypeParam := ⟨TypeParam.outlines⟩

end Types

section Statements

def HeritageType.outline (type : HeritageType) : Outline :=
  .node .heritageType type.span (type.name.outline :: outlines type.args)

instance : Outlined HeritageType := ⟨fun type => [type.outline]⟩

def HeritageClause.outline (clause : HeritageClause) : Outline :=
  .node .heritageClause clause.span (outlines clause.types)

instance : Outlined HeritageClause := ⟨fun clause => [clause.outline]⟩

instance : Outlined Interface := ⟨fun decl => decl.name.outline
  :: (outlines decl.typeParams ++ outlines decl.heritage ++ outlines decl.members)⟩

instance : Outlined TypeAlias := ⟨fun decl =>
  decl.name.outline :: (outlines decl.typeParams ++ outlines decl.type)⟩

def EnumMember.outline (member : EnumMember) : Outline :=
  .node (.enumMember member.comments) member.span (member.name.outline :: outlines member.value)

instance : Outlined EnumMember := ⟨fun member => [member.outline]⟩

instance : Outlined Enum := ⟨fun decl => decl.name.outline :: outlines decl.members⟩

/-- The node of a statement that stands in a place. -/
def Placement.outline (place : Placement) (parts : List Outline) : Outline :=
  .node (.statement place.comments) place.span parts

mutual

def Statement.outline : Statement → Outline
  | .namespaceDecl place name body => place.outline (name.outline :: Statement.allOutlines body)
  | .interfaceDecl place decl => place.outline (outlines decl)
  | .aliasDecl place decl => place.outline (outlines decl)
  | .enumDecl place decl => place.outline (outlines decl)
  | .skipped place => place.outline []

def Statement.allOutlines : List Statement → List Outline
  | [] => []
  | statement :: statements => statement.outline :: Statement.allOutlines statements

end

instance : Outlined Statement := ⟨fun statement => [statement.outline]⟩

end Statements

section Lists

theorem TypeExpr.allOutlines_eq : ∀ types : List TypeExpr,
    TypeExpr.allOutlines types = NodeFactory.outlines types
  | [] => rfl
  | type :: types => by
    rw [TypeExpr.allOutlines, TypeExpr.allOutlines_eq types]
    rfl

theorem TypeExpr.someOutlines_eq : ∀ type : Option TypeExpr,
    TypeExpr.someOutlines type = NodeFactory.outlines type
  | none => rfl
  | some _ => rfl

theorem Member.allOutlines_eq : ∀ members : List Member,
    Member.allOutlines members = NodeFactory.outlines members
  | [] => rfl
  | member :: members => by
    rw [Member.allOutlines, Member.allOutlines_eq members]
    rfl

theorem Param.allOutlines_eq : ∀ params : List Param,
    Param.allOutlines params = NodeFactory.outlines params
  | [] => rfl
  | param :: params => by
    rw [Param.allOutlines, Param.allOutlines_eq params]
    rfl

theorem TypeParam.allOutlines_eq : ∀ params : List TypeParam,
    TypeParam.allOutlines params = NodeFactory.outlines params
  | [] => rfl
  | param :: params => by
    rw [TypeParam.allOutlines, TypeParam.allOutlines_eq params]
    rfl

theorem Statement.allOutlines_eq : ∀ statements : List Statement,
    Statement.allOutlines statements = NodeFactory.outlines statements
  | [] => rfl
  | statement :: statements => by
    rw [Statement.allOutlines, Statement.allOutlines_eq statements]
    rfl

end Lists

section Constructors

variable {α : Type} [Outlined α]

@[simp] theorem outlines_nil : outlines ([] : List α) = [] := rfl

@[simp] theorem outlines_cons (a : α) (as : List α) : outlines (a :: as) = outlines a ++ outlines as :=
  rfl

@[simp] theorem outlines_append (as bs : List α) : outlines (as ++ bs) = outlines as ++ outlines bs :=
  List.flatMap_append

@[simp] theorem outlines_none : outlines (none : Option α) = [] := rfl

@[simp] theorem outlines_some (a : α) : outlines (some a) = outlines a := List.append_nil _

@[simp] theorem outlines_ident (ident : Ident) : outlines ident = [ident.outline] := rfl

@[simp] theorem outlines_entityName (name : EntityName) : outlines name = [name.outline] := rfl

@[simp] theorem outlines_numberConst (value : Binary64) : outlines (ConstExpr.number value) = [] := rfl

@[simp] theorem outlines_stringConst (text : String) : outlines (ConstExpr.string text) = [] := rfl

@[simp] theorem outlines_nameConst (entity : EntityName) :
    outlines (ConstExpr.name entity) = [entity.outline] := rfl

@[simp] theorem outlines_unary (op : UnaryOp) (operand : ConstExpr) :
    outlines (ConstExpr.unary op operand) = outlines operand := rfl

@[simp] theorem outlines_binary (op : BinaryOp) (left right : ConstExpr) :
    outlines (ConstExpr.binary op left right) = outlines left ++ outlines right := rfl

@[simp] theorem outlines_type (type : TypeExpr) : outlines type = [type.outline] := rfl

@[simp] theorem outline_type (shape : TypeShape) (span : Span) :
    TypeExpr.outline ⟨shape, span⟩ = .node .type span (outlines shape) := by
  rw [TypeExpr.outline]
  rfl

@[simp] theorem outlines_reference (name : EntityName) (args : List TypeExpr) :
    outlines (TypeShape.reference name args) = name.outline :: outlines args := by
  rw [← TypeExpr.allOutlines_eq]
  rfl

@[simp] theorem outlines_union (parts : List TypeExpr) :
    outlines (TypeShape.union parts) = outlines parts := by
  rw [← TypeExpr.allOutlines_eq]
  rfl

@[simp] theorem outlines_intersection (parts : List TypeExpr) :
    outlines (TypeShape.intersection parts) = outlines parts := by
  rw [← TypeExpr.allOutlines_eq]
  rfl

@[simp] theorem outlines_array (element : TypeExpr) :
    outlines (TypeShape.array element) = [element.outline] := rfl

@[simp] theorem outlines_indexed (object index : TypeExpr) :
    outlines (TypeShape.indexed object index) = [object.outline, index.outline] := rfl

@[simp] theorem outlines_tuple (elements : List TypeExpr) :
    outlines (TypeShape.tuple elements) = outlines elements := by
  rw [← TypeExpr.allOutlines_eq]
  rfl

@[simp] theorem outlines_paren (inner : TypeExpr) :
    outlines (TypeShape.paren inner) = [inner.outline] := rfl

@[simp] theorem outlines_function (isConstructor : Bool) (signature : Signature) :
    outlines (TypeShape.function isConstructor signature) = outlines signature := rfl

@[simp] theorem outlines_literal (members : List Member) :
    outlines (TypeShape.literal members) = outlines members := by
  rw [← Member.allOutlines_eq]
  rfl

@[simp] theorem outlines_literalValue : outlines TypeShape.literalValue = [] := rfl

@[simp] theorem outlines_keywordType (type : KeywordType) :
    outlines (TypeShape.keyword type) = [] := rfl

@[simp] theorem outlines_this : outlines TypeShape.this = [] := rfl

@[simp] theorem outlines_query (name : EntityName) :
    outlines (TypeShape.query name) = [name.outline] := rfl

@[simp] theorem outlines_keyof (type : TypeExpr) :
    outlines (TypeShape.keyof type) = [type.outline] := rfl

@[simp] theorem outlines_predicate (param : Ident) (type : TypeExpr) :
    outlines (TypeShape.predicate param type) = [param.outline, type.outline] := rfl

@[simp] theorem outlines_property (name : Ident) (optional readonly : Bool)
    (type : Option TypeExpr) :
    outlines (MemberShape.property name optional readonly type) = name.outline :: outlines type := by
  rw [← TypeExpr.someOutlines_eq]
  rfl

@[simp] theorem outlines_method (name : Ident) (optional : Bool) (signature : Signature) :
    outlines (MemberShape.method name optional signature) = name.outline :: outlines signature := rfl

@[simp] theorem outlines_call (signature : Signature) :
    outlines (MemberShape.call signature) = outlines signature := rfl

@[simp] theorem outlines_construct (signature : Signature) :
    outlines (MemberShape.construct signature) = outlines signature := rfl

@[simp] theorem outlines_index : outlines MemberShape.index = [] := rfl

@[simp] theorem outlines_member (member : Member) : outlines member = [member.outline] := rfl

@[simp] theorem outline_member (shape : MemberShape) (span : Span) (comments : List Span) :
    Member.outline ⟨shape, span, comments⟩ = .node (.member comments) span (outlines shape) := by
  rw [Member.outline]
  rfl

@[simp] theorem outlines_signature (typeParams : List TypeParam) (params : List Param)
    (returns : Option TypeExpr) : outlines (⟨typeParams, params, returns⟩ : Signature)
      = outlines typeParams ++ outlines params ++ outlines returns := by
  rw [← TypeParam.allOutlines_eq, ← Param.allOutlines_eq, ← TypeExpr.someOutlines_eq]
  rfl

@[simp] theorem outlines_param (name : Ident) (rest optional : Bool) (type : Option TypeExpr) :
    outlines (⟨name, rest, optional, type⟩ : Param) = name.outline :: outlines type := by
  rw [← TypeExpr.someOutlines_eq]
  rfl

@[simp] theorem outlines_typeParam (name : Ident) (bound fallback : Option TypeExpr) :
    outlines (⟨name, bound, fallback⟩ : TypeParam)
      = name.outline :: (outlines bound ++ outlines fallback) := by
  rw [← TypeExpr.someOutlines_eq, ← TypeExpr.someOutlines_eq]
  rfl

@[simp] theorem outlines_heritageType (type : HeritageType) : outlines type = [type.outline] := rfl

@[simp] theorem outlines_heritageClause (clause : HeritageClause) :
    outlines clause = [clause.outline] := rfl

@[simp] theorem outlines_interface (name : Ident) (typeParams : List TypeParam)
    (heritage : List HeritageClause) (members : List Member) :
    outlines (⟨name, typeParams, heritage, members⟩ : Interface)
      = name.outline :: (outlines typeParams ++ outlines heritage ++ outlines members) := rfl

@[simp] theorem outlines_typeAlias (name : Ident) (typeParams : List TypeParam) (type : TypeExpr) :
    outlines (⟨name, typeParams, type⟩ : TypeAlias)
      = name.outline :: (outlines typeParams ++ outlines type) := rfl

@[simp] theorem outlines_enumMember (member : EnumMember) : outlines member = [member.outline] := rfl

@[simp] theorem outlines_enum (name : Ident) (isConst : Bool) (members : List EnumMember) :
    outlines (⟨name, isConst, members⟩ : Enum) = name.outline :: outlines members := rfl

@[simp] theorem outlines_statement (statement : Statement) :
    outlines statement = [statement.outline] := rfl

@[simp] theorem outline_namespaceDecl (place : Placement) (name : EntityName)
    (body : List Statement) : (Statement.namespaceDecl place name body).outline
      = place.outline (name.outline :: outlines body) := by
  rw [← Statement.allOutlines_eq, Statement.outline]

@[simp] theorem outline_interfaceDecl (place : Placement) (decl : Interface) :
    (Statement.interfaceDecl place decl).outline = place.outline (outlines decl) := by
  rw [Statement.outline]

@[simp] theorem outline_aliasDecl (place : Placement) (decl : TypeAlias) :
    (Statement.aliasDecl place decl).outline = place.outline (outlines decl) := by
  rw [Statement.outline]

@[simp] theorem outline_enumDecl (place : Placement) (decl : Enum) :
    (Statement.enumDecl place decl).outline = place.outline (outlines decl) := by
  rw [Statement.outline]

@[simp] theorem outline_skipped (place : Placement) :
    (Statement.skipped place).outline = place.outline [] := by
  rw [Statement.outline]

end Constructors

end NodeFactory
