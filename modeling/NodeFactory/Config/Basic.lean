/-!
# Settings

The settings name the declarations that classification starts from, the marks in comments, the rules
by which fields are chosen and ordered, and the layout of the written file. A table from kinds to
names has a fallback entry for the kinds it does not list; an entry replaces the fallback, the two
are never merged.
-/

namespace NodeFactory

/-- The names of the declarations that all classification depends on. -/
structure WellKnownNames where
  /-- The interface that all nodes extend. -/
  node : String := "Node"
  nodeArray : String := "NodeArray"
  modifiersArray : String := "ModifiersArray"
  /-- The interface that marks declarations. -/
  declaration : String := "Declaration"
  /-- The enum whose members are the kinds of node. -/
  kindEnum : String := "SyntaxKind"
deriving DecidableEq, Repr

/-- The marks that are looked for in comments. -/
structure AnnotationTags where
  /-- Followed by a member of the kind enum in parentheses. -/
  kind : String := "@kind"
  factoryParam : String := "@factoryparam"
deriving DecidableEq, Repr

/-- Lists of names by key, each key once, in order. -/
structure NameLists where
  entries : List (String × List String)
deriving DecidableEq, Repr

namespace NameLists

/-- The key of the entry for the kinds that have none. -/
def wildcard : String := "*"

/-- The list of a key itself. -/
def find? (lists : NameLists) (key : String) : Option (List String) :=
  lists.entries.lookup key

/-- The list of a kind, or else the fallback list, or else no names. -/
def get (lists : NameLists) (kind : String) : List String :=
  ((lists.find? kind).or (lists.find? wildcard)).getD []

def contains (lists : NameLists) (kind name : String) : Bool :=
  (lists.get kind).contains name

/-- The place of a name in the list of a kind. -/
def position? (lists : NameLists) (kind name : String) : Option Nat :=
  (lists.get kind).idxOf? name

/-- Gives a key a list. A key that is there keeps its place. -/
def insert (lists : NameLists) (key : String) (names : List String) : NameLists :=
  if (lists.find? key).isSome then
    ⟨lists.entries.map fun entry => if entry.1 == key then (key, names) else entry⟩
  else ⟨lists.entries ++ [(key, names)]⟩

def decoratorsModifiersName : List String := ["decorators", "modifiers", "name"]

def decoratorsModifiers : List String := ["decorators", "modifiers"]

def accessorExcludes : List String := ["typeParameters", "questionToken", "asteriskToken"]

/-- The fields that no function for a kind takes, unless the settings say otherwise. -/
def defaultExcludes : NameLists := ⟨[
  (wildcard, []),
  ("TypeLiteral", decoratorsModifiersName),
  ("CallSignature", decoratorsModifiersName),
  ("ConstructSignature", decoratorsModifiersName),
  ("IndexSignature", ["typeParameters", "name"]),
  ("FunctionType", decoratorsModifiersName),
  ("ConstructorType", decoratorsModifiersName),
  ("PropertySignature", ["decorators", "modifiers", "initializer"]),
  ("MethodSignature", ["decorators", "modifiers", "asteriskToken", "body"]),
  ("MethodDeclaration", ["questionToken"]),
  ("GetAccessor", accessorExcludes),
  ("SetAccessor", accessorExcludes),
  ("Constructor", ["asteriskToken", "questionToken", "typeParameters", "name"]),
  ("BindingElement", decoratorsModifiers),
  ("ObjectLiteralExpression", decoratorsModifiersName),
  ("ArrowFunction", ["asteriskToken", "name"]),
  ("ImportSpecifier", decoratorsModifiers),
  ("ExportSpecifier", decoratorsModifiers),
  ("ExportAssignment", ["name"]),
  ("ExportDeclaration", ["name"]),
  ("MissingDeclaration", ["name"]),
  ("PropertyAssignment", decoratorsModifiers),
  ("ShorthandPropertyAssignment", decoratorsModifiers),
  ("EnumMember", decoratorsModifiers),
  ("JSDocRecordType", decoratorsModifiersName),
  ("JSDocRecordMember", ["decorators", "modifiers", "questionToken", "initializer"]),
  ("JSDocFunctionType", ["decorators", "modifiers", "name", "typeParameters"])]⟩

def functionOrder : List String :=
  ["decorators", "modifiers", "asteriskToken", "name", "typeParameters", "parameters", "type"]

def accessorOrder : List String :=
  ["decorators", "modifiers", "asteriskToken", "name", "parameters", "type", "body"]

/-- The fields that come first for a kind, unless the settings say otherwise. -/
def defaultOrder : NameLists := ⟨[
  (wildcard, decoratorsModifiers),
  ("MethodSignature", ["name", "questionToken"]),
  ("DoStatement", ["statement", "expression"]),
  ("FunctionExpression", functionOrder),
  ("ArrowFunction", ["decorators", "modifiers", "typeParameters", "parameters", "type"]),
  ("FunctionDeclaration", functionOrder),
  ("Constructor", ["decorators", "modifiers", "parameters", "type", "body"]),
  ("MethodDeclaration", functionOrder ++ ["body"]),
  ("GetAccessor", accessorOrder),
  ("SetAccessor", accessorOrder)]⟩

end NameLists

/-- Fields that are dropped because of their names. -/
structure FieldRules where
  /-- Kept only for declarations. -/
  modifierFields : List String := ["decorators", "modifiers"]
  /-- Declaring types whose modifier fields are always dropped. -/
  modifierExemptTypes : List String := ["TypeParameterDeclaration"]
  optionalMarkerField : String := "questionToken"
  /-- Declaring types whose optional marker is dropped. -/
  optionalMarkerExemptTypes : List String :=
    ["FunctionExpression", "FunctionDeclaration", "ArrowFunction"]
  /-- The reference back to the parent, always dropped. -/
  parentField : String := "parent"
deriving DecidableEq, Repr

/-- What comments say can also be listed here, by the name of the declaration. -/
structure Metadata where
  kinds : NameLists := ⟨[]⟩
  factoryParams : NameLists := ⟨[]⟩
deriving DecidableEq, Repr

inductive NewLine where
  | lf
  | crlf
deriving DecidableEq, Repr

def NewLine.text : NewLine → String
  | lf => "\n"
  | crlf => "\r\n"

structure OutputLayout where
  columnWrap : Nat := 150
  indentSize : Nat := 4
  newLine : NewLine := .lf
  /-- The namespaces around the output, outermost first. -/
  namespaces : List String := ["ts", "factory"]
  /-- The paths that the file refers to. -/
  references : List String := ["parser.ts", "factory.ts"]
  /-- The kind that gets no functions. -/
  rootKind : String := "SourceFile"
deriving DecidableEq, Repr

structure Config where
  wellKnown : WellKnownNames := {}
  annotations : AnnotationTags := {}
  /-- Fields that no function for a kind takes. -/
  memberExcludes : NameLists := .defaultExcludes
  /-- Fields that come first for a kind. -/
  memberOrder : NameLists := .defaultOrder
  fields : FieldRules := {}
  metadata : Metadata := {}
  output : OutputLayout := {}
deriving DecidableEq, Repr

end NodeFactory
