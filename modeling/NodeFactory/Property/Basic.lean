import NodeFactory.Symbol.Table

/-!
# Properties

A property is a named member of a declared type. Lists of properties have each name once, and where
two lists are joined the first property of a name stays.
-/

namespace NodeFactory

open Text

structure Property where
  name : String
  /-- The declared type; for a method, the type it returns. -/
  type : Option TypeExpr
  optional : Bool
  comments : List Span
  /-- The interface that declares it; members of type literals have none. -/
  owner : Option SymbolId
  /-- The declaration inside which the names of the type are looked up. -/
  site : DeclId

namespace Property

/-- The property that a member declares, if it has a name. -/
def ofMember? (owner : Option SymbolId) (site : DeclId) (member : Member) : Option Property :=
  match member.shape with
  | .property name optional _ type =>
    some { name := name.name, type, optional, comments := member.comments, owner, site }
  | .method name optional signature =>
    some { name := name.name, type := signature.returns, optional, comments := member.comments,
           owner, site }
  | .call _ | .construct _ | .index => none

def names (properties : List Property) : List String :=
  properties.map Property.name

/-- Adds a property unless its name is taken. -/
def addNew (properties : List Property) (property : Property) : List Property :=
  if (names properties).contains property.name then properties else properties ++ [property]

/-- Adds the properties whose names are not taken. -/
def merge (properties more : List Property) : List Property :=
  more.foldl addNew properties

/-- The properties of the members, the first of each name. -/
def ofMembers (owner : Option SymbolId) (site : DeclId) (members : List Member) : List Property :=
  merge [] (members.filterMap (ofMember? owner site))

/-- The properties that all lists have, as the first list has them. They belong to no interface. -/
def common : List (List Property) → List Property
  | [] => []
  | first :: others =>
    (first.filter fun property =>
      others.all fun other => (names other).contains property.name).map fun property =>
        { property with owner := none }

end Property

end NodeFactory
