import NodeFactory.Config.Basic
import NodeFactory.Config.JsonValue

/-!
# Reading settings

Settings are read from JSON. A section may be an object of some of its fields, or an array of some
of its first fields; what is not given keeps its default. A field that is unknown, repeated or of
the wrong kind makes the text unusable.
-/

namespace NodeFactory

namespace JsonValue

/-- A field of a section: its key, and how its value changes the section. -/
structure JsonField (α : Type) where
  key : String
  set : JsonValue → α → Option α

/-- A section, starting from its defaults. -/
def readSection (fields : List (JsonField α)) (defaults : α) : JsonValue → Option α
  | .object entries =>
    if (entries.map Prod.fst).Nodup then
      entries.foldlM (fun settings (key, value) =>
        match fields.find? fun field => field.key == key with
        | some field => field.set value settings
        | none => none) defaults
    else none
  | .array items =>
    if items.length ≤ fields.length then
      (fields.zip items).foldlM (fun settings (field, value) => field.set value settings) defaults
    else none
  | _ => none

def string? : JsonValue → Option String
  | .string text => some text
  | _ => none

def strings? : JsonValue → Option (List String)
  | .array items => items.mapM string?
  | _ => none

/-- Lists of names by key; of a repeated key the first place and the last list count. -/
def nameLists? : JsonValue → Option NameLists
  | .object entries =>
    entries.foldlM (fun lists (key, value) => (strings? value).map (lists.insert key)) ⟨[]⟩
  | _ => none

/-- A whole number below 2⁶⁴, written without sign, fraction and exponent. -/
def count? : JsonValue → Option Nat
  | .number text =>
    if text.all Text.isDecimalDigit then
      let value := text.foldl (fun value digit => value * 10 + hexValue digit) 0
      if value < UInt64.size then some value else none
    else none
  | _ => none

def newLine? : JsonValue → Option NewLine
  | .string "lf" | .object [("lf", .null)] => some .lf
  | .string "crlf" | .object [("crlf", .null)] => some .crlf
  | _ => none

/-- A field that is read by `read` and stored by `store`. -/
def field (key : String) (read : JsonValue → Option β) (store : α → β → α) : JsonField α :=
  ⟨key, fun value old => (read value).map (store old)⟩

/-- A field that is itself a section. It starts from its defaults again, whatever came before. -/
def nestedField (key : String) (fields : List (JsonField β)) (defaults : β) (store : α → β → α) :
    JsonField α :=
  field key (readSection fields defaults) store

end JsonValue

open JsonValue

def WellKnownNames.jsonFields : List (JsonField WellKnownNames) := [
  field "node" string? fun s v => { s with node := v },
  field "node_array" string? fun s v => { s with nodeArray := v },
  field "modifiers_array" string? fun s v => { s with modifiersArray := v },
  field "declaration" string? fun s v => { s with declaration := v },
  field "kind_enum" string? fun s v => { s with kindEnum := v }]

def AnnotationTags.jsonFields : List (JsonField AnnotationTags) := [
  field "kind_tag" string? fun s v => { s with kind := v },
  field "factory_param_tag" string? fun s v => { s with factoryParam := v }]

def FieldRules.jsonFields : List (JsonField FieldRules) := [
  field "modifier_fields" strings? fun s v => { s with modifierFields := v },
  field "modifier_exempt_types" strings? fun s v => { s with modifierExemptTypes := v },
  field "optional_marker_field" string? fun s v => { s with optionalMarkerField := v },
  field "optional_marker_exempt_types" strings? fun s v =>
    { s with optionalMarkerExemptTypes := v },
  field "parent_field" string? fun s v => { s with parentField := v }]

def Metadata.jsonFields : List (JsonField Metadata) := [
  field "kinds" nameLists? fun s v => { s with kinds := v },
  field "factory_params" nameLists? fun s v => { s with factoryParams := v }]

def OutputLayout.jsonFields : List (JsonField OutputLayout) := [
  field "column_wrap" count? fun s v => { s with columnWrap := v },
  field "indent_size" count? fun s v => { s with indentSize := v },
  field "new_line" newLine? fun s v => { s with newLine := v },
  field "namespaces" strings? fun s v => { s with namespaces := v },
  field "references" strings? fun s v => { s with references := v },
  field "root_kind" string? fun s v => { s with rootKind := v }]

def Config.jsonFields : List (JsonField Config) := [
  nestedField "well_known" WellKnownNames.jsonFields {} fun s v => { s with wellKnown := v },
  nestedField "annotations" AnnotationTags.jsonFields {} fun s v => { s with annotations := v },
  field "member_excludes" nameLists? fun s v => { s with memberExcludes := v },
  field "member_order_overrides" nameLists? fun s v => { s with memberOrder := v },
  nestedField "fields" FieldRules.jsonFields {} fun s v => { s with fields := v },
  nestedField "metadata" Metadata.jsonFields {} fun s v => { s with metadata := v },
  nestedField "output" OutputLayout.jsonFields {} fun s v => { s with output := v }]

/-- The settings that a text gives, or `none` if it cannot be used. -/
def Config.parse? (text : List Char) : Option Config := do
  readSection Config.jsonFields {} (← JsonValue.parse? text)

end NodeFactory
