import Mathlib.Data.List.Forall2
import NodeFactory.Config.Reading
import NodeFactory.Proofs.WrittenJson

/-!
# Written settings

Settings may be written in part: of each section any fields in an object, or the first ones in an array
(`Config.Shows`). What is written is read, and the other fields keep their defaults; a text with a field that
is unknown, repeated or null is refused, and so is one that goes on behind the settings
(`Config.parse?_overrides`).
-/

namespace NodeFactory

open JsonValue

section Entries

namespace JsonValue

def ofNames (names : List String) : JsonValue :=
  .array (names.map .string)

def ofLists (lists : NameLists) : JsonValue :=
  .object (lists.entries.map fun entry => (entry.1, ofNames entry.2))

def ofCount (count : Nat) : JsonValue :=
  .number (Nat.toDigits 10 count)

def ofNewLine : NewLine → JsonValue
  | .lf => .string "lf"
  | .crlf => .string "crlf"

end JsonValue

/-- The fields of a section, with their values. -/
def WellKnownNames.entries (names : WellKnownNames) : List (String × JsonValue) := [
  ("node", .string names.node),
  ("node_array", .string names.nodeArray),
  ("modifiers_array", .string names.modifiersArray),
  ("declaration", .string names.declaration),
  ("kind_enum", .string names.kindEnum)]

def AnnotationTags.entries (tags : AnnotationTags) : List (String × JsonValue) := [
  ("kind_tag", .string tags.kind),
  ("factory_param_tag", .string tags.factoryParam)]

def FieldRules.entries (rules : FieldRules) : List (String × JsonValue) := [
  ("modifier_fields", ofNames rules.modifierFields),
  ("modifier_exempt_types", ofNames rules.modifierExemptTypes),
  ("optional_marker_field", .string rules.optionalMarkerField),
  ("optional_marker_exempt_types", ofNames rules.optionalMarkerExemptTypes),
  ("parent_field", .string rules.parentField)]

def Metadata.entries (metadata : Metadata) : List (String × JsonValue) := [
  ("kinds", ofLists metadata.kinds),
  ("factory_params", ofLists metadata.factoryParams)]

def OutputLayout.entries (output : OutputLayout) : List (String × JsonValue) := [
  ("column_wrap", ofCount output.columnWrap),
  ("indent_size", ofCount output.indentSize),
  ("new_line", ofNewLine output.newLine),
  ("namespaces", ofNames output.namespaces),
  ("references", ofNames output.references),
  ("root_kind", .string output.rootKind)]

/-- The fields of the settings, with the values that are written for the sections. -/
def Config.entries (config : Config) (wellKnown annotations fields metadata output : JsonValue) :
    List (String × JsonValue) := [
  ("well_known", wellKnown),
  ("annotations", annotations),
  ("member_excludes", ofLists config.memberExcludes),
  ("member_order_overrides", ofLists config.memberOrder),
  ("fields", fields),
  ("metadata", metadata),
  ("output", output)]

/-- A value shows some entries, those with the given keys: an object any of them, each once, and an array the
first ones. -/
inductive JsonValue.Shows (entries : List (String × JsonValue)) : List String → JsonValue → Prop
  | object {chosen : List (String × JsonValue)} : chosen ⊆ entries → (chosen.map Prod.fst).Nodup →
      Shows entries (chosen.map Prod.fst) (.object chosen)
  | array {first : List (String × JsonValue)} : first <+: entries →
      Shows entries (first.map Prod.fst) (.array (first.map Prod.snd))

/-- The keys of the fields that are written of each section. -/
structure SectionKeys where
  wellKnown : List String
  annotations : List String
  fields : List String
  metadata : List String
  output : List String

/-- A value shows the fields of settings that have the given keys, and of the sections those that have theirs. -/
inductive Config.Shows (config : Config) (keys : List String) (inner : SectionKeys) : JsonValue → Prop
  | sections {wellKnown annotations fields metadata output value : JsonValue} :
      JsonValue.Shows config.wellKnown.entries inner.wellKnown wellKnown →
      JsonValue.Shows config.annotations.entries inner.annotations annotations →
      JsonValue.Shows config.fields.entries inner.fields fields →
      JsonValue.Shows config.metadata.entries inner.metadata metadata →
      JsonValue.Shows config.output.entries inner.output output →
      JsonValue.Shows (config.entries wellKnown annotations fields metadata output) keys value →
      config.Shows keys inner value

end Entries

section Replacing

variable (written : String → Bool)

/-- A section with the written fields of another. -/
def WellKnownNames.replace (old new : WellKnownNames) : WellKnownNames where
  node := if written "node" then new.node else old.node
  nodeArray := if written "node_array" then new.nodeArray else old.nodeArray
  modifiersArray := if written "modifiers_array" then new.modifiersArray else old.modifiersArray
  declaration := if written "declaration" then new.declaration else old.declaration
  kindEnum := if written "kind_enum" then new.kindEnum else old.kindEnum

def AnnotationTags.replace (old new : AnnotationTags) : AnnotationTags where
  kind := if written "kind_tag" then new.kind else old.kind
  factoryParam := if written "factory_param_tag" then new.factoryParam else old.factoryParam

def FieldRules.replace (old new : FieldRules) : FieldRules where
  modifierFields := if written "modifier_fields" then new.modifierFields else old.modifierFields
  modifierExemptTypes :=
    if written "modifier_exempt_types" then new.modifierExemptTypes else old.modifierExemptTypes
  optionalMarkerField :=
    if written "optional_marker_field" then new.optionalMarkerField else old.optionalMarkerField
  optionalMarkerExemptTypes :=
    if written "optional_marker_exempt_types" then new.optionalMarkerExemptTypes
    else old.optionalMarkerExemptTypes
  parentField := if written "parent_field" then new.parentField else old.parentField

def Metadata.replace (old new : Metadata) : Metadata where
  kinds := if written "kinds" then new.kinds else old.kinds
  factoryParams := if written "factory_params" then new.factoryParams else old.factoryParams

def OutputLayout.replace (old new : OutputLayout) : OutputLayout where
  columnWrap := if written "column_wrap" then new.columnWrap else old.columnWrap
  indentSize := if written "indent_size" then new.indentSize else old.indentSize
  newLine := if written "new_line" then new.newLine else old.newLine
  namespaces := if written "namespaces" then new.namespaces else old.namespaces
  references := if written "references" then new.references else old.references
  rootKind := if written "root_kind" then new.rootKind else old.rootKind

/-- Settings with the written fields of others. Of a section that is written only its written fields are
replaced, a table from kinds to names is replaced as a whole. -/
def Config.replace (inner : SectionKeys) (old new : Config) : Config where
  wellKnown :=
    if written "well_known" then old.wellKnown.replace inner.wellKnown.contains new.wellKnown else old.wellKnown
  annotations :=
    if written "annotations" then old.annotations.replace inner.annotations.contains new.annotations
    else old.annotations
  memberExcludes := if written "member_excludes" then new.memberExcludes else old.memberExcludes
  memberOrder := if written "member_order_overrides" then new.memberOrder else old.memberOrder
  fields := if written "fields" then old.fields.replace inner.fields.contains new.fields else old.fields
  metadata := if written "metadata" then old.metadata.replace inner.metadata.contains new.metadata else old.metadata
  output := if written "output" then old.output.replace inner.output.contains new.output else old.output

end Replacing

section Values

namespace JsonValue

theorem mapM_string? (names : List String) : (names.map JsonValue.string).mapM string? = some names := by
  induction names with
  | nil => rfl
  | cons name names ih =>
    rw [List.map_cons, List.mapM_cons, ih]
    rfl

@[simp]
theorem strings?_ofNames (names : List String) : strings? (ofNames names) = some names :=
  mapM_string? names

/-- A new key comes last. -/
theorem insert_of_notMem {lists : NameLists} {key : String} (h : key ∉ lists.entries.map Prod.fst)
    (names : List String) : lists.insert key names = ⟨lists.entries ++ [(key, names)]⟩ := by
  have hnone : lists.find? key = none := List.lookup_eq_none_iff.2 fun entry hmem =>
    bne_iff_ne.2 fun heq : key = entry.1 => h (heq ▸ List.mem_map_of_mem hmem)
  rw [NameLists.insert, hnone]
  rfl

theorem insertAll_of_nodup : ∀ {entries done : List (String × List String)},
    ((done ++ entries).map Prod.fst).Nodup →
      (entries.map fun entry => (entry.1, ofNames entry.2)).foldlM
        (fun lists (key, value) => (strings? value).map (lists.insert key)) ⟨done⟩
        = some (⟨done ++ entries⟩ : NameLists)
  | [], done, _ => by rw [List.append_nil]; rfl
  | (key, names) :: entries, done, h => by
    have hnew : key ∉ done.map Prod.fst := by
      rw [List.map_append, List.map_cons] at h
      exact fun hmem => (List.nodup_append.1 h).2.2 key hmem key List.mem_cons_self rfl
    rw [List.append_cons] at h
    rw [List.map_cons, List.foldlM_cons]
    simp only [strings?_ofNames, Option.map_some, Option.bind_eq_bind, Option.bind_some]
    rw [insert_of_notMem hnew, insertAll_of_nodup h, List.append_assoc, List.singleton_append]

theorem nameLists?_ofLists {lists : NameLists} (h : (lists.entries.map Prod.fst).Nodup) :
    nameLists? (ofLists lists) = some lists :=
  insertAll_of_nodup (by rwa [List.nil_append])

theorem hexValue_of_isDigit {c : Char} (h : c.isDigit = true) : hexValue c = c.toNat - '0'.toNat :=
  if_pos h

theorem count?_ofCount {count : Nat} (h : count < UInt64.size) : count? (ofCount count) = some count := by
  have hdigits : ∀ c ∈ Nat.toDigits 10 count, c.isDigit = true :=
    fun c => Nat.isDigit_of_mem_toDigits (by decide) (by decide)
  have hvalue : (Nat.toDigits 10 count).foldl (fun value digit => value * 10 + hexValue digit) 0 = count := by
    refine Eq.trans ?_ (Nat.ofDigitChars_ten_toDigits (n := count))
    refine List.foldl_ext _ _ _ fun value digit hmem => ?_
    rw [hexValue_of_isDigit (hdigits digit hmem), Nat.mul_comm]
  have hall : (Nat.toDigits 10 count).all Text.isDecimalDigit = true := List.all_eq_true.2 hdigits
  rw [ofCount, count?, if_pos hall]
  simp only [hvalue, if_pos h]

@[simp]
theorem newLine?_ofNewLine (newLine : NewLine) : newLine? (ofNewLine newLine) = some newLine := by
  cases newLine <;> rfl

end JsonValue

end Values

section Sections

variable {α : Type} {given : (String → Bool) → α}

/-- A field of a section reads the value of an entry, whatever was read before. -/
def Sets (given : (String → Bool) → α) (field : JsonField α) (entry : String × JsonValue) : Prop :=
  field.key = entry.1
    ∧ ∀ written, field.set entry.2 (given written) = some (given fun key => key == entry.1 || written key)

theorem sets_field {β : Type} {key : String} {read : JsonValue → Option β} {store : α → β → α} {value : JsonValue}
    {new : β} (hread : read value = some new)
    (hstore : ∀ written, store (given written) new = given fun other => other == key || written other) :
    Sets given (field key read store) (key, value) := by
  refine ⟨rfl, fun written => ?_⟩
  show (read value).map (store (given written)) = _
  rw [hread, Option.map_some, hstore]

/-- The field of an entry is found by its key, if no key is repeated. -/
theorem find?_of_forall₂ {β : Type} {R : JsonField α → String × β → Prop} {fields : List (JsonField α)}
    {entries : List (String × β)} (h : List.Forall₂ (fun field entry => field.key = entry.1 ∧ R field entry) fields
      entries) (hkeys : (entries.map Prod.fst).Nodup) {entry : String × β} (hmem : entry ∈ entries) :
    ∃ field, fields.find? (fun field => field.key == entry.1) = some field ∧ R field entry := by
  induction h with
  | nil => cases hmem
  | @cons field first fields entries hfirst _ ih =>
    rw [List.map_cons, List.nodup_cons] at hkeys
    rcases List.mem_cons.1 hmem with rfl | hmem
    · exact ⟨field, List.find?_cons_of_pos (by simp [hfirst.1]), hfirst.2⟩
    · obtain ⟨found, hfound, hR⟩ := ih hkeys.2 hmem
      have hne : field.key ≠ entry.1 := by
        rw [hfirst.1]
        rintro heq
        exact hkeys.1 (heq ▸ List.mem_map_of_mem hmem)
      exact ⟨found, by rw [List.find?_cons_of_neg (by simp [hne]), hfound], hR⟩

/-- What several fields add to those that are written. -/
theorem given_keys (keys : List String) (key : String) (written : String → Bool) :
    (fun other => keys.contains other || (other == key || written other))
      = fun other => (key :: keys).contains other || written other := by
  funext other
  rw [List.contains_cons, Bool.or_comm (other == key) (keys.contains other), Bool.or_assoc]

theorem readEntries_of_sets {fields : List (JsonField α)} {entries : List (String × JsonValue)}
    (h : List.Forall₂ (Sets given) fields entries) (hkeys : (entries.map Prod.fst).Nodup) :
    ∀ {chosen : List (String × JsonValue)}, chosen ⊆ entries → ∀ written,
      chosen.foldlM (fun settings (key, value) => match fields.find? fun field => field.key == key with
        | some field => field.set value settings
        | none => none) (given written)
        = some (given fun key => (chosen.map Prod.fst).contains key || written key)
  | [], _, _ => rfl
  | (key, value) :: chosen, hchosen, written => by
    obtain ⟨hmem, hchosen⟩ := List.cons_subset.1 hchosen
    obtain ⟨field, hfield, hset⟩ := find?_of_forall₂ h hkeys hmem
    rw [List.foldlM_cons]
    simp only [hfield, hset]
    rw [Option.bind_eq_bind, Option.bind_some, readEntries_of_sets h hkeys hchosen, given_keys]
    rfl

theorem readItems_of_sets {fields : List (JsonField α)} {entries : List (String × JsonValue)}
    (h : List.Forall₂ (Sets given) fields entries) : ∀ {first : List (String × JsonValue)}, first <+: entries →
      ∀ written, (fields.zip (first.map Prod.snd)).foldlM (fun settings (field, value) => field.set value settings)
        (given written) = some (given fun key => (first.map Prod.fst).contains key || written key) := by
  induction h with
  | nil =>
    intro first hfirst written
    rw [List.prefix_nil.1 hfirst]
    rfl
  | @cons field entry fields entries hsets _ ih =>
    intro first hfirst written
    cases first with
    | nil => rfl
    | cons entry' first =>
      obtain ⟨rfl, hrest⟩ := List.cons_prefix_cons.1 hfirst
      rw [List.map_cons, List.zip_cons_cons, List.foldlM_cons]
      simp only [hsets.2]
      rw [Option.bind_eq_bind, Option.bind_some, ih hrest, given_keys]
      rfl

theorem readSection_of_shows (given : (String → Bool) → α) {fields : List (JsonField α)}
    {entries : List (String × JsonValue)} (h : List.Forall₂ (Sets given) fields entries)
    (hkeys : (entries.map Prod.fst).Nodup) {keys : List String} {value : JsonValue} (hshows : JsonValue.Shows entries keys value) :
    readSection fields (given fun _ => false) value = some (given keys.contains) := by
  have hnone : ∀ keys : List String, (fun key => keys.contains key || false) = keys.contains :=
    fun keys => funext fun key => Bool.or_false _
  cases hshows with
  | object hchosen hnodup =>
    rw [readSection, if_pos hnodup]
    exact (readEntries_of_sets h hkeys hchosen _).trans (by rw [hnone])
  | array hfirst =>
    rw [readSection, if_pos (by rw [List.length_map, h.length_eq]; exact hfirst.length_le)]
    exact (readItems_of_sets h hfirst _).trans (by rw [hnone])

end Sections

section Settings

/-- What the types of counts and of tables allow: counts of sixty-four bits, and each key once. -/
structure Config.IsStorable (config : Config) : Prop where
  columnWrap : config.output.columnWrap < UInt64.size
  indentSize : config.output.indentSize < UInt64.size
  memberExcludes : (config.memberExcludes.entries.map Prod.fst).Nodup
  memberOrder : (config.memberOrder.entries.map Prod.fst).Nodup
  kinds : (config.metadata.kinds.entries.map Prod.fst).Nodup
  factoryParams : (config.metadata.factoryParams.entries.map Prod.fst).Nodup

variable {keys : List String} {value : JsonValue}

theorem WellKnownNames.read_of_shows {names : WellKnownNames} (h : JsonValue.Shows names.entries keys value) :
    readSection jsonFields {} value = some (replace keys.contains {} names) := by
  refine readSection_of_shows (fun written => replace written {} names) ?_ (by simp [entries]) h
  exact .cons (sets_field rfl fun _ => by simp [replace])
    (.cons (sets_field rfl fun _ => by simp [replace])
    (.cons (sets_field rfl fun _ => by simp [replace])
    (.cons (sets_field rfl fun _ => by simp [replace])
    (.cons (sets_field rfl fun _ => by simp [replace]) .nil))))

theorem AnnotationTags.read_of_shows {tags : AnnotationTags} (h : JsonValue.Shows tags.entries keys value) :
    readSection jsonFields {} value = some (replace keys.contains {} tags) := by
  refine readSection_of_shows (fun written => replace written {} tags) ?_ (by simp [entries]) h
  exact .cons (sets_field rfl fun _ => by simp [replace])
    (.cons (sets_field rfl fun _ => by simp [replace]) .nil)

theorem FieldRules.read_of_shows {rules : FieldRules} (h : JsonValue.Shows rules.entries keys value) :
    readSection jsonFields {} value = some (replace keys.contains {} rules) := by
  refine readSection_of_shows (fun written => replace written {} rules) ?_ (by simp [entries]) h
  exact .cons (sets_field (strings?_ofNames _) fun _ => by simp [replace])
    (.cons (sets_field (strings?_ofNames _) fun _ => by simp [replace])
    (.cons (sets_field rfl fun _ => by simp [replace])
    (.cons (sets_field (strings?_ofNames _) fun _ => by simp [replace])
    (.cons (sets_field rfl fun _ => by simp [replace]) .nil))))

theorem Metadata.read_of_shows {metadata : Metadata} (hkinds : (metadata.kinds.entries.map Prod.fst).Nodup)
    (hparams : (metadata.factoryParams.entries.map Prod.fst).Nodup) (h : JsonValue.Shows metadata.entries keys value) :
    readSection jsonFields {} value = some (replace keys.contains {} metadata) := by
  refine readSection_of_shows (fun written => replace written {} metadata) ?_ (by simp [entries]) h
  exact .cons (sets_field (nameLists?_ofLists hkinds) fun _ => by simp [replace])
    (.cons (sets_field (nameLists?_ofLists hparams) fun _ => by simp [replace]) .nil)

theorem OutputLayout.read_of_shows {output : OutputLayout} (hwrap : output.columnWrap < UInt64.size)
    (hindent : output.indentSize < UInt64.size) (h : JsonValue.Shows output.entries keys value) :
    readSection jsonFields {} value = some (replace keys.contains {} output) := by
  refine readSection_of_shows (fun written => replace written {} output) ?_ (by simp [entries]) h
  exact .cons (sets_field (count?_ofCount hwrap) fun _ => by simp [replace])
    (.cons (sets_field (count?_ofCount hindent) fun _ => by simp [replace])
    (.cons (sets_field (newLine?_ofNewLine _) fun _ => by simp [replace])
    (.cons (sets_field (strings?_ofNames _) fun _ => by simp [replace])
    (.cons (sets_field (strings?_ofNames _) fun _ => by simp [replace])
    (.cons (sets_field rfl fun _ => by simp [replace]) .nil)))))

theorem Config.read_of_shows {config : Config} (hconfig : config.IsStorable) {inner : SectionKeys}
    (h : config.Shows keys inner value) :
    readSection jsonFields {} value = some (replace keys.contains inner {} config) := by
  obtain ⟨hwellKnown, hannotations, hfields, hmetadata, houtput, hvalue⟩ := h
  refine readSection_of_shows (fun written => replace written inner {} config) ?_ (by simp [entries]) hvalue
  exact .cons (sets_field (WellKnownNames.read_of_shows hwellKnown) fun _ => by simp [replace])
    (.cons (sets_field (AnnotationTags.read_of_shows hannotations) fun _ => by simp [replace])
    (.cons (sets_field (nameLists?_ofLists hconfig.memberExcludes) fun _ => by simp [replace])
    (.cons (sets_field (nameLists?_ofLists hconfig.memberOrder) fun _ => by simp [replace])
    (.cons (sets_field (FieldRules.read_of_shows hfields) fun _ => by simp [replace])
    (.cons (sets_field (Metadata.read_of_shows hconfig.kinds hconfig.factoryParams hmetadata) fun _ => by
      simp [replace])
    (.cons (sets_field (OutputLayout.read_of_shows hconfig.columnWrap hconfig.indentSize houtput) fun _ => by
      simp [replace]) .nil))))))

end Settings

section Faults

def WellKnownNames.keys : List String :=
  ({} : WellKnownNames).entries.map Prod.fst

def AnnotationTags.keys : List String :=
  ({} : AnnotationTags).entries.map Prod.fst

def FieldRules.keys : List String :=
  ({} : FieldRules).entries.map Prod.fst

def Metadata.keys : List String :=
  ({} : Metadata).entries.map Prod.fst

def OutputLayout.keys : List String :=
  ({} : OutputLayout).entries.map Prod.fst

/-- The keys of the settings, those of sections with the keys in these. -/
def Config.keyTree : List (String × Option (List String)) := [
  ("well_known", some WellKnownNames.keys),
  ("annotations", some AnnotationTags.keys),
  ("member_excludes", none),
  ("member_order_overrides", none),
  ("fields", some FieldRules.keys),
  ("metadata", some Metadata.keys),
  ("output", some OutputLayout.keys)]

def Config.keys : List String :=
  keyTree.map Prod.fst

/-- A section that cannot be used: with a key that is not one of its keys, with a key twice, or with a field that
is null. -/
inductive JsonValue.IsFaulty (keys : List String) : JsonValue → Prop
  | unknown {entries : List (String × JsonValue)} {key : String} {value : JsonValue} : (key, value) ∈ entries →
      key ∉ keys → IsFaulty keys (.object entries)
  | repeated {entries : List (String × JsonValue)} : ¬(entries.map Prod.fst).Nodup →
      IsFaulty keys (.object entries)
  | null {entries : List (String × JsonValue)} {key : String} : (key, .null) ∈ entries →
      IsFaulty keys (.object entries)
  | nullItem {items : List JsonValue} : .null ∈ items → IsFaulty keys (.array items)

/-- Settings that cannot be used, because of the whole or because of one of the sections. -/
inductive Config.IsFaulty : JsonValue → Prop
  | top {value : JsonValue} : JsonValue.IsFaulty keys value → IsFaulty value
  | entry {entries : List (String × JsonValue)} {key : String} {value : JsonValue} {inner : List String} :
      (key, some inner) ∈ keyTree → (key, value) ∈ entries → JsonValue.IsFaulty inner value →
      IsFaulty (.object entries)
  | item {items : List JsonValue} {key : String} {value : JsonValue} {inner : List String} :
      ((key, some inner), value) ∈ keyTree.zip items → JsonValue.IsFaulty inner value → IsFaulty (.array items)

variable {α : Type} {fields : List (JsonField α)} {defaults : α}

theorem foldlM_eq_none {β γ : Type} {f : β → γ → Option β} : ∀ {xs : List γ},
    (∃ x ∈ xs, ∀ b, f b x = none) → ∀ b, xs.foldlM f b = none
  | [], h, _ => by simp at h
  | x :: xs, ⟨y, hmem, hnone⟩, b => by
    rw [List.foldlM_cons]
    rcases List.mem_cons.1 hmem with rfl | hmem
    · rw [hnone]
      rfl
    · cases f b x with
      | none => rfl
      | some b => exact foldlM_eq_none ⟨y, hmem, hnone⟩ b

/-- A field that cannot be read makes an object unusable. -/
theorem readSection_object {entries : List (String × JsonValue)} {key : String} {value : JsonValue}
    (hmem : (key, value) ∈ entries)
    (h : ∀ field, fields.find? (fun field => field.key == key) = some field → ∀ old, field.set value old = none) :
    readSection fields defaults (.object entries) = none := by
  rw [readSection]
  split
  · refine foldlM_eq_none ⟨_, hmem, fun old => ?_⟩ defaults
    show (match fields.find? fun field => field.key == key with
      | some field => field.set value old
      | none => none) = none
    split
    next field hfield => exact h field hfield old
    next => rfl
  · rfl

/-- An item that cannot be read makes an array unusable. -/
theorem readSection_array {items : List JsonValue} {field : JsonField α} {value : JsonValue}
    (hmem : (field, value) ∈ fields.zip items) (h : ∀ old, field.set value old = none) :
    readSection fields defaults (.array items) = none := by
  rw [readSection]
  split
  · exact foldlM_eq_none ⟨_, hmem, h⟩ defaults
  · rfl

theorem readSection_of_isFaulty {keys : List String} (hkeys : fields.map JsonField.key = keys)
    (hnull : ∀ field ∈ fields, ∀ old, field.set .null old = none) {value : JsonValue}
    (h : JsonValue.IsFaulty keys value) : readSection fields defaults value = none := by
  cases h with
  | @unknown _ key _ hmem hkey =>
    refine readSection_object hmem fun field hfield => ?_
    have hfound : field.key = key := by simpa using List.find?_some hfield
    exact absurd (hkeys ▸ hfound ▸ List.mem_map_of_mem (List.mem_of_find?_eq_some hfield)) hkey
  | repeated hrepeated => rw [readSection, if_neg hrepeated]
  | null hmem => exact readSection_object hmem fun field hfield => hnull field (List.mem_of_find?_eq_some hfield)
  | @nullItem items hmem =>
    rw [readSection]
    split
    next hlength =>
      obtain ⟨i, hi, hitem⟩ := List.getElem_of_mem hmem
      have hzip : i < (fields.zip items).length := by
        rw [List.length_zip]
        omega
      refine foldlM_eq_none ⟨_, List.getElem_mem hzip, fun old => ?_⟩ defaults
      rw [List.getElem_zip, hitem]
      exact hnull _ (List.getElem_mem _) old
    next => rfl

theorem zip_of_forall₂ {β γ : Type} {R : JsonField α → β → Prop} {entries : List β}
    (h : List.Forall₂ R fields entries) : ∀ {items : List γ} {entry : β} {item : γ},
      (entry, item) ∈ entries.zip items → ∃ field, (field, item) ∈ fields.zip items ∧ R field entry := by
  induction h with
  | nil => exact nofun
  | @cons field first fields entries hfirst _ ih =>
    intro items entry item hmem
    cases items with
    | nil => cases hmem
    | cons other items =>
      rcases List.mem_cons.1 hmem with heq | hmem
      · cases heq
        exact ⟨field, List.mem_cons_self, hfirst⟩
      · obtain ⟨found, hfound, hR⟩ := ih hmem
        exact ⟨found, List.mem_cons_of_mem _ hfound, hR⟩

/-- A field of the settings that is a section takes no section that cannot be used. -/
def Refuses (field : JsonField Config) (entry : String × Option (List String)) : Prop :=
  ∀ inner ∈ entry.2, ∀ value, JsonValue.IsFaulty inner value → ∀ old, field.set value old = none

theorem refuses_section {β : Type} {key : String} {fields : List (JsonField β)} {defaults : β}
    {store : Config → β → Config} (hnull : ∀ field ∈ fields, ∀ old, field.set .null old = none) :
    Refuses (nestedField key fields defaults store) (key, some (fields.map JsonField.key)) := by
  rintro inner ⟨⟩ value h old
  show (readSection fields defaults value).map (store old) = none
  rw [readSection_of_isFaulty rfl hnull h]
  rfl

theorem Config.refuses :
    List.Forall₂ (fun field entry => field.key = entry.1 ∧ Refuses field entry) jsonFields keyTree :=
  .cons ⟨rfl, refuses_section (by simp [WellKnownNames.jsonFields, field, string?])⟩
    (.cons ⟨rfl, refuses_section (by simp [AnnotationTags.jsonFields, field, string?])⟩
    (.cons ⟨rfl, nofun⟩
    (.cons ⟨rfl, nofun⟩
    (.cons ⟨rfl, refuses_section (by simp [FieldRules.jsonFields, field, string?, strings?])⟩
    (.cons ⟨rfl, refuses_section (by simp [Metadata.jsonFields, field, nameLists?])⟩
    (.cons ⟨rfl, refuses_section (by simp [OutputLayout.jsonFields, field, string?, strings?, count?, newLine?])⟩
      .nil))))))

theorem Config.readSection_of_faulty {value : JsonValue} (h : Config.IsFaulty value) (defaults : Config) :
    readSection jsonFields defaults value = none := by
  cases h with
  | top h => exact readSection_of_isFaulty rfl (by simp [jsonFields, nestedField, field, nameLists?, readSection]) h
  | @entry entries key value inner hkey hmem h =>
    refine readSection_object hmem fun field hfield old => ?_
    obtain ⟨found, hfound, hrefuses⟩ := find?_of_forall₂ Config.refuses (by decide) hkey
    obtain rfl := Option.some.inj (hfield.symm.trans hfound)
    exact hrefuses inner rfl value h old
  | @item items key value inner hmem h =>
    obtain ⟨field, hfield, -, hrefuses⟩ := zip_of_forall₂ Config.refuses hmem
    exact readSection_array hfield (hrefuses inner rfl value h)

end Faults

section Replaced

variable {written : String → Bool}

theorem WellKnownNames.replace_all (h : ∀ key ∈ keys, written key = true) (old new : WellKnownNames) :
    replace written old new = new := by
  simp only [keys, entries, List.map_cons, List.map_nil, List.forall_mem_cons] at h
  simp only [replace, h, if_true]

theorem AnnotationTags.replace_all (h : ∀ key ∈ keys, written key = true) (old new : AnnotationTags) :
    replace written old new = new := by
  simp only [keys, entries, List.map_cons, List.map_nil, List.forall_mem_cons] at h
  simp only [replace, h, if_true]

theorem FieldRules.replace_all (h : ∀ key ∈ keys, written key = true) (old new : FieldRules) :
    replace written old new = new := by
  simp only [keys, entries, List.map_cons, List.map_nil, List.forall_mem_cons] at h
  simp only [replace, h, if_true]

theorem Metadata.replace_all (h : ∀ key ∈ keys, written key = true) (old new : Metadata) :
    replace written old new = new := by
  simp only [keys, entries, List.map_cons, List.map_nil, List.forall_mem_cons] at h
  simp only [replace, h, if_true]

theorem OutputLayout.replace_all (h : ∀ key ∈ keys, written key = true) (old new : OutputLayout) :
    replace written old new = new := by
  simp only [keys, entries, List.map_cons, List.map_nil, List.forall_mem_cons] at h
  simp only [replace, h, if_true]

/-- All fields are written, of the settings and of each section. -/
structure AllWritten (keys : List String) (inner : SectionKeys) : Prop where
  top : Config.keys ⊆ keys
  wellKnown : WellKnownNames.keys ⊆ inner.wellKnown
  annotations : AnnotationTags.keys ⊆ inner.annotations
  fields : FieldRules.keys ⊆ inner.fields
  metadata : Metadata.keys ⊆ inner.metadata
  output : OutputLayout.keys ⊆ inner.output

theorem AllWritten.replace_eq {keys : List String} {inner : SectionKeys} (h : AllWritten keys inner)
    (old new : Config) : Config.replace keys.contains inner old new = new := by
  have hcontains : ∀ {keys written : List String}, keys ⊆ written → ∀ key ∈ keys, written.contains key = true :=
    fun hsubset key hmem => List.contains_iff_mem.2 (hsubset hmem)
  have htop := hcontains h.top
  simp only [Config.keys, Config.keyTree, List.map_cons, List.map_nil, List.forall_mem_cons] at htop
  simp only [Config.replace, htop, if_true, WellKnownNames.replace_all (hcontains h.wellKnown),
    AnnotationTags.replace_all (hcontains h.annotations), FieldRules.replace_all (hcontains h.fields),
    Metadata.replace_all (hcontains h.metadata), OutputLayout.replace_all (hcontains h.output)]

end Replaced

/-- A text of settings overrides the defaults in the fields that it names, and in no others: where it names all,
the settings themselves are read. With anything behind it that is not white space it is refused, and so is each
text of settings in which a key is unknown or repeated or a field is null. -/
theorem Config.parse?_overrides (config : Config) (hconfig : config.IsStorable) {keys : List String}
    {inner : SectionKeys} {value : JsonValue} (hshows : config.Shows keys inner value) {document : Padded}
    (hwrites : Writes value document.text) :
    Config.parse? document.chars = some (Config.replace keys.contains inner {} config)
      ∧ (AllWritten keys inner → Config.parse? document.chars = some config)
      ∧ (∀ trailing, ¬IsBlank trailing → Config.parse? (document.chars ++ trailing) = none)
      ∧ ∀ (faulty : JsonValue) (spoiled : Padded), Config.IsFaulty faulty → Writes faulty spoiled.text →
        Config.parse? spoiled.chars = none := by
  have hread : Config.parse? document.chars = some (Config.replace keys.contains inner {} config) := by
    rw [Config.parse?, parse?_of_writes hwrites]
    exact read_of_shows hconfig hshows
  refine ⟨hread, fun hall => by rw [hread, hall.replace_eq], fun trailing htrailing => ?_,
    fun faulty spoiled hfaulty hspoiled => ?_⟩
  · have hparts : value.hasParts = true := by
      obtain ⟨-, -, -, -, -, ⟨⟩⟩ := hshows <;> rfl
    rw [Config.parse?, parse?_of_trailing hwrites hparts htrailing]
    rfl
  · rw [Config.parse?, parse?_of_writes hspoiled]
    exact readSection_of_faulty hfaulty {}

/-- A width of 120 in an array, in the only section that is written; its key has an escape. -/
theorem Config.parse?_of_width :
    Config.parse? " \x7b\"\\u006Futput\":[120]\x7d\n".toList = some { output := { columnWrap := 120 } }
      ∧ Config.parse? " \x7b\"\\u006Futput\":[120]\x7d\n,".toList = none
      ∧ Config.parse? "\x7b\"output\":[null]\x7d".toList = none := by
  have hletter : WritesChar 'o' ['\\', 'u', '0', '0', '6', 'F'] :=
    .unit (@WritesUnit.digits 0 0 6 15 _ _ _ _ (.lower (by decide)) (.lower (by decide)) (.lower (by decide))
      (.upper (by decide)))
  have hchars : WritesChars "output".toList ('\\' :: "u006Futput".toList) :=
    .cons hletter (writesChars_plain (by simp : ∀ c ∈ ['u', 't', 'p', 'u', 't'], _))
  have hcount : IsWhole ['1', '2', '0'] := .digits ⟨by decide, List.all_eq_true.1 (by decide)⟩ (by decide)
  have hwidth : Writes (ofCount 120) ['1', '2', '0'] := .number (.unsigned hcount .none .none)
  have hblank : IsBlank [' '] ∧ IsBlank ['\n'] := by simp [IsBlank]
  have hfaulty : Config.IsFaulty (.object [("output", .array [.null])]) :=
    .entry (by decide : ("output", some OutputLayout.keys) ∈ keyTree) List.mem_cons_self
      (.nullItem List.mem_cons_self)
  have hspoiled : Writes (.object [("output", .array [.null])]) "\x7b\"output\":[null]\x7d".toList :=
    writes_field (.quoted (writesChars_plain (by simp))) (writes_item .null)
  let config : Config := { output := { columnWrap := 120, newLine := .crlf } }
  have hshows : config.Shows ["output"] ⟨[], [], [], [], ["column_wrap"]⟩
      (.object [("output", .array [ofCount 120])]) :=
    .sections (.array List.nil_prefix) (.array List.nil_prefix) (.array List.nil_prefix) (.array List.nil_prefix)
      (@Shows.array _ [("column_wrap", ofCount 120)] (by simp [OutputLayout.entries, config]))
      (@Shows.object _ [("output", .array [ofCount 120])] (by simp [entries]) (by decide))
  let document : Padded := ⟨[' '], "\x7b\"\\u006Futput\":[120]\x7d".toList, ['\n'], hblank.1, hblank.2⟩
  have hdocument : Writes _ document.text := writes_field (.quoted hchars) (writes_item hwidth)
  obtain ⟨hread, -, htrailing, hrefused⟩ := Config.parse?_overrides config
    ⟨by decide, by decide, by decide, by decide, by decide, by decide⟩ hshows hdocument
  exact ⟨hread, htrailing [','] (by simp [IsBlank]), hrefused _ (.bare _) hfaulty hspoiled⟩

end NodeFactory
