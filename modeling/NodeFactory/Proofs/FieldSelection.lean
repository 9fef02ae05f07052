import Mathlib.Data.List.DropRight
import NodeFactory.Proofs.FieldClasses
import NodeFactory.Proofs.PropertyLists
import NodeFactory.Proofs.StableSort

/-!
# Which properties become fields

A property becomes a field if no rule drops it, it has a type, and it is a child or marked for the
constructor (`BecomesField`). Selection keeps the fields of these properties and no others, each
once and as it is declared; those with a place in the list for the kind come first, in the order of
their places, and the others follow as their properties do (`select_finds`). The required count is
taken before the fields are put in this order.
-/

namespace NodeFactory.Model

open Memo List

variable (model : Model) (target : Target)

/-- A property is dropped. The list for the kind comes first, and of the rules only the first that
applies counts: the one for modifier fields, the one for the optional marker, and the one for the
members of the node interface and for the parent. -/
inductive Drops (property : Property) : Prop
  | excluded : property.name ∈ model.config.memberExcludes.get target.kind → Drops property
  | modifier : property.name ∈ model.config.fields.modifierFields →
      (target.isDeclaration = false
        ∨ target.declaringType ∈ model.config.fields.modifierExemptTypes) → Drops property
  | optionalMarker : property.name ∉ model.config.fields.modifierFields →
      property.name = model.config.fields.optionalMarkerField →
      target.declaringType ∈ model.config.fields.optionalMarkerExemptTypes → Drops property
  | ofNode {node : SymbolId} : property.name ∉ model.config.fields.modifierFields →
      property.name ≠ model.config.fields.optionalMarkerField →
      model.wellKnown.node = some node → property.owner = some node → Drops property
  | parent : property.name ∉ model.config.fields.modifierFields →
      property.name ≠ model.config.fields.optionalMarkerField →
      property.name = model.config.fields.parentField → Drops property

/-- A property is passed to the constructor alone: the mark occurs in one of its leading comments,
or the metadata list it for the declaring type. -/
def IsFactoryParam (property : Property) : Prop :=
  (∃ span ∈ property.comments,
      model.config.annotations.factoryParam.toList <:+: model.textOf span)
    ∨ ∃ names, model.config.metadata.factoryParams.find? target.declaringType = some names
      ∧ property.name ∈ names

/-- A property becomes a field. -/
def BecomesField (property : Property) : Prop :=
  ¬ model.Drops target property ∧ ∃ type fieldClass, property.type = some type
    ∧ model.HasClass type property.site fieldClass
    ∧ (fieldClass ≠ .plain ∨ model.IsFactoryParam target property)

/-- A field is what a property becomes: with its name, the text of its type and its optionality. -/
structure IsFieldOf (property : Property) (field : Field) : Prop where
  becomes : model.BecomesField target property
  name : field.name = property.name
  typed : ∃ type, property.type = some type
    ∧ field.typeText = String.ofList (model.textOf type.span)
    ∧ model.HasClass type property.site field.fieldClass
  isOptional : field.isOptional = property.optional
  isFactoryOnly : field.isFactoryOnly = true ↔ model.IsFactoryParam target property

/-- The fields of the properties that become one, in their order. -/
inductive Keeps : List Property → List Field → Prop
  | nil : Keeps [] []
  | field {property : Property} {field : Field} {properties : List Property} {fields : List Field} :
      model.IsFieldOf target property field → Keeps properties fields →
        Keeps (property :: properties) (field :: fields)
  | skip {property : Property} {properties : List Property} {fields : List Field} :
      ¬ model.BecomesField target property → Keeps properties fields →
        Keeps (property :: properties) fields

/-- The place of a field in the list for the kind. -/
def place? (field : Field) : Option Nat :=
  model.config.memberOrder.position? target.kind field.name

/-- The number of fields up to and with the last that is not optional. -/
inductive CountsRequired (fields : List Field) : Nat → Prop
  | none : (∀ field ∈ fields, field.isOptional = true) → CountsRequired fields 0
  | upTo {before after : List Field} {last : Field} :
      fields = before ++ last :: after → last.isOptional = false →
      (∀ field ∈ after, field.isOptional = true) → CountsRequired fields (before.length + 1)

/-- What is selected from properties, where `inOrder` are the fields in the order of the
properties. -/
structure IsSelection (properties : List Property) (inOrder : List Field) (selection : Selection) :
    Prop where
  becomes_iff : ∀ property ∈ properties, model.BecomesField target property ↔
    ∃ field ∈ selection.fields, field.name = property.name
  isFieldOf : ∀ field ∈ selection.fields,
    ∃ property ∈ properties, model.IsFieldOf target property field
  nodup : (selection.fields.map Field.name).Nodup
  perm : inOrder.Perm selection.fields
  ordered : (inOrder.map Field.name).Sublist (Property.names properties)
  placed : ∃ placed, selection.fields
      = placed ++ inOrder.filter (fun field => (model.place? target field).isNone)
    ∧ placed.Pairwise (fun a b => ∃ i j, model.place? target a = some i
      ∧ model.place? target b = some j ∧ i < j)
    ∧ ∀ field ∈ placed, (model.place? target field).isSome
  required : CountsRequired inOrder selection.requiredCount
  required_le : selection.requiredCount ≤ selection.fields.length

variable {model target}

section Rules

variable {property : Property}

theorem occursIn_iff {part : List Char} : ∀ {text : List Char},
    occursIn part text = true ↔ part <:+: text
  | [] => by
    rw [occursIn, List.isEmpty_iff, List.infix_nil]
  | c :: cs => by
    rw [occursIn, Bool.or_eq_true, List.isPrefixOf_iff_prefix, occursIn_iff, List.infix_cons_iff]

theorem isFactoryOnly_iff :
    model.isFactoryOnly target.declaringType property = true
      ↔ model.IsFactoryParam target property := by
  unfold isFactoryOnly IsFactoryParam
  rw [Bool.or_eq_true, List.any_eq_true, List.contains_iff_mem]
  simp only [occursIn_iff]
  cases model.config.metadata.factoryParams.find? target.declaringType <;> simp

theorem isExcluded_iff : model.isExcluded target property = true ↔ model.Drops target property := by
  unfold isExcluded
  simp only []
  constructor
  · intro h
    split at h
    · rename_i hlisted
      exact .excluded (List.contains_iff_mem.1 hlisted)
    · split at h
      · rename_i hmodifier
        refine .modifier (List.contains_iff_mem.1 hmodifier) ?_
        simpa using h
      · rename_i hmodifier
        have hmodifier := fun hmem => hmodifier (List.contains_iff_mem.2 hmem)
        split at h
        · rename_i hmarker
          exact .optionalMarker hmodifier hmarker (List.contains_iff_mem.1 h)
        · rename_i hmarker
          rw [Bool.or_eq_true, Bool.and_eq_true, beq_iff_eq, beq_iff_eq] at h
          rcases h with ⟨hnode, howner⟩ | hparent
          · obtain ⟨node, hnode⟩ := Option.isSome_iff_exists.1 hnode
            exact .ofNode hmodifier hmarker hnode (howner.trans hnode)
          · exact .parent hmodifier hmarker hparent
  · intro h
    split
    · rfl
    · rename_i hlisted
      cases h with
      | excluded hmem => exact absurd (List.contains_iff_mem.2 hmem) hlisted
      | modifier hmem hrule =>
        rw [if_pos (List.contains_iff_mem.2 hmem)]
        simpa using hrule
      | optionalMarker hmodifier hmarker hrule =>
        rw [if_neg (fun h => hmodifier (List.contains_iff_mem.1 h)), if_pos hmarker]
        exact List.contains_iff_mem.2 hrule
      | ofNode hmodifier hmarker hnode howner =>
        rw [if_neg (fun h => hmodifier (List.contains_iff_mem.1 h)), if_neg hmarker, howner, hnode]
        simp
      | parent hmodifier hmarker hparent =>
        rw [if_neg (fun h => hmodifier (List.contains_iff_mem.1 h)), if_neg hmarker, hparent]
        simp

end Rules

section Kept

variable {property : Property} {properties : List Property} {fields : List Field}

/-- A cycle is named that stands between the type of a property that is not dropped and the node
interface. -/
def NamesCycleOf (model : Model) (target : Target) (property : Property) (cycle : CyclicType) :
    Prop :=
  ¬ model.Drops target property ∧ ∃ type, property.type = some type
    ∧ model.NamesCycle type property.site cycle

theorem fieldOf?_finds (model : Model) (target : Target) (property : Property) :
    Finds (AtRest (Subtype.rule model.table)) (model.fieldOf? target property)
      (fun field? => match field? with
        | some field => model.IsFieldOf target property field
        | none => ¬ model.BecomesField target property)
      (model.NamesCycleOf target property) := by
  unfold fieldOf?
  split
  · rename_i hdrops
    exact .pure fun h => h.1 (isExcluded_iff.1 hdrops)
  · rename_i hdrops
    have hdrops := fun h => hdrops (isExcluded_iff.2 h)
    split
    · rename_i type htype
      refine (classify_finds model type property.site).bind (fun fieldClass hclass => ?_)
        fun cycle hcycle => ⟨hdrops, type, htype, hcycle⟩
      simp only []
      split
      · rename_i hkept
        refine .pure ?_
        -- The class of the type is the only one it has, so there is no other way to become a field.
        rintro ⟨-, type', fieldClass', htype', hclass', hkept'⟩
        obtain rfl := Option.some.inj (htype.symm.trans htype')
        obtain rfl := hclass.unique hclass'
        rw [Bool.and_eq_true, Bool.not_eq_true', Bool.not_eq_true'] at hkept
        rcases hkept' with hchild | hfactory
        · exact hchild (isChild_eq_false.1 hkept.1)
        · exact Bool.false_ne_true (hkept.2.symm.trans (isFactoryOnly_iff.2 hfactory))
      · rename_i hkept
        refine .pure ⟨⟨hdrops, type, fieldClass, htype, hclass, ?_⟩, rfl,
          ⟨type, htype, rfl, hclass⟩,
          rfl, isFactoryOnly_iff⟩
        by_contra hneither
        obtain ⟨hplain, hfactory⟩ := not_or.1 hneither
        refine hkept ?_
        rw [Bool.and_eq_true, Bool.not_eq_true', Bool.not_eq_true']
        exact ⟨isChild_eq_false.2 (not_not.1 hplain),
          eq_false_of_ne_true fun h => hfactory (isFactoryOnly_iff.1 h)⟩
    · rename_i htype
      refine .pure ?_
      rintro ⟨-, type, fieldClass, htype', -⟩
      exact htype type htype'

theorem fieldsOf_finds (model : Model) (target : Target) : ∀ properties : List Property,
    Finds (AtRest (Subtype.rule model.table)) (model.fieldsOf target properties)
      (model.Keeps target properties)
      (fun cycle => ∃ property ∈ properties, model.NamesCycleOf target property cycle)
  | [] => .pure .nil
  | property :: properties => by
    unfold fieldsOf
    refine (fieldOf?_finds model target property).bind (fun field? hfield => ?_)
      fun cycle hcycle => ⟨property, mem_cons_self, hcycle⟩
    refine (fieldsOf_finds model target properties).bind (fun fields hfields => .pure ?_) ?_
    · cases field? with
      | some field => exact .field hfield hfields
      | none => exact .skip hfield hfields
    · rintro cycle ⟨property', hmem, hcycle⟩
      exact ⟨property', mem_cons_of_mem _ hmem, hcycle⟩

variable (hkeeps : model.Keeps target properties fields)
include hkeeps

theorem Keeps.sublist : (fields.map Field.name).Sublist (Property.names properties) := by
  induction hkeeps with
  | nil => exact .slnil
  | field hfield _ ih =>
    rw [Property.names, List.map_cons, List.map_cons, hfield.name]
    exact ih.cons_cons _
  | skip _ _ ih => exact ih.cons _

theorem Keeps.isFieldOf {field : Field} (hmem : field ∈ fields) :
    ∃ property ∈ properties, model.IsFieldOf target property field := by
  induction hkeeps with
  | nil => exact absurd hmem not_mem_nil
  | field hfield _ ih =>
    rcases mem_cons.1 hmem with rfl | hmem
    · exact ⟨_, mem_cons_self, hfield⟩
    · obtain ⟨property, hproperty, hfield⟩ := ih hmem
      exact ⟨property, mem_cons_of_mem _ hproperty, hfield⟩
  | skip _ _ ih =>
    obtain ⟨property, hproperty, hfield⟩ := ih hmem
    exact ⟨property, mem_cons_of_mem _ hproperty, hfield⟩

theorem Keeps.exists_field (hmem : property ∈ properties)
    (hbecomes : model.BecomesField target property) :
    ∃ field ∈ fields, field.name = property.name := by
  induction hkeeps with
  | nil => exact absurd hmem not_mem_nil
  | field hfield _ ih =>
    rcases mem_cons.1 hmem with rfl | hmem
    · exact ⟨_, mem_cons_self, hfield.name⟩
    · obtain ⟨field, hfield, hname⟩ := ih hmem
      exact ⟨field, mem_cons_of_mem _ hfield, hname⟩
  | skip hnot _ ih =>
    rcases mem_cons.1 hmem with rfl | hmem
    · exact absurd hbecomes hnot
    · exact ih hmem

theorem Keeps.becomes_iff (hnames : (Property.names properties).Nodup)
    (hmem : property ∈ properties) :
    model.BecomesField target property ↔ ∃ field ∈ fields, field.name = property.name := by
  refine ⟨hkeeps.exists_field hmem, ?_⟩
  rintro ⟨field, hfield, hname⟩
  obtain ⟨property', hmem', hfield'⟩ := hkeeps.isFieldOf hfield
  -- No two properties share the name, so the field is that of the property.
  obtain rfl : property' = property :=
    inj_on_of_nodup_map hnames hmem' hmem (hfield'.name.symm.trans hname)
  exact hfield'.becomes

end Kept

section Order

variable {a b c : Field} {fields : List Field}

theorem precedes_eq : model.precedes target.kind a b =
    match model.place? target a, model.place? target b with
    | some i, some j => decide (i ≤ j)
    | none, some _ => false
    | _, none => true := rfl

theorem precedes_trans (a b c : Field) (hab : model.precedes target.kind a b = true)
    (hbc : model.precedes target.kind b c = true) : model.precedes target.kind a c = true := by
  rw [precedes_eq] at *
  cases ha : model.place? target a <;> cases hb : model.place? target b <;>
    cases hc : model.place? target c <;> simp_all
  omega

theorem precedes_total (a b : Field) :
    (model.precedes target.kind a b || model.precedes target.kind b a) = true := by
  rw [precedes_eq, precedes_eq]
  cases model.place? target a <;> cases model.place? target b <;> simp
  omega

theorem name_eq_of_place {i : Nat} (ha : model.place? target a = some i)
    (hb : model.place? target b = some i) : a.name = b.name := by
  obtain ⟨_, ha, -⟩ := idxOf?_eq_some_iff.1 ha
  obtain ⟨_, hb, -⟩ := idxOf?_eq_some_iff.1 hb
  exact ha.symm.trans hb

theorem place_lt (hab : model.precedes target.kind a b = true) (hname : a.name ≠ b.name)
    (ha : (model.place? target a).isSome = true) (hb : (model.place? target b).isSome = true) :
    ∃ i j, model.place? target a = some i ∧ model.place? target b = some j ∧ i < j := by
  obtain ⟨i, hi⟩ := Option.isSome_iff_exists.1 ha
  obtain ⟨j, hj⟩ := Option.isSome_iff_exists.1 hb
  rw [precedes_eq, hi, hj] at hab
  have hle : i ≤ j := of_decide_eq_true hab
  have hne : i ≠ j := fun heq => hname (name_eq_of_place hi (heq ▸ hj))
  exact ⟨i, j, hi, hj, by omega⟩

theorem isSome_of_precedes (hab : model.precedes target.kind a b = true)
    (hb : (model.place? target b).isSome = true) : (model.place? target a).isSome = true := by
  obtain ⟨j, hj⟩ := Option.isSome_iff_exists.1 hb
  rw [precedes_eq, hj] at hab
  cases ha : model.place? target a with
  | some i => rfl
  | none => rw [ha] at hab; cases hab

theorem precedes_of_isNone (hb : (model.place? target b).isNone = true) :
    model.precedes target.kind a b = true := by
  rw [precedes_eq, Option.isNone_iff_eq_none.1 hb]
  cases model.place? target a <;> rfl

/-- Fields in their final order: those with a place by their places, and then the others as they
were. -/
theorem sorted_spec (model : Model) (target : Target) (hnames : (fields.map Field.name).Nodup) :
    ∃ placed, fields.mergeSort (model.precedes target.kind)
        = placed ++ fields.filter (fun field => (model.place? target field).isNone)
      ∧ placed.Pairwise (fun a b => ∃ i j, model.place? target a = some i
        ∧ model.place? target b = some j ∧ i < j)
      ∧ ∀ field ∈ placed, (model.place? target field).isSome = true := by
  have hsorted : (fields.mergeSort (model.precedes target.kind)).Pairwise
      fun a b => model.precedes target.kind a b = true :=
    pairwise_mergeSort precedes_trans precedes_total fields
  have hdistinct : (fields.mergeSort (model.precedes target.kind)).Pairwise
      fun a b => a.name ≠ b.name :=
    pairwise_map.1 (((mergeSort_perm fields _).map Field.name).nodup_iff.2 hnames)
  refine ⟨(fields.mergeSort (model.precedes target.kind)).filter
    fun field => (model.place? target field).isSome, ?_, ?_, fun _ => of_mem_filter⟩
  · conv_lhs => rw [eq_filter_append_filter (hsorted.imp isSome_of_precedes)]
    congr 1
    simp only [Option.not_isSome]
    exact filter_mergeSort precedes_trans precedes_total
      (fun _ _ _ hb => precedes_of_isNone hb) fields
  · refine pairwise_filter.2 ((hsorted.and hdistinct).imp ?_)
    rintro a b ⟨hab, hname⟩ ha hb
    exact place_lt hab hname ha hb

end Order

section Selected

theorem requiredCount_eq (fields : List Field) :
    requiredCount fields = (fields.rdropWhile Field.isOptional).length := by
  rw [requiredCount, rdropWhile, length_reverse]

theorem countsRequired_requiredCount (fields : List Field) :
    CountsRequired fields (requiredCount fields) := by
  rw [requiredCount_eq]
  have hsplit := rdropWhile_append_rtakeWhile (l := fields) (p := Field.isOptional)
  have hafter : ∀ field ∈ fields.rtakeWhile Field.isOptional, field.isOptional = true :=
    fun _ => mem_rtakeWhile_imp
  rcases eq_nil_or_concat' (fields.rdropWhile Field.isOptional) with hnil | ⟨before, last, hlast⟩
  · rw [hnil]
    exact .none (rdropWhile_eq_nil_iff.1 hnil)
  · have hrequired : last.isOptional = false := by
      have hne : fields.rdropWhile Field.isOptional ≠ [] := by simp [hlast]
      have := rdropWhile_last_not Field.isOptional fields hne
      simpa [hlast] using this
    rw [hlast, append_assoc] at hsplit
    rw [hlast, length_append]
    exact .upTo hsplit.symm hrequired hafter

theorem requiredCount_le (fields : List Field) : requiredCount fields ≤ fields.length := by
  rw [requiredCount_eq]
  have hbegins := rdropWhile_prefix Field.isOptional fields
  exact hbegins.length_le

/-- Selection finds the fields that the properties become, or else it names a cycle. -/
theorem select_finds (model : Model) (target : Target) {properties : List Property}
    (hnames : (Property.names properties).Nodup) :
    Finds (AtRest (Subtype.rule model.table)) (model.select target properties)
      (fun selection => ∃ inOrder, model.IsSelection target properties inOrder selection)
      (fun cycle => ∃ property ∈ properties, model.NamesCycleOf target property cycle) := by
  unfold select
  refine (fieldsOf_finds model target properties).bind (fun fields hkeeps => .pure ⟨fields, ?_⟩)
    fun _ h => h
  have hperm := mergeSort_perm fields (model.precedes target.kind)
  have hdistinct : (fields.map Field.name).Nodup := hkeeps.sublist.nodup hnames
  exact {
    becomes_iff := fun property hmem => by
      simp only [hkeeps.becomes_iff hnames hmem, hperm.mem_iff]
    isFieldOf := fun field hmem => hkeeps.isFieldOf (hperm.mem_iff.1 hmem)
    nodup := (hperm.map Field.name).nodup_iff.2 hdistinct
    perm := hperm.symm
    ordered := hkeeps.sublist
    placed := sorted_spec model target hdistinct
    required := countsRequired_requiredCount fields
    required_le := by
      rw [hperm.length_eq]
      exact requiredCount_le fields }

/-- A schema with the two interfaces that make types children. -/
def blockModel : Model where
  config := { memberExcludes := ⟨[("Block", ["kind"])]⟩, memberOrder := ⟨[("*", ["label"])]⟩ }
  text := "NodeArray<Node> Node".toList
  table := {
    symbols := #[⟨"Node", .interfaceKind, [0], none, [], none⟩,
      ⟨"NodeArray", .interfaceKind, [1], none, [], none⟩]
    declarations := #[⟨.interfaceDecl ⟨⟨"Node", ⟨0, 0⟩⟩, [], [], []⟩, 0, none, []⟩,
      ⟨.interfaceDecl ⟨⟨"NodeArray", ⟨0, 0⟩⟩, [], [], []⟩, 1, none, []⟩]
    globals := [("Node", 0), ("NodeArray", 1)] }
  wellKnown := { node := some 0, nodeArray := some 1 }

def blockTarget : Target := ⟨"Block", "Block", false⟩

def blockProperties : List Property := [
  ⟨"kind", none, false, [], none, 0⟩,
  ⟨"statements", some ⟨.reference ⟨⟨"NodeArray", ⟨0, 9⟩⟩, [], ⟨0, 9⟩⟩ [], ⟨0, 15⟩⟩,
    false, [], none, 0⟩,
  ⟨"label", some ⟨.reference ⟨⟨"Node", ⟨16, 20⟩⟩, [], ⟨16, 20⟩⟩ [], ⟨16, 20⟩⟩,
    true, [], none, 0⟩]

end Selected

end NodeFactory.Model
