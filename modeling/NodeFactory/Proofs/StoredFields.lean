import NodeFactory.Proofs.ScriptLanguage

/-!
# Values stored in a node

The fields of a kind are stored in a node in turn. A modifiers array goes into the field
`modifiers`, whatever the field is called that it was given for, and its flags are added to those of
the node. So each field comes to hold what was given for it (`field_stored`) if the name of every
modifiers array is that one. What is stored in one node changes no other object (`stored_of_ne`).
-/

namespace NodeFactory

open Script

namespace Script

/-- Nothing, or an object. -/
def Value.IsReference (value : Value) : Prop :=
  value = .undefined ∨ ∃ object, value = .object object

/-- What is passed: nothing, or an object that is there. -/
inductive IsGiven (heap : Heap) : Value → Prop
  | undefined : IsGiven heap .undefined
  | object {id : Nat} : id < heap.next → IsGiven heap (.object id)

theorem IsGiven.mono {heap heap' : Heap} {value : Value} (h : IsGiven heap value)
    (hle : heap.next ≤ heap'.next) : IsGiven heap' value := by
  cases h with
  | undefined => exact .undefined
  | object hid => exact .object (Nat.lt_of_lt_of_le hid hle)

theorem IsGiven.isReference {heap : Heap} {value : Value} (h : IsGiven heap value) :
    value.IsReference := by
  cases h with
  | undefined => exact .inl rfl
  | object _ => exact .inr ⟨_, rfl⟩

namespace Heap

/-- Stores modifiers, if there are any, together with their flags. -/
def addModifiers (heap : Heap) (id : Nat) : Value → Heap
  | .object modifiers =>
    (heap.set id "flags" (.number ((heap.field id "flags").bits
      ||| (heap.field modifiers "flags").bits))).set id "modifiers" (.object modifiers)
  | _ => heap

/-- Stores what is given for a field of a kind. -/
def store (given : Field → Value) (id : Nat) (heap : Heap) (field : Field) : Heap :=
  match field.fieldClass with
  | .modifiersArray => heap.addModifiers id (given field)
  | _ => heap.set id field.name (given field)

variable {heap : Heap} {id other : Nat} {name key : String} {value : Value}

@[simp] theorem field_set_self : (heap.set id name value).field id name = value :=
  if_pos ⟨rfl, rfl⟩

theorem field_set_of_ne (h : other ≠ id) : (heap.set id name value).field other key
    = heap.field other key :=
  if_neg fun heq => h heq.1

theorem field_set_of_name_ne (h : key ≠ name) : (heap.set id name value).field other key
    = heap.field other key :=
  if_neg fun heq => h heq.2

section Store

variable {given : Field → Value} {field : Field}

theorem store_modifiers (h : field.fieldClass = .modifiersArray) :
    heap.store given id field = heap.addModifiers id (given field) := by
  unfold store
  rw [h]

theorem store_field (h : field.fieldClass ≠ .modifiersArray) :
    heap.store given id field = heap.set id field.name (given field) := by
  unfold store
  split
  · exact absurd ‹_› h
  · rfl

theorem next_store : (heap.store given id field).next = heap.next := by
  by_cases h : field.fieldClass = .modifiersArray
  · rw [store_modifiers h]
    cases given field <;> rfl
  · rw [store_field h]
    rfl

end Store

end Heap

end Script

section Stored

variable {given : Field → Value} {heap : Heap} {id other : Nat} {fields : List Field} {key : String}

theorem addModifiers_of_ne {value : Value} (h : other ≠ id) :
    (heap.addModifiers id value).field other key = heap.field other key := by
  cases value with
  | object modifiers => rw [Heap.addModifiers, Heap.field_set_of_ne h, Heap.field_set_of_ne h]
  | undefined | number _ => rfl

theorem store_of_ne {field : Field} (h : other ≠ id) :
    (heap.store given id field).field other key = heap.field other key := by
  by_cases hclass : field.fieldClass = .modifiersArray
  · rw [Heap.store_modifiers hclass, addModifiers_of_ne h]
  · rw [Heap.store_field hclass, Heap.field_set_of_ne h]

theorem stored_of_ne (h : other ≠ id) (fields : List Field) : ∀ heap : Heap,
    (fields.foldl (Heap.store given id) heap).field other key = heap.field other key := by
  induction fields with
  | nil => exact fun _ => rfl
  | cons field fields ih =>
    intro heap
    rw [List.foldl_cons, ih, store_of_ne h]

theorem store_of_name_ne {field : Field}
    (hnamed : field.fieldClass = .modifiersArray → field.name = "modifiers")
    (hflags : key ≠ "flags") (hne : key ≠ field.name) :
    (heap.store given id field).field id key = heap.field id key := by
  by_cases hclass : field.fieldClass = .modifiersArray
  · rw [Heap.store_modifiers hclass]
    cases given field with
    | object modifiers =>
      rw [Heap.addModifiers, Heap.field_set_of_name_ne (hnamed hclass ▸ hne),
        Heap.field_set_of_name_ne hflags]
    | undefined | number _ => rfl
  · rw [Heap.store_field hclass, Heap.field_set_of_name_ne hne]

theorem store_self {field : Field}
    (hnamed : field.fieldClass = .modifiersArray → field.name = "modifiers")
    (hgiven : (given field).IsReference)
    (hundefined : heap.field id field.name = .undefined) :
    (heap.store given id field).field id field.name = given field := by
  by_cases hclass : field.fieldClass = .modifiersArray
  · rw [Heap.store_modifiers hclass, hnamed hclass]
    rcases hgiven with h | ⟨object, h⟩
    · rw [h, Heap.addModifiers, ← hnamed hclass, hundefined]
      simp
    · rw [h, Heap.addModifiers, Heap.field_set_self]
  · rw [Heap.store_field hclass, Heap.field_set_self]

theorem stored_of_name_ne (hflags : key ≠ "flags")
    (hnamed : ∀ field ∈ fields, field.fieldClass = .modifiersArray → field.name = "modifiers")
    (hne : ∀ field ∈ fields, key ≠ field.name) :
    (fields.foldl (Heap.store given id) heap).field id key = heap.field id key := by
  induction fields generalizing heap with
  | nil => rfl
  | cons field fields ih =>
    rw [List.forall_mem_cons] at hnamed hne
    rw [List.foldl_cons, ih hnamed.2 hne.2, store_of_name_ne hnamed.1 hflags hne.1]

/-- In a node without fields, each field comes to hold what is given for it. -/
theorem field_stored (hnodup : (fields.map Field.name).Nodup)
    (hflags : ∀ field ∈ fields, field.name ≠ "flags")
    (hnamed : ∀ field ∈ fields, field.fieldClass = .modifiersArray → field.name = "modifiers")
    (hgiven : ∀ field ∈ fields, (given field).IsReference)
    (hundefined : ∀ field ∈ fields, heap.field id field.name = .undefined) {field : Field}
    (hmem : field ∈ fields) :
    (fields.foldl (Heap.store given id) heap).field id field.name = given field := by
  induction fields generalizing heap with
  | nil => cases hmem
  | cons first fields ih =>
    rw [List.map_cons, List.nodup_cons] at hnodup
    rw [List.forall_mem_cons] at hflags hnamed hgiven hundefined
    have hne : ∀ other ∈ fields, first.name ≠ other.name :=
      fun other hother heq => hnodup.1 (heq ▸ List.mem_map_of_mem hother)
    rw [List.foldl_cons]
    rcases List.mem_cons.1 hmem with rfl | hmem
    · -- The fields that are stored later have other names.
      rw [stored_of_name_ne hflags.1 hnamed.2 hne, store_self hnamed.1 hgiven.1 hundefined.1]
    · refine ih hnodup.2 hflags.2 hnamed.2 hgiven.2 (fun other hother => ?_) hmem
      rw [store_of_name_ne hnamed.1 (hflags.2 other hother) (hne other hother).symm]
      exact hundefined.2 other hother

theorem store_holds {P : Value → Prop} {field : Field} (hflags : key ≠ "flags")
    (hgiven : P (given field)) (h : P (heap.field id key)) :
    P ((heap.store given id field).field id key) := by
  by_cases hclass : field.fieldClass = .modifiersArray
  · rw [Heap.store_modifiers hclass]
    cases hvalue : given field with
    | undefined | number _ => exact h
    | object modifiers =>
      rw [Heap.addModifiers]
      by_cases hkey : key = "modifiers"
      · rw [hkey, Heap.field_set_self, ← hvalue]
        exact hgiven
      · rwa [Heap.field_set_of_name_ne hkey, Heap.field_set_of_name_ne hflags]
  · rw [Heap.store_field hclass]
    by_cases hkey : key = field.name
    · rwa [hkey, Heap.field_set_self]
    · rwa [Heap.field_set_of_name_ne hkey]

/-- What holds of all that is stored and of what a field held before holds of what it holds then. -/
theorem stored_holds {P : Value → Prop} (hflags : key ≠ "flags")
    (hgiven : ∀ field ∈ fields, P (given field)) (h : P (heap.field id key)) :
    P ((fields.foldl (Heap.store given id) heap).field id key) := by
  induction fields generalizing heap with
  | nil => exact h
  | cons field fields ih =>
    rw [List.forall_mem_cons] at hgiven
    exact ih hgiven.2 (store_holds hflags hgiven.1 h)

end Stored

end NodeFactory
