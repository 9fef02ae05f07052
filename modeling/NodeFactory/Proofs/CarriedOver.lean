import NodeFactory.Proofs.Updating

/-!
# What an update carries over

Where something is passed that a node does not hold, an updater constructs a new node from what is
passed and from the other fields of the old one. The helper then gives it the position and the
parent of the old node, and flags. Of the flags of the old node it keeps those that its modifiers
have, and not the others (`carriedFlags`): a flag that no modifier has is lost if there are
modifiers.
-/

namespace NodeFactory

open Script

namespace Script

/-- Flags combined with those of the modifiers of a node, if it has modifiers. -/
def Heap.combineFlags (heap : Heap) (operator : Operator) (node : Nat) (flags : Value) : Value :=
  match heap.field node "modifiers" with
  | .object modifiers => operator.apply flags (heap.field modifiers "flags")
  | _ => flags

/-- The flags of an updated node: those of the old one that its modifiers have, or all if it has
none, and those of the new modifiers. -/
def Heap.carriedFlags (heap : Heap) (old new : Nat) : Value :=
  heap.combineFlags .union new (heap.combineFlags .inter old (heap.field old "flags"))

/-- The new node with what it has from the old one. -/
def Heap.carryOver (heap : Heap) (old new : Nat) : Heap :=
  (((heap.set new "flags" (heap.carriedFlags old new)).set new "pos" (heap.field old "pos")).set new
    "end" (heap.field old "end")).set new "parent" (heap.field old "parent")

section Helper

variable {heap : Heap} {context : Context} {arguments : List Value} {old new : Nat} {flags : Value}

def updateScope (flags : Value) (old new : Nat) : Scope :=
  [("flags", some flags), ("oldNode", some (.object old)), ("newNode", some (.object new))]

theorem combineFlags_run {operator : Operator} {name : String} {node : Nat}
    (hnode : (updateScope flags old new).lookup name = some (some (.object node)))
    (hmodifiers : (heap.field node "modifiers").IsReference) :
    (Script.Statement.cond (.holds ⟨name, ["modifiers"]⟩)
        [.assign (.var "flags") operator ⟨name, ["modifiers", "flags"]⟩]).run context
        (updateScope flags old new) arguments heap
      = .ok (.next (updateScope (heap.combineFlags operator node flags) old new)) heap := by
  have hread : (Path.mk name ["modifiers"]).read context (updateScope flags old new) heap
      = .ok (heap.field node "modifiers") heap := read_field (readVar_of_lookup hnode)
  have hcondition : (Condition.holds ⟨name, ["modifiers"]⟩).run context (updateScope flags old new)
      arguments heap = .ok (heap.field node "modifiers").isTruthy heap := by
    rw [Condition.run, run_bind hread]
    rfl
  unfold Heap.combineFlags
  rcases hmodifiers with h | ⟨modifiers, h⟩
  · rw [h] at hcondition ⊢
    exact cond_run_false hcondition
  · have hvar : (updateScope flags old new).lookup "flags" = some (some flags) :=
      List.lookup_cons_self
    have hflags : (Path.mk name ["modifiers", "flags"]).read context (updateScope flags old new)
        heap = .ok (heap.field modifiers "flags") heap := read_field_field (readVar_of_lookup hnode) h
    have hassign : (Action.assign (.var "flags") operator ⟨name, ["modifiers", "flags"]⟩).run
        context (updateScope flags old new) heap
        = .ok (.next (updateScope (operator.apply flags (heap.field modifiers "flags")) old new))
          heap := by
      rw [Action.run, run_bind (assign_var hvar hflags)]
      rfl
    rw [h] at hcondition ⊢
    rw [cond_run_true hcondition]
    exact runBlock_next rfl (runActions_next hassign)

theorem setField_run {name : String} {value : Value} {path : Path}
    (hread : path.read context (updateScope flags old new) heap = .ok value heap) :
    (Script.Statement.act (.assign (.field "newNode" name) .set path)).run context
        (updateScope flags old new) arguments heap
      = .ok (.next (updateScope flags old new)) (heap.set new name value) := by
  have hnew : (updateScope flags old new).lookup "newNode" = some (some (.object new)) := rfl
  rw [Script.Statement.run, Action.run, run_bind (assign_field hnew hread)]
  rfl

/-- The helper gives the new node, with what it has from the old one. -/
theorem updateFrom_run (hne : old ≠ new)
    (hold : (heap.field old "modifiers").IsReference)
    (hnew : (heap.field new "modifiers").IsReference) :
    updateFrom.run context [.object old, .object new] heap
      = .ok (.object new) (heap.carryOver old new) := by
  refine function_run_done ?_
  have hdeclare : (Script.Statement.act (.declare "flags" (.read ⟨"oldNode", ["flags"]⟩))).run
      context [("flags", none), ("oldNode", some (.object old)), ("newNode", some (.object new))]
      [.object old, .object new] heap
      = .ok (.next (updateScope (heap.field old "flags") old new)) heap := rfl
  have holdNode : ∀ (flags : Value) (heap : Heap) (name : String),
      (Path.mk "oldNode" [name]).read context (updateScope flags old new) heap
        = .ok (heap.field old name) heap := fun _ _ _ => read_field rfl
  change runStatements context [.object old, .object new]
    [("flags", none), ("oldNode", some (.object old)), ("newNode", some (.object new))]
    updateFrom.body heap = _
  unfold updateFrom
  rw [runStatements_next hdeclare, runStatements_next (combineFlags_run rfl hold),
    runStatements_blank, runStatements_next (combineFlags_run rfl hnew), runStatements_blank,
    runStatements_next (setField_run (read_var rfl)),
    runStatements_next (setField_run (holdNode _ _ "pos")),
    runStatements_next (setField_run (holdNode _ _ "end")),
    runStatements_next (setField_run (holdNode _ _ "parent"))]
  -- Only the new node is written, so the old one is read as it was.
  simp only [Heap.field_set_of_ne hne]
  rfl

end Helper

end Script

section Changed

variable {config : Config} {kind : NodeKind} {updater : Updater} {kindEnum depth node : Nat}
  {given : Field → Value} {heap : Heap}

/-- What an updater passes to the constructor: what it is passed itself, and for the other fields
what the node holds. -/
def passed (given : Field → Value) (heap : Heap) (node : Nat) (field : Field) : Value :=
  if field.isFactoryOnly then heap.field node field.name else given field

/-- No parameter hides what an updater uses to make a node. -/
def NodeKind.UpdateNamesApart (kind : NodeKind) : Prop :=
  ∀ field ∈ kind.fields, field.paramName ∉ ["newNode", "updateFrom", "create" ++ kind.name]

theorem call_updateFrom (hkind : kind.name ≠ "From") (arguments : List Value) :
    (kind.program config kindEnum).call (depth + 1) "updateFrom" arguments
      = updateFrom.run (kind.context config kindEnum depth) arguments :=
  call_function hkind (mem_functions.2 (.inr (.inl rfl)))

def NodeKind.updateScope (kind : NodeKind) (given : Field → Value) (node : Nat)
    (new : Option Value) : Scope :=
  ("newNode", new) :: ("node", some (.object node)) :: kind.comparedParameters given

theorem lookup_update (hapart : kind.NamesApart config) (hupdate : kind.UpdateNamesApart)
    {new : Option Value} {field : Field} (hmem : field ∈ kind.compared) :
    (kind.updateScope given node new).lookup field.paramName = some (some (given field)) := by
  have hfield := mem_fields_of_mem_compared hmem
  have hne : "newNode" ≠ field.paramName :=
    fun heq => hupdate field hfield (heq ▸ List.mem_cons_self)
  rw [NodeKind.updateScope, lookup_cons_of_ne hne, lookup_cons_of_ne (hapart.ne_node hfield),
    lookup_compared hapart hmem]

theorem lookup_update_none (hupdate : kind.UpdateNamesApart) {new : Option Value} {name : String}
    (hname : name ∈ ["updateFrom", "create" ++ kind.name]) :
    (kind.updateScope given node new).lookup name = none := by
  have hnew : "newNode" ≠ name := by
    rintro rfl
    simp [← String.toList_inj] at hname
  have hnode : "node" ≠ name := by
    rintro rfl
    simp [← String.toList_inj] at hname
  rw [NodeKind.updateScope, lookup_cons_of_ne hnew, lookup_cons_of_ne hnode]
  refine lookup_no_parameter fun field hmem heq => ?_
  exact hupdate field (mem_fields_of_mem_compared hmem) (heq ▸ List.mem_cons_of_mem _ hname)

theorem reads_arguments (hapart : kind.NamesApart config) (hupdate : kind.UpdateNamesApart)
    {context : Context} {new : Option Value} :
    Reads context (kind.updateScope given node new) heap
      ((kind.fields.map Argument.ofField).map Argument.path)
      (kind.fields.map (passed given heap node)) := by
  unfold Reads
  rw [List.map_map, List.forall₂_map_left_iff, List.forall₂_map_right_iff, List.forall₂_same]
  intro field hmem
  have hnode : (kind.updateScope given node new).lookup "node" = some (some (.object node)) := rfl
  by_cases hfactory : field.isFactoryOnly = true
  · have hargument : Argument.ofField field = .oldField field.name := if_pos hfactory
    have hpassed : passed given heap node field = heap.field node field.name := if_pos hfactory
    rw [Function.comp_apply, hargument, hpassed]
    exact read_field (readVar_of_lookup hnode)
  · have hargument : Argument.ofField field = .param field.paramName := if_neg hfactory
    have hpassed : passed given heap node field = given field := if_neg hfactory
    have hcompared : field ∈ kind.compared := List.mem_filter.2 ⟨hmem, by simpa using hfactory⟩
    rw [Function.comp_apply, hargument, hpassed]
    exact read_var (readVar_of_lookup (lookup_update hapart hupdate hcompared))

/-- What the functions need of a node and of what they are passed to make a new one. -/
structure NodeKind.CanUpdate (kind : NodeKind) (given : Field → Value) (heap : Heap) (node : Nat) :
    Prop where
  isThere : node < heap.next
  given : ∀ field ∈ kind.compared, IsGiven heap (given field)
  held : ∀ field ∈ kind.fields, field.isFactoryOnly = true →
    IsGiven heap (heap.field node field.name)
  modifiers : IsGiven heap (heap.field node "modifiers")

theorem NodeKind.CanUpdate.passed (h : kind.CanUpdate given heap node) {field : Field}
    (hmem : field ∈ kind.fields) : IsGiven heap (passed given heap node field) := by
  unfold NodeFactory.passed
  split
  · exact h.held field hmem ‹_›
  · rename_i hfactory
    exact h.given field (List.mem_filter.2 ⟨hmem, by simpa using hfactory⟩)

theorem construction_run (hapart : kind.NamesApart config) (hupdate : kind.UpdateNamesApart)
    (hcan : kind.CanUpdate given heap node) :
    (Call.mk ("create" ++ kind.name) none
        ((kind.fields.map Argument.ofField).map Argument.path)).run
        (kind.context config kindEnum (depth + 2)) (kind.updateScope given node none) heap
      = .ok (.object heap.next) (kind.created (passed given heap node) heap) := by
  have hlookup : (kind.updateScope given node none).lookup ("create" ++ kind.name) = none :=
    lookup_update_none hupdate (by simp)
  exact (call_run hlookup (reads_arguments hapart hupdate)).trans
    (call_create hapart fun _ hmem => hcan.passed hmem)

theorem carrying_run (hapart : kind.NamesApart config) (hupdate : kind.UpdateNamesApart) {new : Nat}
    (hne : node ≠ new) (hold : (heap.field node "modifiers").IsReference)
    (hnew : (heap.field new "modifiers").IsReference) :
    (Call.mk "updateFrom" none [.var "node", .var "newNode"]).run
        (kind.context config kindEnum (depth + 1))
        (kind.updateScope given node (some (.object new))) heap
      = .ok (.object new) (heap.carryOver node new) := by
  have hlookup : (kind.updateScope given node (some (.object new))).lookup "updateFrom" = none :=
    lookup_update_none hupdate (by simp)
  have hreads : Reads (kind.context config kindEnum (depth + 1))
      (kind.updateScope given node (some (.object new))) heap [.var "node", .var "newNode"]
      [.object node, .object new] := .cons (read_var rfl) (.cons (read_var rfl) .nil)
  refine (call_run hlookup hreads).trans ?_
  change (kind.program config kindEnum).call (depth + 1) "updateFrom" _ heap = _
  rw [call_updateFrom hapart.notFrom]
  exact updateFrom_run hne hold hnew

def NodeKind.updated (kind : NodeKind) (given : Field → Value) (heap : Heap) (node : Nat) : Heap :=
  (kind.created (passed given heap node) heap).carryOver node heap.next

/-- Called with something that the node does not hold, the updater gives a new node, constructed
from what is passed and carrying over the rest. -/
theorem call_update_changed (hapart : kind.NamesApart config) (hupdate : kind.UpdateNamesApart)
    (hupdater : Updater.ofKind? kind = some updater) (hcan : kind.CanUpdate given heap node)
    (hchanged : ∃ field ∈ kind.compared, given field ≠ heap.field node field.name) :
    (kind.program config kindEnum).call (depth + 3) ("update" ++ kind.name)
        (.object node :: kind.compared.map given) heap
      = .ok (.object heap.next) (kind.updated given heap node) := by
  have hcondition : (Condition.differs (updater.comparisons.map Comparison.paths)).run
      (kind.context config kindEnum (depth + 2))
      (("node", some (.object node)) :: kind.comparedParameters given)
      (.object node :: kind.compared.map given) heap = .ok true heap := by
    rw [condition_run hapart hupdater]
    simpa using hchanged
  have hdeclare : (Action.declare "newNode" (.result ⟨"create" ++ updater.kind, none,
        updater.arguments.map Argument.path⟩)).run (kind.context config kindEnum (depth + 2))
        (kind.updateScope given node none) heap
      = .ok (.next (kind.updateScope given node (some (.object heap.next))))
        (kind.created (passed given heap node) heap) := by
    rw [eq_of_ofKind? hupdater, Action.run, Expr.run,
      run_bind (construction_run hapart hupdate hcan)]
    rfl
  have hold : ((kind.created (passed given heap node) heap).field node
      "modifiers").IsReference := by
    rw [created_of_lt hcan.isThere]
    exact hcan.modifiers.isReference
  have hnew : ((kind.created (passed given heap node) heap).field heap.next
      "modifiers").IsReference :=
    (created_isGiven (by decide) fun _ hmem => hcan.passed hmem).isReference
  have hgive : (Action.give (.result ⟨"updateFrom", none, [.var "node", .var "newNode"]⟩)).run
        (kind.context config kindEnum (depth + 2))
        (kind.updateScope given node (some (.object heap.next)))
        (kind.created (passed given heap node) heap)
      = .ok (.done (.object heap.next)) (kind.updated given heap node) := by
    rw [Action.run, Expr.run,
      run_bind (carrying_run hapart hupdate (Nat.ne_of_lt hcan.isThere) hold hnew)]
    rfl
  rw [call_updater hupdater hapart.notFrom]
  refine function_run_done ?_
  rw [scope_updater hupdater, Updater.script]
  refine runStatements_done ?_
  rw [cond_run_true hcondition]
  refine runBlock_done ?_
  exact (runActions_next hdeclare).trans (runActions_done hgive)

end Changed

section Carried

variable {heap heap' : Heap} {old new node : Nat} {key : String}

/-- The flags of the modifiers of a node, if it has modifiers. -/
def Script.Heap.modifierFlags? (heap : Heap) (node : Nat) : Option (BitVec 32) :=
  match heap.field node "modifiers" with
  | .object modifiers => some (heap.field modifiers "flags").bits
  | _ => none

theorem combineFlags_inter_bits (flags : Value) :
    (heap.combineFlags .inter node flags).bits
      = ((heap.modifierFlags? node).map (flags.bits &&& ·)).getD flags.bits := by
  unfold Heap.combineFlags Heap.modifierFlags?
  cases heap.field node "modifiers" <;> rfl

theorem combineFlags_union_bits (flags : Value) :
    (heap.combineFlags .union node flags).bits
      = flags.bits ||| (heap.modifierFlags? node).getD 0 := by
  unfold Heap.combineFlags Heap.modifierFlags?
  cases heap.field node "modifiers" <;> simp [Operator.apply, Value.bits]

theorem modifierFlags?_eq (hfield : heap'.field node "modifiers" = heap.field node "modifiers")
    (hflags : ∀ modifiers, heap.field node "modifiers" = .object modifiers →
      heap'.field modifiers "flags" = heap.field modifiers "flags") :
    heap'.modifierFlags? node = heap.modifierFlags? node := by
  unfold Heap.modifierFlags?
  rw [hfield]
  cases h : heap.field node "modifiers" with
  | object modifiers => simp only [hflags modifiers h]
  | undefined | number _ => rfl

theorem carryOver_of_ne {other : Nat} (h : other ≠ new) :
    (heap.carryOver old new).field other key = heap.field other key := by
  simp only [Heap.carryOver, Heap.field_set_of_ne h]

theorem carryOver_of_notMem (h : key ∉ ["flags", "pos", "end", "parent"]) :
    (heap.carryOver old new).field new key = heap.field new key := by
  simp only [List.mem_cons, List.not_mem_nil, or_false, not_or] at h
  obtain ⟨hflags, hpos, hend, hparent⟩ := h
  rw [Heap.carryOver, Heap.field_set_of_name_ne hparent, Heap.field_set_of_name_ne hend,
    Heap.field_set_of_name_ne hpos, Heap.field_set_of_name_ne hflags]

theorem carryOver_position (h : key ∈ ["pos", "end", "parent"]) :
    (heap.carryOver old new).field new key = heap.field old key := by
  simp only [List.mem_cons, List.not_mem_nil, or_false] at h
  rcases h with rfl | rfl | rfl
  · rw [Heap.carryOver, Heap.field_set_of_name_ne (by decide),
      Heap.field_set_of_name_ne (by decide), Heap.field_set_self]
  · rw [Heap.carryOver, Heap.field_set_of_name_ne (by decide), Heap.field_set_self]
  · rw [Heap.carryOver, Heap.field_set_self]

theorem carryOver_flags :
    (heap.carryOver old new).field new "flags" = heap.carriedFlags old new := by
  rw [Heap.carryOver, Heap.field_set_of_name_ne (by decide), Heap.field_set_of_name_ne (by decide),
    Heap.field_set_of_name_ne (by decide), Heap.field_set_self]

end Carried

section Updated

variable {config : Config} {kind : NodeKind} {updater : Updater} {given : Field → Value}
  {heap : Heap} {node : Nat}

/-- A new node that an update makes: it holds what is passed, it carries over the rest, and nothing
that was there has changed. Of the old flags it has those of the old modifiers, or all if there are
no old modifiers, and besides those of the new ones. -/
structure NodeKind.IsUpdated (kind : NodeKind) (given : Field → Value) (heap : Heap) (node : Nat)
    (heap' : Heap) (new : Nat) : Prop where
  isNew : heap.next ≤ new
  given : ∀ field ∈ kind.compared, heap'.field new field.name = given field
  held : ∀ field ∈ kind.fields, field.isFactoryOnly = true →
    heap'.field new field.name = heap.field node field.name
  position : ∀ key ∈ ["pos", "end", "parent"], heap'.field new key = heap.field node key
  flags : (heap'.field new "flags").bits
    = ((heap.modifierFlags? node).map ((heap.field node "flags").bits &&& ·)).getD
        (heap.field node "flags").bits
      ||| (heap'.modifierFlags? new).getD 0
  others : ∀ other < heap.next, ∀ key, heap'.field other key = heap.field other key

theorem passed_of_mem_compared {field : Field} (hmem : field ∈ kind.compared) :
    passed given heap node field = given field :=
  if_neg (by simpa using (List.mem_filter.1 hmem).2)

theorem updated_flags (hcan : kind.CanUpdate given heap node) :
    ((kind.updated given heap node).field heap.next "flags").bits
      = ((heap.modifierFlags? node).map ((heap.field node "flags").bits &&& ·)).getD
          (heap.field node "flags").bits
        ||| ((kind.updated given heap node).modifierFlags? heap.next).getD 0 := by
  -- The old modifiers were there before the constructor ran, so the helper finds their flags.
  have hold : (kind.created (passed given heap node) heap).modifierFlags? node
      = heap.modifierFlags? node := by
    refine modifierFlags?_eq (created_of_lt hcan.isThere) fun modifiers h => ?_
    have hmodifiers := hcan.modifiers
    rw [h] at hmodifiers
    cases hmodifiers with
    | object hlt => exact created_of_lt hlt
  -- The new modifiers are older than the new node, which alone is written.
  have hnew : (kind.updated given heap node).modifierFlags? heap.next
      = (kind.created (passed given heap node) heap).modifierFlags? heap.next := by
    refine modifierFlags?_eq (carryOver_of_notMem (by decide)) fun modifiers h => ?_
    have hmodifiers : IsGiven heap
        ((kind.created (passed given heap node) heap).field heap.next "modifiers") :=
      created_isGiven (by decide) fun _ hmem => hcan.passed hmem
    rw [h] at hmodifiers
    cases hmodifiers with
    | object hlt => exact carryOver_of_ne (Nat.ne_of_lt hlt)
  rw [hnew, NodeKind.updated, carryOver_flags, Heap.carriedFlags, combineFlags_union_bits,
    combineFlags_inter_bits, hold, created_of_lt hcan.isThere]

theorem isUpdated_updated (hapart : kind.NamesApart config) (hnamed : kind.ModifiersNamed)
    (hposition : ∀ field ∈ kind.fields, field.name ∉ ["pos", "end", "parent"])
    (hcan : kind.CanUpdate given heap node) :
    kind.IsUpdated given heap node (kind.updated given heap node) heap.next := by
  have hfield : ∀ field ∈ kind.fields, (kind.updated given heap node).field heap.next field.name
      = passed given heap node field := by
    intro field hmem
    have hkey : field.name ∉ ["flags", "pos", "end", "parent"] := by
      rw [List.mem_cons, not_or]
      exact ⟨hapart.flags field hmem, hposition field hmem⟩
    rw [NodeKind.updated, carryOver_of_notMem hkey]
    exact field_created hapart hnamed (fun _ hmem => hcan.passed hmem) hmem
  exact {
    isNew := Nat.le_refl _
    given := fun field hmem => by
      rw [hfield field (mem_fields_of_mem_compared hmem), passed_of_mem_compared hmem]
    held := fun field hmem hfactory => (hfield field hmem).trans (if_pos hfactory)
    position := fun key hkey => (carryOver_position hkey).trans (created_of_lt hcan.isThere)
    flags := updated_flags hcan
    others := fun other hother key =>
      (carryOver_of_ne (Nat.ne_of_lt hother)).trans (created_of_lt hother) }

/-- Where something is passed that a node does not hold, the updater gives a new node, which holds
what is passed and carries over the rest; but of the flags of the node it keeps those only that its
modifiers have, if it has modifiers. -/
theorem changed_update_gives_new_node (kindEnum depth : Nat)
    (hupdater : Updater.ofKind? kind = some updater) (hapart : kind.NamesApart config)
    (hupdate : kind.UpdateNamesApart) (hnamed : kind.ModifiersNamed)
    (hposition : ∀ field ∈ kind.fields, field.name ∉ ["pos", "end", "parent"])
    (hcan : kind.CanUpdate given heap node)
    (hchanged : ∃ field ∈ kind.compared, given field ≠ heap.field node field.name) :
    ∃ new heap', (kind.program config kindEnum).call (depth + 3) ("update" ++ kind.name)
        (.object node :: kind.compared.map given) heap = .ok (.object new) heap'
      ∧ new ≠ node ∧ kind.IsUpdated given heap node heap' new :=
  ⟨heap.next, _, call_update_changed hapart hupdate hupdater hcan hchanged,
    (Nat.ne_of_lt hcan.isThere).symm, isUpdated_updated hapart hnamed hposition hcan⟩

/-- Object 3 is a block with modifiers, statements and flags, of which its modifiers have one. -/
def blockHeap : Heap :=
  (((Heap.mk 4 fun _ _ => .undefined).set 1 "flags" (.number 1)).set 3 "flags" (.number 3)).set 3
    "modifiers" (.object 1)

theorem canUpdate_block : blockKind.CanUpdate blockGiven blockHeap 3 where
  isThere := by decide
  given := fun field _ => (blockGiven_isGiven field).mono (by decide)
  held := fun field hmem hfactory => by
    have hfield : field = ⟨"multiLine", "boolean", true, .plain, true⟩ := by
      simp only [blockKind, List.mem_cons, List.not_mem_nil, or_false] at hmem
      rcases hmem with rfl | rfl | rfl
      · cases hfactory
      · cases hfactory
      · rfl
    rw [hfield]
    exact .undefined
  modifiers := .object (by decide)

/-- The block is given statements. -/
theorem changed_update_of_block :
    (Updater.ofKind? blockKind).isSome ∧ blockKind.NamesApart {} ∧ blockKind.UpdateNamesApart
      ∧ blockKind.ModifiersNamed ∧ blockKind.CanUpdate blockGiven blockHeap 3
      ∧ ∃ new heap', (blockKind.program {} 0).call 3 "updateBlock" [.object 3, .object 1, .object 2]
          blockHeap = .ok (.object new) heap'
        ∧ new ≠ 3 ∧ blockKind.IsUpdated blockGiven blockHeap 3 heap' new := by
  have hupdater : (Updater.ofKind? blockKind).isSome := by decide
  have hupdate : blockKind.UpdateNamesApart := by
    unfold NodeKind.UpdateNamesApart
    decide
  have hnamed : blockKind.ModifiersNamed := by
    unfold NodeKind.ModifiersNamed
    decide
  have h := changed_update_gives_new_node 0 0 (Option.some_get hupdater).symm blockKind_namesApart
    hupdate hnamed (by decide) canUpdate_block (by decide)
  exact ⟨hupdater, blockKind_namesApart, hupdate, hnamed, canUpdate_block, h⟩

/-- A flag that the modifiers of a node do not have is gone when it is updated with others. -/
theorem changed_update_loses_flag :
    analyze {} (modifiersSchema "modifiers") = .ok [modifiersKind "modifiers"]
      ∧ (modifiersKind "modifiers").NamesApart {} ∧ (modifiersKind "modifiers").UpdateNamesApart
      ∧ (modifiersKind "modifiers").ModifiersNamed
      ∧ (modifiersKind "modifiers").CanUpdate (fun _ => .object 2) blockHeap 3
      ∧ (blockHeap.field 3 "flags").bits &&& ~~~(blockHeap.field 1 "flags").bits = 2
      ∧ ∃ heap', ((modifiersKind "modifiers").program {} 0).call 3 "updateBlock"
          [.object 3, .object 2] blockHeap = .ok (.object 4) heap'
        ∧ (heap'.field 4 "flags").bits &&& 2 = 0 := by
  have hapart : (modifiersKind "modifiers").NamesApart {} := by
    constructor <;> decide
  have hcan : (modifiersKind "modifiers").CanUpdate (fun _ => .object 2) blockHeap 3 := {
    isThere := by decide
    given := fun _ _ => .object (by decide)
    held := fun field hmem hfactory => by
      rw [List.mem_singleton.1 hmem] at hfactory
      cases hfactory
    modifiers := .object (by decide) }
  have hupdate : (modifiersKind "modifiers").UpdateNamesApart := by
    unfold NodeKind.UpdateNamesApart
    decide
  have hnamed : (modifiersKind "modifiers").ModifiersNamed := by
    unfold NodeKind.ModifiersNamed
    decide
  exact ⟨by decide +kernel, hapart, hupdate, hnamed, hcan, by decide, _, rfl, by decide⟩

end Updated

end NodeFactory
