import Mathlib.Data.List.Nodup
import NodeFactory.Proofs.FactoryScript
import NodeFactory.Proofs.ScriptRuns
import NodeFactory.Proofs.StoredFields

/-!
# What a constructor makes

A constructor gives a new node in which each parameter is stored in turn (`call_create`), a
modifiers array by the helper. Where each modifiers array is a field of the name that the helper
stores into, every field holds what was passed for it (`field_created`).
-/

namespace NodeFactory

open Script

/-- The names that the functions of a kind use are apart: no two parameters share one, and none
hides the node, the kind enum or a function. -/
structure NodeKind.NamesApart (config : Config) (kind : NodeKind) : Prop where
  nodup : (kind.fields.map Field.paramName).Nodup
  parameters : ∀ field ∈ kind.fields,
    field.paramName ∉ ["node", "createNode", "setModifiers", config.wellKnown.kindEnum]
  kindEnum : config.wellKnown.kindEnum ≠ "node"
  notNode : kind.name ≠ "Node"
  notFrom : kind.name ≠ "From"
  flags : ∀ field ∈ kind.fields, field.name ≠ "flags"

/-- Every modifiers array is the field that modifiers are stored in. -/
def NodeKind.ModifiersNamed (kind : NodeKind) : Prop :=
  ∀ field ∈ kind.fields, field.fieldClass = .modifiersArray → field.name = "modifiers"

/-- What a function of the program finds, when calls nest as deeply as that. -/
def NodeKind.context (config : Config) (kind : NodeKind) (kindEnum depth : Nat) : Context :=
  ⟨[(config.wellKnown.kindEnum, .object kindEnum)], (kind.program config kindEnum).call depth⟩

section Names

theorem create_ne_setModifiers (a : String) : "create" ++ a ≠ "setModifiers" := by
  simp [← String.toList_inj]

theorem update_ne_setModifiers (a : String) : "update" ++ a ≠ "setModifiers" := by
  simp [← String.toList_inj]

theorem create_ne_updateFrom (a : String) : "create" ++ a ≠ "updateFrom" := by
  simp [← String.toList_inj]

theorem create_ne_createNode {a : String} (h : a ≠ "Node") : "create" ++ a ≠ "createNode" := by
  intro heq
  refine h ?_
  simpa [← String.toList_inj] using heq

theorem update_ne_updateFrom {a : String} (h : a ≠ "From") : "update" ++ a ≠ "updateFrom" := by
  intro heq
  refine h ?_
  simpa [← String.toList_inj] using heq

theorem update_ne_createNode (a : String) : "update" ++ a ≠ "createNode" := by
  simp [← String.toList_inj]

end Names

section Calls

variable {config : Config} {kind : NodeKind} {kindEnum depth : Nat} {arguments : List Value}
  {heap : Heap}

theorem mem_functions {function : Script.Function} :
    function ∈ (kind.program config kindEnum).functions ↔
      function = setModifiers ∨ function = updateFrom
        ∨ function = (Constructor.ofKind kind).script config
        ∨ ∃ updater, Updater.ofKind? kind = some updater ∧ function = updater.script := by
  unfold NodeKind.program
  cases Updater.ofKind? kind <;> simp

theorem eq_of_ofKind? {updater : Updater} (h : Updater.ofKind? kind = some updater) :
    updater = ⟨kind.name, kind.declaringType, kind.compared.map Parameter.ofField,
      kind.compared.map Comparison.ofField, kind.fields.map Argument.ofField⟩ := by
  unfold Updater.ofKind? at h
  split at h
  · exact (Option.some.inj h).symm
  · cases h

/-- No two functions share a name, unless the updater has that of the helper. -/
theorem functions_nodup (h : kind.name ≠ "From") :
    ((kind.program config kindEnum).functions.map Script.Function.name).Nodup := by
  have hcreate : ((Constructor.ofKind kind).script config).name = "create" ++ kind.name := rfl
  unfold NodeKind.program
  cases hupdater : Updater.ofKind? kind with
  | none =>
    simp [hcreate, setModifiers, updateFrom, (create_ne_setModifiers kind.name).symm,
      (create_ne_updateFrom kind.name).symm]
  | some updater =>
    have hupdate : updater.script.name = "update" ++ kind.name := by
      rw [eq_of_ofKind? hupdater]
      rfl
    simp [hcreate, hupdate, setModifiers, updateFrom, (create_ne_setModifiers kind.name).symm,
      (create_ne_updateFrom kind.name).symm, (update_ne_setModifiers kind.name).symm,
      (update_ne_updateFrom h).symm]

theorem find?_function {functions : List Script.Function}
    (hnodup : (functions.map Script.Function.name).Nodup) {function : Script.Function}
    (hmem : function ∈ functions) :
    functions.reverse.find? (fun other => other.name = function.name) = some function := by
  cases h : functions.reverse.find? fun other => decide (other.name = function.name) with
  | none =>
    rw [List.find?_eq_none] at h
    exact absurd (decide_eq_true rfl) (h function (List.mem_reverse.2 hmem))
  | some other =>
    have hname : other.name = function.name := by simpa using List.find?_some h
    have hother : other ∈ functions := List.mem_reverse.1 (List.mem_of_find?_eq_some h)
    rw [List.inj_on_of_nodup_map hnodup hother hmem hname]

theorem call_function (h : kind.name ≠ "From") {function : Script.Function}
    (hmem : function ∈ (kind.program config kindEnum).functions) :
    (kind.program config kindEnum).call (depth + 1) function.name arguments
      = function.run (kind.context config kindEnum depth) arguments := by
  rw [Program.call, find?_function (functions_nodup h) hmem]
  rfl

theorem call_createNode (h : kind.name ≠ "Node") :
    (kind.program config kindEnum).call (depth + 1) "createNode" arguments heap
      = .ok (.object heap.next) heap.new := by
  have hfind : (kind.program config kindEnum).functions.reverse.find?
      (fun function => function.name = "createNode") = none := by
    rw [List.find?_eq_none]
    intro function hmem
    rw [List.mem_reverse, mem_functions] at hmem
    rw [decide_eq_true_eq]
    rcases hmem with rfl | rfl | rfl | ⟨updater, -, rfl⟩
    · decide
    · decide
    · exact create_ne_createNode h
    · exact update_ne_createNode _
  rw [Program.call, hfind]
  rfl

theorem call_setModifiers (hkind : kind.name ≠ "From") {id : Nat} {value : Value}
    (h : IsGiven heap value) :
    (kind.program config kindEnum).call (depth + 1) "setModifiers" [.object id, value] heap
      = .ok .undefined (heap.addModifiers id value) := by
  have hcall : (kind.program config kindEnum).call (depth + 1) "setModifiers" [.object id, value]
      = setModifiers.run (kind.context config kindEnum depth) [.object id, value] :=
    call_function hkind (mem_functions.2 (.inl rfl))
  rw [hcall]
  cases h <;> rfl

theorem call_constructor (hkind : kind.name ≠ "From") :
    (kind.program config kindEnum).call (depth + 1) ("create" ++ kind.name) arguments
      = ((Constructor.ofKind kind).script config).run (kind.context config kindEnum depth)
        arguments :=
  call_function hkind (mem_functions.2 (.inr (.inr (.inl rfl))))

end Calls

section Storing

variable {context : Context} {scope : Scope} {given : Field → Value} {id : Nat} {heap : Heap}
  {fields : List Field}

/-- What the statements find that store fields in a node. -/
structure FindsGiven (context : Context) (scope : Scope) (given : Field → Value) (id : Nat)
    (fields : List Field) : Prop where
  node : scope.lookup "node" = some (some (.object id))
  parameter : ∀ field ∈ fields, scope.lookup field.paramName = some (some (given field))
  helper : scope.lookup "setModifiers" = none
  call : ∀ value heap, IsGiven heap value →
    context.call "setModifiers" [.object id, value] heap
      = .ok .undefined (heap.addModifiers id value)

theorem ofField_modifiers {field : Field} (h : field.fieldClass = .modifiersArray) :
    Store.ofField field = .modifiers field.paramName := by
  unfold Store.ofField
  rw [h]

theorem ofField_field {field : Field} (h : field.fieldClass ≠ .modifiersArray) :
    Store.ofField field = .field field.name field.paramName := by
  unfold Store.ofField
  split
  · exact absurd ‹_› h
  · rfl

theorem store_run (h : FindsGiven context scope given id fields) {field : Field}
    (hmem : field ∈ fields) (hgiven : IsGiven heap (given field)) :
    (Store.ofField field).action.run context scope heap
      = .ok (.next scope) (heap.store given id field) := by
  have hnode : (Script.Path.var "node").read context scope heap = .ok (.object id) heap :=
    read_var (readVar_of_lookup h.node)
  have hparam : (Script.Path.var field.paramName).read context scope heap
      = .ok (given field) heap :=
    read_var (readVar_of_lookup (h.parameter field hmem))
  by_cases hclass : field.fieldClass = .modifiersArray
  · have hread : Reads context scope heap [.var "node", .var field.paramName]
        [.object id, given field] := .cons hnode (.cons hparam .nil)
    have hcall : (Call.mk "setModifiers" none [.var "node", .var field.paramName]).run context scope
        heap = .ok .undefined (heap.addModifiers id (given field)) :=
      (call_run h.helper hread).trans (h.call _ _ hgiven)
    rw [ofField_modifiers hclass, Heap.store_modifiers hclass, Store.action, Action.run,
      run_bind hcall]
    rfl
  · rw [ofField_field hclass, Heap.store_field hclass, Store.action, Action.run,
      run_bind (assign_field h.node hparam)]
    rfl

theorem stores_run (hgiven : ∀ field ∈ fields, IsGiven heap (given field))
    (h : FindsGiven context scope given id fields) :
    runActions context scope ((fields.map Store.ofField).map Store.action) heap
      = .ok (.next scope) (fields.foldl (Heap.store given id) heap) := by
  induction fields generalizing heap with
  | nil => rfl
  | cons field fields ih =>
    rw [List.map_cons, List.map_cons, List.foldl_cons,
      runActions_next (store_run h List.mem_cons_self (hgiven field List.mem_cons_self))]
    -- No object is made while fields are stored, so what is given is there for the others too.
    refine ih (fun other hmem => ?_) { h with
      parameter := fun other hmem => h.parameter other (List.mem_cons_of_mem _ hmem) }
    exact (hgiven other (List.mem_cons_of_mem _ hmem)).mono (Nat.le_of_eq Heap.next_store.symm)

theorem declared_stores (stores : List Store) : declared (stores.map Store.action) = [] := by
  unfold declared
  rw [List.filterMap_eq_nil_iff]
  intro action hmem
  obtain ⟨store, -, rfl⟩ := List.mem_map.1 hmem
  cases store <;> rfl

theorem storing_run {arguments : List Value} {rest : List Script.Statement}
    (hgiven : ∀ field ∈ fields, IsGiven heap (given field))
    (h : FindsGiven context scope given id fields) (harguments : fields ≠ [] → arguments ≠ []) :
    runStatements context arguments scope (storing (fields.map Store.ofField) ++ rest) heap
      = runStatements context arguments scope rest (fields.foldl (Heap.store given id) heap) := by
  unfold storing
  split
  · rename_i hmany
    have hne : fields ≠ [] := by
      rintro rfl
      exact absurd hmany (by decide)
    have hcond : Condition.hasArguments.run context scope arguments heap = .ok true heap := by
      rw [Condition.run, List.isEmpty_eq_false_iff.2 (harguments hne)]
      rfl
    have hblock := runBlock_next (declared_stores _) (stores_run hgiven h)
    rw [List.singleton_append, runStatements_next ((cond_run_true hcond).trans hblock)]
  · rename_i hfew
    rw [List.length_map] at hfew
    -- A single field is stored even if it is left out.
    rcases fields with _ | ⟨field, _ | ⟨other, fields⟩⟩
    · rfl
    · exact runStatements_next (store_run h List.mem_cons_self (hgiven field List.mem_cons_self))
    · simp at hfew

end Storing

section Created

variable {config : Config} {kind : NodeKind} {kindEnum depth : Nat} {given : Field → Value}
  {scope : Scope} {heap : Heap}

def NodeKind.parameters (kind : NodeKind) (given : Field → Value) : Scope :=
  bindParameters (kind.fields.map Field.paramName) (kind.fields.map given)

def NodeKind.created (kind : NodeKind) (given : Field → Value) (heap : Heap) : Heap :=
  kind.fields.foldl (Heap.store given heap.next) heap.new

theorem creating_run (hkind : kind.name ≠ "Node")
    (henum : scope.lookup config.wellKnown.kindEnum = none)
    (hcreate : scope.lookup "createNode" = none) :
    ((Constructor.ofKind kind).creating config).run
        (kind.context config kindEnum (depth + 1)) scope heap
      = .ok (.object heap.next) heap.new := by
  have hglobal : (kind.context config kindEnum (depth + 1)).globals.lookup
      config.wellKnown.kindEnum = some (.object kindEnum) := List.lookup_cons_self
  have hread : Reads (kind.context config kindEnum (depth + 1)) scope heap
      [⟨config.wellKnown.kindEnum, [kind.name]⟩] [heap.field kindEnum kind.name] :=
    .cons (read_field (readVar_of_global henum hglobal)) .nil
  exact (call_run hcreate hread).trans (call_createNode hkind)

theorem NodeKind.NamesApart.lookup_none (h : kind.NamesApart config) {name : String}
    (hname : name ∈ ["node", "createNode", "setModifiers", config.wellKnown.kindEnum]) :
    (kind.parameters given).lookup name = none := by
  refine lookup_no_parameter fun field hmem heq => ?_
  exact h.parameters field hmem (heq ▸ hname)

theorem NodeKind.NamesApart.ne_node (h : kind.NamesApart config) {field : Field}
    (hmem : field ∈ kind.fields) : "node" ≠ field.paramName :=
  fun heq => h.parameters field hmem (heq ▸ List.mem_cons_self)

section Body

variable (config)

theorem body_of_nil (h : kind.fields = []) : ((Constructor.ofKind kind).script config).body
    = [.act (.give (.result ((Constructor.ofKind kind).creating config)))] := by
  simp [Constructor.script, Constructor.ofKind, h]

theorem body_of_ne_nil (h : kind.fields ≠ []) : ((Constructor.ofKind kind).script config).body
    = .act (.declare "node" (.result ((Constructor.ofKind kind).creating config)))
      :: (storing (kind.fields.map Store.ofField) ++ [.act (.give (.read (.var "node")))]) := by
  simp [Constructor.script, Constructor.ofKind, h]

theorem declaredIn_storing (stores : List Store) : declaredIn (storing stores) = [] := by
  unfold storing
  split
  · rfl
  · unfold declaredIn
    rw [List.filterMap_map]
    exact (congrArg declared (congrFun List.filterMap_eq_map stores)).trans (declared_stores stores)

theorem declaredIn_of_ne_nil (h : kind.fields ≠ []) :
    declaredIn ((Constructor.ofKind kind).script config).body = [("node", none)] := by
  have hstoring := declaredIn_storing (kind.fields.map Store.ofField)
  rw [body_of_ne_nil config h]
  unfold declaredIn declared at *
  simp [hstoring, Script.Statement.action?, Action.declared?]

end Body

theorem findsGiven (hapart : kind.NamesApart config) (id : Nat) :
    FindsGiven (kind.context config kindEnum (depth + 1))
      (("node", some (.object id)) :: kind.parameters given) given id kind.fields where
  node := List.lookup_cons_self
  parameter := fun field hmem => by
    rw [lookup_cons_of_ne (hapart.ne_node hmem)]
    exact lookup_parameter hapart.nodup hmem
  helper := by
    rw [lookup_cons_of_ne (by decide)]
    exact hapart.lookup_none (by simp)
  call := fun _ _ => call_setModifiers hapart.notFrom

theorem run_of_ne_nil (hapart : kind.NamesApart config) (hfields : kind.fields ≠ [])
    (hgiven : ∀ field ∈ kind.fields, IsGiven heap (given field)) :
    runStatements (kind.context config kindEnum (depth + 1)) (kind.fields.map given)
        (("node", none) :: kind.parameters given)
        ((Constructor.ofKind kind).script config).body heap
      = .ok (.done (.object heap.next)) (kind.created given heap) := by
  have henum : List.lookup config.wellKnown.kindEnum (("node", none) :: kind.parameters given)
      = none := by
    rw [lookup_cons_of_ne hapart.kindEnum.symm]
    exact hapart.lookup_none (by simp)
  have hcreate : List.lookup "createNode" (("node", none) :: kind.parameters given) = none := by
    rw [lookup_cons_of_ne (by decide)]
    exact hapart.lookup_none (by simp)
  have hdeclare : (Script.Statement.act (.declare "node"
        (.result ((Constructor.ofKind kind).creating config)))).run
        (kind.context config kindEnum (depth + 1)) (("node", none) :: kind.parameters given)
        (kind.fields.map given) heap
      = .ok (.next (("node", some (.object heap.next)) :: kind.parameters given)) heap.new := by
    rw [Script.Statement.run, Action.run, Expr.run,
      run_bind (creating_run hapart.notNode henum hcreate)]
    rfl
  have hnew : ∀ field ∈ kind.fields, IsGiven heap.new (given field) :=
    fun field hmem => (hgiven field hmem).mono (Nat.le_succ _)
  rw [body_of_ne_nil config hfields, runStatements_next hdeclare,
    storing_run hnew (findsGiven hapart heap.next) fun _ => by simpa using hfields]
  refine runStatements_done ?_
  rw [Script.Statement.run, Action.run, Expr.run,
    run_bind (read_var (readVar_of_lookup List.lookup_cons_self))]
  rfl

/-- A constructor gives a new node in which what is passed is stored, field by field. -/
theorem call_create (hapart : kind.NamesApart config)
    (hgiven : ∀ field ∈ kind.fields, IsGiven heap (given field)) :
    (kind.program config kindEnum).call (depth + 2) ("create" ++ kind.name)
        (kind.fields.map given) heap
      = .ok (.object heap.next) (kind.created given heap) := by
  have hparameters : bindParameters ((Constructor.ofKind kind).script config).parameters
      (kind.fields.map given) = kind.parameters given := by
    unfold NodeKind.parameters
    simp [Constructor.script, Constructor.ofKind, Parameter.ofField, Function.comp_def]
  rw [call_constructor hapart.notFrom]
  refine function_run_done ?_
  rw [hparameters]
  -- Without fields the new node is given as it is, and there is no variable for it.
  by_cases hfields : kind.fields = []
  · have hscope : declaredIn ((Constructor.ofKind kind).script config).body
        ++ kind.parameters given = [] := by
      unfold NodeKind.parameters
      rw [body_of_nil config hfields, hfields]
      rfl
    have hcreating : ((Constructor.ofKind kind).creating config).run
        (kind.context config kindEnum (depth + 1)) [] heap = .ok (.object heap.next) heap.new :=
      creating_run hapart.notNode rfl rfl
    rw [hscope, body_of_nil config hfields]
    refine runStatements_done ?_
    rw [Script.Statement.run, Action.run, Expr.run, run_bind hcreating]
    unfold NodeKind.created
    rw [hfields]
    rfl
  · rw [declaredIn_of_ne_nil config hfields]
    exact run_of_ne_nil hapart hfields hgiven

end Created

section Fields

variable {given : Field → Value} {heap : Heap} {other : Nat} {key : String} {config : Config}
  {kind : NodeKind}

theorem NodeKind.NamesApart.nodup_names (h : kind.NamesApart config) :
    (kind.fields.map Field.name).Nodup := by
  have hmap : kind.fields.map Field.paramName
      = (kind.fields.map Field.name).map fun name =>
        if name = "arguments" then "_arguments" else name := by
    rw [List.map_map]
    rfl
  exact List.Nodup.of_map _ (hmap ▸ h.nodup)

/-- The node that a constructor gives holds what was passed for each of its fields. -/
theorem field_created (hapart : kind.NamesApart config) (hnamed : kind.ModifiersNamed)
    (hgiven : ∀ field ∈ kind.fields, IsGiven heap (given field)) {field : Field}
    (hmem : field ∈ kind.fields) :
    (kind.created given heap).field heap.next field.name = given field := by
  refine field_stored hapart.nodup_names hapart.flags hnamed
    (fun other hother => (hgiven other hother).isReference) (fun other hother => ?_) hmem
  unfold Heap.new
  simp [hapart.flags other hother]

theorem created_of_lt (h : other < heap.next) :
    (kind.created given heap).field other key = heap.field other key := by
  unfold NodeKind.created
  rw [stored_of_ne (Nat.ne_of_lt h)]
  exact if_neg (Nat.ne_of_lt h)

/-- What a new node holds is nothing or was there before, its flags aside. -/
theorem created_isGiven (hflags : key ≠ "flags")
    (hgiven : ∀ field ∈ kind.fields, IsGiven heap (given field)) :
    IsGiven heap ((kind.created given heap).field heap.next key) := by
  have hnew : heap.new.field heap.next key = .undefined := by
    unfold Heap.new
    simp [hflags]
  exact stored_holds hflags hgiven (hnew ▸ .undefined)

end Fields

end NodeFactory
