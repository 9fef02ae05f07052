import Mathlib.Data.List.Forall2
import NodeFactory.Proofs.ScriptLanguage

/-!
# How scripts run

One lemma for each way in which a script of the factory file goes on: what a path reads, what an
assignment changes, where a call leads. A run without a failure is followed through a function by
rewriting with these lemmas, statement by statement.
-/

namespace NodeFactory.Script

variable {context : Context} {scope scope' : Scope} {heap heap' : Heap} {value : Value}

theorem run_bind {α β : Type} {x : Exec α} {f : α → Exec β} {a : α} (h : x heap = .ok a heap') :
    (x >>= f) heap = f a heap' := by
  change EStateM.bind x f heap = f a heap'
  unfold EStateM.bind
  rw [h]

section Paths

variable {name field field' : String} {id : Nat}

theorem readVar_of_lookup (h : scope.lookup name = some (some value)) :
    readVar context scope name heap = .ok value heap := by
  unfold readVar
  rw [h]
  rfl

theorem readVar_of_global (h : scope.lookup name = none)
    (hglobal : context.globals.lookup name = some value) :
    readVar context scope name heap = .ok value heap := by
  unfold readVar
  rw [h, hglobal]
  rfl

theorem read_var (h : readVar context scope name heap = .ok value heap) :
    (Path.var name).read context scope heap = .ok value heap := by
  rw [Path.read, Path.var, run_bind h]
  rfl

theorem read_field (h : readVar context scope name heap = .ok (.object id) heap) :
    (Path.mk name [field]).read context scope heap = .ok (heap.field id field) heap := by
  rw [Path.read, run_bind h]
  rfl

theorem read_field_field {id' : Nat} (h : readVar context scope name heap = .ok (.object id) heap)
    (hfield : heap.field id field = .object id') :
    (Path.mk name [field, field']).read context scope heap = .ok (heap.field id' field') heap := by
  have hread : readField (.object id) field heap = .ok (.object id') heap := by
    rw [← hfield]
    rfl
  rw [Path.read, run_bind h, List.foldlM_cons, run_bind hread]
  rfl

/-- Paths lead to values, one to each. -/
def Reads (context : Context) (scope : Scope) (heap : Heap) : List Path → List Value → Prop :=
  List.Forall₂ fun path value => path.read context scope heap = .ok value heap

theorem mapM_read {paths : List Path} {values : List Value}
    (h : Reads context scope heap paths values) :
    (paths.mapM (Path.read context scope)) heap = .ok values heap := by
  induction h with
  | nil => rfl
  | cons hpath _ ih =>
    rw [List.mapM_cons, run_bind hpath, run_bind ih]
    rfl

end Paths

section Actions

variable {name object : String} {id : Nat} {path : Path} {operator : Operator} {call : Call}
  {values : List Value}

theorem assign_var {old : Value} (h : scope.lookup name = some (some old))
    (hpath : path.read context scope heap = .ok value heap) :
    (Target.var name).assign context scope operator path heap
      = .ok (scope.set name (operator.apply old value)) heap := by
  rw [Target.assign, run_bind (readVar_of_lookup h), run_bind hpath]
  rfl

theorem assign_field (h : scope.lookup object = some (some (.object id)))
    (hpath : path.read context scope heap = .ok value heap) :
    (Target.field object name).assign context scope operator path heap
      = .ok scope (heap.set id name (operator.apply (heap.field id name) value)) := by
  have hold : readField (.object id) name heap = .ok (heap.field id name) heap := rfl
  rw [Target.assign, run_bind (readVar_of_lookup h), run_bind hold, run_bind hpath]
  rfl

theorem call_run (hfree : scope.lookup call.function = none)
    (hread : Reads context scope heap call.arguments values) :
    call.run context scope heap = context.call call.function values heap := by
  rw [Call.run, run_bind (mapM_read hread), hfree]
  rfl

end Actions

section Sequences

variable {action : Action} {actions : List Action} {statement : Statement}
  {statements : List Statement} {arguments : List Value} {condition : Condition}

theorem runActions_next (h : action.run context scope heap = .ok (.next scope') heap') :
    runActions context scope (action :: actions) heap
      = runActions context scope' actions heap' := by
  rw [runActions, run_bind h]

theorem runActions_done (h : action.run context scope heap = .ok (.done value) heap') :
    runActions context scope (action :: actions) heap = .ok (.done value) heap' := by
  rw [runActions, run_bind h]
  rfl

theorem runStatements_next
    (h : statement.run context scope arguments heap = .ok (.next scope') heap') :
    runStatements context arguments scope (statement :: statements) heap
      = runStatements context arguments scope' statements heap' := by
  rw [runStatements, run_bind h]

theorem runStatements_blank :
    runStatements context arguments scope (.blank :: statements) heap
      = runStatements context arguments scope statements heap := rfl

theorem runStatements_done
    (h : statement.run context scope arguments heap = .ok (.done value) heap') :
    runStatements context arguments scope (statement :: statements) heap
      = .ok (.done value) heap' := by
  rw [runStatements, run_bind h]
  rfl

theorem cond_run_true (h : condition.run context scope arguments heap = .ok true heap) :
    (Statement.cond condition actions).run context scope arguments heap
      = runBlock context scope actions heap := by
  rw [Statement.run, run_bind h]
  rfl

theorem cond_run_false (h : condition.run context scope arguments heap = .ok false heap) :
    (Statement.cond condition actions).run context scope arguments heap
      = .ok (.next scope) heap := by
  rw [Statement.run, run_bind h]
  rfl

/-- A block that declares nothing leaves the variables that are there behind it. -/
theorem runBlock_next (hdeclared : declared actions = [])
    (h : runActions context scope actions heap = .ok (.next scope') heap') :
    runBlock context scope actions heap = .ok (.next scope') heap' := by
  rw [runBlock, hdeclared, List.nil_append, run_bind h]
  rfl

theorem runBlock_done
    (h : runActions context (declared actions ++ scope) actions heap = .ok (.done value) heap') :
    runBlock context scope actions heap = .ok (.done value) heap' := by
  rw [runBlock, run_bind h]
  rfl

theorem function_run_done {function : Function}
    (h : runStatements context arguments
      (declaredIn function.body ++ bindParameters function.parameters arguments) function.body heap
      = .ok (.done value) heap') :
    function.run context arguments heap = .ok value heap' := by
  rw [Function.run, run_bind h]
  rfl

end Sequences

section Lookup

variable {α : Type} {names : α → String} {given : α → Value} {list : List α} {a : α} {name : String}

theorem lookup_cons_of_ne {name' : String} {held : Option Value} (h : name' ≠ name) :
    List.lookup name ((name', held) :: scope) = scope.lookup name := by
  rw [List.lookup_cons, beq_false_of_ne h.symm]

theorem bindParameters_cons (list : List α) :
    bindParameters ((a :: list).map names) ((a :: list).map given)
      = (names a, some (given a)) :: bindParameters (list.map names) (list.map given) := rfl

/-- A parameter has the value that stands in its place. -/
theorem lookup_parameter (hnodup : (list.map names).Nodup) (hmem : a ∈ list) :
    (bindParameters (list.map names) (list.map given)).lookup (names a)
      = some (some (given a)) := by
  induction list with
  | nil => cases hmem
  | cons first list ih =>
    rw [List.map_cons, List.nodup_cons] at hnodup
    rw [bindParameters_cons]
    rcases List.mem_cons.1 hmem with rfl | hmem
    · exact List.lookup_cons_self
    · have hne : names first ≠ names a := fun heq => hnodup.1 (heq ▸ List.mem_map_of_mem hmem)
      rw [lookup_cons_of_ne hne, ih hnodup.2 hmem]

theorem lookup_no_parameter (h : ∀ a ∈ list, names a ≠ name) :
    (bindParameters (list.map names) (list.map given)).lookup name = none := by
  induction list with
  | nil => rfl
  | cons first list ih =>
    rw [bindParameters_cons, lookup_cons_of_ne (h first List.mem_cons_self),
      ih fun a hmem => h a (List.mem_cons_of_mem _ hmem)]

end Lookup

end NodeFactory.Script
