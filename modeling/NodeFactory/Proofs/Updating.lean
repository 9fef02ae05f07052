import NodeFactory.Analysis
import NodeFactory.Proofs.Construction

/-!
# What an updater gives

An updater gives the node itself if all that it is passed is what the node holds
(`call_update_same`). So it does for a node that a constructor has just made from the same, as long
as modifiers are stored in the field that they are compared with. Where a modifiers array is a field
of another name, the node does not hold it there, and each update makes a new node.
-/

namespace NodeFactory

open Script

section Comparing

variable {context : Context} {scope : Scope} {given : Field → Value} {node : Nat} {heap : Heap}
  {fields : List Field}

/-- The comparisons of an updater tell whether a field of the node is not what is passed. -/
theorem anyDiffers_run (hnode : scope.lookup "node" = some (some (.object node)))
    (hparam : ∀ field ∈ fields, scope.lookup field.paramName = some (some (given field))) :
    anyDiffers context scope ((fields.map Comparison.ofField).map Comparison.paths) heap
      = .ok (fields.any fun field => given field ≠ heap.field node field.name) heap := by
  induction fields with
  | nil => rfl
  | cons field fields ih =>
    rw [List.forall_mem_cons] at hparam
    have hvalue : (Script.Path.var field.paramName).read context scope heap
        = .ok (given field) heap :=
      read_var (readVar_of_lookup hparam.1)
    have hfield : (Script.Path.mk "node" [field.name]).read context scope heap
        = .ok (heap.field node field.name) heap :=
      read_field (readVar_of_lookup hnode)
    rw [List.map_cons, List.map_cons, Comparison.paths, Comparison.ofField, anyDiffers,
      run_bind hvalue, run_bind hfield, List.any_cons]
    by_cases h : given field = heap.field node field.name
    · rw [if_neg (not_not.2 h), decide_eq_false (not_not.2 h), Bool.false_or]
      exact ih hparam.2
    · rw [if_pos h, decide_eq_true h, Bool.true_or]
      rfl

end Comparing

section Called

variable {config : Config} {kind : NodeKind} {updater : Updater} {kindEnum depth node : Nat}
  {given : Field → Value} {heap heap' : Heap}

theorem mem_fields_of_mem_compared {field : Field} (h : field ∈ kind.compared) :
    field ∈ kind.fields :=
  (List.mem_filter.1 h).1

theorem call_updater (hupdater : Updater.ofKind? kind = some updater) (hkind : kind.name ≠ "From")
    (arguments : List Value) :
    (kind.program config kindEnum).call (depth + 1) ("update" ++ kind.name) arguments
      = updater.script.run (kind.context config kindEnum depth) arguments := by
  have hname : updater.script.name = "update" ++ kind.name := by
    rw [eq_of_ofKind? hupdater]
    rfl
  rw [← hname]
  exact call_function hkind (mem_functions.2 (.inr (.inr (.inr ⟨updater, hupdater, rfl⟩))))

def NodeKind.comparedParameters (kind : NodeKind) (given : Field → Value) : Scope :=
  bindParameters (kind.compared.map Field.paramName) (kind.compared.map given)

theorem lookup_compared (hapart : kind.NamesApart config) {field : Field}
    (hmem : field ∈ kind.compared) :
    (kind.comparedParameters given).lookup field.paramName = some (some (given field)) := by
  have hsub : (kind.compared.map Field.paramName).Sublist (kind.fields.map Field.paramName) :=
    List.filter_sublist.map _
  exact lookup_parameter (hapart.nodup.sublist hsub) hmem

theorem condition_run (hapart : kind.NamesApart config)
    (hupdater : Updater.ofKind? kind = some updater) {context : Context} {arguments : List Value} :
    (Condition.differs (updater.comparisons.map Comparison.paths)).run context
        (("node", some (.object node)) :: kind.comparedParameters given) arguments heap
      = .ok (kind.compared.any fun field => given field ≠ heap.field node field.name) heap := by
  rw [eq_of_ofKind? hupdater, Condition.run]
  refine anyDiffers_run List.lookup_cons_self fun field hmem => ?_
  rw [lookup_cons_of_ne (hapart.ne_node (mem_fields_of_mem_compared hmem)),
    lookup_compared hapart hmem]

theorem scope_updater (hupdater : Updater.ofKind? kind = some updater) :
    declaredIn updater.script.body
        ++ bindParameters updater.script.parameters (.object node :: kind.compared.map given)
      = ("node", some (.object node)) :: kind.comparedParameters given := by
  rw [eq_of_ofKind? hupdater]
  change ("node", some (Value.object node)) :: bindParameters
    ((kind.compared.map Parameter.ofField).map Parameter.name) (kind.compared.map given) = _
  rw [List.map_map]
  rfl

/-- Called with what the node holds, the updater gives the node, and nothing changes. -/
theorem call_update_same (hapart : kind.NamesApart config)
    (hupdater : Updater.ofKind? kind = some updater)
    (hsame : ∀ field ∈ kind.compared, given field = heap.field node field.name) :
    (kind.program config kindEnum).call (depth + 1) ("update" ++ kind.name)
        (.object node :: kind.compared.map given) heap
      = .ok (.object node) heap := by
  rw [call_updater hupdater hapart.notFrom]
  refine function_run_done ?_
  rw [scope_updater hupdater, Updater.script]
  have hnone : (kind.compared.any fun field => given field ≠ heap.field node field.name)
      = false := by
    rw [List.any_eq_false]
    intro field hmem
    simp [hsame field hmem]
  have hcondition : (Condition.differs (updater.comparisons.map Comparison.paths)).run
      (kind.context config kindEnum depth)
      (("node", some (.object node)) :: kind.comparedParameters given)
      (.object node :: kind.compared.map given) heap = .ok false heap := by
    rw [condition_run hapart hupdater, hnone]
  rw [runStatements_next (cond_run_false hcondition)]
  refine runStatements_done ?_
  rw [Script.Statement.run, Action.run, Expr.run,
    run_bind (read_var (readVar_of_lookup List.lookup_cons_self))]
  rfl

end Called

section Reconstruction

variable {config : Config} {kind : NodeKind} {updater : Updater} {given : Field → Value}
  {heap : Heap}

/-- Where modifiers are stored in the field that they are compared with, a node that was constructed
from some values is updated with these values to itself. -/
theorem update_as_constructed_gives_node (kindEnum depth : Nat)
    (hupdater : Updater.ofKind? kind = some updater) (hapart : kind.NamesApart config)
    (hnamed : kind.ModifiersNamed) (hgiven : ∀ field ∈ kind.fields, IsGiven heap (given field)) :
    ∃ node heap', (kind.program config kindEnum).call (depth + 2) ("create" ++ kind.name)
        (kind.fields.map given) heap = .ok (.object node) heap'
      ∧ heap.next ≤ node
      ∧ (kind.program config kindEnum).call (depth + 2) ("update" ++ kind.name)
        (.object node :: kind.compared.map given) heap' = .ok (.object node) heap' := by
  refine ⟨heap.next, kind.created given heap, call_create hapart hgiven, Nat.le_refl _, ?_⟩
  refine call_update_same hapart hupdater fun field hmem => ?_
  exact (field_created hapart hnamed hgiven (mem_fields_of_mem_compared hmem)).symm

/-- Blocks of statements with modifiers, and a mark that only the constructor takes. -/
def blockKind : NodeKind where
  name := "Block"
  value := some (.zero false)
  symbol := 6
  declaringType := "Block"
  fields := [⟨"modifiers", "ModifiersArray", true, .modifiersArray, false⟩,
    ⟨"statements", "NodeArray<Statement>", false, .nodeArray, false⟩,
    ⟨"multiLine", "boolean", true, .plain, true⟩]
  hasChildren := true
  requiredCount := 2

theorem blockKind_namesApart : blockKind.NamesApart {} where
  nodup := by decide
  parameters := by decide
  kindEnum := by decide
  notNode := by decide
  notFrom := by decide
  flags := by decide

/-- Modifiers and statements for a block, without the mark. -/
def blockGiven (field : Field) : Value :=
  match field.fieldClass with
  | .modifiersArray => .object 1
  | .nodeArray => .object 2
  | _ => .undefined

theorem blockGiven_isGiven (field : Field) :
    IsGiven ⟨3, fun _ _ => .undefined⟩ (blockGiven field) := by
  unfold blockGiven
  split
  · exact .object (by decide)
  · exact .object (by decide)
  · exact .undefined

theorem update_of_created_block :
    (Updater.ofKind? blockKind).isSome ∧ blockKind.NamesApart {} ∧ blockKind.ModifiersNamed
      ∧ ∃ node heap', (blockKind.program {} 0).call 2 "createBlock"
          [.object 1, .object 2, .undefined] ⟨3, fun _ _ => .undefined⟩ = .ok (.object node) heap'
        ∧ 3 ≤ node
        ∧ (blockKind.program {} 0).call 2 "updateBlock" [.object node, .object 1, .object 2] heap'
          = .ok (.object node) heap' := by
  have hupdater : (Updater.ofKind? blockKind).isSome := by decide
  have hnamed : blockKind.ModifiersNamed := by
    unfold NodeKind.ModifiersNamed
    decide
  have h := update_as_constructed_gives_node 0 0 (Option.some_get hupdater).symm
    blockKind_namesApart hnamed fun field _ => blockGiven_isGiven field
  exact ⟨hupdater, blockKind_namesApart, hnamed, h⟩

/-- A schema of blocks that have modifiers only, in a field of some name. -/
def modifiersSchema (name : String) : List Char :=
  "interface Node \x7b\x7d
interface ModifiersArray \x7b\x7d
interface Declaration extends Node \x7b\x7d
enum SyntaxKind \x7b Block \x7d
/* @kind(SyntaxKind.Block) */
interface Block extends Declaration \x7b ".toList ++ name.toList ++ ": ModifiersArray; \x7d".toList

/-- The kind of these blocks. -/
def modifiersKind (name : String) : NodeKind where
  name := "Block"
  value := some (.zero false)
  symbol := 5
  declaringType := "Block"
  fields := [⟨name, "ModifiersArray", false, .modifiersArray, false⟩]
  hasChildren := true
  requiredCount := 1

/-- Modifiers that are passed for a field of another name are not found there again. -/
theorem update_of_misnamed_modifiers_gives_new_node :
    analyze {} (modifiersSchema "mods") = .ok [modifiersKind "mods"]
      ∧ (modifiersKind "mods").NamesApart {} ∧ IsGiven ⟨2, fun _ _ => .undefined⟩ (.object 1)
      ∧ ∃ heap heap', ((modifiersKind "mods").program {} 0).call 3 "createBlock" [.object 1]
          ⟨2, fun _ _ => .undefined⟩ = .ok (.object 2) heap
        ∧ ((modifiersKind "mods").program {} 0).call 3 "updateBlock" [.object 2, .object 1] heap
          = .ok (.object 3) heap' := by
  have hapart : (modifiersKind "mods").NamesApart {} := by
    constructor <;> decide
  exact ⟨by decide +kernel, hapart, .object (by decide), _, _, rfl, rfl⟩

end Reconstruction

end NodeFactory
