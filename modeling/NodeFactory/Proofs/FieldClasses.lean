import NodeFactory.Field.Selection
import NodeFactory.Proofs.Descent
import NodeFactory.Proofs.SteadyAnswer

/-!
# The class of a type

A type is a node array or a modifiers array if it is a reference to the interface of that name, and
otherwise a node if the node interface is reached from it (`HasClass`). Classification gives this
class, whatever is remembered, or else the name of a symbol on a cycle that is reached from the type
(`classify_finds`).
-/

namespace NodeFactory

open Inquiry Memo NodeFactory.Subtype

/-- A search for descent finds whether its target is reached, or else it names a cycle. -/
theorem Subtype.Subject.search_finds (table : SymbolTable) (subject : Subject)
    (target : Option SymbolId) :
    Finds (AtRest (rule table)) (subject.search table target)
      (fun descends => descends = true ↔ ∃ id, target = some id ∧ Reaches table id subject)
      (fun cycle => ∃ id culprit, target = some id ∧ OnCycle table id subject culprit
        ∧ cycle.name = table.symbolName culprit) := by
  rw [Subject.search_eq]
  refine ⟨_, gives_run _ (pathsWithin_size table) (Nat.lt_succ_self _)
    (subject.descent table target), ?_⟩
  have hconforms := searchWithin_conforms (Nat.lt_succ_self table.symbols.size) subject target
  split
  · rename_i descends hfound
    have hsettles := hconforms.settles hfound
    cases target with
    | none =>
      obtain rfl := settles_pure.1 hsettles
      simp
    | some id => simpa using settles_descent hsettles
  · rename_i cycle hfound
    obtain ⟨asked, culprit, hasked, hreach, hcycle, hname⟩ := hconforms.cycle hfound
    cases target with
    | none => exact absurd hasked asks_pure
    | some id => exact ⟨id, culprit.1, rfl, onCycle_of_needs hasked hreach hcycle, hname⟩

/-- A type written inside a declaration is a reference to a symbol. -/
inductive RefersTo (table : SymbolTable) (site : DeclId) (id : SymbolId) : TypeExpr → Prop
  | reference {name : EntityName} {args : List TypeExpr} {span : Text.Span} :
      table.resolveType site name = some id → RefersTo table site id ⟨.reference name args, span⟩

theorem RefersTo.unique {table : SymbolTable} {site : DeclId} {id id' : SymbolId} {type : TypeExpr}
    (h : RefersTo table site id type) (h' : RefersTo table site id' type) : id = id' := by
  cases h with
  | reference hid =>
    cases h' with
    | reference hid' => exact Option.some.inj (hid.symm.trans hid')

theorem isChild_eq_false {fieldClass : FieldClass} :
    fieldClass.isChild = false ↔ fieldClass = .plain := by
  cases fieldClass <;> simp [FieldClass.isChild]

namespace Model

variable (model : Model)

/-- A type is a reference to the interface of node arrays, or to that of modifiers arrays. -/
def IsArray (type : TypeExpr) (site : DeclId) : Prop :=
  ∃ id, RefersTo model.table site id type
    ∧ (model.wellKnown.nodeArray = some id ∨ model.wellKnown.modifiersArray = some id)

/-- The node interface is reached from a type. -/
def IsNode (type : TypeExpr) (site : DeclId) : Prop :=
  ∃ node, model.wellKnown.node = some node ∧ Reaches model.table node (.type type site)

/-- The class that a type written inside a declaration has. -/
inductive HasClass (type : TypeExpr) (site : DeclId) : FieldClass → Prop
  | nodeArray {id : SymbolId} :
      RefersTo model.table site id type → model.wellKnown.nodeArray = some id →
        HasClass type site .nodeArray
  | modifiersArray {id : SymbolId} :
      RefersTo model.table site id type → model.wellKnown.nodeArray ≠ some id →
        model.wellKnown.modifiersArray = some id → HasClass type site .modifiersArray
  | node : ¬ model.IsArray type site → model.IsNode type site → HasClass type site .node
  | plain : ¬ model.IsArray type site → ¬ model.IsNode type site → HasClass type site .plain

/-- A cycle is named that stands between a type and the node interface. -/
def NamesCycle (type : TypeExpr) (site : DeclId) (cycle : CyclicType) : Prop :=
  ∃ node id, model.wellKnown.node = some node ∧ OnCycle model.table node (.type type site) id
    ∧ cycle.name = model.table.symbolName id

variable {model} {type : TypeExpr} {site : DeclId}

theorem HasClass.unique {fieldClass fieldClass' : FieldClass}
    (h : model.HasClass type site fieldClass) (h' : model.HasClass type site fieldClass') :
    fieldClass = fieldClass' := by
  cases h with
  | nodeArray href hid =>
    cases h' with
    | nodeArray => rfl
    | modifiersArray href' hne _ => exact absurd (href.unique href' ▸ hid) hne
    | node harray _ | plain harray _ => exact absurd ⟨_, href, .inl hid⟩ harray
  | modifiersArray href hne hid =>
    cases h' with
    | nodeArray href' hid' => exact absurd (href'.unique href ▸ hid') hne
    | modifiersArray => rfl
    | node harray _ | plain harray _ => exact absurd ⟨_, href, .inr hid⟩ harray
  | node harray hnode =>
    cases h' with
    | nodeArray href hid => exact absurd ⟨_, href, .inl hid⟩ harray
    | modifiersArray href _ hid => exact absurd ⟨_, href, .inr hid⟩ harray
    | node => rfl
    | plain _ hplain => exact absurd hnode hplain
  | plain harray hplain =>
    cases h' with
    | nodeArray href hid => exact absurd ⟨_, href, .inl hid⟩ harray
    | modifiersArray href _ hid => exact absurd ⟨_, href, .inr hid⟩ harray
    | node _ hnode => exact absurd hnode hplain
    | plain => rfl

/-- The symbol that a type refers to, if it is a reference to one. -/
def referent? (table : SymbolTable) (type : TypeExpr) (site : DeclId) : Option SymbolId :=
  match type.shape with
  | .reference name _ => table.resolveType site name
  | _ => none

theorem referent?_eq_some {table : SymbolTable} {id : SymbolId} :
    referent? table type site = some id ↔ RefersTo table site id type := by
  constructor
  · intro h
    obtain ⟨shape, span⟩ := type
    unfold referent? at h
    cases shape with
    | reference name args => exact .reference h
    | _ => cases h
  · rintro ⟨h⟩
    exact h

theorem classify_eq : model.classify type site =
    if (referent? model.table type site).isSome
        && referent? model.table type site == model.wellKnown.nodeArray then pure .nodeArray
    else if (referent? model.table type site).isSome
        && referent? model.table type site == model.wellKnown.modifiersArray then
      pure .modifiersArray
    else Subject.search model.table (.type type site) model.wellKnown.node >>= fun isNode =>
      if isNode then pure .node else pure .plain := rfl

theorem refersTo_of_isSome_and_beq {array : Option SymbolId}
    (h : ((referent? model.table type site).isSome
      && referent? model.table type site == array) = true) :
    ∃ id, RefersTo model.table site id type ∧ array = some id := by
  obtain ⟨hsome, heq⟩ := (Bool.and_eq_true _ _).mp h
  obtain ⟨id, hid⟩ := Option.isSome_iff_exists.1 hsome
  exact ⟨id, referent?_eq_some.1 hid, (eq_of_beq heq).symm.trans hid⟩

theorem ne_of_not_isSome_and_beq {array : Option SymbolId} {id : SymbolId}
    (h : ¬ ((referent? model.table type site).isSome
      && referent? model.table type site == array) = true)
    (hid : RefersTo model.table site id type) : array ≠ some id := by
  rintro rfl
  refine h ?_
  rw [referent?_eq_some.2 hid]
  simp

/-- Classification finds the class of a type, or else it names a cycle. -/
theorem classify_finds (model : Model) (type : TypeExpr) (site : DeclId) :
    Finds (AtRest (rule model.table)) (model.classify type site) (model.HasClass type site)
      (model.NamesCycle type site) := by
  rw [classify_eq]
  split
  · rename_i h
    obtain ⟨id, href, hid⟩ := refersTo_of_isSome_and_beq h
    exact .pure (.nodeArray href hid)
  · rename_i hnodes
    split
    · rename_i h
      obtain ⟨id, href, hid⟩ := refersTo_of_isSome_and_beq h
      exact .pure (.modifiersArray href (ne_of_not_isSome_and_beq hnodes href) hid)
    · rename_i hmodifiers
      have harray : ¬ model.IsArray type site := by
        rintro ⟨id, href, hid | hid⟩
        · exact ne_of_not_isSome_and_beq hnodes href hid
        · exact ne_of_not_isSome_and_beq hmodifiers href hid
      refine (Subject.search_finds model.table (.type type site) model.wellKnown.node).bind
        (fun isNode hiff => ?_) fun _ h => h
      cases isNode with
      | true => exact .pure (.node harray (hiff.1 rfl))
      | false => exact .pure (.plain harray fun hnode => Bool.false_ne_true (hiff.2 hnode))

end Model

end NodeFactory
