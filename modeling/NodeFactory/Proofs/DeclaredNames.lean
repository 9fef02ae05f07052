import NodeFactory.Proofs.Construction
import NodeFactory.Proofs.KindDiscovery

/-!
# The names that a function declares

No two fields of a kind have one name (`nodup_names_of_analyze`), and the parameters of its
functions are named after its fields. Still a function declares a name twice if a field is named
like a variable of the function, or if a field has the very name that stands in for `arguments`;
in no other case (`declares_once_iff`).
-/

namespace NodeFactory

open Script

section Declared

def Script.Statement.actions : Script.Statement → List Action
  | .act action => [action]
  | .cond _ body => body
  | .blank => []

/-- The parameters and the variables of a function, those of its blocks too. -/
def Script.Function.declares (function : Function) : List String :=
  function.parameters ++ (declared (function.body.flatMap Script.Statement.actions)).map Prod.fst

def NodeKind.scripts (config : Config) (kind : NodeKind) : List Function :=
  (Constructor.ofKind kind).script config :: (Updater.ofKind? kind).toList.map Updater.script

/-- No field takes a name that a function of the kind needs for itself. -/
structure NodeKind.SparesNames (kind : NodeKind) : Prop where
  node : "node" ∉ kind.fields.map Field.name
  renamed : ¬ ("arguments" ∈ kind.fields.map Field.name ∧ "_arguments" ∈ kind.fields.map Field.name)
  newNode : Updater.ofKind? kind ≠ none → "newNode" ∉ kind.compared.map Field.name

end Declared

section Parameters

variable {kind : NodeKind} {fields : List Field} {name : String}

theorem paramName_eq_iff {field : Field} (h : name ≠ "arguments") (h' : name ≠ "_arguments") :
    field.paramName = name ↔ field.name = name := by
  unfold Field.paramName
  split
  · rename_i harguments
    rw [harguments]
    exact iff_of_false (Ne.symm h') (Ne.symm h)
  · rfl

theorem mem_paramNames_iff (h : name ≠ "arguments") (h' : name ≠ "_arguments") :
    name ∈ fields.map Field.paramName ↔ name ∈ fields.map Field.name := by
  simp only [List.mem_map, paramName_eq_iff h h']

/-- The stand-in for `arguments` is all that can make two parameters of one name. -/
theorem nodup_paramNames_iff (hnames : (fields.map Field.name).Nodup) :
    (fields.map Field.paramName).Nodup
      ↔ ¬ ("arguments" ∈ fields.map Field.name ∧ "_arguments" ∈ fields.map Field.name) := by
  constructor
  · rintro hnodup ⟨harguments, hstandIn⟩
    obtain ⟨a, ha, haname⟩ := List.mem_map.1 harguments
    obtain ⟨b, hb, hbname⟩ := List.mem_map.1 hstandIn
    have hparam : a.paramName = b.paramName := by simp [Field.paramName, haname, hbname]
    obtain rfl := List.inj_on_of_nodup_map hnodup ha hb hparam
    exact absurd (haname.symm.trans hbname) (by decide)
  · intro hapart
    refine List.Nodup.map_on (fun a ha b hb hparam => ?_) hnames.of_map
    refine List.inj_on_of_nodup_map hnames ha hb ?_
    have hmem := fun field (hfield : field ∈ fields) => List.mem_map_of_mem (f := Field.name) hfield
    unfold Field.paramName at hparam
    split at hparam <;> split at hparam
    · rename_i haname hbname
      exact haname.trans hbname.symm
    · rename_i haname _
      exact absurd ⟨haname ▸ hmem a ha, hparam ▸ hmem b hb⟩ hapart
    · rename_i _ hbname
      exact absurd ⟨hbname ▸ hmem b hb, hparam ▸ hmem a ha⟩ hapart
    · exact hparam

theorem constructor_declares (config : Config) (kind : NodeKind) :
    ((Constructor.ofKind kind).script config).declares
      = kind.fields.map Field.paramName ++ if kind.fields.isEmpty then [] else ["node"] := by
  have hparameters : (kind.fields.map Parameter.ofField).map Parameter.name
      = kind.fields.map Field.paramName := by
    rw [List.map_map]
    rfl
  have hstored : ∀ stores : List Store, declared (stores.map Store.action) = [] := by
    intro stores
    unfold declared
    rw [List.filterMap_map, List.filterMap_eq_nil_iff]
    rintro (⟨name, param⟩ | ⟨param⟩) - <;> rfl
  have hstoring : ∀ stores, (storing stores).flatMap Script.Statement.actions
      = stores.map Store.action := by
    intro stores
    unfold storing
    split
    · simp [Script.Statement.actions]
    · rw [List.flatMap_map]
      exact List.flatMap_pure_eq_map _ _
  unfold Script.Function.declares Constructor.script
  simp only [Constructor.ofKind, hparameters, List.isEmpty_map]
  split
  · rfl
  · have := hstored (kind.fields.map Store.ofField)
    simp only [List.flatMap_cons, List.flatMap_append, hstoring]
    simp_all [declared, Script.Statement.actions, Action.declared?]

theorem updater_declares {updater : Updater} (h : Updater.ofKind? kind = some updater) :
    updater.script.declares = "node" :: kind.compared.map Field.paramName ++ ["newNode"] := by
  have hparameters : (kind.compared.map Parameter.ofField).map Parameter.name
      = kind.compared.map Field.paramName := by
    rw [List.map_map]
    rfl
  rw [eq_of_ofKind? h]
  unfold Script.Function.declares Updater.script
  rw [hparameters]
  rfl

theorem constructor_declares_once_iff (config : Config)
    (hnames : (kind.fields.map Field.name).Nodup) :
    ((Constructor.ofKind kind).script config).declares.Nodup
      ↔ "node" ∉ kind.fields.map Field.name
        ∧ ¬ ("arguments" ∈ kind.fields.map Field.name
          ∧ "_arguments" ∈ kind.fields.map Field.name) := by
  rw [constructor_declares, ← nodup_paramNames_iff hnames,
    ← mem_paramNames_iff (by decide) (by decide)]
  cases kind.fields with
  | nil => simp
  | cons field fields =>
    rw [List.isEmpty_cons, if_neg (by decide), List.nodup_append_comm]
    exact List.nodup_cons

theorem updater_declares_once_iff {updater : Updater} (h : Updater.ofKind? kind = some updater)
    (hnames : (kind.compared.map Field.name).Nodup) :
    updater.script.declares.Nodup
      ↔ "node" ∉ kind.compared.map Field.name ∧ "newNode" ∉ kind.compared.map Field.name
        ∧ ¬ ("arguments" ∈ kind.compared.map Field.name
          ∧ "_arguments" ∈ kind.compared.map Field.name) := by
  rw [updater_declares h, ← nodup_paramNames_iff hnames,
    ← mem_paramNames_iff (by decide) (by decide), ← mem_paramNames_iff (by decide) (by decide),
    List.nodup_append_comm, List.singleton_append, List.nodup_cons, List.nodup_cons,
    List.mem_cons]
  tauto

end Parameters

section Analyzed

variable {config : Config} {text : List Char} {kinds : List NodeKind} {kind : NodeKind}

theorem Finds.found_spec {κ α β : Type} [BEq κ] {rule : κ → Inquiry κ α α}
    {search : Memo.Search κ α β} {value : β → Prop} {failure : CyclicType → Prop}
    (h : Finds (Memo.AtRest rule) search value failure) :
    match Memo.found (search Memo.empty) with
    | .ok found => value found
    | .error found => failure found := by
  have hspec := h.outcome (Memo.atRest_empty rule)
  cases hrun : search Memo.empty with
  | ok _ _ | error _ _ =>
    rw [hrun] at hspec
    exact hspec

theorem Model.IsBuilt.nodup_names {model : Model} {entry : SymbolId × SymbolId}
    (h : model.IsBuilt entry kind) : (kind.fields.map Field.name).Nodup := by
  obtain ⟨isDeclaration, properties, -, hproperties, hselected⟩ := h.selected
  have hnames := (model.ofSymbol_finds entry.1).found_spec
  rw [hproperties] at hnames
  have hselection := (select_finds model ⟨kind.name, kind.declaringType, isDeclaration⟩
    hnames).found_spec
  rw [hselected] at hselection
  obtain ⟨_, hselection⟩ := hselection
  exact hselection.nodup

theorem nodup_names_of_analyze (h : analyze config text = .ok kinds) (hmem : kind ∈ kinds) :
    (kind.fields.map Field.name).Nodup := by
  obtain ⟨-, kindEnum, -, hkinds⟩ := analyze_eq_ok_iff.1 h
  obtain ⟨discovered, hbuilt, hperm⟩ := Model.kinds_builds hkinds
  obtain ⟨i, hi, rfl⟩ := List.getElem_of_mem (hperm.mem_iff.1 hmem)
  exact (hbuilt.get (by rw [hbuilt.length_eq]; exact hi) hi).nodup_names

/-- The functions of a kind that is found declare no name twice, unless a field takes one of the
few names that they need. -/
theorem declares_once_iff (h : analyze config text = .ok kinds) (hmem : kind ∈ kinds) :
    (∀ function ∈ kind.scripts config, function.declares.Nodup) ↔ kind.SparesNames := by
  have hnames := nodup_names_of_analyze h hmem
  have hsub : (kind.compared.map Field.name).Sublist (kind.fields.map Field.name) :=
    List.filter_sublist.map _
  unfold NodeKind.scripts
  rw [List.forall_mem_cons, constructor_declares_once_iff config hnames]
  constructor
  · rintro ⟨⟨hnode, hrenamed⟩, hupdater⟩
    refine ⟨hnode, hrenamed, fun hsome => ?_⟩
    obtain ⟨updater, hupdater'⟩ := Option.ne_none_iff_exists'.1 hsome
    rw [hupdater'] at hupdater
    have hnodup := hupdater updater.script (by simp)
    exact ((updater_declares_once_iff hupdater' (hnames.sublist hsub)).1 hnodup).2.1
  · rintro ⟨hnode, hrenamed, hnewNode⟩
    refine ⟨⟨hnode, hrenamed⟩, fun function hfunction => ?_⟩
    obtain ⟨updater, hupdater, rfl⟩ := List.mem_map.1 hfunction
    have hupdater := Option.mem_toList.1 hupdater
    refine (updater_declares_once_iff hupdater (hnames.sublist hsub)).2
      ⟨fun hin => hnode (hsub.subset hin), hnewNode (by simp [hupdater]), ?_⟩
    exact fun hin => hrenamed (hin.imp (fun h => hsub.subset h) fun h => hsub.subset h)

/-- A schema of blocks that refer to a node, in a field of some name. -/
def referringSchema (name : String) : List Char :=
  "interface Node \x7b\x7d
enum SyntaxKind \x7b Block \x7d
/* @kind(SyntaxKind.Block) */
interface Block extends Node \x7b ".toList ++ name.toList ++ ": Node; \x7d".toList

/-- The kind of these blocks. -/
def referringKind (name : String) : NodeKind where
  name := "Block"
  value := some (.zero false)
  symbol := 3
  declaringType := "Block"
  fields := [⟨name, "Node", false, .node, false⟩]
  hasChildren := true
  requiredCount := 1

theorem declares_once_block :
    analyze {} (referringSchema "arguments") = .ok [referringKind "arguments"]
      ∧ ((∀ function ∈ (referringKind "arguments").scripts {}, function.declares.Nodup)
        ↔ (referringKind "arguments").SparesNames) := by
  have h : analyze {} (referringSchema "arguments") = .ok [referringKind "arguments"] := by
    decide +kernel
  exact ⟨h, declares_once_iff h List.mem_cons_self⟩

/-- The constructor for a field `node` declares this name twice. -/
theorem constructor_declares_node_twice :
    analyze {} (referringSchema "node") = .ok [referringKind "node"]
      ∧ ((Constructor.ofKind (referringKind "node")).script {}).declares = ["node", "node"] :=
  ⟨by decide +kernel, by decide⟩

end Analyzed

end NodeFactory
