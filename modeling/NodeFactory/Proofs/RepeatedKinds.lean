import Mathlib.Data.List.Nodup
import NodeFactory.Proofs.CoherentTables
import NodeFactory.Proofs.KindDiscovery

/-!
# Kinds that are found twice

A kind is found twice for a type if a declaration of the type annotates it twice, or if two of its
declarations declare it; in no other case (`kinds_nodup_iff`). The metadata are no third case by
themselves: they count for one declaration, and add no kind that is annotated there.
-/

namespace NodeFactory

open List Text

/-- What tells kinds apart: the name, and the type that declares it. -/
def NodeKind.key (kind : NodeKind) : String × SymbolId :=
  (kind.name, kind.symbol)

namespace Model

variable {model : Model} {kindEnum : SymbolId}

/-- No declaration annotates a kind twice, and no two declarations of a type declare the same. -/
structure DeclaresKindsOnce (model : Model) (kindEnum : SymbolId) : Prop where
  annotated {d : DeclId} {decl : Declaration} : model.table.declarations[d]? = some decl →
    DeclaresType decl → (model.annotatedKinds kindEnum decl).Nodup
  merged {d d' : DeclId} {decl decl' : Declaration} : d < d' →
    model.table.declarations[d]? = some decl → model.table.declarations[d']? = some decl' →
    decl.symbol = decl'.symbol →
    (model.declaredKinds kindEnum d decl).Disjoint (model.declaredKinds kindEnum d' decl')

section Entries

theorem nodup_addKind {kinds : List SymbolId} {kind : SymbolId} :
    (addKind kinds kind).Nodup ↔ kinds.Nodup := by
  unfold addKind
  split
  · rfl
  · rename_i h
    rw [List.contains_iff_mem] at h
    rw [List.nodup_append_comm, List.singleton_append, List.nodup_cons, and_iff_right h]

theorem nodup_foldl_addKind (listed : List SymbolId) : ∀ kinds : List SymbolId,
    (listed.foldl addKind kinds).Nodup ↔ kinds.Nodup := by
  induction listed with
  | nil => exact fun _ => Iff.rfl
  | cons kind listed ih => exact fun kinds => (ih (addKind kinds kind)).trans nodup_addKind

/-- A declaration of a type adds kinds of the metadata, or none, to those that it annotates; any other
declares none. -/
theorem declaredKinds_cases (model : Model) (kindEnum : SymbolId) (d : DeclId) (decl : Declaration) :
    (DeclaresType decl ∧ ∃ listed, listed ⊆ model.metadataKinds kindEnum decl
      ∧ model.declaredKinds kindEnum d decl
        = listed.foldl addKind (model.annotatedKinds kindEnum decl))
    ∨ ¬ DeclaresType decl ∧ model.declaredKinds kindEnum d decl = [] := by
  have hkinds : ∃ listed, listed ⊆ model.metadataKinds kindEnum decl
      ∧ (if ((model.table.firstDeclaration? decl.symbol).map Prod.fst) == some d then
          (model.metadataKinds kindEnum decl).foldl addKind (model.annotatedKinds kindEnum decl)
        else model.annotatedKinds kindEnum decl)
      = listed.foldl addKind (model.annotatedKinds kindEnum decl) := by
    split
    · exact ⟨_, List.Subset.refl _, rfl⟩
    · exact ⟨[], List.nil_subset _, rfl⟩
  unfold declaredKinds
  split
  · rename_i hnode
    exact .inl ⟨.interface hnode, hkinds⟩
  · rename_i hnode
    exact .inl ⟨.alias hnode, hkinds⟩
  · rename_i hinterface halias
    refine .inr ⟨fun h => ?_, rfl⟩
    rcases h with hnode | hnode
    · exact hinterface _ hnode
    · exact halias _ hnode

/-- The metadata add no kind twice. -/
theorem nodup_declaredKinds_iff {d : DeclId} {decl : Declaration} :
    (model.declaredKinds kindEnum d decl).Nodup
      ↔ (DeclaresType decl → (model.annotatedKinds kindEnum decl).Nodup) := by
  obtain ⟨htype, listed, -, heq⟩ | ⟨htype, heq⟩ := model.declaredKinds_cases kindEnum d decl
  · rw [heq, nodup_foldl_addKind, forall_prop_of_true htype]
  · rw [heq]
    exact ⟨fun _ h => absurd h htype, fun _ => List.nodup_nil⟩

theorem disjoint_map_mk_iff {symbol symbol' : SymbolId} {kinds kinds' : List SymbolId} :
    (kinds.map (symbol, ·)).Disjoint (kinds'.map (symbol', ·))
      ↔ (symbol = symbol' → kinds.Disjoint kinds') := by
  constructor
  · rintro h rfl kind hkind hkind'
    exact h (List.mem_map_of_mem hkind) (List.mem_map_of_mem hkind')
  · intro h entry hentry hentry'
    obtain ⟨kind, hkind, rfl⟩ := List.mem_map.1 hentry
    obtain ⟨kind', hkind', heq⟩ := List.mem_map.1 hentry'
    obtain ⟨rfl, rfl⟩ := Prod.mk.inj heq
    exact h rfl hkind hkind'

theorem nodup_entriesFrom_iff :
    (model.entriesFrom kindEnum 0 model.table.declarations.toList).Nodup
      ↔ model.DeclaresKindsOnce kindEnum := by
  have hmap (symbol : SymbolId) (kinds : List SymbolId) :
      (kinds.map (symbol, ·)).Nodup ↔ kinds.Nodup :=
    List.nodup_map_iff fun _ _ h => (Prod.mk.inj h).2
  unfold entriesFrom
  rw [List.nodup_flatMap, List.pairwise_iff_getElem]
  simp only [Function.onFun, hmap, disjoint_map_mk_iff, List.getElem_zipIdx, Nat.zero_add]
  constructor
  · rintro ⟨honce, hapart⟩
    refine ⟨fun {d decl} hdecl => ?_, fun {d d' decl decl'} hlt hdecl hdecl' => ?_⟩
    · exact nodup_declaredKinds_iff.1 (honce (decl, d) (List.mk_mem_zipIdx_iff_getElem?.2 (by simpa)))
    · obtain ⟨hd, rfl⟩ := Array.getElem?_eq_some_iff.1 hdecl
      obtain ⟨hd', rfl⟩ := Array.getElem?_eq_some_iff.1 hdecl'
      simpa using hapart d d' (by simpa) (by simpa) hlt
  · intro honce
    refine ⟨fun (decl, d) hmem => ?_, fun d d' hd hd' hlt => ?_⟩
    · have hdecl := List.mk_mem_zipIdx_iff_getElem?.1 hmem
      exact nodup_declaredKinds_iff.2 (honce.annotated (by simpa using hdecl))
    · refine honce.merged hlt ?_ ?_ <;> simp

end Entries

section Names

/-- The kinds that a declaration declares are bound in the kind enum. -/
theorem bound_of_mem_declaredKinds {d : DeclId} {decl : Declaration} {kind : SymbolId}
    (h : kind ∈ model.declaredKinds kindEnum d decl) :
    ∃ name, (model.table.bindings (some kindEnum)).lookup name = some kind := by
  obtain ⟨-, listed, hlisted, heq⟩ | ⟨-, heq⟩ := model.declaredKinds_cases kindEnum d decl
  · rw [heq, foldl_addKind, List.mem_append, List.mem_eraseDups] at h
    rcases h with hannotated | hadded
    · obtain ⟨⟨name, _⟩, -, hlookup⟩ := List.mem_filterMap.1 hannotated
      exact ⟨name, hlookup⟩
    · obtain ⟨name, -, hlookup⟩ := List.mem_filterMap.1 (hlisted (List.mem_filter.1 hadded).1)
      exact ⟨name, hlookup⟩
  · rw [heq] at h
    cases h

/-- Kinds that are declared have different names, as all are members of the kind enum. -/
theorem eq_of_symbolName_eq (hc : model.table.Coherent) {decls : List Declaration}
    {entry entry' : SymbolId × SymbolId} (h : entry ∈ model.entriesFrom kindEnum 0 decls)
    (h' : entry' ∈ model.entriesFrom kindEnum 0 decls)
    (hname : model.table.symbolName entry.2 = model.table.symbolName entry'.2) :
    entry.2 = entry'.2 := by
  have hmember : ∀ {entry : SymbolId × SymbolId}, entry ∈ model.entriesFrom kindEnum 0 decls →
      ∃ symbol, model.table.symbols[entry.2]? = some symbol ∧ symbol.parent = some kindEnum
        ∧ model.table.symbolName entry.2 = symbol.name := by
    intro entry h
    obtain ⟨⟨decl, d⟩, -, hentry⟩ := List.mem_flatMap.1 h
    obtain ⟨kind, hkind, rfl⟩ := List.mem_map.1 hentry
    obtain ⟨name, hlookup⟩ := bound_of_mem_declaredKinds hkind
    obtain ⟨symbol, hsymbol, -, hparent⟩ := hc.of_lookup hlookup
    exact ⟨symbol, hsymbol, hparent, by rw [SymbolTable.symbolName, hsymbol]; rfl⟩
  obtain ⟨symbol, hsymbol, hparent, hsymbolName⟩ := hmember h
  obtain ⟨symbol', hsymbol', hparent', hsymbolName'⟩ := hmember h'
  exact hc.unique hsymbol hsymbol' (hsymbolName ▸ hsymbolName' ▸ hname) (hparent.trans hparent'.symm)

end Names

end Model

section Analysis

variable {config : Config} {text : List Char} {kinds : List NodeKind}

/-- Kinds are told apart by what they are built for. -/
theorem Model.keys_of_isBuilt {model : Model} {entries : List (SymbolId × SymbolId)}
    {discovered : List NodeKind} (h : Forall₂ model.IsBuilt entries discovered) :
    discovered.map NodeKind.key
      = entries.map fun entry => (model.table.symbolName entry.2, entry.1) := by
  induction h with
  | nil => rfl
  | cons hbuilt _ ih => rw [List.map_cons, List.map_cons, ih, NodeKind.key, hbuilt.name, hbuilt.symbol]

theorem Model.nodup_keys_iff {model : Model} {kindEnum : SymbolId} (hc : model.table.Coherent)
    (h : model.kinds kindEnum = .ok kinds) :
    (kinds.map NodeKind.key).Nodup ↔ model.DeclaresKindsOnce kindEnum := by
  obtain ⟨discovered, hbuilt, hperm⟩ := Model.kinds_builds h
  rw [(hperm.map _).nodup_iff, Model.keys_of_isBuilt hbuilt, ← nodup_entriesFrom_iff]
  refine ⟨List.Nodup.of_map _, fun hnodup => hnodup.map_on fun entry h entry' h' heq => ?_⟩
  obtain ⟨hname, hsymbol⟩ := Prod.mk.inj heq
  exact Prod.ext hsymbol (eq_of_symbolName_eq hc h h' hname)

/-- No kind is found twice for a type if and only if no declaration annotates a kind twice and no two
declarations of a type declare the same. -/
theorem kinds_nodup_iff (h : analyze config text = .ok kinds) :
    ∃ kindEnum, (Model.ofSchema config (Schema.parse text)).wellKnown.kindEnum = some kindEnum
      ∧ ((kinds.map NodeKind.key).Nodup
        ↔ (Model.ofSchema config (Schema.parse text)).DeclaresKindsOnce kindEnum) := by
  obtain ⟨-, kindEnum, henum, hkinds⟩ := analyze_eq_ok_iff.1 h
  exact ⟨kindEnum, henum, Model.nodup_keys_iff (SymbolTable.Coherent.ofStatements _) hkinds⟩

/-- A schema of blocks, with these declarations of their interface. -/
def blockSchema (declarations : String) : List Char :=
  "enum SyntaxKind \x7b Block \x7d\n".toList ++ declarations.toList

/-- The kind of these blocks. -/
def bareBlock : NodeKind where
  name := "Block"
  value := some (.zero false)
  symbol := 2
  declaringType := "Block"
  fields := []
  hasChildren := false
  requiredCount := 0

/-- A schema that annotates the kind once. -/
def annotatedBlock : List Char :=
  blockSchema "/* @kind(SyntaxKind.Block) */ interface Block \x7b\x7d"

theorem kinds_of_annotated_block :
    analyze {} annotatedBlock = .ok [bareBlock]
      ∧ ∃ kindEnum, (Model.ofSchema {} (Schema.parse annotatedBlock)).wellKnown.kindEnum = some kindEnum
        ∧ (([bareBlock].map NodeKind.key).Nodup
          ↔ (Model.ofSchema {} (Schema.parse annotatedBlock)).DeclaresKindsOnce kindEnum) := by
  have h : analyze {} annotatedBlock = .ok [bareBlock] := by decide +kernel
  exact ⟨h, kinds_nodup_iff h⟩

/-- Kinds that are all alike are in order. -/
theorem analyze_eq_replicate (kindEnum : SymbolId) {kind : NodeKind} {n : Nat}
    (herrors : (Schema.parse text).errors = [])
    (henum : (Model.ofSchema config (Schema.parse text)).wellKnown.kindEnum = some kindEnum)
    (hrun : (match (Model.ofSchema config (Schema.parse text)).discoverFrom kindEnum 0
        (Model.ofSchema config (Schema.parse text)).table.declarations.toList .empty with
      | .ok kinds _ => some kinds
      | .error _ _ => none) = some (List.replicate n kind)) :
    analyze config text = .ok (List.replicate n kind) := by
  refine analyze_eq_ok_iff.2 ⟨herrors, kindEnum, henum, ?_⟩
  rw [Model.kinds]
  cases hfound : (Model.ofSchema config (Schema.parse text)).discoverFrom kindEnum 0
      (Model.ofSchema config (Schema.parse text)).table.declarations.toList .empty with
  | ok kinds memo =>
    rw [hfound] at hrun
    rw [Option.some.inj hrun]
    exact congrArg Except.ok (List.perm_replicate.1 (List.mergeSort_perm _ _))
  | error error memo =>
    rw [hfound] at hrun
    cases hrun

/-- A kind that a comment annotates twice is found twice, and so is one that two declarations of a type
annotate. -/
theorem blocks_found_twice :
    analyze {} (blockSchema "/* @kind(SyntaxKind.Block) @kind(SyntaxKind.Block) */
interface Block \x7b\x7d") = .ok (List.replicate 2 bareBlock)
      ∧ analyze {} (blockSchema "/* @kind(SyntaxKind.Block) */ interface Block \x7b\x7d
/* @kind(SyntaxKind.Block) */ interface Block \x7b\x7d") = .ok (List.replicate 2 bareBlock)
      ∧ ¬ ((List.replicate 2 bareBlock).map NodeKind.key).Nodup :=
  ⟨analyze_eq_replicate 0 (by decide +kernel) (by decide +kernel) (by decide +kernel),
    analyze_eq_replicate 0 (by decide +kernel) (by decide +kernel) (by decide +kernel),
    by decide⟩

end Analysis

end NodeFactory
