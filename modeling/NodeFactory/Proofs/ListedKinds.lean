import NodeFactory.Proofs.RepeatedKinds

/-!
# Kinds that the metadata list

The metadata list kinds by the name of a symbol, and are read at the first declaration of the symbol,
provided that this declares a type (`mem_declaredKinds`). Where a namespace or an enum is the first of
several declarations of a name, what the metadata list for it is not read at all, and only what comments
annotate is found (`listed_kind_found_iff`).
-/

namespace NodeFactory

open List Text

namespace Model

variable {model : Model} {kindEnum : SymbolId}

theorem declaresType_iff {decl : Declaration} :
    DeclaresType decl ↔ decl.node.kind = .interfaceKind ∨ decl.node.kind = .aliasKind := by
  constructor
  · rintro (hnode | hnode) <;> simp [hnode, DeclNode.kind]
  · cases hnode : decl.node with
    | interfaceDecl => exact fun _ => .interface hnode
    | aliasDecl => exact fun _ => .alias hnode
    | namespaceDecl | enumDecl | memberDecl => simp [DeclNode.kind]

instance : DecidablePred DeclaresType := fun _ => decidable_of_iff _ declaresType_iff.symm

/-- The metadata list a member of the kind enum for a symbol that an interface or an alias declares. -/
structure ListsKind (model : Model) (kindEnum id : SymbolId) (name : String) : Prop where
  type : ∃ decl ∈ model.table.declarations.toList, decl.symbol = id ∧ DeclaresType decl
  listed : name ∈ (model.config.metadata.kinds.find? (model.table.symbolName id)).getD []
  member : ((model.table.exports kindEnum).lookup name).isSome

/-- The first declaration of a symbol is an interface or an alias. -/
def BeginsWithType (model : Model) (id : SymbolId) : Prop :=
  ∃ d decl, model.table.firstDeclaration? id = some (d, decl) ∧ DeclaresType decl

/-- An interface or an alias of a symbol annotates a kind of a name. -/
def AnnotatesKind (model : Model) (kindEnum id : SymbolId) (name : String) : Prop :=
  ∃ decl ∈ model.table.declarations.toList, decl.symbol = id ∧ DeclaresType decl
    ∧ ∃ kind ∈ model.annotatedKinds kindEnum decl, model.table.symbolName kind = name

section Declared

theorem mem_foldl_addKind {listed kinds : List SymbolId} {kind : SymbolId} :
    kind ∈ listed.foldl addKind kinds ↔ kind ∈ kinds ∨ kind ∈ listed := by
  rw [foldl_addKind, mem_append, mem_eraseDups, mem_filter]
  by_cases h : kind ∈ kinds <;> simp [h]

/-- An interface or an alias declares what it annotates, and the first declaration of a symbol what the
metadata list besides. -/
theorem mem_declaredKinds {d : DeclId} {decl : Declaration} {kind : SymbolId} :
    kind ∈ model.declaredKinds kindEnum d decl ↔ DeclaresType decl
      ∧ (kind ∈ model.annotatedKinds kindEnum decl
        ∨ model.IsFirst d decl ∧ kind ∈ model.metadataKinds kindEnum decl) := by
  have hkinds : kind ∈ (if ((model.table.firstDeclaration? decl.symbol).map Prod.fst) == some d then
        (model.metadataKinds kindEnum decl).foldl addKind (model.annotatedKinds kindEnum decl)
      else model.annotatedKinds kindEnum decl)
      ↔ kind ∈ model.annotatedKinds kindEnum decl
        ∨ model.IsFirst d decl ∧ kind ∈ model.metadataKinds kindEnum decl := by
    unfold IsFirst
    split
    · rename_i h
      rw [mem_foldl_addKind, and_iff_right (eq_of_beq h)]
    · rename_i h
      rw [or_iff_left fun hfirst => h (by rw [hfirst.1, beq_self_eq_true])]
  unfold declaredKinds
  split
  · rename_i hnode
    exact hkinds.trans (and_iff_right (.interface hnode)).symm
  · rename_i hnode
    exact hkinds.trans (and_iff_right (.alias hnode)).symm
  · rename_i hinterface halias
    refine iff_of_false not_mem_nil fun ⟨htype, _⟩ => ?_
    rcases htype with hnode | hnode
    · exact hinterface _ hnode
    · exact halias _ hnode

theorem mem_entriesFrom {entry : SymbolId × SymbolId} :
    entry ∈ model.entriesFrom kindEnum 0 model.table.declarations.toList
      ↔ ∃ d decl, model.table.declarations[d]? = some decl ∧ decl.symbol = entry.1
        ∧ entry.2 ∈ model.declaredKinds kindEnum d decl := by
  unfold entriesFrom
  simp only [mem_flatMap, mem_map, Prod.exists, mk_mem_zipIdx_iff_getElem?, Array.getElem?_toList]
  constructor
  · rintro ⟨decl, d, hdecl, kind, hkind, rfl⟩
    exact ⟨d, decl, hdecl, rfl, hkind⟩
  · rintro ⟨d, decl, hdecl, hid, hkind⟩
    exact ⟨decl, d, hdecl, entry.2, hkind, Prod.ext hid rfl⟩

end Declared

section Found

variable {id kind : SymbolId} {name : String} (hc : model.table.Coherent)
include hc

/-- A member of the kind enum has the name that it is bound to, and no other member has. -/
theorem eq_of_lookup_kindEnum {name' : String} {kind' : SymbolId}
    (hkind : (model.table.bindings (some kindEnum)).lookup name = some kind)
    (hkind' : (model.table.bindings (some kindEnum)).lookup name' = some kind') :
    model.table.symbolName kind' = name ↔ kind' = kind := by
  obtain ⟨symbol, hsymbol, hname, hparent⟩ := hc.of_lookup hkind
  obtain ⟨symbol', hsymbol', hname', hparent'⟩ := hc.of_lookup hkind'
  have hsymbolName : model.table.symbolName kind' = symbol'.name := by
    rw [SymbolTable.symbolName, hsymbol']
    rfl
  rw [hsymbolName]
  constructor
  · intro h
    exact hc.unique hsymbol' hsymbol (h.trans hname.symm) (hparent'.trans hparent.symm)
  · rintro rfl
    rw [← hname, Option.some.inj (hsymbol'.symm.trans hsymbol)]

theorem firstDeclaration?_spec {d : DeclId} {decl : Declaration}
    (h : model.table.firstDeclaration? id = some (d, decl)) :
    model.table.declarations[d]? = some decl ∧ decl.symbol = id := by
  obtain ⟨d', hd', hdecl⟩ := mem_filterMap.1 (mem_of_mem_head? (Option.mem_def.2 h))
  obtain ⟨decl', hdecl', heq⟩ := Option.map_eq_some_iff.1 hdecl
  obtain ⟨rfl, rfl⟩ := Prod.mk.inj heq
  cases hsymbol : model.table.symbols[id]? with
  | none => simp [hsymbol] at hd'
  | some symbol =>
    rw [hsymbol] at hd'
    exact ⟨hdecl', hc.symbol_of_mem hsymbol hd' hdecl'⟩

theorem mem_annotatedKinds_iff {decl : Declaration}
    (hkind : (model.table.exports kindEnum).lookup name = some kind) :
    (∃ kind' ∈ model.annotatedKinds kindEnum decl, model.table.symbolName kind' = name)
      ↔ kind ∈ model.annotatedKinds kindEnum decl := by
  constructor
  · rintro ⟨kind', hmem, hname⟩
    obtain ⟨⟨name', _⟩, -, hkind'⟩ := mem_filterMap.1 hmem
    obtain rfl := (eq_of_lookup_kindEnum hc hkind hkind').1 hname
    exact hmem
  · exact fun hmem => ⟨kind, hmem, (eq_of_lookup_kindEnum hc hkind hkind).2 rfl⟩

theorem isFirst_iff {d : DeclId} {decl : Declaration} (hdecl : model.table.declarations[d]? = some decl) :
    model.IsFirst d decl ↔ model.table.firstDeclaration? decl.symbol = some (d, decl) := by
  unfold IsFirst
  constructor
  · intro h
    obtain ⟨⟨d', decl'⟩, hfirst, rfl⟩ := Option.map_eq_some_iff.1 h
    obtain ⟨hdecl', -⟩ := firstDeclaration?_spec hc hfirst
    obtain rfl := Option.some.inj (hdecl.symm.trans hdecl')
    exact hfirst
  · intro h
    rw [h, Option.map_some]

/-- A listed kind is declared by the first declaration of its symbol, or by one that annotates it. -/
theorem listed_entry_iff (h : model.ListsKind kindEnum id name)
    (hkind : (model.table.exports kindEnum).lookup name = some kind) :
    (id, kind) ∈ model.entriesFrom kindEnum 0 model.table.declarations.toList
      ↔ model.BeginsWithType id ∨ model.AnnotatesKind kindEnum id name := by
  have hlisted : ∀ {decl : Declaration}, decl.symbol = id →
      kind ∈ model.metadataKinds kindEnum decl := by
    rintro decl rfl
    exact mem_filterMap.2 ⟨name, h.listed, hkind⟩
  simp only [mem_entriesFrom, mem_declaredKinds]
  constructor
  · rintro ⟨d, decl, hdecl, rfl, htype, hannotated | ⟨hfirst, -⟩⟩
    · exact .inr ⟨decl, mem_of_getElem? (by simpa using hdecl), rfl, htype,
        (mem_annotatedKinds_iff hc hkind).2 hannotated⟩
    · exact .inl ⟨d, decl, (isFirst_iff hc hdecl).1 hfirst, htype⟩
  · rintro (⟨d, decl, hfirst, htype⟩ | ⟨decl, hmem, rfl, htype, hannotated⟩)
    · obtain ⟨hdecl, rfl⟩ := firstDeclaration?_spec hc hfirst
      exact ⟨d, decl, hdecl, rfl, htype, .inr ⟨(isFirst_iff hc hdecl).2 hfirst, hlisted rfl⟩⟩
    · obtain ⟨d, hdecl⟩ := getElem?_of_mem hmem
      exact ⟨d, decl, by simpa using hdecl, rfl, htype,
        .inl ((mem_annotatedKinds_iff hc hkind).1 hannotated)⟩

/-- A kind of a name is found for a symbol if its member of the kind enum is declared for the symbol. -/
theorem exists_kind_iff {kinds : List NodeKind} (hkinds : model.kinds kindEnum = .ok kinds)
    (hkind : (model.table.exports kindEnum).lookup name = some kind) :
    (∃ found ∈ kinds, found.name = name ∧ found.symbol = id)
      ↔ (id, kind) ∈ model.entriesFrom kindEnum 0 model.table.declarations.toList := by
  obtain ⟨discovered, hbuilt, hperm⟩ := kinds_builds hkinds
  have hkeys : (∃ found ∈ kinds, found.name = name ∧ found.symbol = id)
      ↔ (name, id) ∈ kinds.map NodeKind.key := by
    simp [NodeKind.key]
  rw [hkeys, (hperm.map _).mem_iff, keys_of_isBuilt hbuilt, mem_map]
  constructor
  · rintro ⟨⟨id', kind'⟩, hentry, heq⟩
    obtain ⟨hname, rfl⟩ := Prod.mk.inj heq
    obtain ⟨d, decl, -, -, hdeclared⟩ := mem_entriesFrom.1 hentry
    obtain ⟨name', hkind'⟩ := bound_of_mem_declaredKinds hdeclared
    obtain rfl := (eq_of_lookup_kindEnum hc hkind hkind').1 hname
    exact hentry
  · intro hentry
    exact ⟨(id, kind), hentry, Prod.ext ((eq_of_lookup_kindEnum hc hkind hkind).2 rfl) rfl⟩

end Found

end Model

section Analysis

variable {config : Config} {text : List Char} {kinds : List NodeKind}

/-- Of the kinds that the metadata list for a declared type, those are found for which the first
declaration of the type is an interface or an alias, and those that its declarations annotate besides; no
others. -/
theorem listed_kind_found_iff (h : analyze config text = .ok kinds) :
    ∃ kindEnum, (Model.ofSchema config (Schema.parse text)).wellKnown.kindEnum = some kindEnum
      ∧ ∀ id name, (Model.ofSchema config (Schema.parse text)).ListsKind kindEnum id name →
        ((∃ kind ∈ kinds, kind.name = name ∧ kind.symbol = id)
          ↔ (Model.ofSchema config (Schema.parse text)).BeginsWithType id
            ∨ (Model.ofSchema config (Schema.parse text)).AnnotatesKind kindEnum id name) := by
  obtain ⟨-, kindEnum, henum, hkinds⟩ := analyze_eq_ok_iff.1 h
  refine ⟨kindEnum, henum, fun id name hlists => ?_⟩
  have hc : (Model.ofSchema config (Schema.parse text)).table.Coherent :=
    SymbolTable.Coherent.ofStatements _
  obtain ⟨kind, hkind⟩ := Option.isSome_iff_exists.1 hlists.member
  rw [Model.exists_kind_iff hc hkinds hkind, Model.listed_entry_iff hc hlists hkind]

/-- Settings that list the kind of the blocks for their type. -/
def listingBlock : Config where
  metadata := { kinds := ⟨[("Block", ["Block"])]⟩ }

/-- A schema of blocks that are an interface first, and a namespace besides. -/
def blockThenNamespace : List Char :=
  blockSchema "interface Block \x7b\x7d namespace Block \x7b\x7d"

/-- A schema of blocks that are a namespace first, and an interface besides. -/
def namespaceThenBlock : List Char :=
  blockSchema "namespace Block \x7b\x7d interface Block \x7b\x7d"

theorem listed_block_found :
    analyze listingBlock blockThenNamespace = .ok [bareBlock]
      ∧ (Model.ofSchema listingBlock (Schema.parse blockThenNamespace)).ListsKind 0 2 "Block"
      ∧ (Model.ofSchema listingBlock (Schema.parse blockThenNamespace)).BeginsWithType 2 := by
  have h : analyze listingBlock blockThenNamespace = .ok [bareBlock] := by decide +kernel
  have hlists : (Model.ofSchema listingBlock (Schema.parse blockThenNamespace)).ListsKind 0 2 "Block" :=
    ⟨by decide +kernel, by decide +kernel, by decide +kernel⟩
  have hbare : (Model.ofSchema listingBlock (Schema.parse blockThenNamespace)).AnnotatesKind 0 2 "Block"
      → False := by
    unfold Model.AnnotatesKind
    decide +kernel
  obtain ⟨kindEnum, henum, hfound⟩ := listed_kind_found_iff h
  obtain rfl : kindEnum = 0 := by
    have : (Model.ofSchema listingBlock (Schema.parse blockThenNamespace)).wellKnown.kindEnum = some 0 := by
      decide +kernel
    exact Option.some.inj (henum.symm.trans this)
  refine ⟨h, hlists, ?_⟩
  exact ((hfound 2 "Block" hlists).1 ⟨bareBlock, mem_singleton_self _, rfl, rfl⟩).resolve_right hbare

/-- A kind that the metadata list for an interface is not found where a namespace of the name stands in
front. -/
theorem listed_block_lost :
    analyze listingBlock namespaceThenBlock = .ok []
      ∧ (Model.ofSchema listingBlock (Schema.parse namespaceThenBlock)).ListsKind 0 2 "Block" :=
  ⟨by decide +kernel, by decide +kernel, by decide +kernel, by decide +kernel⟩

end Analysis

end NodeFactory
