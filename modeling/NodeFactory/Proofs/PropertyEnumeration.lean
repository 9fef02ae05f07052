import NodeFactory.Proofs.PropertyGraph
import NodeFactory.Proofs.PropertyLists

/-!
# What a search for properties lists

A search on an empty memo lists the properties of a symbol as they are described from the lists of
the symbols that it draws on, and it fails exactly where a cycle is drawn on
(`ofSymbol_enumerates`). Searches that share a memo list what each would list alone, whether or not
those before them failed (`shared_searches_list_as_alone`).
-/

namespace NodeFactory.Property

open Relation Inquiry Memo

variable (table : SymbolTable) (listOf : SymbolId → List Property)

section Lists

mutual

/-- The properties of a type written inside a declaration, from those of the symbols that it
mentions. -/
def typeList (site : DeclId) : TypeExpr → List Property
  | ⟨.reference name _, _⟩ =>
    match table.resolveType site name with
    | some id => listOf id
    | none => []
  | ⟨.paren inner, _⟩ => typeList site inner
  | ⟨.literal members, _⟩ => firsts (members.filterMap (ofMember? none site))
  | ⟨.intersection parts, _⟩ => firsts (typeLists site parts).flatten
  | ⟨.union parts, _⟩ => sharedByAll (typeLists site parts)
  | _ => []

def typeLists (site : DeclId) : List TypeExpr → List (List Property)
  | [] => []
  | type :: types => typeList site type :: typeLists site types

end

/-- The properties that the declarations of an interface have, and then those of each base that are
not there yet. -/
def interfaceList (id : SymbolId) : List Property :=
  (bases table id).foldl (fun listed base => listed ++ absentFrom listed (listOf base))
    (firsts ((interfacesOf table id).flatMap fun (decl, interface) =>
      interface.members.filterMap (ofMember? (some id) decl)))

/-- The properties of a symbol, from those of the symbols that it draws on. -/
def symbolList (id : SymbolId) : List Property :=
  if table.symbols[id]?.map Symbol.kind = some .interfaceKind then interfaceList table listOf id
  else
    match aliased? table id with
    | some (decl, type) => typeList table listOf decl type
    | none => []

end Lists

/-- What an inquiry asks settles on the lists, and they repeat no name. -/
def Supplies (inquiry : Enumeration β) : Prop :=
  ∀ id, Asks (rule table) inquiry id → ∀ list, Settles (rule table) (rule table id) list →
    list = listOf id ∧ (names list).Nodup

variable {table listOf}

section Settled

theorem Supplies.left {inquiry : Enumeration β} {next : β → Enumeration γ}
    (h : Supplies table listOf (inquiry >>= next)) : Supplies table listOf inquiry :=
  fun id hid => h id (asks_bind.2 (.inl hid))

theorem Supplies.right {inquiry : Enumeration β} {next : β → Enumeration γ} {first : β}
    (h : Supplies table listOf (inquiry >>= next)) (hfirst : Settles (rule table) inquiry first) :
    Supplies table listOf (next first) :=
  fun id hid => h id (asks_bind.2 (.inr ⟨first, hfirst, hid⟩))

theorem Supplies.question {id : SymbolId} {list : List Property}
    (h : Supplies table listOf (.question id : Enumeration (List Property)))
    (hlist : Settles (rule table) (.question id) list) : list = listOf id ∧ (names list).Nodup :=
  h id (asks_question.2 rfl) list (settles_question.1 hlist)

variable {site : DeclId}

mutual

theorem settled_type : ∀ (type : TypeExpr) {list : List Property},
    Supplies table listOf (ofType table site type) →
      Settles (rule table) (ofType table site type) list →
        list = typeList table listOf site type ∧ (names list).Nodup
  | ⟨.reference name _, _⟩, list, hsupplies, h => by
    simp only [ofType, typeList] at hsupplies h ⊢
    cases hid : table.resolveType site name with
    | some id =>
      simp only [hid] at hsupplies h ⊢
      exact hsupplies.question h
    | none =>
      simp only [hid, settles_pure] at h ⊢
      exact ⟨h, h ▸ List.nodup_nil⟩
  | ⟨.paren inner, _⟩, list, hsupplies, h => by
    simp only [ofType, typeList] at hsupplies h ⊢
    exact settled_type inner hsupplies h
  | ⟨.literal members, _⟩, list, _, h => by
    simp only [ofType, typeList, settles_pure] at h ⊢
    rw [h, ofMembers, merge_nil_left]
    exact ⟨rfl, nodup_firsts _⟩
  | ⟨.intersection parts, _⟩, list, hsupplies, h => by
    simp only [ofType, typeList] at hsupplies h ⊢
    obtain ⟨lists, hlists, h⟩ := settles_bind.1 h
    obtain ⟨rfl, -⟩ := settled_parts parts hsupplies.left hlists
    rw [settles_pure.1 h, foldl_merge, merge_nil_left]
    exact ⟨rfl, nodup_firsts _⟩
  | ⟨.union parts, _⟩, list, hsupplies, h => by
    simp only [ofType, typeList] at hsupplies h ⊢
    obtain ⟨lists, hlists, h⟩ := settles_bind.1 h
    obtain ⟨rfl, hnodup⟩ := settled_parts parts hsupplies.left hlists
    rw [settles_pure.1 h, common_eq]
    exact ⟨rfl, nodup_sharedByAll hnodup⟩
  | ⟨.array _, _⟩, _, _, h | ⟨.indexed _ _, _⟩, _, _, h | ⟨.tuple _, _⟩, _, _, h
  | ⟨.function _ _, _⟩, _, _, h | ⟨.literalValue, _⟩, _, _, h | ⟨.keyword _, _⟩, _, _, h
  | ⟨.this, _⟩, _, _, h | ⟨.query _, _⟩, _, _, h | ⟨.keyof _, _⟩, _, _, h
  | ⟨.predicate _ _, _⟩, _, _, h => by
    simp only [ofType, typeList, settles_pure] at h ⊢
    exact ⟨h, h ▸ List.nodup_nil⟩

theorem settled_parts : ∀ (parts : List TypeExpr) {lists : List (List Property)},
    Supplies table listOf (ofTypes table site parts) →
      Settles (rule table) (ofTypes table site parts) lists →
        lists = typeLists table listOf site parts ∧ ∀ list ∈ lists, (names list).Nodup
  | [], lists, _, h => by
    obtain rfl := settles_pure.1 h
    exact ⟨rfl, fun _ hmem => absurd hmem List.not_mem_nil⟩
  | part :: parts, lists, hsupplies, h => by
    simp only [ofTypes, typeLists] at hsupplies h ⊢
    obtain ⟨first, hfirst, h⟩ := settles_bind.1 h
    obtain ⟨rest, hrest, h⟩ := settles_bind.1 h
    obtain ⟨hfirst, hnodup⟩ := settled_type part hsupplies.left hfirst
    obtain ⟨hrest, hnodups⟩ := settled_parts parts (hsupplies.right ‹_›).left hrest
    rw [settles_pure.1 h, ← hfirst, ← hrest]
    exact ⟨rfl, List.forall_mem_cons.2 ⟨hnodup, hnodups⟩⟩

end

theorem settled_inherits : ∀ (bases : List SymbolId) {properties list : List Property},
    Supplies table listOf (bases.foldlM inherit properties) → (names properties).Nodup →
      Settles (rule table) (bases.foldlM inherit properties) list →
        list = bases.foldl (fun listed base => listed ++ absentFrom listed (listOf base)) properties
          ∧ (names list).Nodup
  | [], properties, list, _, hnodup, h => by
    obtain rfl := settles_pure.1 h
    exact ⟨rfl, hnodup⟩
  | base :: bases, properties, list, hsupplies, hnodup, h => by
    rw [List.foldlM_cons] at hsupplies h
    obtain ⟨first, hfirst, h⟩ := settles_bind.1 h
    have hrest := hsupplies.right hfirst
    obtain ⟨inherited, hinherited, rfl⟩ := settles_inherit.1 hfirst
    obtain ⟨heq, hdistinct⟩ := hsupplies.left base (asks_inherit.2 rfl) inherited hinherited
    -- What a base supplies repeats no name, so merging it appends what is absent.
    rw [merge_of_nodup _ hdistinct] at hrest h
    have hmerged := nodup_merge inherited hnodup
    rw [merge_of_nodup _ hdistinct] at hmerged
    rw [List.foldl_cons, ← heq]
    exact settled_inherits bases hrest hmerged h

theorem settled_symbol {id : SymbolId} {list : List Property}
    (hsupplies : Supplies table listOf (rule table id))
    (h : Settles (rule table) (rule table id) list) :
    list = symbolList table listOf id ∧ (names list).Nodup := by
  unfold symbolList
  by_cases hinterface : table.symbols[id]?.map Symbol.kind = some .interfaceKind
  · rw [rule_of_interface hinterface] at hsupplies h
    have hdeclared : (names (declared table id)).Nodup := nodup_merge _ List.nodup_nil
    obtain ⟨rfl, hnodup⟩ := settled_inherits _ hsupplies hdeclared h
    refine ⟨?_, hnodup⟩
    rw [if_pos hinterface, interfaceList, declared, merge_nil_left]
  · rw [if_neg hinterface]
    cases halias : aliased? table id with
    | some aliased =>
      rw [rule_of_aliased halias] at hsupplies h
      exact settled_type _ hsupplies h
    | none =>
      rw [rule_of_other hinterface halias, settles_pure] at h
      exact ⟨h, h ▸ List.nodup_nil⟩

end Settled

section Search

variable (table)

/-- What a search for a symbol lists on an empty memo; nothing, if it fails. -/
def listed (id : SymbolId) : List Property :=
  match found (ofSymbol table id empty) with
  | .ok list => list
  | .error _ => []

variable {table} {id : SymbolId} {list : List Property} {depth : Nat}

theorem search_conforms_empty (hdepth : table.symbols.size < depth) (id : SymbolId) :
    Conforms (rule table) table.symbolName [] (.question id) (search table depth id empty) := by
  have h := run_conforms_of_visiting_nil table.symbolName (pathsWithin_size table) hdepth
    sound_empty rfl (.question id : Enumeration (List Property))
  rwa [run_question] at h

theorem ofSymbol_conforms_empty (table : SymbolTable) (id : SymbolId) :
    Conforms (rule table) table.symbolName [] (.question id) (ofSymbol table id empty) :=
  search_conforms_empty (Nat.lt_succ_self _) id

theorem listed_of_settles (h : Settles (rule table) (rule table id) list) :
    listed table id = list := by
  have hconforms := ofSymbol_conforms_empty table id
  unfold listed
  split
  · rename_i list' hfound
    exact (settles_question.1 (hconforms.settles hfound)).unique h
  · rename_i cycle hfound
    obtain ⟨culprit, hblame, -⟩ := hconforms.blames hfound
    exact absurd (settles_question.2 h) (hblame.not_settles list)

theorem nodup_of_settles (h : Settles (rule table) (rule table id) list) :
    (names list).Nodup := by
  refine h.induction (motive := fun id => ∀ list, Settles (rule table) (rule table id) list →
    (names list).Nodup) ?_ list h
  intro key _ _ ih list hlist
  have hsupplies : Supplies table (listed table) (rule table key) :=
    fun needed hneeds inherited h => ⟨(listed_of_settles h).symm, ih needed hneeds inherited h⟩
  exact (settled_symbol hsupplies hlist).2

/-- Lists that are described by each other, wherever a symbol with settled properties draws on, are
what it settles on. -/
theorem settled_eq_of_described {listOf : SymbolId → List Property}
    (hlistOf : ∀ other, ReflTransGen (DrawsOn table) id other →
      listOf other = symbolList table listOf other)
    (h : Settles (rule table) (rule table id) list) : list = listOf id := by
  refine h.induction (motive := fun other => ReflTransGen (DrawsOn table) id other →
    ∀ list, Settles (rule table) (rule table other) list → list = listOf other) ?_ .refl list h
  intro other _ _ ih hreach list hlist
  have hsupplies : Supplies table listOf (rule table other) :=
    fun needed hneeds inherited h =>
      ⟨ih needed hneeds (hreach.tail (drawsOn_of_needs hneeds)) inherited h, nodup_of_settles h⟩
  rw [hlistOf other hreach]
  exact (settled_symbol hsupplies hlist).1

/-- On an empty memo a search lists the properties of a symbol, or else it names a symbol on a cycle
that the symbol draws on. It lists no name twice, and it lists what is described from the lists that
searches for the other symbols give; no other lists that are so described are different. And no
chain of symbols is cut off: a search that may nest deeper finds the same. -/
theorem ofSymbol_enumerates (table : SymbolTable) (id : SymbolId) :
    (match found (ofSymbol table id empty) with
      | .ok list =>
        (∀ other, ¬ OnCycle table id other)
          ∧ (names list).Nodup
          ∧ list = symbolList table (listed table) id
          ∧ ∀ listOf : SymbolId → List Property,
              (∀ other, ReflTransGen (DrawsOn table) id other →
                listOf other = symbolList table listOf other) → list = listOf id
      | .error cycle => ∃ other, OnCycle table id other ∧ cycle.name = table.symbolName other)
    ∧ ∀ depth, table.symbols.size < depth →
        found (search table depth id empty) = found (ofSymbol table id empty) := by
  have h := ofSymbol_conforms_empty table id
  refine ⟨?_, ?_⟩
  · split
    · rename_i list hfound
      have hlist := settles_question.1 (h.settles hfound)
      have hsupplies : Supplies table (listed table) (rule table id) :=
        fun _ _ _ h => ⟨(listed_of_settles h).symm, nodup_of_settles h⟩
      obtain ⟨heq, hnodup⟩ := settled_symbol hsupplies hlist
      exact ⟨not_onCycle_of_settles hlist, hnodup, heq,
        fun _ hlistOf => settled_eq_of_described hlistOf hlist⟩
    · rename_i cycle hfound
      obtain ⟨asked, culprit, hasked, hreach, hcycle, hname⟩ := h.cycle hfound
      obtain rfl := asks_question.1 hasked
      exact ⟨culprit, onCycle_of_needs hreach hcycle, hname⟩
  · intro depth hdepth
    exact (search_conforms_empty hdepth id).found_eq h

/-- Whatever was asked before on a shared memo, and whether or not it was answered, a search for a
symbol finds what it finds on an empty one, and leaves no question open. -/
theorem shared_searches_list_as_alone (table : SymbolTable) (ids : List SymbolId) :
    (session (ids.map (ofSymbol table)) empty).map Prod.fst
        = ids.map (fun id => found (ofSymbol table id empty))
      ∧ ∀ entry ∈ session (ids.map (ofSymbol table)) empty, entry.2.visiting = [] := by
  have h := session_spec table.symbolName (pathsWithin_size table)
    (Nat.lt_succ_self table.symbols.size)
    (ids.map fun id => (.question id : Enumeration (List Property))) empty sound_empty rfl
  simp only [List.map_map, Function.comp_def, run_question] at h
  exact h

end Search

end NodeFactory.Property
