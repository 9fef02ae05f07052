import NodeFactory.Proofs.RevisedTables

/-!
# Namespaces in several parts

A namespace that is written in two parts has the symbols of one that is written as a whole: the second
part only records one more declaration. A dotted name declares what nested namespaces declare, each with
the comments that lead it. Both hold among any statements and inside any namespaces
(`regrouped_namespaces`).
-/

namespace NodeFactory

open Text

namespace Revision

/-- Takes a declaration out of the record; those behind it move up. -/
def without (d : DeclId) : Revision where
  bound := d + 1
  record declarations := (declarations.toList.eraseIdx d).toArray
  numbers listed := (listed.filter (· ≠ d)).map fun n => if n < d then n else n - 1
  numbers_nil := rfl
  record_push {declarations} h decl := by
    have hlt : d < declarations.toList.length := h
    rw [Array.toList_push, List.eraseIdx_append_of_lt_length hlt]
    simp
  numbers_concat {declarations} h listed := by
    have hne : declarations.size ≠ d := Nat.ne_of_gt h
    have hnot : ¬ declarations.size < d := Nat.not_lt.2 (Nat.le_of_succ_le h)
    have hlt : d < declarations.toList.length := h
    simp [List.filter_append, hne, hnot, List.length_eraseIdx_of_lt hlt]

/-- Gives the declarations from a number on other comments. -/
def recommenting (first : Nat) (comments : List (List Span)) : Revision where
  bound := first + comments.length
  record declarations := declarations.mapIdx fun d decl =>
    if first ≤ d then { decl with comments := comments[d - first]?.getD decl.comments } else decl
  numbers listed := listed
  numbers_nil := rfl
  record_push {declarations} h decl := by
    have hnone : comments[declarations.size - first]? = none :=
      List.getElem?_eq_none (Nat.le_sub_of_add_le' h)
    simp [Array.mapIdx_push, hnone]
  numbers_concat _ _ := by rw [Array.size_mapIdx]

end Revision

/-- What stands around statements: others before and behind them, and the namespaces that hold them. -/
inductive Surroundings where
  | among (before after : List Statement)
  | inside (before : List Statement) (place : Placement) (name : EntityName) (inner : Surroundings)
      (after : List Statement)

def EntityName.names (name : EntityName) : List String :=
  name.parts.map Ident.name

namespace Surroundings

/-- The statements with what is around them. -/
def around : Surroundings → List Statement → List Statement
  | among before after, statements => before ++ (statements ++ after)
  | inside before place name inner after, statements =>
    before ++ .namespaceDecl place name (inner.around statements) :: after

/-- The names of the namespaces around, from the outside in. -/
def path : Surroundings → List String
  | among _ _ => []
  | inside _ _ name inner _ => name.names ++ inner.path

end Surroundings

namespace SymbolTable

variable {table table' : SymbolTable} {scope : Option SymbolId} {path : List String}
  {occurrences : List Occurrence}

section Paths

theorem bindPath_congr (comments : List Span) : ∀ {parts parts' : List Ident} {scope : Option SymbolId}
    {table : SymbolTable}, parts.map Ident.name = parts'.map Ident.name →
    bindPath comments scope table parts = bindPath comments scope table parts'
  | [], [], _, _, _ => rfl
  | part :: parts, part' :: parts', _, _, h => by
    obtain ⟨hname, hparts⟩ := List.cons.inj h
    rw [bindPath, bindPath, hname]
    exact bindPath_congr comments hparts

theorem bindPath_append (comments : List Span) (parts' : List Ident) : ∀ (parts : List Ident)
    {scope : Option SymbolId} {table : SymbolTable},
    bindPath comments scope table (parts ++ parts')
      = bindPath comments (bindPath comments scope table parts).2
        (bindPath comments scope table parts).1 parts'
  | [], _, _ => rfl
  | _ :: parts, _, _ => bindPath_append comments parts' parts

theorem size_bindPath (comments : List Span) : ∀ (parts : List Ident) {scope : Option SymbolId}
    {table : SymbolTable}, (bindPath comments scope table parts).1.declarations.size
      = table.declarations.size + parts.length
  | [], _, _ => rfl
  | part :: parts, scope, table => by
    have hsize : (table.declare scope part.name .namespaceDecl comments).1.declarations.size
        = table.declarations.size + 1 := by
      rw [declarations_declare, Array.size_push]
    rw [bindPath]
    dsimp only
    rw [size_bindPath comments parts, hsize, List.length_cons]
    omega

end Paths

section Comments

/-- Other comments leave the symbols as they are. -/
theorem symbols_recommenting (table : SymbolTable) (first : Nat) (comments : List (List Span)) :
    (table.revised (.recommenting first comments)).symbols = table.symbols :=
  Array.map_id' table.symbols

theorem revised_recommenting_eq {first : Nat} {comments : List (List Span)} :
    table.revised (.recommenting first comments) = { table with
      declarations := table.declarations.mapIdx fun d decl =>
        if first ≤ d then { decl with comments := comments[d - first]?.getD decl.comments } else decl } := by
  rw [← symbols_recommenting table first comments]
  rfl

theorem recommenting_nil (table : SymbolTable) (first : Nat) :
    table.revised (.recommenting first []) = table := by
  rw [revised_recommenting_eq]
  refine ext_symbols (fun _ => rfl) (Array.ext_getElem? fun d => ?_) rfl
  rw [Array.getElem?_mapIdx]
  cases table.declarations[d]? <;> simp

theorem recommenting_recommenting (table : SymbolTable) (first : Nat)
    (comments comments' : List (List Span)) :
    (table.revised (.recommenting (first + comments.length) comments')).revised
        (.recommenting first comments)
      = table.revised (.recommenting first (comments ++ comments')) := by
  simp only [revised_recommenting_eq, Array.mapIdx_mapIdx, mk.injEq, and_true, true_and]
  congr 1
  funext d decl
  simp only [Function.comp_apply]
  rcases Nat.lt_or_ge d first with hd | hd
  · simp [Nat.not_le.2 hd, Nat.not_le.2 (Nat.lt_add_right comments.length hd)]
  · rcases Nat.lt_or_ge (d - first) comments.length with hin | hin
    · have hlt : d < first + comments.length := by omega
      simp [hd, Nat.not_le.2 hlt, List.getElem?_append_left hin]
    · have hle : first + comments.length ≤ d := by omega
      simp [hd, hle, List.getElem?_append_right hin, List.getElem?_eq_none hin, Nat.sub_sub]

theorem register_recommenting (table : SymbolTable) (decl : Declaration) (comments : List Span) :
    table.register { decl with comments }
      = (table.register decl).revised (.recommenting table.declarations.size [comments]) := by
  rw [revised_recommenting_eq, register, register]
  simp only [mk.injEq, and_true, true_and, Array.mapIdx_push, Nat.le_refl, if_true, Nat.sub_self]
  congr 1
  refine (Array.ext_getElem? fun d => ?_).symm
  rw [Array.getElem?_mapIdx]
  cases hdecl : table.declarations[d]? with
  | none => rfl
  | some decl' =>
    have hlt : d < table.declarations.size := (Array.getElem?_eq_some_iff.1 hdecl).1
    rw [Option.map_some, if_neg (Nat.not_le.2 hlt)]

theorem declare_recommenting (table : SymbolTable) (scope : Option SymbolId) (name : String)
    (node : DeclNode) (comments comments' : List Span) :
    table.declare scope name node comments'
      = ((table.declare scope name node comments).1.revised
          (.recommenting table.declarations.size [comments']),
        (table.declare scope name node comments).2) := by
  have hregister := register_recommenting (table.intern scope name node.kind).1
    ⟨node, (table.intern scope name node.kind).2, scope, comments⟩ comments'
  rw [declarations_intern] at hregister
  rw [declare_eq, declare_eq, ← hregister]

/-- Comments of a namespace are in the record only. -/
theorem bindPath_recommenting (comments comments' : List Span) : ∀ (parts : List Ident)
    {scope : Option SymbolId} {table : SymbolTable}, bindPath comments' scope table parts
      = ((bindPath comments scope table parts).1.revised
          (.recommenting table.declarations.size (List.replicate parts.length comments')),
        (bindPath comments scope table parts).2)
  | [], _, table => Prod.ext (recommenting_nil table _).symm rfl
  | part :: parts, scope, table => by
    have hsize : (table.declare scope part.name .namespaceDecl comments).1.declarations.size
        = table.declarations.size + [comments'].length := by
      rw [declarations_declare, Array.size_push, List.length_singleton]
    have hbound : (Revision.recommenting table.declarations.size [comments']).bound
        ≤ (table.declare scope part.name .namespaceDecl comments).1.declarations.size :=
      Nat.le_of_eq hsize.symm
    have hrest := bindPath_revised comments' parts
      (some (table.declare scope part.name .namespaceDecl comments).2) hbound
    rw [bindPath, bindPath, declare_recommenting table scope part.name .namespaceDecl comments comments']
    dsimp only
    rw [hrest.1, bindPath_recommenting comments comments' parts, hsize, recommenting_recommenting]
    rfl

/-- A path whose parts are led by comments of their own declares what a path as a whole does. -/
theorem bindPath_dotted (comments outer inner : List Span) (parts parts' : List Ident) :
    bindPath inner (bindPath outer scope table parts).2 (bindPath outer scope table parts).1 parts'
      = ((bindPath comments scope table (parts ++ parts')).1.revised
          (.recommenting table.declarations.size
            (List.replicate parts.length outer ++ List.replicate parts'.length inner)),
        (bindPath comments scope table (parts ++ parts')).2) := by
  have hsize : (bindPath comments scope table parts).1.declarations.size
      = table.declarations.size + (List.replicate parts.length outer).length := by
    rw [size_bindPath, List.length_replicate]
  have hbound : (Revision.recommenting table.declarations.size (List.replicate parts.length outer)).bound
      ≤ (bindPath comments scope table parts).1.declarations.size := Nat.le_of_eq hsize.symm
  have hinner := bindPath_revised inner parts' (bindPath comments scope table parts).2 hbound
  rw [bindPath_append, bindPath_recommenting comments outer parts]
  dsimp only
  rw [hinner.1, bindPath_recommenting comments inner parts', hsize, recommenting_recommenting]

/-- Namespaces inside each other declare what one with a dotted name does. -/
theorem bindStatement_dotted (place outer inner : Placement) {dotted first second : EntityName}
    (h : dotted.names = first.names ++ second.names) (body : List Statement) :
    bindStatement scope table (.namespaceDecl outer first [.namespaceDecl inner second body])
      = (bindStatement scope table (.namespaceDecl place dotted body)).revised
        (.recommenting table.declarations.size
          (List.replicate first.parts.length outer.comments
            ++ List.replicate second.parts.length inner.comments)) := by
  have hparts : dotted.parts.map Ident.name = (first.parts ++ second.parts).map Ident.name := by
    rw [List.map_append]
    exact h
  have hbound : (Revision.recommenting table.declarations.size
      (List.replicate first.parts.length outer.comments
        ++ List.replicate second.parts.length inner.comments)).bound
      ≤ (bindPath place.comments scope table (first.parts ++ second.parts)).1.declarations.size := by
    simp [size_bindPath, Revision.recommenting]
  simp only [bindStatement, bindStatements]
  rw [bindPath_congr place.comments hparts, bindPath_dotted place.comments]
  exact (bindStatements_revised body hbound).1

end Comments

section Parts

theorem Extends.lookup_mono (h : table.Extends table') {name : String} {id : SymbolId}
    (hlookup : (table.bindings scope).lookup name = some id) :
    (table'.bindings scope).lookup name = some id := by
  have hprefix : table.bindings scope <+: table'.bindings scope := by
    cases scope with
    | none => exact h.globals
    | some i =>
      rw [bindings_some, bindings_some]
      cases hsymbol : table.symbols[i]? with
      | none => exact List.nil_prefix
      | some symbol =>
        obtain ⟨symbol', _, hsymbol', hcontinues, -⟩ := h.symbols hsymbol
        rw [hsymbol']
        exact hcontinues.exports
  obtain ⟨more, hmore⟩ := hprefix
  rw [← hmore, List.lookup_append, hlookup, Option.some_or]

theorem numbers_without {d : DeclId} {listed : List DeclId} (h : ∀ n ∈ listed, n < d) :
    (Revision.without d).numbers listed = listed
      ∧ (Revision.without d).numbers (listed ++ [d]) = listed := by
  have hfilter : listed.filter (· ≠ d) = listed :=
    List.filter_eq_self.2 fun n hn => by simpa using Nat.ne_of_lt (h n hn)
  have hmap : (listed.map fun n => if n < d then n else n - 1) = listed :=
    (List.map_congr_left fun n hn => if_pos (h n hn)).trans (List.map_id' listed)
  have hlast : [d].filter (· ≠ d) = [] := by simp
  simp only [Revision.without, List.filter_append, hfilter, hlast, List.append_nil, hmap, and_self]

/-- Without its last declaration a table is what it was before. -/
theorem Coherent.register_without (hc : table.Coherent) (decl : Declaration) :
    (table.register decl).revised (.without table.declarations.size) = table := by
  refine ext_symbols (fun i => ?_) ?_ rfl
  · rw [symbols_revised, symbols_register, Option.map_map]
    cases hsymbol : table.symbols[i]? with
    | none => rfl
    | some symbol =>
      obtain ⟨hsame, hlast⟩ := numbers_without fun d hd => hc.lt_of_mem hsymbol hd
      simp only [Option.map_some, Function.comp_apply]
      split
      · simp only [Symbol.revised, Symbol.declaredAt, hlast]
      · simp only [Symbol.revised, hsame]
  · change ((table.declarations.push decl).toList.eraseIdx _).toArray = _
    rw [Array.toList_push, List.eraseIdx_append_of_length_le (by simp)]
    simp

theorem bindPath_of_names {name : EntityName} {a : String} (h : name.names = [a]) (comments : List Span) :
    bindPath comments scope table name.parts
      = ((table.declare scope a .namespaceDecl comments).1,
        some (table.declare scope a .namespaceDecl comments).2) :=
  bindPath_congr comments (show name.parts.map Ident.name = [⟨a, name.span⟩].map Ident.name from h)

theorem declare_of_bound {name : String} {id : SymbolId} (h : (table.bindings scope).lookup name = some id)
    (node : DeclNode) (comments : List Span) : table.declare scope name node comments
      = (table.register ⟨node, id, scope, comments⟩, id) := by
  rw [declare_eq, intern_of_bound h]

end Parts

section Around

/-- From a number on, the record has the given declarations. -/
def RecordsAt (table : SymbolTable) (d : DeclId) (occurrences : List Occurrence) : Prop :=
  ∃ before new after, table.declarations.toList = before ++ (new ++ after) ∧ before.length = d
    ∧ List.Forall₂ table.IsRecorded new occurrences

/-- A table is another, revised for declarations that the other records. -/
def Revises (revision : DeclId → Revision) (occurrences : List Occurrence) (table table' : SymbolTable) :
    Prop :=
  ∃ d, table.RecordsAt d occurrences ∧ table' = table.revised (revision d)

theorem Records.recordsAt (h : table.Records occurrences table') :
    table'.RecordsAt table.declarations.size occurrences := by
  obtain ⟨new, hnew, hrecorded⟩ := h
  exact ⟨_, new, [], by rw [hnew, List.append_nil], Array.length_toList, hrecorded⟩

theorem RecordsAt.extends {d : DeclId} (h : table.RecordsAt d occurrences) (hextends : table.Extends table') :
    table'.RecordsAt d occurrences := by
  obtain ⟨before, new, after, hlist, hd, hrecorded⟩ := h
  obtain ⟨more, hmore⟩ := hextends.declarations
  refine ⟨before, new, after ++ more, ?_, hd, hrecorded.imp fun _ _ recorded => recorded.extends hextends⟩
  rw [← hmore, hlist]
  simp only [List.append_assoc]

theorem RecordsAt.le_size {d : DeclId} (h : table.RecordsAt d occurrences) :
    d + occurrences.length ≤ table.declarations.size := by
  obtain ⟨before, new, after, hlist, rfl, hrecorded⟩ := h
  rw [← Array.length_toList, hlist, List.length_append, List.length_append, hrecorded.length_eq]
  exact Nat.add_le_add_left (Nat.le_add_right _ _) _

variable {revision : DeclId → Revision}
  (hbound : ∀ d, (revision d).bound = d + occurrences.length)
include hbound

/-- What is bound afterwards is bound in the same way. -/
theorem Revises.bind (h : Revises revision occurrences table table') (hc : table.Coherent)
    (hscope : table.HasScope scope) (after : List Statement) :
    Revises revision occurrences (bindStatements scope table after) (bindStatements scope table' after) := by
  obtain ⟨d, hrecords, rfl⟩ := h
  refine ⟨d, hrecords.extends (bindStatements_run after hc hscope).extends, ?_⟩
  exact (bindStatements_revised after (by rw [hbound]; exact hrecords.le_size)).1

variable {statements statements' : List Statement}

/-- Statements that come to the same up to a revision do so among other statements and inside
namespaces. -/
theorem revises_around : ∀ (surroundings : Surroundings) {path : List String} {scope : Option SymbolId}
    {table : SymbolTable}, table.Coherent → table.HasScope scope → table.Located path scope →
    (∀ {scope : Option SymbolId} {table : SymbolTable}, table.Coherent → table.HasScope scope →
      table.Located (path ++ surroundings.path) scope →
      Revises revision occurrences (bindStatements scope table statements)
        (bindStatements scope table statements')) →
    Revises revision occurrences (bindStatements scope table (surroundings.around statements))
      (bindStatements scope table (surroundings.around statements'))
  | .among before after, path, scope, table, hc, hscope, located, h => by
    have run := bindStatements_run before hc hscope
    have hstatements := h (hc.run run) (hscope.run run)
      (by simpa [Surroundings.path] using located.extends run.extends)
    have run' := bindStatements_run statements (hc.run run) (hscope.run run)
    simp only [Surroundings.around, bindStatements_append]
    exact hstatements.bind hbound ((hc.run run).run run') ((hscope.run run).run run') after
  | .inside before place name inner after, path, scope, table, hc, hscope, located, h => by
    have run := bindStatements_run before hc hscope
    obtain ⟨run', hinner⟩ := bindPath_run place.comments name.parts (hc.run run) (hscope.run run)
    have hlocated := (bindPath_records place.comments name.parts (hc.run run) (hscope.run run)
      (located.extends run.extends)).2
    have hbody := revises_around inner ((hc.run run).run run') hinner hlocated
      fun hc' hscope' located' => h hc' hscope' (by
        simpa [Surroundings.path, EntityName.names] using located')
    have run'' := bindStatements_run (inner.around statements) ((hc.run run).run run') hinner
    simp only [Surroundings.around, bindStatements_append, bindStatements, bindStatement]
    exact hbody.bind hbound (((hc.run run).run run').run run'')
      (((hscope.run run).run run').run run'') after

end Around

section Regrouping

/-- Where the first part of a namespace is bound, the second only records its declaration. -/
theorem bindStatements_parts (hc : table.Coherent) (hscope : table.HasScope scope)
    (located : table.Located path scope) (place place' : Placement) (span : Span)
    {name name' whole : EntityName} {a : String} (h : name.names = [a]) (h' : name'.names = [a])
    (hwhole : whole.names = [a]) (body more : List Statement) :
    Revises .without [⟨path, a, .namespaceDecl, place'.comments⟩]
      (bindStatements scope table [.namespaceDecl place name body, .namespaceDecl place' name' more])
      (bindStatements scope table [.namespaceDecl { place with span } whole (body ++ more)]) := by
  have step : BindingStep table _ := .declares a .namespaceDecl place.comments hscope
  have hinner := hc.hasScope_declare hscope a .namespaceDecl place.comments
  have run := bindStatements_run body (hc.step step) hinner
  have hbetween := (hc.step step).run run
  have hlookup := run.extends.lookup_mono
    (declare_adds hscope a .namespaceDecl place.comments).lookup_self
  have step' : BindingStep _ _ :=
    .declares a .namespaceDecl place'.comments ((hscope.step step).run run)
  have hrecords := (records_declare hbetween ((hscope.step step).run run)
    (located.extends (step.extends.trans run.extends)) a .namespaceDecl place'.comments).1
  have hdeclare := declare_of_bound hlookup .namespaceDecl place'.comments
  rw [hdeclare] at step' hrecords
  have hrevises : Revises .without _ _ _ :=
    ⟨_, hrecords.recordsAt, (hbetween.register_without _).symm⟩
  have hmore := hrevises.bind (fun _ => rfl) (hbetween.step step') ((hinner.run run).step step') more
  simpa only [bindStatements, bindStatement, bindPath_of_names h, bindPath_of_names h',
    bindPath_of_names hwhole, bindStatements_append, hdeclare] using hmore

theorem length_pathOccurrences (comments : List Span) : ∀ (path : List String) (parts : List Ident),
    (pathOccurrences comments path parts).length = parts.length
  | _, [] => rfl
  | path, part :: parts => congrArg (· + 1) (length_pathOccurrences comments (path ++ [part.name]) parts)

/-- Namespaces inside each other record what one with a dotted name does, with comments of their own. -/
theorem bindStatements_dotted (hc : table.Coherent) (hscope : table.HasScope scope)
    (located : table.Located path scope) (place outer inner : Placement)
    {dotted first second : EntityName} (h : dotted.names = first.names ++ second.names)
    (body : List Statement) :
    Revises (.recommenting · (List.replicate first.parts.length outer.comments
        ++ List.replicate second.parts.length inner.comments))
      (pathOccurrences place.comments path dotted.parts)
      (bindStatements scope table [.namespaceDecl place dotted body])
      (bindStatements scope table [.namespaceDecl outer first [.namespaceDecl inner second body]]) := by
  obtain ⟨run, hinner⟩ := bindPath_run place.comments dotted.parts hc hscope
  have hrecords := (bindPath_records place.comments dotted.parts hc hscope located).1
  have run' := bindStatements_run body (hc.run run) hinner
  exact ⟨_, hrecords.recordsAt.extends run'.extends, bindStatement_dotted place outer inner h body⟩

/-- A namespace in two parts has the symbols of one that holds the statements of both, and records one more
declaration, that of the second part. A namespace with a dotted name has the symbols and the declarations of
namespaces inside each other, but for the comments of the namespaces themselves. -/
theorem regrouped_namespaces (surroundings : Surroundings) (body : List Statement) :
    (∀ (more : List Statement) (place place' : Placement) (span : Span) (a : String)
        (name name' whole : EntityName), name.names = [a] → name'.names = [a] → whole.names = [a] →
      Revises .without [⟨surroundings.path, a, .namespaceDecl, place'.comments⟩]
        (ofStatements (surroundings.around
          [.namespaceDecl place name body, .namespaceDecl place' name' more]))
        (ofStatements (surroundings.around
          [.namespaceDecl { place with span } whole (body ++ more)])))
    ∧ ∀ (place outer inner : Placement) (dotted first second : EntityName),
      dotted.names = first.names ++ second.names →
      Revises (.recommenting · (List.replicate first.parts.length outer.comments
          ++ List.replicate second.parts.length inner.comments))
        (pathOccurrences place.comments surroundings.path dotted.parts)
        (ofStatements (surroundings.around [.namespaceDecl place dotted body]))
        (ofStatements (surroundings.around
          [.namespaceDecl outer first [.namespaceDecl inner second body]])) := by
  refine ⟨fun more place place' span a name name' whole h h' hwhole => ?_,
    fun place outer inner dotted first second h => ?_⟩
  · refine revises_around (fun _ => rfl) surroundings .empty (hasScope_none _) .file
      fun hc hscope located => bindStatements_parts hc hscope ?_ place place' span h h' hwhole body more
    simpa using located
  · have hlength : dotted.parts.length = first.parts.length + second.parts.length := by
      simpa [EntityName.names] using congrArg List.length h
    refine revises_around (fun d => ?_) surroundings .empty (hasScope_none _) .file
      fun hc hscope located => bindStatements_dotted hc hscope ?_ place outer inner h body
    · simp [Revision.recommenting, length_pathOccurrences, hlength]
    · simpa using located

/-- A name that stands nowhere. -/
def nameOf (first : String) (rest : List String) : EntityName :=
  ⟨⟨first, ⟨0, 0⟩⟩, rest.map (⟨·, ⟨0, 0⟩⟩), ⟨0, 0⟩⟩

/-- A place of no extent, led by comments. -/
def ledBy (comments : List Span) : Placement :=
  ⟨⟨0, 0⟩, comments⟩

/-- An enum of flags with one member. -/
def flags (member : String) (value : ConstExpr) : Statement :=
  .enumDecl (ledBy []) ⟨⟨"Flags", ⟨0, 0⟩⟩, false, [⟨⟨member, ⟨0, 0⟩⟩, some value, ⟨0, 0⟩, []⟩]⟩

/-- Behind an interface, inside a namespace. -/
def insideTs : Surroundings :=
  .inside [.interfaceDecl (ledBy []) ⟨⟨"Node", ⟨0, 0⟩⟩, [], [], []⟩] (ledBy []) (nameOf "ts" [])
    (.among [] []) []

theorem regrouped_flags :
    (nameOf "a" []).names = ["a"] ∧ (nameOf "a" ["b"]).names = (nameOf "a" []).names ++ (nameOf "b" []).names
    ∧ Revises .without [⟨["ts"], "a", .namespaceDecl, [⟨4, 8⟩]⟩]
      (ofStatements (insideTs.around
        [.namespaceDecl (ledBy []) (nameOf "a" []) [flags "None" (.number 0)],
          .namespaceDecl (ledBy [⟨4, 8⟩]) (nameOf "a" []) [flags "All" (.name (nameOf "None" []))]]))
      (ofStatements (insideTs.around [.namespaceDecl (ledBy []) (nameOf "a" [])
        [flags "None" (.number 0), flags "All" (.name (nameOf "None" []))]]))
    ∧ Revises (.recommenting · [[], [⟨4, 8⟩]])
      [⟨["ts"], "a", .namespaceDecl, []⟩, ⟨["ts", "a"], "b", .namespaceDecl, []⟩]
      (ofStatements (insideTs.around
        [.namespaceDecl (ledBy []) (nameOf "a" ["b"]) [flags "None" (.number 0)]]))
      (ofStatements (insideTs.around [.namespaceDecl (ledBy []) (nameOf "a" [])
        [.namespaceDecl (ledBy [⟨4, 8⟩]) (nameOf "b" []) [flags "None" (.number 0)]]])) := by
  obtain ⟨hparts, hdotted⟩ := regrouped_namespaces insideTs [flags "None" (.number 0)]
  refine ⟨rfl, rfl, ?_, ?_⟩
  · exact hparts [flags "All" (.name (nameOf "None" []))] (ledBy []) (ledBy [⟨4, 8⟩]) ⟨0, 0⟩ "a"
      (nameOf "a" []) (nameOf "a" []) (nameOf "a" []) rfl rfl rfl
  · exact hdotted (ledBy []) (ledBy []) (ledBy [⟨4, 8⟩]) (nameOf "a" ["b"]) (nameOf "a" [])
      (nameOf "b" []) rfl

end Regrouping

end SymbolTable

end NodeFactory
