import NodeFactory.Generation
import NodeFactory.Proofs.CorrespondingKinds
import NodeFactory.Proofs.DeclarationNodes
import NodeFactory.Proofs.WellKnownRoles

/-!
# Declarations that change nothing

Where statements follow others that do not share their names, the symbols of those keep their numbers,
their values and what their names stand for (`corresponds_added`). So declarations that a text does not
mention, and from which no kind comes, may follow the text, and the same kinds are found and the same file
is written (`analyze_append_unrelated`).
-/

namespace NodeFactory

open List Text

/-- Statements whose names are known, and declarations of other names. -/
structure Apart (known : String → Prop) (before after : List Statement) : Prop where
  before : ∀ occurrence ∈ occurrencesIn [] before, KnownPath known occurrence.fullPath
  after : ∀ statement ∈ after, ∃ name, statement.declaredName? = some name ∧ ¬ known name

section Added

variable {known : String → Prop} {before after : List Statement} (h : Apart known before after)
include h

theorem Apart.not_known {occurrence : Occurrence} (hmem : occurrence ∈ occurrencesIn [] after) :
    ¬ KnownPath known occurrence.fullPath := by
  obtain ⟨statement, hstatement, hmem⟩ := mem_occurrencesIn.1 hmem
  obtain ⟨name, hname, hnot⟩ := h.after statement hstatement
  exact fun hknown => hnot (hknown name (statement.head_fullPath hname hmem))

theorem Apart.occurrencesAt_eq (path : List String) (hpath : KnownPath known path) :
    occurrencesAt path before = occurrencesAt path (before ++ after) := by
  have hnone : occurrencesAt path after = [] := by
    refine filter_eq_nil_iff.2 fun occurrence hmem hfull => h.not_known hmem ?_
    rwa [of_decide_eq_true hfull]
  rw [occurrencesAt_append, hnone, append_nil]

namespace SymbolTable

variable {i i' : SymbolId} {symbol symbol' : Symbol}

/-- Every symbol of the first statements has the path that it had, which is known. -/
theorem samePath_self (hsymbol : (ofStatements before).symbols[i]? = some symbol) :
    SamePath known (ofStatements before) (ofStatements (before ++ after)) i i := by
  obtain ⟨path, hpath⟩ := (Coherent.ofStatements before).exists_located (hasScope_of_symbol hsymbol)
  obtain ⟨occurrence, hfound⟩ := exists_mem_of_ne_nil _ (exists_located_iff.1 ⟨i, hpath⟩)
  obtain ⟨hmem, hfull⟩ := mem_filter.1 hfound
  obtain rfl := of_decide_eq_true hfull
  exact ⟨_, h.before occurrence hmem, hpath, hpath.extends (ofStatements_adds before after).1⟩

omit h in
/-- Symbols of one path have one number. -/
theorem SamePath.eq (hi : SamePath known (ofStatements before) (ofStatements (before ++ after)) i i') :
    i = i' := by
  obtain ⟨path, -, hlocated, hlocated'⟩ := hi
  have hextends := (ofStatements_adds before after).1
  exact Option.some.inj ((Coherent.ofStatements _).located_unique (hlocated.extends hextends) hlocated')

/-- No symbol of the first statements is declared again. -/
theorem not_redeclaresMember
    (hi : SamePath known (ofStatements before) (ofStatements (before ++ after)) i i') :
    ¬ (ofStatements before).RedeclaresMember (ofStatements (before ++ after)) i := by
  rintro ⟨d, decl, member, hd, hdecl, hid, -⟩
  obtain ⟨hextends, -, new, hnew, hrecords⟩ := ofStatements_adds before after
  have hmem : decl ∈ new := by
    rw [← Array.getElem?_toList, hnew, getElem?_append_right (by simpa using hd)] at hdecl
    exact mem_of_getElem? hdecl
  obtain ⟨occurrence, hmem', hrecorded⟩ := exists_of_forall₂ hrecords.flip hmem
  obtain ⟨path, hpath, hlocated, -⟩ := hi
  have hsymbol := hrecorded.symbol
  rw [hid] at hsymbol
  obtain rfl := (hlocated.extends hextends).path_unique hsymbol
  exact h.not_known hmem' hpath

theorem value_of_apart (hi : SamePath known (ofStatements before) (ofStatements (before ++ after)) i i')
    (hsymbol : (ofStatements before).symbols[i]? = some symbol)
    (hsymbol' : (ofStatements (before ++ after)).symbols[i']? = some symbol') :
    symbol.value = symbol'.value := by
  obtain rfl := hi.eq
  obtain ⟨symbol'', more, hsymbol'', -, hvalue⟩ := (ofStatements_adds before after).1.symbols hsymbol
  obtain rfl := Option.some.inj (hsymbol'.symm.trans hsymbol'')
  by_contra hne
  exact not_redeclaresMember h hi (hvalue (Ne.symm hne))

theorem samePlace_self {d : DeclId} {decl : Declaration}
    (hdecl : (ofStatements before).declarations[d]? = some decl) :
    SamePlace known (ofStatements before) (ofStatements (before ++ after)) d d := by
  obtain ⟨symbol, hsymbol, hmem, -⟩ := (Coherent.ofStatements before).declared hdecl
  obtain ⟨symbol', more, hsymbol', hcontinues, -⟩ := (ofStatements_adds before after).1.symbols hsymbol
  obtain ⟨k, hk⟩ := getElem?_of_mem hmem
  refine ⟨_, _, symbol, symbol', k, samePath_self h hsymbol, hsymbol, hsymbol', hk, ?_⟩
  rw [hcontinues.declarations, getElem?_append_left (List.getElem?_eq_some_iff.1 hk).1, hk]

/-- Statements apart from others leave their symbols and declarations as they are. -/
theorem corresponds_added {node : Outline → Prop}
    (hknown : ∀ name : EntityName, node name.outline → known name.first.name)
    (hnodes : ∀ occurrence ∈ occurrencesIn [] before, Outline.Every node (outlines occurrence.node)
      ∧ ∃ first, node first ∧ first.sort.comments? = some occurrence.comments) :
    (ofStatements before).Corresponds
      (matchingAt known node (ofStatements before) (ofStatements (before ++ after)))
      (ofStatements (before ++ after)) :=
  corresponds_of_occurrences h.occurrencesAt_eq (value_of_apart h) hknown hnodes

end SymbolTable

end Added

/-- A declaration that another text does not mention, and from which no kind comes: its name is none that
the settings give to a role, and none that they list kinds for, and no comment that leads it names a
kind. -/
structure Statement.IsUnrelated (config : Config) (other text : List Char) (statement : Statement) : Prop where
  declares : statement.declaredName?.isSome
  unmentioned : ∀ name ∈ statement.declaredName?, ¬ Mentions other name
  roleless : ∀ name ∈ statement.declaredName?, ∀ role, name ≠ config.wellKnown.name role
  unlisted : ∀ name ∈ statement.declaredName?, config.metadata.kinds.find? name = none
  unmarked : ∀ span ∈ statement.place.comments, Annotation.find config.annotations.kind.toList
    config.wellKnown.kindEnum.toList (slice text span) = []

section Unrelated

variable {config : Config} {a : List Char} {schema : Schema} {after : List Statement}

theorem Schema.text_parse (text : List Char) : (Schema.parse text).text = text := by
  unfold Schema.parse
  split <;> rfl

/-- The paths of a text are apart from those of declarations that it does not mention. -/
theorem apart_of_unrelated (hclean : (Schema.parse a).errors = []) {text : List Char}
    (hafter : ∀ statement ∈ after, statement.IsUnrelated config a text) :
    Apart (Mentions a) (Schema.parse a).statements after where
  before _ hmem := mentions_fullPath hclean hmem
  after statement hmem := by
    obtain ⟨name, hname⟩ := Option.isSome_iff_exists.1 (hafter statement hmem).declares
    exact ⟨name, hname, (hafter statement hmem).unmentioned name hname⟩

/-- Where the declaration and the text around it move, nothing changes but positions. -/
theorem isUnrelated_moved {text : List Char} {statement : Statement}
    (h : statement.IsUnrelated config a text) (before : List Char) :
    (relocate (.shift (byteLength before)) statement).IsUnrelated config a (before ++ text) := by
  have hname : (relocate (.shift (byteLength before)) statement).declaredName? = statement.declaredName? := by
    cases statement <;> rfl
  have hcomments : (relocate (.shift (byteLength before)) statement).place.comments
      = statement.place.comments.map (relocate (.shift (byteLength before))) := by
    cases statement <;> rfl
  refine ⟨hname ▸ h.declares, hname ▸ h.unmentioned, hname ▸ h.roleless, hname ▸ h.unlisted, ?_⟩
  rw [hcomments, forall_mem_map]
  intro span hspan
  rw [slice_shift]
  exact h.unmarked span hspan

section Declared

variable {text : List Char} (hafter : ∀ statement ∈ after, statement.IsUnrelated config a text)
  {before : List Statement} {new : List Declaration}
  (hrecords : Forall₂ (SymbolTable.ofStatements (before ++ after)).IsRecorded new (occurrencesIn [] after))
include hafter hrecords

theorem exists_unrelated {decl : Declaration} (hmem : decl ∈ new) :
    ∃ statement : Statement, statement.IsUnrelated config a text ∧ ∃ occurrence ∈ statement.occurrences [],
      (SymbolTable.ofStatements (before ++ after)).IsRecorded decl occurrence := by
  obtain ⟨occurrence, hoccurrence, hrecorded⟩ := exists_of_forall₂ hrecords.flip hmem
  obtain ⟨statement, hstatement, hoccurrence⟩ := mem_occurrencesIn.1 hoccurrence
  exact ⟨statement, hafter statement hstatement, occurrence, hoccurrence, hrecorded⟩

theorem role?_of_unrelated {decl : Declaration} (hmem : decl ∈ new) :
    decl.node.role? config.wellKnown = none := by
  obtain ⟨statement, hunrelated, occurrence, hoccurrence, hrecorded⟩ :=
    exists_unrelated hafter hrecords hmem
  obtain ⟨name, hname⟩ := Option.isSome_iff_exists.1 hunrelated.declares
  refine Option.eq_none_iff_forall_ne_some.2 fun role hrole => ?_
  rw [hrecorded.node] at hrole
  exact hunrelated.roleless name hname role (statement.name_of_role? hname hoccurrence hrole)

/-- No kind comes from an unrelated declaration. -/
theorem declaredKinds_of_unrelated {model : Model} (hconfig : model.config = config)
    (htext : model.text = text) (htable : model.table = SymbolTable.ofStatements (before ++ after))
    (kindEnum : SymbolId) {decl : Declaration} (hmem : decl ∈ new) (d : DeclId) :
    model.declaredKinds kindEnum d decl = [] := by
  obtain ⟨statement, hunrelated, occurrence, hoccurrence, hrecorded⟩ :=
    exists_unrelated hafter hrecords hmem
  have hname : model.table.symbolName decl.symbol = occurrence.name := by
    obtain ⟨symbol, path, hpath, hsymbol, -⟩ := hrecorded.symbol.cases_some
    rw [SymbolTable.symbolName, htable, hsymbol]
    exact (singleton_inj.1 (append_inj' hpath rfl).2).symm
  have hnone : statement.declaredName? = some occurrence.name →
      occurrence.comments = statement.place.comments → model.declaredKinds kindEnum d decl = [] := by
    intro hdeclared hcomments
    have hannotated : model.annotatedKinds kindEnum decl = [] := by
      have hunmarked : ∀ span ∈ statement.place.comments, Annotation.find config.annotations.kind.toList
          config.wellKnown.kindEnum.toList (model.textOf span) = [] := by
        subst htext
        exact hunrelated.unmarked
      rw [Model.annotatedKinds, hconfig, hrecorded.comments, hcomments, flatMap_eq_nil_iff.2 hunmarked,
        filterMap_nil]
    have hmetadata : model.metadataKinds kindEnum decl = [] := by
      rw [Model.metadataKinds, hconfig, hname, hunrelated.unlisted _ hdeclared]
      rfl
    unfold Model.declaredKinds
    rw [hannotated, hmetadata]
    split <;> simp
  cases statement with
  | namespaceDecl | skipped => cases hunrelated.declares
  | interfaceDecl place decl | aliasDecl place decl =>
    obtain rfl := mem_singleton.1 hoccurrence
    exact hnone rfl rfl
  | enumDecl place decl =>
    have hnode : (∃ enum, occurrence.node = .enumDecl enum)
        ∨ ∃ member, occurrence.node = .memberDecl member := by
      rcases mem_cons.1 hoccurrence with rfl | hoccurrence
      · exact .inl ⟨_, rfl⟩
      · obtain ⟨member, -, rfl⟩ := mem_map.1 hoccurrence
        exact .inr ⟨_, rfl⟩
    unfold Model.declaredKinds
    rw [hrecorded.node]
    obtain ⟨_, hnode⟩ | ⟨_, hnode⟩ := hnode <;> rw [hnode]

end Declared

section Models

variable (hstatements : schema.statements = (Schema.parse a).statements ++ after)
  (hafter : ∀ statement ∈ after, statement.IsUnrelated config a schema.text)
include hstatements hafter

/-- What has a role is the same. -/
theorem wellKnown_of_unrelated :
    (Model.ofSchema config schema).wellKnown = (Model.ofSchema config (Schema.parse a)).wellKnown := by
  obtain ⟨-, -, new, hnew, hrecords⟩ := SymbolTable.ofStatements_adds (Schema.parse a).statements after
  refine WellKnown.ext_get fun role => ?_
  have hnone : new.filter (fun decl => decl.node.role? config.wellKnown = some role) = [] :=
    filter_eq_nil_iff.2 fun decl hmem => by simp [role?_of_unrelated hafter hrecords hmem]
  rw [Model.ofSchema, Model.ofSchema, WellKnown.get_find, WellKnown.get_find, hstatements, hnew,
    filter_append, hnone, append_nil]

variable (hclean : (Schema.parse a).errors = []) {more : List Char} (hmore : schema.text = a ++ more)
include hclean hmore

/-- The nodes that a text is made of. -/
def Schema.HasNode (schema : Schema) (node : Outline) : Prop :=
  node ∈ Outline.allOf (outlines schema.statements)

omit hstatements hmore in
theorem samePath_of_role {role : Role} {id : SymbolId}
    (hfound : (Model.ofSchema config (Schema.parse a)).wellKnown.get role = some id) :
    SymbolTable.SamePath (Mentions a) (SymbolTable.ofStatements (Schema.parse a).statements)
      (SymbolTable.ofStatements ((Schema.parse a).statements ++ after)) id id := by
  obtain ⟨decl, hmem, -, rfl⟩ := WellKnown.exists_declaration_of_get _ hfound
  obtain ⟨d, hd⟩ := getElem?_of_mem hmem
  rw [Array.getElem?_toList] at hd
  obtain ⟨symbol, hsymbol, -⟩ := (SymbolTable.Coherent.ofStatements _).declared hd
  exact SymbolTable.samePath_self (apart_of_unrelated hclean hafter) hsymbol

/-- A model of a text corresponds to that of the text with unrelated declarations behind it. -/
theorem corresponds_of_unrelated : (Model.ofSchema config (Schema.parse a)).Corresponds
    (SymbolTable.matchingAt (Mentions a) (Schema.parse a).HasNode
      (SymbolTable.ofStatements (Schema.parse a).statements)
      (SymbolTable.ofStatements ((Schema.parse a).statements ++ after)))
    (Model.ofSchema config schema) := by
  have hrole : ∀ role, Option.Rel (SymbolTable.SamePath (Mentions a)
      (SymbolTable.ofStatements (Schema.parse a).statements)
      (SymbolTable.ofStatements ((Schema.parse a).statements ++ after)))
      ((Model.ofSchema config (Schema.parse a)).wellKnown.get role)
      ((Model.ofSchema config schema).wellKnown.get role) := by
    intro role
    rw [wellKnown_of_unrelated hstatements hafter]
    cases hfound : (Model.ofSchema config (Schema.parse a)).wellKnown.get role with
    | none => exact .none
    | some id => exact .some (samePath_of_role hafter hclean hfound)
  refine ⟨rfl, ?_, hrole .node, hrole .nodeArray, hrole .modifiersArray, hrole .declaration, ?_, ?_⟩
  · show SymbolTable.Corresponds _ _ (SymbolTable.ofStatements schema.statements)
    rw [hstatements]
    refine SymbolTable.corresponds_added (apart_of_unrelated hclean hafter)
      (fun name hname => mentions_head hname) fun occurrence hmem => ?_
    obtain ⟨hnodes, first, hfirst, hcomments⟩ :=
      Statement.occurrencesIn_nodes (Schema.parse a).statements occurrence hmem
    rw [Statement.allOutlines_eq] at hnodes hfirst
    exact ⟨fun node hnode => hnodes hnode, first, hfirst, hcomments⟩
  · intro node hnode _
    show slice schema.text node.span = slice (Schema.parse a).text node.span
    rw [hmore, Schema.text_parse, slice_node_append hnode]
  · intro node comments hnode hcomments span hspan
    show slice schema.text span = slice (Schema.parse a).text span
    rw [hmore, Schema.text_parse, slice_comment_append hnode more hcomments span hspan]

/-- The declarations of the text give what they gave. -/
theorem given_of_unrelated {kindEnum : SymbolId}
    (hkindEnum : (Model.ofSchema config (Schema.parse a)).wellKnown.get .kindEnum = some kindEnum)
    {decl : Declaration} {d : DeclId}
    (hdecl : (SymbolTable.ofStatements (Schema.parse a).statements).declarations[d]? = some decl) :
    (Model.ofSchema config schema).given kindEnum (decl, d)
      = (Model.ofSchema config (Schema.parse a)).given kindEnum (decl, d) := by
  have hcorresponds := corresponds_of_unrelated hstatements hafter hclean hmore
  have hd := SymbolTable.samePlace_self (apart_of_unrelated hclean hafter) hdecl
  obtain ⟨decl₁, decl₁', hdecl₁, hdecl₁', hagrees⟩ := hcorresponds.table.decl hd
  obtain rfl : decl = decl₁ := Option.some.inj (hdecl.symm.trans hdecl₁)
  obtain rfl : decl = decl₁' := by
    have hlater := (SymbolTable.ofStatements_adds (Schema.parse a).statements after).1.declaration hdecl
    rw [← hstatements] at hlater
    exact Option.some.inj (hlater.symm.trans hdecl₁')
  have halike : AnswersAlike _ ((Model.ofSchema config (Schema.parse a)).given kindEnum (decl, d))
      ((Model.ofSchema config schema).given kindEnum (decl, d)) :=
    hcorresponds.given (samePath_of_role hafter hclean hkindEnum) hd hagrees
  refine (halike.eq fun kinds kinds' hkinds => ?_).symm
  refine forall₂_eq_eq_eq ▸ hkinds.imp fun kind kind' hkind => ?_
  exact NodeKind.eq_of_unnumbered hkind.1.eq hkind.2

/-- Unrelated declarations behind a text leave its kinds as they are. -/
theorem kinds_of_unrelated : schema.kinds config = (Schema.parse a).kinds config := by
  have hfound := wellKnown_of_unrelated hstatements hafter
  unfold Schema.kinds
  dsimp only
  rw [hfound]
  cases hkindEnum : (Model.ofSchema config (Schema.parse a)).wellKnown.kindEnum with
  | none => rfl
  | some kindEnum =>
    obtain ⟨-, -, new, hnew, hrecords⟩ := SymbolTable.ofStatements_adds (Schema.parse a).statements after
    have hold : ∀ entry ∈ (Model.ofSchema config (Schema.parse a)).table.declarations.toList.zipIdx,
        (Model.ofSchema config schema).given kindEnum entry
          = (Model.ofSchema config (Schema.parse a)).given kindEnum entry := by
      rintro ⟨decl, d⟩ hmem
      refine given_of_unrelated hstatements hafter hclean hmore hkindEnum ?_
      rw [← Array.getElem?_toList]
      exact mem_zipIdx_iff_getElem?.1 hmem
    have hadded : ∀ n, ∀ answer ∈ (new.zipIdx n).map ((Model.ofSchema config schema).given kindEnum),
        answer = .ok [] := by
      intro n answer hmem
      obtain ⟨⟨decl, d⟩, hentry, rfl⟩ := mem_map.1 hmem
      exact Model.given_of_declaredKinds_nil _ _ (declaredKinds_of_unrelated hafter hrecords rfl rfl
        (congrArg SymbolTable.ofStatements hstatements) kindEnum (fst_mem_of_mem_zipIdx hentry) d)
    have hdeclarations : (Model.ofSchema config schema).table.declarations.toList
        = (Model.ofSchema config (Schema.parse a)).table.declarations.toList ++ new := by
      show (SymbolTable.ofStatements schema.statements).declarations.toList = _
      rw [hstatements, hnew]
      rfl
    have hkinds : (Model.ofSchema config schema).kinds kindEnum
        = (Model.ofSchema config (Schema.parse a)).kinds kindEnum := by
      rw [Model.kinds_eq_collect, Model.kinds_eq_collect, hdeclarations, zipIdx_append, map_append,
        Model.collect_append_of_forall_nil (hadded _), map_congr_left hold]
    dsimp only
    rw [hkinds]

end Models

/-- A text that reports no error, opens as many groups as it closes and ends with a semicolon or a closing
brace, not that of an alias, has the same kinds and the same file, or fails alike, where declarations
that it does not mention follow on a new line and no kind comes from them. -/
theorem analyze_append_unrelated (config : Config) (a d : List Char) (hclean : (Schema.parse a).errors = [])
    (hcount : (Token.tokenize a).countP (fun token => token.kind.isOpen)
      = (Token.tokenize a).countP fun token => token.kind.isClose)
    (hend : ∃ token ∈ (Token.tokenize a).getLast?, token.kind = .semicolon ∨ token.kind = .closeBrace)
    (halias : ∀ place decl, (Schema.parse a).statements.getLast? = some (.aliasDecl place decl) →
      ∀ token ∈ Token.tokenize a, token.span.stop = place.span.stop → token.kind ≠ .closeBrace)
    (hclean' : (Schema.parse d).errors = [])
    (hunrelated : ∀ statement ∈ (Schema.parse d).statements, statement.IsUnrelated config a d) :
    analyze config (a ++ '\n' :: d) = analyze config a
      ∧ generate config (a ++ '\n' :: d) = generate config a := by
  obtain ⟨hstatements, herrors⟩ := parse_append a d hclean hcount hend halias
  have hjoined : a ++ '\n' :: d = (a ++ ['\n']) ++ d := by simp
  have hlength : byteLength (a ++ ['\n']) = byteLength a + 1 := byteLength_append a ['\n']
  have hafter : ∀ statement ∈ relocate (.shift (byteLength a + 1)) (Schema.parse d).statements,
      statement.IsUnrelated config a (Schema.parse (a ++ '\n' :: d)).text := by
    intro _ hmem
    obtain ⟨statement, hstatement, rfl⟩ := mem_map.1 hmem
    rw [Schema.text_parse, hjoined, ← hlength]
    exact isUnrelated_moved (hunrelated statement hstatement) (a ++ ['\n'])
  have hkinds := kinds_of_unrelated hstatements hafter hclean (Schema.text_parse _)
  have hanalyze : analyze config (a ++ '\n' :: d) = analyze config a := by
    rw [analyze_eq, analyze_eq, herrors, hclean', hclean, hkinds]
    rfl
  exact ⟨hanalyze, by rw [generate, generate, hanalyze]⟩

/-- A kind enum, a kind with a field, and an alias behind them. -/
def listSchema : List Char :=
  "enum SyntaxKind { List }
// @kind(SyntaxKind.List)
interface List { next: Tail; }
type Tail = List;".toList

/-- Declarations that are defined in terms of themselves. -/
def cyclicDeclarations : List Char :=
  "// Loops
interface Loop extends Loop {} type Round = Round; enum Turn { List }".toList

theorem analyze_append_cyclicDeclarations :
    (Schema.parse listSchema).errors = [] ∧ (Schema.parse cyclicDeclarations).errors = []
      ∧ analyze {} (listSchema ++ '\n' :: cyclicDeclarations) = analyze {} listSchema
      ∧ generate {} (listSchema ++ '\n' :: cyclicDeclarations) = generate {} listSchema := by
  obtain ⟨hclean, hstop⟩ : (Schema.parse listSchema).errors = []
      ∧ (Schema.parse listSchema).statements.getLast?.map (fun last => last.outline.span.stop)
        = some (byteLength listSchema) := by decide +kernel
  obtain ⟨hcount, hlast, hbrace⟩ : (Token.tokenize listSchema).countP (fun token => token.kind.isOpen)
        = (Token.tokenize listSchema).countP (fun token => token.kind.isClose)
      ∧ (Token.tokenize listSchema).getLast?.map Token.kind = some .semicolon
      ∧ ∀ token ∈ Token.tokenize listSchema,
        token.span.stop = byteLength listSchema → token.kind ≠ .closeBrace := by decide +kernel
  obtain ⟨hclean', hfresh⟩ : (Schema.parse cyclicDeclarations).errors = []
      ∧ ∀ statement ∈ (Schema.parse cyclicDeclarations).statements, statement.declaredName?.isSome
        ∧ (∀ name ∈ statement.declaredName?, ¬ Mentions listSchema name
          ∧ name ∉ [.node, .nodeArray, .modifiersArray, .declaration, .kindEnum].map
            ({} : Config).wellKnown.name)
        ∧ ∀ span ∈ statement.place.comments, Annotation.find ({} : Config).annotations.kind.toList
          ({} : Config).wellKnown.kindEnum.toList (slice cyclicDeclarations span) = [] := by
    decide +kernel
  obtain ⟨token, htoken, hkind⟩ := Option.map_eq_some_iff.1 hlast
  refine ⟨hclean, hclean', analyze_append_unrelated {} listSchema cyclicDeclarations hclean hcount
    ⟨token, htoken, .inl hkind⟩ (fun place decl halias => ?_) hclean' fun statement hmem => ?_⟩
  · rw [halias, Option.map_some, outline_aliasDecl] at hstop
    rw [show place.span.stop = byteLength listSchema from Option.some.inj hstop]
    exact hbrace
  · obtain ⟨hdeclares, hnames, hunmarked⟩ := hfresh statement hmem
    refine ⟨hdeclares, fun name hname => (hnames name hname).1, fun name hname role hrole => ?_,
      fun _ _ => rfl, hunmarked⟩
    refine (hnames name hname).2 (mem_map.2 ⟨role, ?_, hrole.symm⟩)
    cases role <;> decide

end Unrelated

end NodeFactory
