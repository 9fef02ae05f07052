import NodeFactory.Proofs.JoinedTexts
import NodeFactory.Proofs.LeadingComments
import NodeFactory.Proofs.MatchedPaths
import NodeFactory.Proofs.TokenTiles

/-!
# What declarations are made of

A declaration that statements make is written in nodes of these statements (`occurrence_nodes`). Of the
text it depends only on the words that its names are spelled with (`mentions_head`, `mentions_declared`)
and on the parts of the text that its types and comments cover, which stay the same where the text goes on
(`slice_node_append`, `slice_comment_append`).
-/

namespace NodeFactory

open Parse Text

/-- The name is the text of an identifier or of a keyword. -/
def Mentions (text : List Char) (name : String) : Prop :=
  ∃ token ∈ Token.tokenize text, token.kind.isName = true ∧ name = String.ofList token.text

instance (text : List Char) (name : String) : Decidable (Mentions text name) :=
  inferInstanceAs (Decidable (∃ token ∈ Token.tokenize text, _))

section Nodes

variable {nodes : List Outline} {xs : List Lexeme}

/-- Each node fits the lexemes that it is written in. -/
theorem Within.fits (h : Within nodes xs) : ∀ node ∈ Outline.allOf nodes, ∃ ys ⊆ xs,
    node.sort.Fits node.parts ys := by
  induction h with
  | nil => nofun
  | skip _ ih =>
    intro node hmem
    obtain ⟨ys, hys, hfits⟩ := ih node hmem
    exact ⟨ys, List.subset_cons_of_subset _ hys, hfits⟩
  | plain _ hfits _ _ ih ih' =>
    intro node hmem
    rw [Outline.allOf, Outline.all, List.cons_append] at hmem
    rcases List.mem_cons.1 hmem with rfl | hmem
    · exact ⟨_, List.subset_append_left _ _, hfits⟩
    rcases List.mem_append.1 hmem with hmem | hmem
    · obtain ⟨ys, hys, hfits⟩ := ih node hmem
      exact ⟨ys, List.subset_append_of_subset_left _ hys, hfits⟩
    · obtain ⟨ys, hys, hfits⟩ := ih' node hmem
      exact ⟨ys, List.subset_append_of_subset_right _ hys, hfits⟩
  | @led sort first rest lexemes _ _ _ hcomments _ _ _ _ ih ih' ih'' =>
    intro node hmem
    rw [Outline.allOf, Outline.all, List.cons_append, Outline.allOf_append] at hmem
    rcases List.mem_cons.1 hmem with rfl | hmem
    · refine ⟨[], List.nil_subset _, ?_⟩
      cases sort with
      | statement | member | enumMember => trivial
      | heritageClause | heritageType | type | entityName | ident => cases hcomments
    rcases List.mem_append.1 hmem with hmem | hmem
    · rcases List.mem_append.1 hmem with hmem | hmem
      · obtain ⟨ys, hys, hfits⟩ := ih node hmem
        exact ⟨ys, List.Subset.trans hys (by simp), hfits⟩
      · obtain ⟨ys, hys, hfits⟩ := ih' node hmem
        exact ⟨ys, List.Subset.trans hys (by simp), hfits⟩
    · obtain ⟨ys, hys, hfits⟩ := ih'' node hmem
      exact ⟨ys, List.subset_append_of_subset_right _ hys, hfits⟩

end Nodes

section Occurrences

/-- A declaration is written in nodes, and led by the comments of one of them. -/
def Occurrence.WrittenIn (occurrence : Occurrence) (nodes : List Outline) : Prop :=
  Outline.allOf (outlines occurrence.node) ⊆ nodes
    ∧ ∃ node ∈ nodes, node.sort.comments? = some occurrence.comments

theorem Occurrence.WrittenIn.mono {occurrence : Occurrence} {nodes nodes' : List Outline}
    (h : occurrence.WrittenIn nodes) (hsubset : nodes ⊆ nodes') : occurrence.WrittenIn nodes' := by
  obtain ⟨hnodes, node, hmem, hcomments⟩ := h
  exact ⟨List.Subset.trans hnodes hsubset, node, hsubset hmem, hcomments⟩

theorem writtenIn_place {occurrence : Occurrence} {place : Placement} {nodes : List Outline}
    (hcomments : occurrence.comments = place.comments)
    (hnodes : Outline.allOf (outlines occurrence.node) ⊆ Outline.allOf nodes) :
    occurrence.WrittenIn (place.outline nodes).all :=
  ⟨fun _ hmem => List.mem_cons_of_mem _ (hnodes hmem), place.outline nodes, List.mem_cons_self,
    congrArg some hcomments.symm⟩

theorem mem_pathOccurrences {comments : List Span} : ∀ {parts : List Ident} {path : List String}
    {occurrence : Occurrence}, occurrence ∈ pathOccurrences comments path parts →
    occurrence.node = .namespaceDecl ∧ occurrence.comments = comments
  | _ :: _, _, _, hmem => by
    rcases List.mem_cons.1 hmem with rfl | hmem
    · exact ⟨rfl, rfl⟩
    · exact mem_pathOccurrences hmem

theorem pathOccurrences_path {comments : List Span} : ∀ {parts : List Ident} {path : List String}
    {occurrence : Occurrence}, occurrence ∈ pathOccurrences comments path parts → path <+: occurrence.path
  | _ :: _, _, _, hmem => by
    rcases List.mem_cons.1 hmem with rfl | hmem
    · exact List.prefix_refl _
    · exact (List.prefix_append _ _).trans (pathOccurrences_path hmem)

mutual

/-- A statement declares what it declares inside the scope that it is in. -/
theorem Statement.occurrences_path : ∀ (statement : Statement) {path : List String},
    ∀ occurrence ∈ statement.occurrences path, path <+: occurrence.path
  | .namespaceDecl place name body, path, occurrence, hmem => by
    rcases List.mem_append.1 hmem with hmem | hmem
    · exact pathOccurrences_path hmem
    · exact (List.prefix_append _ _).trans (Statement.occurrencesIn_path body occurrence hmem)
  | .interfaceDecl place decl, path, occurrence, hmem
  | .aliasDecl place decl, path, occurrence, hmem => by
    obtain rfl := List.mem_singleton.1 hmem
    exact List.prefix_refl _
  | .enumDecl place decl, path, occurrence, hmem => by
    rcases List.mem_cons.1 hmem with rfl | hmem
    · exact List.prefix_refl _
    · obtain ⟨member, -, rfl⟩ := List.mem_map.1 hmem
      exact List.prefix_append _ _

theorem Statement.occurrencesIn_path : ∀ (statements : List Statement) {path : List String},
    ∀ occurrence ∈ occurrencesIn path statements, path <+: occurrence.path
  | statement :: statements, path, occurrence, hmem => by
    rcases List.mem_append.1 hmem with hmem | hmem
    · exact statement.occurrences_path occurrence hmem
    · exact Statement.occurrencesIn_path statements occurrence hmem

end

/-- What is declared in a namespace is at a path that begins with the name of the namespace. -/
theorem head_fullPath_namespaceDecl {place : Placement} {name : EntityName} {body : List Statement}
    {occurrence : Occurrence} (hmem : occurrence ∈ (Statement.namespaceDecl place name body).occurrences []) :
    occurrence.fullPath.head? = some name.first.name := by
  have hhead : ∀ {names : List String}, name.first.name :: names <+: occurrence.path →
      occurrence.fullPath.head? = some name.first.name := by
    rintro names ⟨more, hmore⟩
    rw [Occurrence.fullPath, ← hmore]
    rfl
  rcases List.mem_append.1 hmem with hmem | hmem
  · rcases List.mem_cons.1 hmem with rfl | hmem
    · rfl
    · exact hhead (pathOccurrences_path hmem)
  · exact hhead (Statement.occurrencesIn_path body occurrence hmem)

/-- The nodes of one thing are among those of a list. -/
theorem outlines_subset {α : Type} [Outlined α] {as : List α} {a : α} (h : a ∈ as) :
    Outline.allOf (outlines a) ⊆ Outline.allOf (outlines as) := by
  induction as with
  | nil => cases h
  | cons first rest ih =>
    rw [outlines_cons, Outline.allOf_append]
    rcases List.mem_cons.1 h with rfl | h
    · exact List.subset_append_left _ _
    · exact List.subset_append_of_subset_right _ (ih h)

mutual

theorem Statement.occurrence_nodes : ∀ (statement : Statement) {path : List String},
    ∀ occurrence ∈ statement.occurrences path, occurrence.WrittenIn statement.outline.all
  | .namespaceDecl place name body, path, occurrence, hmem => by
    rcases List.mem_append.1 hmem with hmem | hmem
    · obtain ⟨hnode, hcomments⟩ := mem_pathOccurrences hmem
      exact writtenIn_place hcomments (by rw [hnode]; exact List.nil_subset _)
    · refine (Statement.occurrencesIn_nodes body occurrence hmem).mono fun node hnode => ?_
      exact List.mem_cons_of_mem _ (List.mem_append_right _ hnode)
  | .interfaceDecl place decl, path, occurrence, hmem => by
    obtain rfl := List.mem_singleton.1 hmem
    exact writtenIn_place rfl (List.Subset.refl _)
  | .aliasDecl place decl, path, occurrence, hmem => by
    obtain rfl := List.mem_singleton.1 hmem
    exact writtenIn_place rfl (List.Subset.refl _)
  | .enumDecl place decl, path, occurrence, hmem => by
    rcases List.mem_cons.1 hmem with rfl | hmem
    · exact writtenIn_place rfl (List.Subset.refl _)
    · obtain ⟨member, hmember, rfl⟩ := List.mem_map.1 hmem
      have hall : Outline.allOf (outlines member) ⊆ (Statement.enumDecl place decl).outline.all := fun node h =>
        List.mem_cons_of_mem _ (List.mem_append_right _ (outlines_subset hmember h))
      exact ⟨hall, member.outline, hall List.mem_cons_self, rfl⟩

theorem Statement.occurrencesIn_nodes : ∀ (statements : List Statement) {path : List String},
    ∀ occurrence ∈ occurrencesIn path statements,
      occurrence.WrittenIn (Outline.allOf (Statement.allOutlines statements))
  | statement :: statements, path, occurrence, hmem => by
    rcases List.mem_append.1 hmem with hmem | hmem
    · exact (statement.occurrence_nodes occurrence hmem).mono (List.subset_append_left _ _)
    · exact (Statement.occurrencesIn_nodes statements occurrence hmem).mono (List.subset_append_right _ _)

end

end Occurrences

section Words

variable {text : List Char} {c d m : Cursor} {body : Parse (List Statement)}

/-- The name is spelled by one of the lexemes, an identifier or a keyword. -/
def SpelledIn (lexemes : List Lexeme) (name : String) : Prop :=
  ∃ lexeme ∈ lexemes, lexeme.kind.isName = true ∧ name = String.ofList lexeme.text

theorem SpelledIn.mono {xs ys : List Lexeme} {name : String} (h : SpelledIn xs name) (hsubset : xs ⊆ ys) :
    SpelledIn ys name := by
  obtain ⟨lexeme, hmem, hname⟩ := h
  exact ⟨lexeme, hsubset hmem, hname⟩

theorem IsWord.spelledIn {ident : Ident} {xs : List Lexeme} (h : IsWord ident xs) :
    SpelledIn xs ident.name := by
  obtain ⟨lexeme, rfl, hname, rfl⟩ := h
  exact ⟨lexeme, List.mem_singleton_self _, hname, rfl⟩

theorem SpelledIn.mentions {name : String} (h : SpelledIn (lexemesOf text) name) : Mentions text name := by
  obtain ⟨lexeme, hmem, hname, htext⟩ := h
  exact ⟨lexeme.token, Lexeme.token_mem hmem, hname, htext⟩

theorem interfaceDecl_spells {s : Sequel} :
    Takes s (fun decl xs => SpelledIn xs decl.name.name) interfaceDecl interfaceDecl c := by
  unfold interfaceDecl
  refine (expect_takes (by decide)).bind fun _ m xs _ _ => ident_takes.bind fun name m ys _ hname => ?_
  have htype : ∀ n, TypesBelow s n typeExpr typeExpr := fun _ _ _ => typeExpr_takes
  refine (typeParams_takes (htype _) (Nat.le_refl _)).bind fun typeParams m zs _ _ => ?_
  refine heritage_takes.bind fun heritage m ws _ _ => ?_
  refine (members_takes (htype _) (Nat.le_refl _)).last fun members us _ => ?_
  exact hname.spelledIn.mono (by simp)

theorem aliasDecl_spells {s : Sequel} :
    Takes s (fun decl xs => SpelledIn xs decl.name.name) aliasDecl aliasDecl c := by
  unfold aliasDecl
  refine (expect_takes (by decide)).bind fun _ m xs _ _ => ident_takes.bind fun name m ys _ hname => ?_
  have htype : TypesBelow s m.size typeExpr typeExpr := fun _ _ => typeExpr_takes
  refine (typeParams_takes htype (Nat.le_refl _)).bind fun typeParams m zs _ _ => ?_
  refine (expect_takes (by decide)).bind fun _ m ws _ _ => typeExpr_takes.bind fun type m us _ _ => ?_
  refine (eat_takes (by decide)).discard.last fun _ vs _ => ?_
  exact hname.spelledIn.mono (by simp)

theorem enumDecl_spells {s : Sequel} (isConst : Bool) :
    Takes s (fun decl xs => SpelledIn xs decl.name.name) (enumDecl isConst) (enumDecl isConst) c := by
  rw [enumDecl_eq]
  refine (expect_takes (by decide)).bind fun _ m xs _ _ => ident_takes.bind fun name m ys _ hname => ?_
  refine (expect_takes (by decide)).bind fun _ m zs _ _ => ?_
  refine (repeatFrom_takes (I := Adds []) (fun members m _ _ h => enumStep_takes h) (adds_nil [])).last
    fun members ws _ => ?_
  exact hname.spelledIn.mono (by simp)

/-- From its place an action gives a declaration whose name, if it has one, is spelled there. -/
def Spells (A : Parse (Placement → Statement)) (c : Cursor) : Prop :=
  ∀ make d, A c = .ok make d → ∀ place, ∀ name ∈ (make place).declaredName?, SpelledIn c.rest name

theorem Takes.spells {α : Type} {A : Parse α} {named : α → String} {make : α → Placement → Statement}
    (h : Takes ⟨[], []⟩ (fun decl xs => SpelledIn xs (named decl)) A A c)
    (hmake : ∀ decl place, (make decl place).declaredName? = some (named decl)) :
    Spells (A >>= fun decl => Pure.pure (make decl)) c := by
  intro _ d hrun place name hname
  obtain ⟨decl, m, hdecl, hpure⟩ := bind_eq_ok_iff.1 hrun
  cases hpure
  obtain ⟨xs, htook⟩ := h.ok decl d hdecl
  obtain rfl : named decl = name := Option.some.inj ((hmake decl place).symm.trans hname)
  rw [htook.reads.rest]
  exact htook.related.mono (List.subset_append_left _ _)

/-- The name of a declaration is spelled where the declaration is read. -/
theorem declaration_spells (isConst : Bool) : Spells (declaration body isConst) c := by
  have hskipped : Spells declaration.skipped c := by
    intro make d hrun place name hname
    obtain ⟨_, m, -, hmake⟩ := bind_eq_ok_iff.1 hrun
    cases hmake
    cases hname
  have hnamespace : Spells (namespaceDecl body) c := by
    intro make d hrun place name hname
    obtain ⟨_, m, -, hrun⟩ := bind_eq_ok_iff.1 hrun
    obtain ⟨_, m, -, hrun⟩ := bind_eq_ok_iff.1 hrun
    obtain ⟨_, m, -, hrun⟩ := bind_eq_ok_iff.1 hrun
    obtain ⟨_, m, -, hmake⟩ := bind_eq_ok_iff.1 hrun
    cases hmake
    cases hname
  unfold declaration
  change Spells (if _ then declaration.skipped else _) c
  split
  · exact hskipped
  split
  · exact hnamespace
  · exact hnamespace
  · exact interfaceDecl_spells.spells fun _ _ => rfl
  · exact aliasDecl_spells.spells fun _ _ => rfl
  · exact (enumDecl_spells isConst).spells fun _ _ => rfl
  · exact hskipped

theorem statement_spells {statement : Statement} (hrun : statement? body c = .ok (some statement) d) :
    ∀ name ∈ statement.declaredName?, SpelledIn c.rest name := by
  by_cases hempty : c.kind = .semicolon
  · unfold statement? at hrun
    change (eat .semicolon >>= _) c = _ at hrun
    rw [bind_of_ok (eat_of_kind hempty)] at hrun
    cases hrun
  rw [statement_of_ne hempty] at hrun
  split at hrun
  · cases hrun
  obtain ⟨isConst, m, hmodifiers, hrun⟩ := bind_eq_ok_iff.1 hrun
  obtain ⟨make, m', hdeclaration, hrun⟩ := bind_eq_ok_iff.1 hrun
  cases hrun
  have htakes : Takes ⟨[], []⟩ (fun _ xs => AreKeywords xs) modifiers modifiers (c.expect [.semicolon]) :=
    modifiers_takes
  obtain ⟨xs, htook⟩ := htakes.ok isConst m hmodifiers
  have hrest : c.rest = xs ++ m.rest := htook.reads.rest
  intro name hname
  rw [hrest]
  exact (declaration_spells isConst make _ hdeclaration _ name hname).mono (List.subset_append_right _ _)

theorem ReadsInTurn.spells {closing : TokenKind} {statements : List Statement}
    (h : ReadsInTurn (statementsUntil .closeBrace) closing c statements d) :
    ∀ statement ∈ statements, ∀ name ∈ statement.declaredName?, SpelledIn c.rest name := by
  induction h with
  | done => nofun
  | @next c m d first statements _ _ hrun _ ih =>
    intro statement hmem name hname
    rcases List.mem_append.1 hmem with hmem | hmem
    · obtain rfl := Option.mem_toList.1 hmem
      exact statement_spells hrun name hname
    · obtain ⟨xs, htook⟩ := (statement_takes (s := ⟨[], []⟩) (fun _ _ => statementsUntil_takes .closeBrace)
        (Nat.le_refl _)).ok _ _ hrun
      have hrest : c.rest = xs ++ m.rest := htook.reads.rest
      rw [hrest]
      exact (ih statement hmem name hname).mono (List.subset_append_right _ _)

/-- In a text without errors the names that are declared are words of the text. -/
theorem mentions_declared (hclean : (Schema.parse text).errors = []) {statement : Statement}
    (hmem : statement ∈ (Schema.parse text).statements) : ∀ name ∈ statement.declaredName?,
      Mentions text name := by
  obtain ⟨d, hreads, -⟩ := parse_readsInTurn hclean
  exact fun name hname => (hreads.spells statement hmem name hname).mentions

/-- The first part of a name that occurs in a text is a word of it. -/
theorem mentions_head {name : EntityName}
    (hmem : name.outline ∈ Outline.allOf (outlines (Schema.parse text).statements)) :
    Mentions text name.first.name := by
  obtain ⟨ys, hys, -, hparts⟩ := (parse_within text).fits _ hmem
  obtain ⟨lexeme, hlexeme, hname, hsort⟩ := hparts name.first.outline List.mem_cons_self
  refine SpelledIn.mentions ⟨lexeme, hys hlexeme, hname, ?_⟩
  exact NodeSort.ident.inj hsort

/-- What a text without errors declares is at paths that begin with words of the text. -/
theorem mentions_fullPath (hclean : (Schema.parse text).errors = []) {occurrence : Occurrence}
    (hmem : occurrence ∈ occurrencesIn [] (Schema.parse text).statements) :
    KnownPath (Mentions text) occurrence.fullPath := by
  obtain ⟨statement, hstatement, hmem⟩ := mem_occurrencesIn.1 hmem
  intro head hhead
  cases hname : statement.declaredName? with
  | some name =>
    obtain rfl : name = head := Option.some.inj ((statement.head_fullPath hname hmem).symm.trans hhead)
    exact mentions_declared hclean hstatement name hname
  | none =>
    cases statement with
    | interfaceDecl | aliasDecl | enumDecl => cases hname
    | skipped => cases hmem
    | namespaceDecl place name body =>
      obtain rfl : name.first.name = head :=
        Option.some.inj ((head_fullPath_namespaceDecl hmem).symm.trans hhead)
      refine mentions_head (outlines_subset hstatement ?_)
      exact List.mem_cons_of_mem _ (List.mem_append_left _ List.mem_cons_self)

end Words

section Slices

namespace Text

theorem takeBytes_append {xs : List Char} {n : Nat} (h : n ≤ byteLength xs) (ys : List Char) :
    takeBytes n (xs ++ ys) = takeBytes n xs := by
  induction xs generalizing n with
  | nil =>
    obtain rfl := Nat.le_zero.1 h
    cases ys <;> rfl
  | cons c cs ih =>
    rw [byteLength] at h
    rw [List.cons_append, takeBytes, takeBytes, ih (by omega)]

/-- What a span cuts out of a text stays the same where the text goes on. -/
theorem slice_append {text : List Char} {span : Span} (hstart : IsBoundary text span.start)
    (hstop : span.stop ≤ byteLength text) (more : List Char) :
    slice (text ++ more) span = slice text span := by
  obtain ⟨before, after, rfl, hbefore⟩ := hstart
  rw [byteLength_append] at hstop
  rw [slice, slice, ← hbefore, List.append_assoc, dropBytes_byteLength_append,
    dropBytes_byteLength_append, takeBytes_append (by omega)]

theorem dropBytes_append (xs ys : List Char) (n : Nat) :
    dropBytes (n + byteLength xs) (xs ++ ys) = dropBytes n ys := by
  induction xs with
  | nil => rfl
  | cons c cs ih =>
    have hc := Char.utf8Size_pos c
    rw [byteLength, List.cons_append, dropBytes, if_neg (by omega),
      show n + (c.utf8Size + byteLength cs) - c.utf8Size = n + byteLength cs by omega, ih]

/-- What a span cuts out of a text is cut out where the text is moved to. -/
theorem slice_shift (before text : List Char) (span : Span) :
    slice (before ++ text) (relocate (.shift (byteLength before)) span) = slice text span := by
  change takeBytes (span.stop + _ - (span.start + _)) (dropBytes (span.start + _) _) = _
  rw [Nat.add_sub_add_right, dropBytes_append, slice]

end Text

variable {text : List Char} {node : Outline}
  (hmem : node ∈ Outline.allOf (outlines (Schema.parse text).statements)) (more : List Char)
include hmem

theorem slice_node_append : slice (text ++ more) node.span = slice text node.span := by
  obtain ⟨-, ⟨first, hfirst, -, hstart⟩, ⟨last, hlast, -, hstop⟩, -⟩ := (spans_form_tree text).1 node hmem
  refine slice_append ?_ ?_ more
  · rw [hstart]
    exact (Token.isBoundary_span hfirst).1
  · rw [hstop]
    exact (Token.isBoundary_span hlast).2.le_byteLength

theorem slice_comment_append {comments : List Span} (hcomments : node.sort.comments? = some comments) :
    ∀ span ∈ comments, slice (text ++ more) span = slice text span := by
  obtain ⟨lexeme, hlexeme, -, rfl⟩ := (parse_within text).led_by node hmem comments hcomments
  intro span hspan
  have htokens := (comments_sublist_tokens text).subset (List.mem_flatMap.2 ⟨lexeme, hlexeme, hspan⟩)
  obtain ⟨token, htoken, rfl⟩ := List.mem_map.1 htokens
  exact slice_append (Token.isBoundary_span htoken).1 (Token.isBoundary_span htoken).2.le_byteLength more

end Slices

end NodeFactory
