import NodeFactory.Proofs.StatementRuns
import NodeFactory.Proofs.TokenSpellings
import NodeFactory.Proofs.TypeOrigins

/-!
# The spans of a schema

Whatever the errors, the spans of a schema form a tree: a node covers some of the text, from where a token
begins to where one ends, its parts lie within it, and nodes of one list come one after the other. Where
no error is reported, no token is lost: each lies in the span of one statement, or is a semicolon read in
place of a statement.
-/

namespace NodeFactory

open Parse Text

/-- After the last lexeme of a text the end of it is next, and nowhere else. -/
theorem Cursor.rest_of_endOfFile {text : List Char} {c : Cursor} {xs : List Lexeme}
    (hrest : lexemesOf text = xs ++ c.rest) (h : c.kind = .endOfFile) : c.rest = [] := by
  cases hc : c.rest with
  | nil => rfl
  | cons lexeme lexemes =>
    rw [Cursor.kind_of_cons hc] at h
    refine absurd h (Token.kind_ne_endOfFile ((Lexeme.token_mem ?_ : lexeme.token ∈ Token.tokenize text)))
    rw [hrest, hc]
    exact List.mem_append_right _ List.mem_cons_self

section Covering

variable {span : Span} {nodes : List Outline} {first : Lexeme} {rest xs ys : List Lexeme}

/-- A span reaches from where the first of some lexemes begins to where the last of them ends. -/
structure Covers (span : Span) (lexemes : List Lexeme) : Prop where
  starts : ∃ first ∈ lexemes, span.start = first.span.start
  stops : ∃ last ∈ lexemes.getLast?, span.stop = last.span.stop
  contains : ∀ lexeme ∈ lexemes, span.start ≤ lexeme.span.start ∧ lexeme.span.stop ≤ span.stop

theorem Covers.nonempty (h : Covers span xs) (horder : InOrder (xs.map Lexeme.span)) :
    span.start < span.stop := by
  obtain ⟨first, hfirst, hstart⟩ := h.starts
  have hlt := horder.nonempty _ (List.mem_map_of_mem hfirst)
  have hcontains := h.contains first hfirst
  omega

theorem Lexeme.spanTo_stop {last : Lexeme} (h : last ∈ (first :: rest).getLast?) :
    (first.spanTo rest).stop = max last.span.stop first.span.start := by
  rcases List.eq_nil_or_concat rest with rfl | ⟨init, other, rfl⟩
  · cases h
    rfl
  · rw [List.concat_eq_append, ← List.cons_append, List.getLast?_concat] at h
    cases h
    rw [List.concat_eq_append]
    show max (List.foldl _ _ (init ++ [last])) _ = _
    rw [List.foldl_append]
    rfl

theorem covers_spanTo (horder : InOrder ((first :: rest).map Lexeme.span)) :
    Covers (first.spanTo rest) (first :: rest) := by
  obtain ⟨last, hlast⟩ := Option.isSome_iff_exists.1
    (List.getLast?_isSome.2 (List.cons_ne_nil first rest))
  obtain ⟨init, hinit⟩ := List.getLast?_eq_some_iff.1 hlast
  have hstart : ∀ lexeme ∈ first :: rest, first.span.start ≤ lexeme.span.start :=
    fun lexeme hmem => horder.start_le _ (List.mem_map_of_mem hmem)
  have hle : ∀ lexeme ∈ first :: rest, lexeme.span.stop ≤ last.span.stop := by
    intro lexeme hmem
    rw [hinit] at hmem
    rw [hinit, List.map_append] at horder
    exact horder.stop_le _ (by simpa using List.mem_map_of_mem (f := Lexeme.span) hmem)
  have hstop : (first.spanTo rest).stop = last.span.stop := by
    have hlt := horder.nonempty _ (List.mem_map_of_mem List.mem_cons_self)
    have hle := hle first List.mem_cons_self
    rw [Lexeme.spanTo_stop hlast]
    omega
  exact ⟨⟨first, List.mem_cons_self, rfl⟩, ⟨last, hlast, hstop⟩,
    fun lexeme hmem => ⟨hstart lexeme hmem, hstop ▸ hle lexeme hmem⟩⟩

theorem Fills.covers {node : Outline} (h : Fills node xs) (horder : InOrder (xs.map Lexeme.span)) :
    Covers node.span xs := by
  cases h <;> exact covers_spanTo horder

/-- Nodes that lie within lexemes begin and end where some of these do. -/
theorem Within.covers (h : Within nodes xs) (horder : InOrder (xs.map Lexeme.span)) :
    ∀ node ∈ nodes, ∃ ys, ys ⊆ xs ∧ InOrder (ys.map Lexeme.span) ∧ Covers node.span ys := by
  induction h with
  | nil => nofun
  | skip _ ih =>
    intro node hmem
    obtain ⟨ys, hys, hcovers⟩ := ih (horder.sublist (by simp)) node hmem
    exact ⟨ys, fun lexeme h => List.mem_cons_of_mem _ (hys h), hcovers⟩
  | plain _ _ _ _ _ ih | led _ _ _ _ _ _ _ ih =>
    intro node hmem
    rw [List.map_append] at horder
    rcases List.mem_cons.1 hmem with rfl | hmem
    · exact ⟨_, List.subset_append_left _ _, horder.left, covers_spanTo horder.left⟩
    · obtain ⟨ys, hys, hcovers⟩ := ih horder.right node hmem
      exact ⟨ys, fun lexeme h => List.mem_append_right _ (hys h), hcovers⟩

/-- Nodes that lie within lexemes come one after the other. -/
theorem Within.inOrder (h : Within nodes xs) (horder : InOrder (xs.map Lexeme.span)) :
    InOrder (nodes.map Outline.span) := by
  refine ⟨fun span hmem => ?_, List.pairwise_map.2 ?_⟩
  · obtain ⟨node, hnode, rfl⟩ := List.mem_map.1 hmem
    obtain ⟨ys, -, hys, hcovers⟩ := h.covers horder node hnode
    exact hcovers.nonempty hys
  · induction h with
    | nil => exact .nil
    | skip _ ih => exact ih (horder.sublist (by simp))
    | plain _ _ _ hothers _ ih | led _ _ _ _ hothers _ _ ih =>
      rw [List.map_append] at horder
      refine List.pairwise_cons.2 ⟨fun later hmem => ?_, ih horder.right⟩
      obtain ⟨last, hlast, hstop⟩ := (covers_spanTo horder.left).stops
      obtain ⟨ys, hys, -, hcovers⟩ := hothers.covers horder.right later hmem
      obtain ⟨first, hfirst, hstart⟩ := hcovers.starts
      show (Lexeme.spanTo _ _).stop ≤ later.span.start
      rw [hstop, hstart]
      exact horder.across (List.mem_map_of_mem (List.mem_of_getLast? hlast))
        (List.mem_map_of_mem (hys hfirst))

end Covering

section Trees

/-- A node covers some of the text, from where a token begins to where one ends, and the nodes that it
is made of lie within it, one after the other. -/
structure Outline.IsPlaced (tokens : List Token) (node : Outline) : Prop where
  nonempty : node.span.start < node.span.stop
  starts : ∃ token ∈ tokens, token.IsLexical ∧ node.span.start = token.span.start
  stops : ∃ token ∈ tokens, token.IsLexical ∧ node.span.stop = token.span.stop
  inside : ∀ part ∈ node.parts, node.span.start ≤ part.span.start ∧ part.span.stop ≤ node.span.stop
  ordered : node.parts.Pairwise fun earlier later => earlier.span.stop ≤ later.span.start

variable {tokens : List Token} {nodes : List Outline} {xs : List Lexeme}

theorem Fills.isPlaced {node : Outline} (h : Fills node xs) (hparts : Within node.parts xs)
    (horder : InOrder (xs.map Lexeme.span))
    (hlexical : ∀ lexeme ∈ xs, lexeme.token ∈ tokens ∧ lexeme.token.IsLexical) :
    node.IsPlaced tokens := by
  have hcovers := h.covers horder
  obtain ⟨first, hfirst, hstart⟩ := hcovers.starts
  obtain ⟨last, hlast, hstop⟩ := hcovers.stops
  have hlast := hlexical last (List.mem_of_getLast? hlast)
  refine ⟨hcovers.nonempty horder,
    ⟨first.token, (hlexical first hfirst).1, (hlexical first hfirst).2, hstart⟩,
    ⟨last.token, hlast.1, hlast.2, hstop⟩, fun part hmem => ?_,
    List.pairwise_map.1 (hparts.inOrder horder).ordered⟩
  obtain ⟨ys, hys, -, hpart⟩ := hparts.covers horder part hmem
  obtain ⟨first, hfirst, hstart⟩ := hpart.starts
  obtain ⟨last, hlast, hstop⟩ := hpart.stops
  have hle := (hcovers.contains first (hys hfirst)).1
  have hle' := (hcovers.contains last (hys (List.mem_of_getLast? hlast))).2
  omega

theorem Within.allPlaced (h : Within nodes xs) (horder : InOrder (xs.map Lexeme.span))
    (hlexical : ∀ lexeme ∈ xs, lexeme.token ∈ tokens ∧ lexeme.token.IsLexical) :
    ∀ node ∈ Outline.allOf nodes, node.IsPlaced tokens := by
  induction h with
  | nil => nofun
  | skip _ ih =>
    exact ih (horder.sublist (by simp)) fun lexeme hmem => hlexical lexeme (List.mem_cons_of_mem _ hmem)
  | plain hsort hfits hparts _ ih ih' =>
    intro node hmem
    rw [List.map_append] at horder
    obtain ⟨hlexical, hlexical'⟩ := List.forall_mem_append.1 hlexical
    rw [Outline.allOf, Outline.all, List.cons_append] at hmem
    rcases List.mem_cons.1 hmem with rfl | hmem
    · exact (Fills.plain hsort hfits hparts).isPlaced hparts horder.left hlexical
    rcases List.mem_append.1 hmem with hmem | hmem
    · exact ih horder.left hlexical node hmem
    · exact ih' horder.right hlexical' node hmem
  | led hcomments hname hfirst hparts _ ih ih' ih'' =>
    intro node hmem
    rw [List.map_append] at horder
    obtain ⟨hlexical, hlexical'⟩ := List.forall_mem_append.1 hlexical
    rw [Outline.allOf, Outline.all, List.cons_append, Outline.allOf_append] at hmem
    rcases List.mem_cons.1 hmem with rfl | hmem
    · exact (Fills.led hcomments hname hfirst hparts).isPlaced (hfirst.append hparts) horder.left
        hlexical
    rcases List.mem_append.1 hmem with hmem | hmem
    · rcases List.mem_append.1 hmem with hmem | hmem
      · exact ih (horder.left.sublist (by simp)) (fun lexeme hmem => hlexical lexeme (by simp_all)) node hmem
      · exact ih' (horder.left.sublist (by simp))
          (fun lexeme hmem => hlexical lexeme (List.mem_cons_of_mem _ hmem)) node hmem
    · exact ih'' horder.right hlexical' node hmem

end Trees

section Coverage

/-- A token lies in the span of a node. -/
def Outline.Encloses (node : Outline) (token : Token) : Prop :=
  node.span.start ≤ token.span.start ∧ token.span.stop ≤ node.span.stop

instance (node : Outline) (token : Token) : Decidable (node.Encloses token) :=
  inferInstanceAs (Decidable (_ ∧ _))

variable {alone : Lexeme → Prop} {nodes : List Outline} {xs ys : List Lexeme} {lexeme : Lexeme}

/-- No node encloses a lexeme before those within which it lies. -/
theorem Within.countP_eq_zero (h : Within nodes ys) (horder : InOrder ((xs ++ ys).map Lexeme.span))
    (hmem : lexeme ∈ xs) : nodes.countP (fun node => node.Encloses lexeme.token) = 0 := by
  rw [List.map_append] at horder
  refine List.countP_eq_zero.2 fun node hnode => ?_
  obtain ⟨zs, hzs, -, hcovers⟩ := h.covers horder.right node hnode
  obtain ⟨first, hfirst, hstart⟩ := hcovers.starts
  have hlt := horder.left.nonempty _ (List.mem_map_of_mem hmem)
  have hle := horder.across (List.mem_map_of_mem hmem) (List.mem_map_of_mem (hzs hfirst))
  rw [decide_eq_true_iff]
  intro hencloses
  have hstart' : node.span.start ≤ lexeme.span.start := hencloses.1
  omega

/-- The last lexeme stands alone, or the last node ends with it. -/
theorem Tiles.last (h : Tiles alone nodes xs) (horder : InOrder (xs.map Lexeme.span)) :
    ∀ lexeme ∈ xs.getLast?, alone lexeme ∨ ∃ node ∈ nodes.getLast?, node.span.stop = lexeme.span.stop := by
  induction h with
  | nil => nofun
  | @alone first nodes lexemes halone htiles ih =>
    intro lexeme hmem
    cases lexemes with
    | nil =>
      cases hmem
      exact .inl halone
    | cons second lexemes =>
      rw [List.getLast?_cons_cons] at hmem
      exact ih (horder.sublist (by simp)) lexeme hmem
  | @node node nodes lexemes lexemes' hfills htiles ih =>
    intro lexeme hmem
    rw [List.map_append] at horder
    cases lexemes' with
    | nil =>
      -- A node covers lexemes, so none is written behind the last of them.
      obtain rfl : nodes = [] := by
        refine List.eq_nil_iff_forall_not_mem.2 fun other hother => ?_
        obtain ⟨ys, hys, -, hcovers⟩ := htiles.within.covers horder.right other hother
        obtain ⟨first, hfirst, -⟩ := hcovers.starts
        exact List.not_mem_nil (hys hfirst)
      obtain ⟨last, hlast, hstop⟩ := (hfills.covers horder.left).stops
      rw [List.append_nil, Option.mem_def.1 hlast] at hmem
      cases hmem
      exact .inr ⟨node, rfl, hstop⟩
    | cons second lexemes' =>
      rw [List.getLast?_append, List.getLast?_cons] at hmem
      rcases ih horder.right lexeme (by rwa [List.getLast?_cons]) with halone | ⟨other, hother, hstop⟩
      · exact .inl halone
      · refine .inr ⟨other, ?_, hstop⟩
        rw [List.getLast?_cons, Option.mem_def.1 hother]
        rfl

/-- One node encloses a lexeme, unless it stands alone. -/
theorem Tiles.countP_eq (h : Tiles alone nodes xs) (horder : InOrder (xs.map Lexeme.span)) :
    ∀ lexeme ∈ xs, nodes.countP (fun node => node.Encloses lexeme.token) = 1
      ∨ nodes.countP (fun node => node.Encloses lexeme.token) = 0 ∧ alone lexeme := by
  induction h with
  | nil => nofun
  | @alone first nodes lexemes halone htiles ih =>
    intro lexeme hmem
    rcases List.mem_cons.1 hmem with rfl | hmem
    · exact .inr ⟨htiles.within.countP_eq_zero horder (List.mem_singleton_self _), halone⟩
    · exact ih (horder.sublist (by simp)) lexeme hmem
  | @node node nodes lexemes lexemes' hfills htiles ih =>
    intro lexeme hmem
    have horder' := horder
    rw [List.map_append] at horder'
    have hcovers := hfills.covers horder'.left
    rcases List.mem_append.1 hmem with hmem | hmem
    · have hencloses : node.Encloses lexeme.token := hcovers.contains lexeme hmem
      left
      rw [List.countP_cons_of_pos (by simp [hencloses]), htiles.within.countP_eq_zero horder hmem]
    · have hnot : ¬ node.Encloses lexeme.token := by
        intro hencloses
        obtain ⟨last, hlast, hstop⟩ := hcovers.stops
        have hlt := horder'.right.nonempty _ (List.mem_map_of_mem hmem)
        have hle := horder'.across (List.mem_map_of_mem (List.mem_of_getLast? hlast))
          (List.mem_map_of_mem hmem)
        have hstop' : lexeme.span.stop ≤ node.span.stop := hencloses.2
        omega
      rw [List.countP_cons_of_neg (by simp [hnot])]
      exact ih horder'.right lexeme hmem

end Coverage

section Schemas

theorem parse_within (text : List Char) :
    Within (outlines (Schema.parse text).statements) (lexemesOf text) := by
  have htakes := statementsUntil_takes (s := ⟨[], []⟩) .endOfFile
    (c := Cursor.ofTokens (Token.tokenize text))
  unfold Schema.parse
  cases hrun : statementsUntil .endOfFile (Cursor.ofTokens (Token.tokenize text)) with
  | ok statements d =>
    obtain ⟨xs, htook⟩ := htakes.ok statements d hrun
    have hrest : lexemesOf text = xs ++ d.rest := htook.reads.rest
    rw [hrest]
    exact htook.related.before d.rest
  | error error d => exact .none _

/-- Where no error is reported, the statements of a text are read in turn, to its end. -/
theorem parse_readsInTurn {text : List Char} (h : (Schema.parse text).errors = []) : ∃ d,
    ReadsInTurn (statementsUntil .closeBrace) .endOfFile (Cursor.ofTokens (Token.tokenize text))
      (Schema.parse text).statements d ∧ d.rest = [] ∧ d.errors = [] := by
  obtain ⟨d, hrun, hclean⟩ := statementsUntil_of_errors h
  rw [statementsUntil_eq] at hrun
  have hbody : StatementsBelow ⟨[], []⟩ (Cursor.ofTokens (Token.tokenize text)).size
      (statementsUntil .closeBrace) (statementsUntil .closeBrace) := fun _ _ => statementsUntil_takes _
  obtain ⟨statements, m, hstatements, hreads, hend, rfl⟩ :=
    readsInTurn_of_clean hbody (Nat.le_refl _) hrun hclean
  obtain ⟨xs, hxs, -⟩ := hreads.tiles hbody (Nat.le_refl _)
  have hrest : lexemesOf text = xs ++ m.rest := hxs.rest
  rw [hstatements, List.nil_append]
  exact ⟨m, hreads, Cursor.rest_of_endOfFile hrest hend, m.errors_next ▸ hclean⟩

/-- The lexemes of such a text are those of its statements and the empty statements. -/
theorem parse_tiles {text : List Char} (h : (Schema.parse text).errors = []) :
    Tiles (IsEmptyStatement (statementsUntil .closeBrace) .endOfFile
      (Cursor.ofTokens (Token.tokenize text))) (outlines (Schema.parse text).statements)
        (lexemesOf text) := by
  obtain ⟨d, hreads, hend, -⟩ := parse_readsInTurn h
  obtain ⟨xs, hxs, htiles⟩ := hreads.tiles (fun _ _ => statementsUntil_takes _) (Nat.le_refl _)
  have hrest : lexemesOf text = xs ++ d.rest := hxs.rest
  rw [hrest, hend, List.append_nil]
  exact htiles

/-- The spans of a schema form a tree, and where no error is reported each token that is not trivia lies
in the span of one statement or is an empty one. -/
theorem spans_form_tree (text : List Char) :
    (∀ node ∈ Outline.allOf (outlines (Schema.parse text).statements),
      node.IsPlaced (Token.tokenize text))
    ∧ (outlines (Schema.parse text).statements).Pairwise
      (fun earlier later => earlier.span.stop ≤ later.span.start)
    ∧ ((Schema.parse text).errors = [] →
      ∀ token ∈ Token.tokenize text, token.kind.isTrivia = false →
        (outlines (Schema.parse text).statements).countP (fun node => node.Encloses token) = 1
        ∨ (outlines (Schema.parse text).statements).countP (fun node => node.Encloses token) = 0
          ∧ ∃ lexeme, lexeme.token = token ∧ IsEmptyStatement (statementsUntil .closeBrace) .endOfFile
            (Cursor.ofTokens (Token.tokenize text)) lexeme) := by
  have hwithin := parse_within text
  have horder := lexemes_inOrder text
  refine ⟨hwithin.allPlaced horder fun lexeme hmem => ⟨lexeme.token_mem hmem, lexeme.isLexical_of_mem hmem⟩,
    List.pairwise_map.1 (hwithin.inOrder horder).ordered, fun hclean token hmem htrivia => ?_⟩
  have hlexical : token.IsLexical := ⟨htrivia, hasNoMalformed_of_errors hclean token hmem⟩
  obtain ⟨lexeme, hlexeme, rfl⟩ := Lexeme.exists_of_isLexical hlexical hmem
  rcases (parse_tiles hclean).countP_eq horder lexeme hlexeme with hone | ⟨hzero, halone⟩
  · exact .inl hone
  · exact .inr ⟨hzero, lexeme, rfl, halone⟩

end Schemas

end NodeFactory
