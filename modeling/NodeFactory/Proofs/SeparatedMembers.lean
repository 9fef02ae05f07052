import NodeFactory.Proofs.ForkedTypes
import NodeFactory.Proofs.IndexMembers
import NodeFactory.Proofs.InsertedMembers
import NodeFactory.Proofs.LexemeOrder
import NodeFactory.Proofs.ReadingOn

/-!
# Members are separated otherwise

In the body of an interface or of a type literal each member ends with a type and a semicolon (`TypedInTurn`). In
another body there are commas or line breaks in place of some of these semicolons, but no line break where the
lexeme behind it would be read on (`Reseparated`). Each such semicolon is a fork: the lexemes before it are the same,
and the member before it is read alike (`typedShape_reseparated`). A separator may be missing, so the next member
begins behind the comma or at once (`behindSeparator_reseparated`). By induction over the members, both bodies have
the same ones (`members_reseparated`).
-/

namespace NodeFactory

open Parse Text

section Typed

variable {type type' : Parse TypeExpr} {c d : Cursor}

/-- A member with the type that it ends with. -/
def typedShape (type : Parse TypeExpr) : Parse (MemberShape × Option TypeExpr) := do
  if ← isAt .openBracket then Prod.mk .index <$> bracketMember type
  else (fun shape => (shape, shape.type?)) <$> memberShape type

theorem memberShape_eq_map (type : Parse TypeExpr) (c : Cursor) :
    memberShape type c = (Prod.fst <$> typedShape type) c := by
  have htyped : (Prod.fst <$> typedShape type) c = (Prod.fst <$> if (c.kind == .openBracket) = true
      then Prod.mk .index <$> bracketMember type
      else (fun shape => (shape, shape.type?)) <$> memberShape type : Parse MemberShape) c := rfl
  rw [htyped]
  by_cases hkind : c.kind = .openBracket
  · rw [if_pos (beq_iff_eq.2 hkind), memberShape_of_bracket hkind, indexMember_eq_map, Functor.map_map]
  · rw [if_neg (by simpa using hkind), Functor.map_map, id_map']

theorem memberShape_of_typedShape {shape : MemberShape} {end? : Option TypeExpr}
    (h : typedShape type c = .ok (shape, end?) d) : memberShape type c = .ok shape d := by
  rw [memberShape_eq_map]
  exact map_eq_ok_iff.2 ⟨_, h, rfl⟩

section Persisting

variable {fork : Fork} (htype : ∀ c, Persists fork (anywhere 1) type type' c)
include htype

theorem typedShape_persists (c : Cursor) :
    Persists fork (Reading.typed 1 2 Prod.snd) (typedShape type) (typedShape type') c := by
  unfold typedShape
  refine .isAt (.inr (Reading.typed_precedes (by decide) (by decide))) (.ite (fun _ => ?_) fun _ => ?_)
  · refine .map ((bracketMember_persists htype c).mono ?_ ?_)
    · rintro (_ | _)
      · exact Nat.le_refl 1
      · exact Nat.le_succ 2
    · rintro (_ | _) <;> exact Nat.le_refl _
  · exact .map (memberShape_persists htype c)

end Persisting

section Layout

variable {m m' : Relocation} {b : Bool}

theorem relocate_returns (m : Relocation) (signature : Signature) :
    (relocate m signature).returns = relocate m signature.returns := by
  obtain ⟨typeParams, params, returns⟩ := signature
  rw [relocate_signature]

theorem relocate_type? (m : Relocation) (shape : MemberShape) :
    (relocate m shape).type? = relocate m shape.type? := by
  cases shape with
  | property name optional readonly type =>
    rw [relocate_property]
    rfl
  | method name optional signature => exact relocate_returns m signature
  | call signature => exact relocate_returns m signature
  | construct signature => exact relocate_returns m signature
  | index => rfl

/-- Two members are the same, and so are the types that they end with. -/
def SameTyped (m m' : Relocation) (typed typed' : MemberShape × Option TypeExpr) : Prop :=
  Same m m' typed.1 typed'.1 ∧ Same m m' typed.2 typed'.2

variable (htype : Respects m m' true true (Same m m') type type')
include htype

theorem bracketMember_respects :
    Respects m m' b true (Same m m') (bracketMember type) (bracketMember type') := by
  unfold bracketMember
  refine (skipGroup_respects _).seq fun _ _ _ => .isAt fun _ => .isAt fun _ => .ite (fun _ => ?_) fun _ => ?_
  · refine (signature_respects htype).bind fun signature signature' hsignature => .pure ?_
    unfold Same at *
    rw [← relocate_returns, hsignature, relocate_returns]
  · refine .isAt fun _ => .isAt fun _ => .when (fun _ => next_respects) ?_
    refine (eat_respects _).discard.bind fun _ _ _ => .eaten fun _ => .ite (fun _ => ?_) fun _ => .pure .none
    exact htype.map fun _ _ => Same.some

theorem typedShape_respects :
    Respects m m' true true (SameTyped m m') (typedShape type) (typedShape type') := by
  unfold typedShape
  refine .isAt fun _ => .ite (fun _ => ?_) fun _ => ?_
  · exact (bracketMember_respects htype).map fun _ _ hend => ⟨rfl, hend⟩
  · refine (memberShape_respects htype).map fun shape shape' hshape => ⟨hshape, ?_⟩
    unfold Same at *
    rw [← relocate_type?, hshape, relocate_type?]

end Layout

theorem typedShape_of_bracket (h : c.kind = .openBracket) :
    typedShape type c = (Prod.mk .index <$> bracketMember type) c := by
  have htyped : typedShape type c = (if (c.kind == .openBracket) = true
      then Prod.mk .index <$> bracketMember type
      else (fun shape => (shape, shape.type?)) <$> memberShape type :
        Parse (MemberShape × Option TypeExpr)) c := rfl
  rw [htyped, if_pos (beq_iff_eq.2 h)]

/-- The gap before a member does not count. -/
theorem typedShape_alike {c' : Cursor} (h : Alike .erasing .erasing false c c') :
    Related .erasing .erasing false true (SameTyped .erasing .erasing) (typedShape typeExpr c)
      (typedShape typeExpr c') := by
  by_cases hkind : c.kind = .openBracket
  · rw [typedShape_of_bracket hkind, typedShape_of_bracket (h.kind ▸ hkind)]
    have hbracket : Respects .erasing .erasing false true (Same .erasing .erasing) (bracketMember typeExpr)
      (bracketMember typeExpr) := bracketMember_respects typeExpr_respects
    exact (hbracket.map fun _ _ hend => ⟨rfl, hend⟩) c c' h
  · obtain ⟨d, hd, rfl | ⟨hkind', -⟩⟩ := h.aligned
    · exact (typedShape_respects typeExpr_respects c d hd).after nofun
    · exact absurd (h.kind.trans hkind') hkind

end Typed

section Beginnings

variable {type : Parse TypeExpr} {c d : Cursor}

/-- What a member may begin with. -/
def TokenKind.beginsMember : TokenKind → Bool
  | .keyword _ | .identifier | .string | .number | .openBracket | .openParen | .less => true
  | _ => false

theorem TokenKind.beginsMember_of_isName {kind : TokenKind} (h : kind.isName = true) :
    kind.beginsMember = true := by
  cases kind <;> first | rfl | cases h

theorem TokenKind.ne_of_beginsMember {kind : TokenKind} (h : kind.beginsMember = true) :
    kind ≠ .semicolon ∧ kind ≠ .closeBrace ∧ kind ≠ .endOfFile := by
  refine ⟨?_, ?_, ?_⟩ <;> rintro rfl <;> cases h

theorem propertyName_begins {name : Ident} (h : propertyName c = .ok name d) : c.kind.beginsMember = true := by
  have hident : ident c = .ok name d → c.kind.beginsMember = true := fun hident => by
    obtain ⟨lexeme, hrest, hname⟩ := ident_reads_name hident
    rw [Cursor.kind_of_cons hrest]
    exact TokenKind.beginsMember_of_isName hname
  unfold propertyName at h
  rw [bind_of_ok (rfl : cursor c = .ok c c)] at h
  cases hpeek : c.peek? 0 with
  | none =>
    rw [hpeek] at h
    exact hident h
  | some lexeme =>
    rw [hpeek] at h
    rw [Cursor.kind_of_peek? hpeek] at hident ⊢
    dsimp only at h
    cases hkind : lexeme.kind <;> rw [hkind] at h hident <;> first | rfl | exact hident h

theorem memberShape_begins {shape : MemberShape} (h : memberShape type c = .ok shape d) :
    c.kind.beginsMember = true := by
  have hnamed : namedMember type c = .ok shape d → c.kind.beginsMember = true := fun hnamed => by
    rw [namedMember_eq, bind_of_ok (rfl : cursor c = .ok c c)] at hnamed
    dsimp only at hnamed
    split at hnamed
    · rename_i hreadonly
      simp only [Bool.and_eq_true, beq_iff_eq] at hreadonly
      rw [hreadonly.1]
      rfl
    · obtain ⟨name, m, hname, -⟩ := bind_eq_ok_iff.1 hnamed
      exact propertyName_begins hname
  unfold memberShape at h
  rw [bind_of_ok (rfl : cursor c = .ok c c)] at h
  cases hkind : c.kind <;> rw [hkind] at h hnamed <;> first | rfl | exact hnamed h

end Beginnings

section Separators

variable {ends : Lexeme → Prop} {broken : Bool} {before : TokenKind} {first semicolon : Lexeme}
  {xs xs' ys behind zs' rest : List Lexeme}

/-- The same lexeme to the grammar, but for where it is and for the comments before it, and perhaps behind one
line break more. -/
structure Lexeme.Repeats (broken : Bool) (lexeme lexeme' : Lexeme) : Prop where
  kind : lexeme'.kind = lexeme.kind
  text : lexeme'.text = lexeme.text
  startsLine : lexeme'.startsLine = (broken || lexeme.startsLine)
  isGlued : lexeme'.isGlued = (!broken && lexeme.isGlued)

/-- Behind a lexeme of a kind, two texts have the same lexemes, but that there are commas or line breaks in place of
some semicolons that end members. There is no line break where the lexeme behind the semicolon would be read on
without it. -/
inductive Reseparated (ends : Lexeme → Prop) : Bool → TokenKind → List Lexeme → List Lexeme → Prop
  | nil {broken : Bool} {before : TokenKind} : Reseparated ends broken before [] []
  | same {broken : Bool} {before : TokenKind} {first first' : Lexeme} {rest rest' : List Lexeme} :
      first.Repeats broken first' → (broken = true → ¬ before.GoesOn first) →
        Reseparated ends false first.kind rest rest' →
          Reseparated ends broken before (first :: rest) (first' :: rest')
  | comma {broken : Bool} {before : TokenKind} {semicolon comma : Lexeme} {rest rest' : List Lexeme} :
      semicolon.kind = .semicolon → ends semicolon → comma.kind = .comma →
        Reseparated ends false .semicolon rest rest' →
          Reseparated ends broken before (semicolon :: rest) (comma :: rest')
  | lineBreak {broken : Bool} {before : TokenKind} {semicolon : Lexeme} {rest rest' : List Lexeme} :
      semicolon.kind = .semicolon → ends semicolon → Reseparated ends true before rest rest' →
        Reseparated ends broken before (semicolon :: rest) rest'

/-- A lexeme that is no semicolon is not replaced. -/
theorem Reseparated.head_same (h : Reseparated ends broken before (first :: rest) zs')
    (hfirst : first.kind ≠ .semicolon) :
    ∃ first' rest', zs' = first' :: rest' ∧ first.Repeats broken first' ∧ (broken = true → ¬ before.GoesOn first)
      ∧ Reseparated ends false first.kind rest rest' := by
  cases h with
  | same hsame hgoes hrest => exact ⟨_, _, rfl, hsame, hgoes, hrest⟩
  | comma hkind => exact absurd hkind hfirst
  | lineBreak hkind => exact absurd hkind hfirst

/-- Up to the first semicolon that ends a member the lexemes are the same. -/
theorem Reseparated.split : ∀ {xs : List Lexeme} {before : TokenKind} {zs' : List Lexeme},
    Reseparated ends false before (xs ++ ys) zs' → (∀ lexeme ∈ xs, ¬ ends lexeme) →
      ∃ xs' ys', zs' = xs' ++ ys' ∧ List.Forall₂ (Lexeme.Repeats false) xs xs'
        ∧ Reseparated ends false ((xs.map Lexeme.kind).getLastD before) ys ys'
  | [], _, zs', h, _ => ⟨[], zs', rfl, .nil, h⟩
  | first :: xs, _, _, h, hinside => by
    obtain ⟨hfirst, hinside⟩ := List.forall_mem_cons.1 hinside
    rw [List.cons_append] at h
    generalize hrest : xs ++ ys = rest at h
    cases h with
    | @same _ _ _ first' _ rest' hsame _ hrest' =>
      subst hrest
      obtain ⟨xs', ys', rfl, hxs, hys⟩ := hrest'.split hinside
      refine ⟨first' :: xs', ys', rfl, .cons hsame hxs, ?_⟩
      rwa [List.map_cons, List.getLastD_cons]
    | comma _ hends => exact absurd hends hfirst
    | lineBreak _ hends => exact absurd hends hfirst

theorem Reseparated.same_of_not_ends (h : Reseparated ends false before xs xs')
    (hinside : ∀ lexeme ∈ xs, ¬ ends lexeme) : List.Forall₂ (Lexeme.Repeats false) xs xs' := by
  rw [← List.append_nil xs] at h
  obtain ⟨ys, zs, rfl, hys, hzs⟩ := h.split hinside
  cases hzs
  rwa [List.append_nil]

theorem TokenKind.GoesOn.congr {first' : Lexeme} (h : before.GoesOn first') (hkind : first'.kind = first.kind)
    (htext : first'.text = first.text) : before.GoesOn first := by
  unfold GoesOn at *
  rwa [hkind, htext] at h

theorem endsType_of_separator {last separator : Lexeme}
    (h : separator.kind = .semicolon ∨ separator.kind = .comma) : last.EndsType separator := by
  constructor
  · rcases h with h | h <;> rw [h] <;> rfl
  · rcases h with h | h <;> rw [h] <;> rintro (h | h) <;> cases h
  · rcases h with h | h <;> rintro ⟨-, hgoes | ⟨hgoes, -⟩⟩ <;> rw [h] at hgoes <;> cases hgoes

/-- What stands behind the separator of a member: another member, or the brace that closes the list. -/
def TokenKind.isBetween (kind : TokenKind) : Bool := kind.beginsMember || kind == .closeBrace

theorem TokenKind.mayFollow_of_isBetween {kind : TokenKind} (h : kind.isBetween = true) :
    kind.mayFollow = true := by
  cases kind <;> first | rfl | cases h

theorem TokenKind.ne_of_isBetween {kind : TokenKind} (h : kind.isBetween = true) :
    kind ≠ .semicolon ∧ kind ≠ .comma ∧ kind ≠ .endOfFile := by
  refine ⟨?_, ?_, ?_⟩ <;> rintro rfl <;> cases h

/-- What stands in place of a semicolon that ends a member is nothing that a type goes on with. -/
theorem Reseparated.endsType {last : Lexeme} (h : Reseparated ends false before (semicolon :: first :: rest) zs')
    (hsemicolon : semicolon.kind = .semicolon) (hlast : last.kind = before)
    (hfirst : first.kind.isBetween = true) : ∃ next more, zs' = next :: more ∧ last.EndsType next := by
  cases h with
  | same hsame => exact ⟨_, _, rfl, endsType_of_separator (.inl (hsame.kind.trans hsemicolon))⟩
  | comma _ _ hcomma => exact ⟨_, _, rfl, endsType_of_separator (.inr hcomma)⟩
  | lineBreak _ _ hbehind =>
    obtain ⟨next, more, rfl, hnext, hgoes, -⟩ := hbehind.head_same (TokenKind.ne_of_isBetween hfirst).1
    refine ⟨next, more, rfl, ?_, fun _ => hnext.startsLine, fun h => ?_⟩
    · rw [hnext.kind]
      exact TokenKind.mayFollow_of_isBetween hfirst
    · rw [hlast] at h
      exact hgoes rfl (h.congr hnext.kind hnext.text)

end Separators

section Runs

variable {ends : Lexeme → Prop} {broken : Bool} {before : TokenKind} {semicolon : Lexeme}
  {xs xs' behind : List Lexeme}

theorem Lexeme.joins_eq {lexeme lexeme' : Lexeme} (hkind : lexeme'.kind = lexeme.kind)
    (h : List.Forall₂ (Lexeme.Repeats false) xs xs') : lexeme.joins (xs ++ semicolon :: behind)
      = lexeme'.joins (xs' ++ semicolon :: behind) := by
  cases h with
  | nil =>
    rw [List.nil_append, joins, joins, hkind]
  | cons hfirst _ =>
    rw [List.cons_append, List.cons_append, joins, joins, hkind, hfirst.kind, hfirst.isGlued]
    rfl

theorem agree_of_repeats : ∀ {xs xs' : List Lexeme}, List.Forall₂ (Lexeme.Repeats false) xs xs' →
    Agree .erasing .erasing true (xs ++ semicolon :: behind) (xs' ++ semicolon :: behind)
  | _, _, .nil => agree_of_maps rfl rfl rfl rfl
  | _, _, .cons hfirst hrest =>
    .cons ⟨hfirst.kind.symm, hfirst.text.symm, rfl, fun _ => rfl, fun _ _ => hfirst.startsLine.symm⟩
      (Lexeme.joins_eq hfirst.kind hrest) (agree_of_repeats hrest)

theorem Lexeme.IsGenuine.congr {lexeme lexeme' : Lexeme} (h : lexeme.IsGenuine)
    (hkind : lexeme'.kind = lexeme.kind) (htext : lexeme'.text = lexeme.text) : lexeme'.IsGenuine := by
  unfold IsGenuine at *
  rwa [hkind, htext]

theorem allGenuine_of_repeats (h : List.Forall₂ (Lexeme.Repeats false) xs xs') (hgenuine : AllGenuine xs) :
    AllGenuine xs' := by
  induction h with
  | nil => exact allGenuine_nil
  | cons hfirst _ ih =>
    obtain ⟨hgenuine, hrest⟩ := allGenuine_cons.1 hgenuine
    exact allGenuine_cons.2 ⟨hgenuine.congr hfirst.kind hfirst.text, ih hrest⟩

theorem kind_getLastD (h : List.Forall₂ (Lexeme.Repeats false) xs xs') {first first' : Lexeme}
    (hfirst : first'.kind = first.kind) :
    (xs'.getLastD first').kind = (xs.map Lexeme.kind).getLastD first.kind := by
  induction h generalizing first first' with
  | nil => exact hfirst
  | cons hnext _ ih =>
    rw [List.map_cons, List.getLastD_cons, List.getLastD_cons]
    exact ih hnext.kind

/-- A member is read alike where the gap before it differs. -/
theorem typedShape_of_alike {c c' m : Cursor} {shape : MemberShape} {type : TypeExpr}
    (h : Alike .erasing .erasing false c c') (hrun : typedShape typeExpr c = .ok (shape, some type) m)
    (hclean : m.errors = []) : ∃ shape' type' m', typedShape typeExpr c' = .ok (shape', some type') m'
      ∧ Same .erasing .erasing shape shape' ∧ Alike .erasing .erasing true m m' ∧ m'.errors = [] := by
  have hrelated := typedShape_alike h
  rw [hrun] at hrelated
  generalize hrun' : typedShape typeExpr c' = result at hrelated
  cases hrelated with
  | @ok _ typed _ m' hsame hm =>
    obtain ⟨shape', _ | type'⟩ := typed
    · cases hsame.2
    · refine ⟨shape', type', m', rfl, hsame.1, hm, ?_⟩
      have herrors := hm.errors
      rw [hclean] at herrors
      exact List.map_eq_nil_iff.1 herrors.symm

/-- A member that ends with a type before a semicolon is read where the text goes on otherwise. -/
theorem typedShape_of_fork (fork : Fork) {c c' m : Cursor} {shape : MemberShape} {type : TypeExpr}
    {first first' : Lexeme} (hrun : typedShape typeExpr c = .ok (shape, some type) m)
    (hm : m.rest = fork.semicolon :: fork.behind) (hclean : m.errors = []) (hgenuine : AllGenuine c.rest)
    (hrest : c.rest = first :: (xs ++ fork.semicolon :: fork.behind))
    (hrest' : c'.rest = first' :: (xs' ++ fork.first :: fork.more)) (hkind : first'.kind = first.kind)
    (htext : first'.text = first.text) (hsame : List.Forall₂ (Lexeme.Repeats false) xs xs')
    (hlast : xs'.getLastD first' = fork.last) (hclean' : c'.errors = []) :
    ∃ shape' end? m', typedShape typeExpr c' = .ok (shape', end?) m' ∧ Same .erasing .erasing shape shape'
      ∧ m'.errors = [] ∧ m'.rest = fork.first :: fork.more := by
  -- Up to the fork, the other text is the same but for where its lexemes are.
  let d : Cursor :=
    ⟨first' :: (xs' ++ fork.semicolon :: fork.behind), _, rfl, c'.lastEnd, c.expected, []⟩
  have halike : Alike .erasing .erasing false c d := by
    obtain ⟨_, htook⟩ := memberShape_took (memberShape_of_typedShape hrun) ⟨[], []⟩
    refine ⟨?_, fun _ => rfl, rfl, by rw [Same, htook.errors hclean]⟩
    rw [hrest]
    exact .cons ⟨hkind.symm, htext.symm, rfl, fun h => absurd h (by simp), fun h => absurd h (by simp)⟩
      (Lexeme.joins_eq hkind hsame) (agree_of_repeats hsame)
  obtain ⟨shape', type', e, hrun', hshape, he, hclean''⟩ := typedShape_of_alike halike hrun hclean
  have hend : e.rest = fork.semicolon :: fork.behind := by
    obtain ⟨ys, htook'⟩ := memberShape_took (memberShape_of_typedShape hrun') ⟨[], []⟩
    have hread : (first' :: xs') ++ fork.semicolon :: fork.behind = ys ++ e.rest := htook'.reads.rest
    refine (List.append_inj' hread ?_).2.symm
    rw [← e.size_eq, ← he.size_eq, m.size_eq, hm]
  have hbeside : fork.Beside d c' := by
    refine ⟨⟨first' :: xs', rfl, hrest', fun ys lexeme hys => ?_⟩, ?_, rfl, hclean'.symm⟩
    · have hlexeme := congrArg List.getLast? hys
      rw [List.getLast?_concat, List.getLast?_cons, ← List.getLastD_eq_getLast?, hlast] at hlexeme
      exact (Option.some.inj hlexeme).symm
    · rw [hrest] at hgenuine
      obtain ⟨hgenuine, hrest⟩ := allGenuine_cons.1 hgenuine
      obtain ⟨hinside, hbehind⟩ := allGenuine_append.1 hrest
      exact allGenuine_cons.2 ⟨hgenuine.congr hkind htext,
        allGenuine_append.2 ⟨allGenuine_of_repeats hsame hinside, hbehind⟩⟩
  have hsize : fork.size ≤ e.size := by
    rw [e.size_eq, hend]
    exact Nat.le_refl _
  obtain ⟨-, -, hpersists⟩ := typedShape_persists typeExpr_persists d _ e hrun' hclean'' hsize
  obtain ⟨m', hrun'', hm'⟩ := hpersists c' hbeside
  refine ⟨shape', _, m', hrun'', hshape, hm'.errors ▸ hclean'', ?_⟩
  obtain ⟨ys, hys, hmore, -⟩ := hm'.rest
  rw [hend] at hys
  obtain rfl := List.self_eq_append_left.1 hys
  exact hmore

theorem Cursor.rest_of_isBetween {c : Cursor} (h : c.kind.isBetween = true) :
    ∃ first more, c.rest = first :: more ∧ first.kind.isBetween = true := by
  obtain ⟨first, hrest, hkind⟩ := Cursor.rest_of_kind (TokenKind.ne_of_isBetween h).2.2
  exact ⟨first, _, hrest, hkind ▸ h⟩

/-- A member that ends with a type is read where its semicolon has been replaced, up to what stands in place of
that. -/
theorem typedShape_reseparated (c' : Cursor) {c m : Cursor} {shape : MemberShape} {type : TypeExpr}
    (hrun : typedShape typeExpr c = .ok (shape, some type) m) (hm : m.kind = .semicolon) (hclean : m.errors = [])
    (hgenuine : AllGenuine c.rest) (hrest : Reseparated ends broken before c.rest c'.rest)
    (hread : c.rest = xs ++ m.rest) (hinside : ∀ lexeme ∈ xs, ¬ ends lexeme)
    (hbetween : m.next.kind.isBetween = true) (hclean' : c'.errors = []) :
    ∃ shape' end? before' m', typedShape typeExpr c' = .ok (shape', end?) m' ∧ Same .erasing .erasing shape shape'
      ∧ m'.errors = [] ∧ Reseparated ends false before' m.rest m'.rest := by
  have hbegins := memberShape_begins (memberShape_of_typedShape hrun)
  obtain ⟨semicolon, hsemicolon, hkind⟩ := Cursor.rest_of_semicolon hm
  obtain ⟨next, more, hnext, hbetween⟩ := Cursor.rest_of_isBetween hbetween
  rw [hnext] at hsemicolon
  rw [hsemicolon] at hread ⊢
  cases xs with
  | nil =>
    rw [Cursor.kind_of_cons hread, hkind] at hbegins
    cases hbegins
  | cons first xs =>
    rw [List.cons_append] at hread
    rw [Cursor.kind_of_cons hread] at hbegins
    rw [hread] at hrest
    obtain ⟨first', rest', hrest', hfirst, -, hrest⟩ := hrest.head_same (TokenKind.ne_of_beginsMember hbegins).1
    obtain ⟨xs', zs', rfl, hsame, hzs⟩ := hrest.split (List.forall_mem_cons.1 hinside).2
    have hlast := kind_getLastD hsame hfirst.kind
    obtain ⟨first'', more', rfl, hends⟩ := hzs.endsType hkind hlast hbetween
    let fork : Fork := ⟨xs'.getLastD first', semicolon, next :: more, first'', more', hkind, hends⟩
    obtain ⟨shape', end?, m', hrun', hshape, hm', hmore⟩ := typedShape_of_fork fork hrun hsemicolon hclean
      hgenuine hread hrest' hfirst.kind hfirst.text hsame rfl hclean'
    exact ⟨shape', end?, _, m', hrun', hshape, hm', hmore ▸ hzs⟩

/-- Behind the separator, or where it is missing, the next member begins. -/
theorem behindSeparator_reseparated {m m' : Cursor} (h : Reseparated ends false before m.rest m'.rest)
    (hm : m.kind = .semicolon) (hbetween : m.next.kind.isBetween = true) :
    m'.behindSeparator.errors = m'.errors
      ∧ ∃ broken before', Reseparated ends broken before' m.next.rest m'.behindSeparator.rest := by
  obtain ⟨semicolon, hrest, hkind⟩ := Cursor.rest_of_semicolon hm
  rw [hrest] at h
  generalize hrest' : m'.rest = rest' at h
  cases h with
  | same hsame _ hbehind =>
    have hkind' : m'.kind = .semicolon := (Cursor.kind_of_cons hrest').trans (hsame.kind.trans hkind)
    rw [Cursor.behindSeparator, if_pos hkind', Cursor.next_of_cons hrest']
    exact ⟨rfl, _, _, hbehind⟩
  | comma _ _ hcomma hbehind =>
    have hkind' : m'.kind = .comma := (Cursor.kind_of_cons hrest').trans hcomma
    rw [Cursor.behindSeparator, if_neg (by simp [hkind']), if_pos hkind', Cursor.next_of_cons hrest']
    exact ⟨rfl, _, _, hbehind⟩
  | lineBreak _ _ hbehind =>
    obtain ⟨first, more, hnext, hbetween⟩ := Cursor.rest_of_isBetween hbetween
    obtain ⟨hsemicolon, hcomma, -⟩ := TokenKind.ne_of_isBetween hbetween
    rw [hnext] at hbehind
    obtain ⟨first', more', rfl, hfirst, -⟩ := hbehind.head_same hsemicolon
    have hkind' : m'.kind = first.kind := (Cursor.kind_of_cons hrest').trans hfirst.kind
    rw [Cursor.behindSeparator, if_neg (hkind' ▸ hsemicolon), if_neg (hkind' ▸ hcomma), hnext]
    refine ⟨rfl, true, before, ?_⟩
    show Reseparated ends true before (first :: more) m'.rest
    rwa [hrest']

end Runs

section Bodies

variable {text : List Char} {ends : Lexeme → Prop} {broken : Bool} {before : TokenKind} {c c' d e e' : Cursor}
  {all : List Member}

/-- Members are read one after the other, each of them with a type at its end and a semicolon behind that. -/
inductive TypedInTurn : Cursor → List Member → Cursor → Prop
  | done (c : Cursor) : TypedInTurn c [] c
  | next {c m d : Cursor} {value : Member} {type : TypeExpr} {members : List Member} :
      typedShape typeExpr (c.expect [.closeBrace]) = .ok (value.shape, some type) m → m.kind = .semicolon →
        member typeExpr (c.expect [.closeBrace]) = .ok value m.next →
          TypedInTurn m.next members d → TypedInTurn c (value :: members) d

theorem typedShape_begins {type : Parse TypeExpr} {shape : MemberShape} {end? : Option TypeExpr}
    {kinds : List TokenKind} (h : typedShape type (c.expect kinds) = .ok (shape, end?) d) :
    c.kind.beginsMember = true :=
  memberShape_begins (c := c.expect kinds) (memberShape_of_typedShape h)

theorem TypedInTurn.inTurn (h : TypedInTurn c all d) : MembersInTurn c all d := by
  induction h with
  | done c => exact .done c
  | @next c m d value type members htyped hsemicolon hmember _ ih =>
    obtain ⟨-, hclosing, hend⟩ := TokenKind.ne_of_beginsMember (typedShape_begins htyped)
    exact .next hclosing hend (memberShape_of_typedShape htyped) hsemicolon hmember ih

theorem TypedInTurn.isBetween (h : TypedInTurn c all d) (hclosed : d.kind = .closeBrace) :
    c.kind.isBetween = true := by
  cases h with
  | done =>
    rw [hclosed]
    rfl
  | next htyped => exact Bool.or_eq_true_iff.2 (.inl (typedShape_begins htyped))

section Places

variable {type : Parse TypeExpr} {value : Member} {m : Cursor} {xs behind : List Lexeme}
  {semicolon lexeme : Lexeme}

theorem InOrder.stops (h : InOrder (xs.map Lexeme.span)) :
    xs.Pairwise fun earlier later => earlier.span.stop < later.span.stop := by
  refine (List.pairwise_map.1 h.ordered).imp_of_mem fun _ hmem hle => ?_
  have hlt := h.nonempty _ (List.mem_map_of_mem hmem)
  omega

/-- A member ends where its semicolon does. -/
theorem stop_of_member (h : memberShape type c = .ok value.shape m) (hmember : member type c = .ok value m.next)
    (hread : c.rest = xs ++ semicolon :: behind) (hm : m.rest = semicolon :: behind)
    (hkind : semicolon.kind = .semicolon) (horder : InOrder (c.rest.map Lexeme.span)) :
    value.span.stop = semicolon.span.stop := by
  have hstart : c.start ≤ semicolon.span.stop := by
    rw [hread] at horder
    cases xs with
    | nil =>
      have hlt := horder.nonempty _ List.mem_cons_self
      rw [Cursor.start, Cursor.peek?, hread]
      exact Nat.le_of_lt hlt
    | cons first xs =>
      have hlt := horder.nonempty _ List.mem_cons_self
      have hle := (List.pairwise_cons.1 horder.stops).1 semicolon (List.mem_append_right _ List.mem_cons_self)
      rw [Cursor.start, Cursor.peek?, hread]
      exact Nat.le_trans (Nat.le_of_lt hlt) (Nat.le_of_lt hle)
  rw [member_of_shape h ((Cursor.kind_of_cons hm).trans hkind)] at hmember
  rw [← (EStateM.Result.ok.inj hmember).1, Cursor.next_of_cons hm]
  exact Nat.max_eq_left hstart

/-- What is read of the next member, up to its semicolon. -/
theorem read_of_typedShape {end? : Option TypeExpr} (h : typedShape typeExpr c = .ok (value.shape, end?) m)
    (hsemicolon : m.kind = .semicolon) (hmember : member typeExpr c = .ok value m.next)
    (horder : InOrder (c.rest.map Lexeme.span)) : ∃ xs semicolon, c.rest = xs ++ semicolon :: m.next.rest
      ∧ m.rest = semicolon :: m.next.rest ∧ value.span.stop = semicolon.span.stop := by
  have hshape := memberShape_of_typedShape h
  obtain ⟨xs, htook⟩ := memberShape_took hshape ⟨[], []⟩
  obtain ⟨semicolon, hrest, hkind⟩ := Cursor.rest_of_semicolon hsemicolon
  have hread : c.rest = xs ++ semicolon :: m.next.rest := htook.reads.rest.trans (by rw [hrest])
  exact ⟨xs, semicolon, hread, hrest, stop_of_member hshape hmember hread hrest hkind horder⟩

end Places

/-- Each member ends with a lexeme. -/
theorem TypedInTurn.stop (h : TypedInTurn c all d) (horder : InOrder (c.rest.map Lexeme.span)) :
    ∀ member ∈ all, ∃ lexeme ∈ c.rest, lexeme.span.stop = member.span.stop := by
  induction h with
  | done => exact nofun
  | @next c m d value type members htyped hsemicolon hmember _ ih =>
    obtain ⟨xs, semicolon, hread, -, hstop⟩ := read_of_typedShape htyped hsemicolon hmember horder
    change c.rest = _ at hread
    rw [hread] at horder ⊢
    rw [List.map_append, List.map_cons] at horder
    refine List.forall_mem_cons.2 ⟨⟨semicolon, List.mem_append_right _ List.mem_cons_self, hstop.symm⟩, ?_⟩
    intro member hmem
    obtain ⟨lexeme, hlexeme, hstop'⟩ := ih (horder.right.sublist (List.sublist_cons_self _ _)) member hmem
    exact ⟨lexeme, List.mem_append_right _ (List.mem_cons_of_mem _ hlexeme), hstop'⟩

/-- Before its semicolon no member ends, neither the one that it belongs to nor another one; behind it only the
others do. -/
theorem TypedInTurn.ends_apart {value : Member} {xs : List Lexeme} {semicolon : Lexeme} (h : TypedInTurn c all d)
    (horder : InOrder ((xs ++ semicolon :: c.rest).map Lexeme.span)) (hbehind : InOrder (c.rest.map Lexeme.span))
    (hstop : value.span.stop = semicolon.span.stop)
    (hends : ∀ lexeme ∈ xs ++ semicolon :: c.rest, ends lexeme →
      ∃ member ∈ value :: all, member.span.stop = lexeme.span.stop) :
    (∀ lexeme ∈ xs, ¬ ends lexeme)
      ∧ ∀ lexeme ∈ c.rest, ends lexeme → ∃ member ∈ all, member.span.stop = lexeme.span.stop := by
  obtain ⟨-, hlater, hacross⟩ := List.pairwise_append.1 horder.stops
  refine ⟨fun lexeme hmem h' => ?_, fun lexeme hmem h' => ?_⟩
  · obtain ⟨member, hmember, heq⟩ := hends lexeme (List.mem_append_left _ hmem) h'
    rcases List.mem_cons.1 hmember with rfl | hmember
    · have hlt := hacross lexeme hmem semicolon List.mem_cons_self
      omega
    · obtain ⟨last, hlast, hstop'⟩ := h.stop hbehind member hmember
      have hlt := hacross lexeme hmem last (List.mem_cons_of_mem _ hlast)
      omega
  · obtain ⟨member, hmember, heq⟩ := hends lexeme (List.mem_append_right _ (List.mem_cons_of_mem _ hmem)) h'
    rcases List.mem_cons.1 hmember with rfl | hmember
    · have hlt := (List.pairwise_cons.1 hlater).1 lexeme hmem
      omega
    · exact ⟨member, hmember, heq⟩

/-- A member is read with what stands in place of its semicolon. -/
theorem member_reseparated {m : Cursor} {value : Member} {type : TypeExpr} {xs : List Lexeme}
    (htyped : typedShape typeExpr (c.expect [.closeBrace]) = .ok (value.shape, some type) m)
    (hm : m.kind = .semicolon) (hmember : member typeExpr (c.expect [.closeBrace]) = .ok value m.next)
    (hclean : m.errors = []) (hgenuine : AllGenuine c.rest) (hrest : Reseparated ends broken before c.rest c'.rest)
    (hread : c.rest = xs ++ m.rest) (hinside : ∀ lexeme ∈ xs, ¬ ends lexeme)
    (hbetween : m.next.kind.isBetween = true) (hclean' : c'.errors = []) :
    ∃ value' e', member typeExpr (c'.expect [.closeBrace]) = .ok value' e' ∧ Same .erasing .erasing value value'
      ∧ e'.errors = [] ∧ c'.kind.beginsMember = true
      ∧ ∃ broken before, Reseparated ends broken before m.next.rest e'.rest := by
  obtain ⟨shape', end?, before', m', htyped', hsame, hm', hsplit⟩ := typedShape_reseparated
    (c'.expect [.closeBrace]) htyped hm hclean hgenuine hrest hread hinside hbetween hclean'
  obtain ⟨herrors, hbehind⟩ := behindSeparator_reseparated hsplit hm hbetween
  refine ⟨_, _, member_of_memberShape (memberShape_of_typedShape htyped'), ?_, herrors.trans hm',
    typedShape_begins htyped', hbehind⟩
  obtain ⟨shape, span, comments⟩ := value
  rw [Same, relocate_member, relocate_member, hsame]
  rfl

theorem TypedInTurn.reseparated (h : TypedInTurn c all d) (hclean : d.errors = []) (hclosed : d.kind = .closeBrace)
    (hgenuine : AllGenuine c.rest) (horder : InOrder (c.rest.map Lexeme.span))
    (hends : ∀ lexeme ∈ c.rest, ends lexeme → ∃ member ∈ all, member.span.stop = lexeme.span.stop)
    (hrest : Reseparated ends broken before c.rest c'.rest) (hclean' : c'.errors = []) (base : List Member) :
    ∃ all' d', repeatFrom (memberStep typeExpr) base c' = repeatFrom (memberStep typeExpr) (base ++ all') d'
      ∧ Same .erasing .erasing all all' ∧ d'.errors = [] ∧ (∀ lexeme ∈ d.rest, ¬ ends lexeme)
      ∧ ∃ broken before, Reseparated ends broken before d.rest d'.rest := by
  induction h generalizing c' broken before base with
  | done c =>
    refine ⟨[], c', by rw [List.append_nil], rfl, hclean', fun lexeme hmem h => ?_, _, _, hrest⟩
    obtain ⟨member, hmember, -⟩ := hends lexeme hmem h
    cases hmember
  | @next c m d value type members htyped hsemicolon hmember hmembers ih =>
    obtain ⟨xs, semicolon, hread, hm, hstop⟩ := read_of_typedShape htyped hsemicolon hmember horder
    change c.rest = _ at hread
    rw [hread] at horder hgenuine hends
    have hbehind : InOrder (m.next.rest.map Lexeme.span) := by
      rw [List.map_append, List.map_cons] at horder
      exact horder.right.sublist (List.sublist_cons_self _ _)
    have hbetween := hmembers.isBetween hclosed
    obtain ⟨hinside, hends'⟩ := hmembers.ends_apart horder hbehind hstop hends
    have hm' : m.errors = [] := m.errors_next ▸ hmembers.inTurn.errors hclean
    obtain ⟨value', e', hmember', hsame, he', hbegins, broken', before', hrest'⟩ :=
      member_reseparated htyped hsemicolon hmember hm' (hread ▸ hgenuine) hrest (hread.trans (by rw [hm])) hinside
        hbetween hclean'
    obtain ⟨all', d', hrun, hall, hd⟩ := ih hclean hclosed (allGenuine_cons.1 (allGenuine_append.1 hgenuine).2).2
      hbehind hends' hrest' he' (base ++ [value'])
    refine ⟨value' :: all', d', ?_, ?_, hd⟩
    · obtain ⟨-, hclosing, hend⟩ := TokenKind.ne_of_beginsMember hbegins
      rw [memberStep_advances.repeats, bind_of_ok (memberStep_of_member hclosing hend hmember')]
      exact hrun.trans (by rw [List.append_assoc, List.singleton_append])
    · unfold Same at *
      rw [relocate_cons, relocate_cons, hsame, hall]

/-- Members in turn between braces are the members of a body. -/
theorem TypedInTurn.body (hmembers : TypedInTurn e.next all d) (hopened : e.kind = .openBrace)
    (hclosed : d.kind = .closeBrace) : members typeExpr e = .ok all d.next := by
  rw [members_eq, bind_of_ok (expect_of_kind hopened), hmembers.inTurn.run, List.nil_append]
  exact repeatFrom_of_inr (memberStep_of_closing hclosed)

/-- In the body of an interface or of a type literal, all members end with a type and a semicolon. Commas or line
breaks stand in place of some of the semicolons. The same members are read, without an error, up to the same
brace. -/
theorem members_reseparated (htext : e.rest <:+ lexemesOf text) (hmembers : TypedInTurn e.next all d)
    (hclosed : d.kind = .closeBrace) (hclean : d.errors = []) (hopened' : e'.kind = .openBrace) (hrest : Reseparated
      (fun lexeme => ∃ member ∈ all, member.span.stop = lexeme.span.stop) broken before e.next.rest e'.next.rest)
    (hclean' : e'.errors = []) :
    ∃ all' f', members typeExpr e' = .ok all' f' ∧ Same .erasing .erasing all all' ∧ f'.errors = []
      ∧ List.Forall₂ (Lexeme.Repeats false) d.next.rest f'.rest := by
  have htext' : e.next.rest <:+ lexemesOf text := by
    rw [e.rest_next]
    exact (List.tail_suffix _).trans htext
  obtain ⟨all', d', hrun, hsame, hclean'', hnone, broken', before', hd⟩ := hmembers.reseparated hclean hclosed
    (fun lexeme hmem => allGenuine_lexemesOf text lexeme (htext'.subset hmem))
    ((lexemes_inOrder text).sublist (htext'.sublist.map _)) (fun _ _ h => h) hrest
    (e'.errors_next.trans hclean') []
  obtain ⟨closing, hclosing, hkind⟩ := Cursor.rest_of_kind (show d.kind ≠ .endOfFile by rw [hclosed]; nofun)
  rw [hclosing] at hd hnone
  have hne : closing.kind ≠ .semicolon := by
    rw [hkind, hclosed]
    nofun
  obtain ⟨closing', rest', hrest', hsame', -, hbehind⟩ := hd.head_same hne
  have hclosed' : d'.kind = .closeBrace := by
    rw [Cursor.kind_of_cons hrest', hsame'.kind, hkind, hclosed]
  refine ⟨all', d'.next, ?_, hsame, d'.errors_next.trans hclean'', ?_⟩
  · rw [members_eq, bind_of_ok (expect_of_kind hopened'), hrun, List.nil_append]
    exact repeatFrom_of_inr (memberStep_of_closing hclosed')
  · rw [Cursor.next_of_cons hrest']
    exact hbehind.same_of_not_ends (List.forall_mem_cons.1 hnone).2

end Bodies

end NodeFactory
