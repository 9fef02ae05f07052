import NodeFactory.Proofs.TypePlaces

/-!
# Where statements are written

A statement fills the lexemes that are taken for it, modifiers included; what it declares lies behind the
first of them. The statements that are read up to a closing lexeme lie within the lexemes that are taken,
whatever errors are reported (`statementsUntil_takes`).
-/

namespace NodeFactory

open Parse Text

section Declarations

variable {s : Sequel} {c : Cursor}

theorem heritageType_takes :
    Takes s (fun type xs => Fills type.outline xs) heritageType heritageType c := by
  unfold heritageType
  refine .here (entityName_takes.bind fun name m xs hxs hname => ?_) fun hne _ => by
    simp only [Cursor.start_extend hne]
  have htype : TypesBelow s (m.size + 1) typeExpr typeExpr := fun _ _ => typeExpr_takes
  refine (typeArgs_takes htype (Nat.le_succ _)).bind fun args m ys hys hargs => .placed ?_
  have hparts := (Within.single hname.1).append hargs.1
  have hread := hxs.append hys
  obtain ⟨first, rest, hlexemes⟩ := List.exists_cons_of_ne_nil hname.1.ne_nil
  rw [List.append_nil]
  show Fills (.node .heritageType ⟨c.start, max m.lastEnd c.start⟩ (name.outline :: outlines args)) _
  rw [hlexemes, List.cons_append] at hparts hread ⊢
  rw [hread.span]
  exact .plain rfl trivial hparts

theorem heritageWord_takes :
    Takes s (fun word xs => word.isSome = true → xs ≠ []) heritageWord? heritageWord? c := by
  unfold heritageWord?
  refine (eat_takes (by decide)).bind fun _ m xs _ hxs => .ite (fun htrue => ?_) fun _ => ?_
  · rw [if_pos htrue] at hxs
    exact .pure fun _ => by simp [hxs.ne_nil]
  · refine (eat_takes (by decide)).bind fun _ m ys _ hys => .ite (fun htrue => ?_) fun _ => .pure nofun
    rw [if_pos htrue] at hys
    exact .pure fun _ => by simp [hys.ne_nil]

theorem heritage_takes :
    Takes s (fun clauses xs => Within (outlines clauses) xs) heritage heritage c := by
  unfold heritage
  refine repeatFrom_takes (I := fun clauses xs => Within (outlines clauses) xs) ?_ .nil
  intro clauses m zs _ hclauses
  refine .here (heritageWord_takes.bind fun word d xs hxs hword => ?_) fun hne _ => by
    simp only [Cursor.start_extend hne]
  cases word with
  | none => exact .pure (hclauses.before _)
  | some word =>
    have hne := hword rfl
    refine (separated_takes fun m => heritageType_takes.mono fun _ _ h => .single h).bind
      fun types d ys hys htypes => .placed ⟨by simp [hne], ?_⟩
    have hread := hxs.append hys
    obtain ⟨first, rest, rfl⟩ := List.exists_cons_of_ne_nil hne
    show Within (outlines (clauses ++ [_])) _
    rw [List.append_nil, outlines_append]
    refine hclauses.append (.single ?_)
    show Fills (.node .heritageClause ⟨m.start, max d.lastEnd m.start⟩ (outlines types)) _
    rw [List.cons_append] at hread ⊢
    rw [hread.span]
    exact .plain rfl trivial (.skip (htypes.after rest))

theorem interfaceDecl_takes :
    Takes s (fun decl xs => Behind (outlines decl) xs) interfaceDecl interfaceDecl c := by
  unfold interfaceDecl
  refine (expect_takes (by decide)).bind fun _ m xs _ hone => ident_takes.bind fun name m ys _ hname => ?_
  have htype : ∀ n, TypesBelow s n typeExpr typeExpr := fun _ _ _ => typeExpr_takes
  refine (typeParams_takes (htype _) (Nat.le_refl _)).bind fun typeParams m zs _ htypeParams => ?_
  refine heritage_takes.bind fun heritage m ws _ hheritage => ?_
  refine (members_takes (htype _) (Nat.le_refl _)).last fun members us hmembers => ?_
  have hparts : Within (outlines typeParams) zs := by
    rcases htypeParams with ⟨h, rfl⟩ | h
    · rw [h]
      exact .nil
    · exact h.within
  refine behind_of_ne_nil hone.ne_nil ?_
  simpa using (Within.single hname.fills).append (hparts.append (hheritage.append hmembers.1.within))

theorem aliasDecl_takes : Takes s (fun decl xs => Behind (outlines decl) xs) aliasDecl aliasDecl c := by
  unfold aliasDecl
  refine (expect_takes (by decide)).bind fun _ m xs _ hone => ident_takes.bind fun name m ys _ hname => ?_
  have htype : TypesBelow s m.size typeExpr typeExpr := fun _ _ => typeExpr_takes
  refine (typeParams_takes htype (Nat.le_refl _)).bind fun typeParams m zs _ htypeParams => ?_
  refine (expect_takes (by decide)).bind fun _ m ws _ _ => ?_
  refine typeExpr_takes.bind fun type m us _ htype => ?_
  refine (eat_takes (by decide)).discard.last fun _ vs _ => ?_
  have hparts : Within (outlines typeParams) zs := by
    rcases htypeParams with ⟨h, rfl⟩ | h
    · rw [h]
      exact .nil
    · exact h.within
  refine behind_of_ne_nil hone.ne_nil ?_
  simpa using (Within.single hname.fills).append
    (hparts.append ((htype.within_type.before vs).after ws))

theorem enumMember_takes :
    Takes s (fun member xs => Fills member.outline xs) enumMember enumMember c := by
  unfold enumMember
  refine .here (propertyName_takes.bind fun name m xs hxs hname => ?_) fun hne _ => by
    simp only [Cursor.start_extend hne, Cursor.comments_extend hne]
  refine .optional (by decide) (fun d _ => constExpr_takes) fun value m ys hys hvalue => .placed ?_
  have hled := hname.ledBy.append (hvalue.within fun _ _ h => h)
  have hread := hxs.append hys
  obtain ⟨first, rest, rfl⟩ := List.exists_cons_of_ne_nil hname.fills.ne_nil
  rw [List.append_nil]
  show Fills (.node (.enumMember c.comments) ⟨c.start, max m.lastEnd c.start⟩
    (name.outline :: outlines value)) _
  rw [List.cons_append] at hread hled ⊢
  rw [hread.span, hread.comments]
  exact hled.fills rfl

theorem enumStep_takes {base members : List EnumMember} {zs : List Lexeme}
    (hmembers : Adds base members zs) :
    Takes s (StepTakes (Adds base) (Adds base) zs) (enumStep members) (enumStep members) c := by
  unfold enumStep
  refine (eat_takes (by decide)).bind fun _ d xs _ _ => .ite (fun _ => .pure (hmembers.before _)) fun _ => ?_
  refine enumMember_takes.bind fun member d ys _ hmember => ?_
  have hmore : ∀ us, Adds base (members ++ [member]) (zs ++ (xs ++ (ys ++ us))) := by
    intro us
    have hsingle : Within (outlines [member]) (xs ++ (ys ++ us)) :=
      ((Within.single hmember).before us).after xs
    exact hmembers.append hsingle
  refine (eat_takes (by decide)).bind fun _ d us _ _ => .ite (fun _ => ?_) fun _ => ?_
  · exact .pure ⟨by simp [hmember.ne_nil], hmore _⟩
  · refine (expect_takes (by decide)).last fun _ vs _ => ?_
    exact hmore (us ++ vs)

theorem enumDecl_takes (isConst : Bool) :
    Takes s (fun decl xs => Behind (outlines decl) xs) (enumDecl isConst) (enumDecl isConst) c := by
  rw [enumDecl_eq]
  refine (expect_takes (by decide)).bind fun _ m xs _ hone => ident_takes.bind fun name m ys _ hname => ?_
  refine (expect_takes (by decide)).bind fun _ m zs _ _ => ?_
  refine Takes.last (R := Adds [])
    (repeatFrom_takes (fun members d ws _ => enumStep_takes) (adds_nil [])) fun members ws h => ?_
  refine behind_of_ne_nil hone.ne_nil ?_
  simpa using (Within.single hname.fills).append (h.within.after zs)

/-- Modifiers are keywords. -/
def AreKeywords (lexemes : List Lexeme) : Prop :=
  ∀ lexeme ∈ lexemes, lexeme.kind.isKeyword = true

theorem AreKeywords.append {xs ys : List Lexeme} (h : AreKeywords xs) (h' : AreKeywords ys) :
    AreKeywords (xs ++ ys) := List.forall_mem_append.2 ⟨h, h'⟩

theorem modifiers_takes : Takes s (fun _ xs => AreKeywords xs) modifiers modifiers c := by
  rw [modifiers_eq]
  refine repeatFrom_takes (I := fun _ xs => AreKeywords xs) (fun isConst m zs _ hzs => .here ?_ ?_) nofun
  · have hnext : ∀ word isConst, m.kind = .keyword word →
        Takes s (StepTakes (fun _ xs => AreKeywords xs) (fun _ xs => AreKeywords xs) zs)
          (do next; return .inl isConst : Parse (Bool ⊕ Bool)) (do next; return .inl isConst) m := by
      intro word isConst hkind
      refine (next_takes_of_kind (by rw [hkind]; nofun)).last fun _ xs hxs => ⟨hxs.ne_nil, hzs.append ?_⟩
      obtain ⟨lexeme, rfl, hlexeme⟩ := hxs
      exact List.forall_mem_singleton.2 (by rw [hlexeme, hkind]; rfl)
    have hdone : Takes s (StepTakes (fun _ xs => AreKeywords xs) (fun _ xs => AreKeywords xs) zs)
        (return .inr isConst : Parse (Bool ⊕ Bool)) (return .inr isConst) m :=
      .pure (hzs.append nofun)
    split
    · rename_i hkind
      exact hnext _ _ hkind
    · rename_i hkind
      exact hnext _ _ hkind
    · rename_i hkind
      exact hnext _ _ hkind
    · rename_i hkind
      exact hnext _ _ hkind
    · rename_i hkind
      exact .ite (fun _ => hnext _ _ hkind) fun _ => hdone
    · exact hdone
  · intro hne hended
    simp only [Cursor.kind_extend hne]
    rcases Cursor.second_extend (s := s) hended with ⟨hkind, -⟩ | hkind | hkind | hkind
    · simp only [hkind]
    all_goals simp only [hkind]

end Declarations

section Statements

variable {s : Sequel} {c : Cursor} {n : Nat} {body body' : Parse (List Statement)}

/-- Where fewer lexemes are left than that, statements lie within the lexemes taken for them. -/
def StatementsBelow (s : Sequel) (n : Nat) (body body' : Parse (List Statement)) : Prop :=
  ∀ m, m.size < n → Takes s (fun statements xs => Within (outlines statements) xs) body body' m

/-- What is declared lies behind the first lexeme, wherever the declaration is placed. -/
def Declares (c : Cursor) (make : Placement → Statement) (lexemes : List Lexeme) : Prop :=
  ∃ parts, (∀ place, (make place).outline = place.outline parts) ∧ Within parts lexemes
    ∧ (c.kind.isClose = false → c.kind ≠ .endOfFile → Behind parts lexemes)

theorem declares_of_behind {make : Placement → Statement} {parts : List Outline} {xs : List Lexeme}
    (hmake : ∀ place, (make place).outline = place.outline parts) (h : Behind parts xs) :
    Declares c make xs :=
  ⟨parts, hmake, h.within, fun _ _ => h⟩

variable (hbody : StatementsBelow s n body body')
include hbody

theorem namespaceDecl_takes (hkind : c.kind ≠ .endOfFile) (hc : c.size ≤ n) :
    Takes s (Declares c) (namespaceDecl body) (namespaceDecl body') c := by
  unfold namespaceDecl
  refine (next_takes_of_kind hkind).bind fun _ m xs hxs hone => ?_
  refine entityName_takes.bind fun name m ys hys hname => ?_
  refine (expect_takes (by decide)).bind fun _ m zs hzs _ => ?_
  have hlt := (hxs.append (hys.append hzs)).size_lt (by simp [hone.ne_nil])
  refine (hbody m (by omega)).last fun body ws hbody => ?_
  refine declares_of_behind (fun place => outline_namespaceDecl place name body)
    (behind_of_ne_nil hone.ne_nil ?_)
  simpa using (Within.single hname.1).append (hbody.after zs)

theorem declaration_takes (isConst : Bool) (hc : c.size ≤ n) :
    Takes s (Declares c) (declaration body isConst) (declaration body' isConst) c := by
  have hskipped : Takes s (Declares c) declaration.skipped declaration.skipped c := by
    unfold declaration.skipped
    refine skipBalanced_takes.last fun _ xs hxs =>
      ⟨[], fun place => outline_skipped place, .none xs, fun hclose hend => ?_⟩
    -- Nothing may be skipped where a closing delimiter is next.
    have hbehind := behind_of_ne_nil (hxs hclose hend) (Within.none [])
    rwa [List.append_nil] at hbehind
  unfold declaration
  refine .here (.ite (fun _ => hskipped) fun _ => ?_) fun hne hended => ?_
  · split
    · rename_i hkind
      exact namespaceDecl_takes hbody (by rw [hkind]; decide) hc
    · rename_i hkind
      exact namespaceDecl_takes hbody (by rw [hkind]; decide) hc
    · exact interfaceDecl_takes.last fun decl xs h =>
        declares_of_behind (fun place => outline_interfaceDecl place decl) h
    · exact aliasDecl_takes.last fun decl xs h =>
        declares_of_behind (fun place => outline_aliasDecl place decl) h
    · exact (enumDecl_takes isConst).last fun decl xs h =>
        declares_of_behind (fun place => outline_enumDecl place decl) h
    · exact hskipped
  · simp only [Cursor.kind_extend hne]
    rcases Cursor.second_extend (s := s) hended with ⟨hkind, -⟩ | hkind | hkind | hkind
    · simp only [hkind]
    all_goals simp only [hkind, ite_self]

/-- A semicolon alone, or a statement with its lexemes. -/
def StatementTakes (c : Cursor) : Option Statement → List Lexeme → Prop
  | none, xs => IsOne .semicolon xs
  | some statement, xs => c.kind ≠ .endOfFile → Fills statement.outline xs

theorem statement_takes (hc : c.size ≤ n) :
    Takes s (StatementTakes c) (statement? body) (statement? body') c := by
  unfold statement?
  refine .here ?_ fun hne hended => ?_
  · refine (eat_takes (by decide)).bind fun found m xs hxs hfound => .ite (fun htrue => ?_) fun hfalse => ?_
    · rw [if_pos htrue] at hfound
      refine .pure ?_
      rwa [List.append_nil]
    rw [if_neg hfalse] at hfound
    obtain ⟨rfl, -⟩ := hfound
    have hle := hxs.size_le
    refine .ite (fun _ => .unexpected) fun hclose => ?_
    refine modifiers_takes.bind fun isConst m' ys hys _ => ?_
    have hle' := hys.size_le
    refine (declaration_takes hbody isConst (by omega)).bind fun make d zs hzs hmake => .placed ?_
    intro hend
    obtain ⟨parts, houtline, hparts, hbehind⟩ := hmake
    have hread := hxs.append (hys.append hzs)
    have hall : Behind parts (ys ++ zs) := by
      cases ys with
      | nil =>
        have hkind : m'.kind = c.kind := hys.kind_eq.trans hxs.kind_eq
        exact hbehind (by simpa [hkind] using hclose) (by rwa [hkind])
      | cons first rest => exact ⟨first, rest ++ zs, rfl, hparts.after rest⟩
    obtain ⟨first, rest, hlexemes, hrest⟩ := hall
    rw [List.nil_append, hlexemes] at hread
    rw [List.append_nil, List.nil_append, hlexemes, houtline]
    show Fills (.node (.statement c.comments) ⟨c.start, max d.lastEnd c.start⟩ parts) _
    rw [hread.span, hread.comments]
    exact (Behind.ledBy ⟨first, rest, rfl, hrest⟩).fills rfl
  · simp only [Cursor.kind_extend hne, Cursor.start_extend hne, Cursor.comments_extend hne]

omit hbody in
theorem StatementTakes.within {statement : Option Statement} {xs : List Lexeme}
    (h : StatementTakes c statement xs) (hend : c.kind ≠ .endOfFile) :
    xs ≠ [] ∧ Within (outlines statement.toList) xs := by
  cases statement with
  | none => exact ⟨IsOne.ne_nil h, .none xs⟩
  | some statement => exact ⟨(h hend).ne_nil, .single (h hend)⟩

/-- A step takes a lexeme or is the last one, whatever errors it recovers from. -/
theorem statementStep_takes (hc : c.size ≤ n) (closing : TokenKind)
    {base statements : List Statement} {zs : List Lexeme} (hstatements : Adds base statements zs) :
    Takes s (StepTakes (Adds base) (Adds base) zs)
      (statementStep body closing statements) (statementStep body' closing statements) c := by
  unfold statementStep
  refine (eat_takes_of_any closing).bind fun found m ws hws hfound =>
    .ite (fun _ => .pure (hstatements.before _)) fun hfalse => ?_
  obtain ⟨rfl, hclosing⟩ := hfound (by simpa using hfalse)
  refine .isAt (.ite (fun _ => ?_) fun hend => ?_)
  · refine .here (.reported fun d _ _ => .pure (hstatements.before _)) fun hne _ => ?_
    rw [Cursor.unexpected_extend hne]
  have hle := hws.size_le
  have hend : m.kind ≠ .endOfFile := by simpa using hend
  refine (statement_takes hbody (by omega)).attempt (fun statement d xs hxs hstatement => ?_) ?_ ?_
  · obtain ⟨hne, hwithin⟩ := hstatement.within hend
    refine .pure ⟨by simp [hne], ?_⟩
    simpa using hstatements.append hwithin
  · intro error d xs hxs
    refine (recovery_takes hxs ?_ hend).mono fun result ys ⟨hresult, hne⟩ => ?_
    · rwa [hws.kind_eq]
    · rw [hresult]
      exact ⟨hne, hstatements.before _⟩
  · exact fun error d result d' h => errors_of_reported h

theorem statementSteps_takes (hc : c.size ≤ n) (closing : TokenKind) (base : List Statement) :
    Takes s (Adds base) (repeatFrom (statementStep body closing) base)
      (repeatFrom (statementStep body' closing) base) c := by
  refine repeatFrom_takes (I := Adds base) ?_ (adds_nil base)
  intro statements m zs hzs hstatements
  have hle := hzs.size_le
  exact statementStep_takes hbody (by omega) closing hstatements

omit hbody in
theorem statementsUntil_body_takes :
    BodyTakes s (fun _ statements xs => Within (outlines statements) xs)
      (fun (statementsUntil : TokenKind → Parse (List Statement)) closing =>
        repeatFrom (statementStep (statementsUntil .closeBrace) closing) []) :=
  fun _ _ _ hcall _ closing _ hc =>
    (statementSteps_takes (hcall .closeBrace) hc closing []).mono fun _ _ h => h.within

omit hbody in
theorem statementsUntil_takes (closing : TokenKind) :
    Takes s (fun statements xs => Within (outlines statements) xs)
      (statementsUntil closing) (statementsUntil closing) c :=
  fix_takes statementsUntil_body_takes closing c

omit hbody in
/-- Statements are read step by step, and those of a namespace alike. -/
theorem statementsUntil_eq (closing : TokenKind) : statementsUntil closing
    = repeatFrom (statementStep (statementsUntil .closeBrace) closing) [] :=
  funext fun c => fix_unlimited (s := ⟨[], []⟩) statementsUntil_body_takes closing c

end Statements

end NodeFactory
