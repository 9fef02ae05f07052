import NodeFactory.Proofs.Containment
import NodeFactory.Proofs.MemberRuns

/-!
# Errors inside a type

Every part of a type leaves the groups that are open as they are, or fails in a group that is no member
list (`Stays`). A list of members does not fail: whatever errors are in it, the recovery from them stays
inside its braces, so it ends with the one that closes it (`members_stays`).
-/

namespace NodeFactory

open Parse Text

section Names

variable {text : List Char} {behind : List Lexeme} {c : Cursor}

theorem ident_stays : Stays text behind ident c := by
  have hmissing : Stays text behind ident.missing c := contained_of_error rfl rfl .nil
  unfold ident
  refine .here ?_
  cases hpeek : c.peek? 0 with
  | none => exact hmissing
  | some lexeme =>
    refine .ite (fun hname => ?_) fun _ => hmissing
    have hkind : c.kind = lexeme.kind := Cursor.kind_of_cons (Cursor.rest_of_peek hpeek)
    exact (next_stays (TokenKind.isMiddle_of_isName (hkind ▸ hname))).bind fun _ _ => .pure rfl

theorem propertyName_stays : Stays text behind propertyName c := by
  unfold propertyName
  refine .here ?_
  cases hpeek : c.peek? 0 with
  | none => exact ident_stays
  | some lexeme =>
    have hkind : c.kind = lexeme.kind := Cursor.kind_of_cons (Cursor.rest_of_peek hpeek)
    dsimp only
    split
    · rename_i hstring
      exact (next_stays (by rw [hkind, hstring]; rfl)).bind fun _ _ => .pure rfl
    · rename_i hnumber
      exact (next_stays (by rw [hkind, hnumber]; rfl)).bind fun _ _ => .pure rfl
    · exact ident_stays

theorem entityName_stays : Stays text behind entityName c := by
  unfold entityName
  refine .here (ident_stays.bind fun first m => ?_)
  have hparts : Stays text behind (repeatFrom namePart []) m := by
    refine repeatFrom_contained .nil (fun parts m => ?_) [] m
    unfold namePart
    refine (eat_stays rfl).bind fun found m => .ite (fun _ => ?_) fun _ => .pure rfl
    exact ident_stays.bind fun _ _ => .pure rfl
  exact hparts.bind fun rest m => (spanFrom_stays _).bind fun _ _ => .pure rfl

end Names

section Constants

variable {text : List Char} {behind : List Lexeme} {c : Cursor}

theorem unaryOps_stays : Stays text behind unaryOps c := by
  unfold unaryOps
  refine repeatFrom_contained .nil (fun ops m => .here ?_) [] c
  have hnext : ∀ op, m.kind.isMiddle = true → Contained text behind [] (Sum.elim (fun _ => []) fun _ => [])
      (do next; return .inl (ops ++ [op]) : Parse (List UnaryOp ⊕ List UnaryOp)) m :=
    fun op hkind => (next_stays hkind).bind fun _ _ => .pure rfl
  split
  · rename_i hkind
    exact hnext _ (by rw [hkind]; rfl)
  · rename_i hkind
    exact hnext _ (by rw [hkind]; rfl)
  · rename_i hkind
    exact hnext _ (by rw [hkind]; rfl)
  · exact .pure rfl

theorem constPrimary_stays {nested : Parse ConstExpr} (hnested : ∀ c, Stays text behind nested c) :
    Stays text behind (constPrimary nested) c := by
  unfold constPrimary
  refine .here ?_
  split
  · rename_i hkind
    refine .here ?_
    split
    · exact (next_stays (by rw [hkind]; rfl)).bind fun _ _ => .pure rfl
    · exact .unexpected .nil
  · exact propertyName_stays.bind fun _ _ => .pure rfl
  · rename_i hkind
    refine (next_contained_of_opening (by rw [hkind]; rfl)).bind fun _ m => ?_
    refine ((hnested m).within (unbraced_singleton (by decide))).bind fun inner m => ?_
    exact (expect_contained_of_closing rfl (by decide)).bind fun _ _ => .pure rfl
  · exact entityName_stays.bind fun _ _ => .pure rfl

theorem constExprAbove_stays (level : Nat) (c : Cursor) : Stays text behind (constExprAbove level) c := by
  refine fix_stays (fun n hcall level c => ?_) level c
  have hoperand : Stays text behind (constOperand (below n (constExprAbove 0))) c := by
    unfold constOperand
    refine unaryOps_stays.bind fun ops m => ?_
    exact (constPrimary_stays fun c => hcall 0 c).bind fun _ _ => .pure rfl
  refine hoperand.bind fun left m => repeatFrom_contained .nil (fun left m => .here ?_) left m
  cases hop : m.binaryOp? with
  | none => exact .pure rfl
  | some found =>
    obtain ⟨op, length⟩ := found
    refine .ite (fun _ => .pure rfl) fun _ => ?_
    have hmiddle : ∀ i < length, (m.kindAt i).isMiddle = true := fun i hi =>
      TokenKind.isMiddle_of_isOperator (isOperator_of_binaryOp? hop i hi)
    exact (skip_stays hmiddle).bind fun _ m => (hcall op.precedence m).bind fun _ _ => .pure rfl

theorem constExpr_stays (c : Cursor) : Stays text behind constExpr c := constExprAbove_stays 0 c

end Constants

section Parts

variable {text : List Char} {behind : List Lexeme} {type : Parse TypeExpr}

/-- A word that says how a type parameter varies is a word wherever it is one of the text. -/
theorem varianceStep_stays (c : Cursor) :
    Contained text behind [] (Sum.elim (fun _ => []) fun _ => []) varianceStep c := by
  unfold varianceStep
  refine .here (.ite (fun hword outer hc => ?_) fun _ => .pure rfl)
  obtain ⟨lexeme, hrest, hkind⟩ := Cursor.rest_of_kind hc.kind_ne_endOfFile
  have hpeek : c.peek? 0 = some lexeme := by rw [Cursor.peek?, hrest]; rfl
  have hgenuine := allGenuine_lexemesOf text lexeme (hc.mem lexeme (hrest ▸ List.mem_cons_self))
  have hname := isName_of_isVarianceWord hword hpeek hgenuine
  exact hc.next_middle (TokenKind.isMiddle_of_isName (hkind ▸ hname))

variable (htype : ∀ c, Stays text behind type c)
include htype

theorem typeParam_stays (c : Cursor) : Stays text behind (typeParam type) c := by
  unfold typeParam
  refine (repeatFrom_contained .nil (fun _ m => varianceStep_stays m) () c).bind fun _ m => ?_
  refine ident_stays.bind fun name m => .optional rfl htype fun bound m => ?_
  exact .optional rfl htype fun fallback m => .pure rfl

theorem typeParams_stays (c : Cursor) : Stays text behind (typeParams type) c := by
  unfold typeParams
  exact .isAt (.ite (fun _ => angled_stays (typeParam_stays htype) c) fun _ => .pure rfl)

theorem typeArgs_stays (c : Cursor) : Stays text behind (typeArgs type) c := by
  unfold typeArgs
  exact .isAt (.ite (fun _ => angled_stays htype c) fun _ => .pure rfl)

omit htype in
theorem paramName_stays (c : Cursor) : Stays text behind paramName c := by
  unfold paramName
  refine .here (.ite (fun hopening => .here ?_) fun _ => ident_stays)
  have hclosing : ∃ closing, c.kind.closing? = some closing := by
    rcases Bool.or_eq_true_iff.1 hopening with h | h <;> rw [eq_of_beq h] <;> exact ⟨_, rfl⟩
  obtain ⟨closing, hclosing⟩ := hclosing
  exact (skipGroup_stays hclosing).bind fun _ m => (spanFrom_stays _).bind fun _ _ => .pure rfl

theorem namedParam_stays (rest : Bool) (c : Cursor) : Stays text behind (namedParam type rest) c := by
  unfold namedParam
  refine (paramName_stays c).bind fun name m => (eat_stays rfl).bind fun optional m => ?_
  refine .optional rfl htype fun type m => (eat_stays rfl).bind fun found m => .ite (fun _ => ?_) fun _ => ?_
  · exact (Contained.map (constExpr_stays m)).bind fun _ _ => .pure rfl
  · exact .pure rfl

theorem param_stays (c : Cursor) : Stays text behind (param type) c := by
  rw [param_eq]
  refine (eat_stays rfl).bind fun rest m => .isAt (.here (.ite (fun hword => ?_) fun _ => ?_))
  · have hkind : m.kind = .keyword .readonlyKw := eq_of_beq (Bool.and_eq_true_iff.1 hword).1
    exact (next_stays (by rw [hkind]; rfl)).bind fun _ m => namedParam_stays htype rest m
  · exact namedParam_stays htype rest m

theorem params_stays (c : Cursor) : Stays text behind (params type) c :=
  enclosed_stays rfl (by decide) (param_stays htype) c

theorem returnType_stays (c : Cursor) : Stays text behind (returnType type) c := by
  unfold returnType
  refine .here (.ite (fun hword => ?_) fun _ => htype c)
  have hkind : c.kindAt 1 = .identifier := by
    simp only [Bool.and_eq_true, beq_iff_eq] at hword
    exact hword.1.2
  refine ident_stays.bind_of_run fun param m hrun => ?_
  have hm : m.kind = .identifier := by
    rw [← hkind, ident_of_ok hrun, Cursor.kind, Cursor.kindAt_next]
  refine (next_stays (by rw [hm]; rfl)).bind fun _ m => (htype m).bind fun narrowed m => ?_
  exact (spanFrom_stays _).bind fun _ _ => .pure rfl

theorem signature_stays (c : Cursor) : Stays text behind (signature type) c := by
  unfold signature
  refine (typeParams_stays htype c).bind fun typeParams m => (params_stays htype m).bind fun params m => ?_
  exact .optional rfl (returnType_stays htype) fun returns m => .pure rfl

theorem indexRest_stays (c : Cursor) : Stays text behind (indexRest type) c := by
  unfold indexRest
  refine (discard_eat_stays rfl).bind fun _ m => (eat_stays rfl).bind fun _ m => ?_
  refine .ite (fun _ => ?_) fun _ => ?_
  · exact (Contained.map (htype m)).bind fun _ _ => .pure rfl
  · exact .pure rfl

theorem indexMember_stays (c : Cursor) : Stays text behind (indexMember type) c := by
  rw [indexMember_eq]
  refine (skipGroup_stays rfl).bind fun _ m => .isAt (.isAt (.ite (fun _ => ?_) fun _ => ?_))
  · exact (Contained.map (signature_stays htype m)).bind fun _ _ => .pure rfl
  refine .isAt (.isAt (.ite (fun hsign => ?_) fun _ => indexRest_stays htype m))
  have hkind : m.kind.isMiddle = true := by
    rcases Bool.or_eq_true_iff.1 hsign with h | h <;> rw [eq_of_beq h] <;> rfl
  exact (next_stays hkind).bind fun _ m => indexRest_stays htype m

theorem memberAfterName_stays (name : Ident) (optional readonly : Bool) (c : Cursor) :
    Stays text behind (memberAfterName type name optional readonly) c := by
  unfold memberAfterName
  refine .isAt (.isAt (.ite (fun _ => ?_) fun _ => ?_))
  · exact (signature_stays htype c).bind fun _ _ => .pure rfl
  · exact .optional rfl htype fun _ _ => .pure rfl

theorem memberFromName_stays (readonly : Bool) (c : Cursor) :
    Stays text behind (memberFromName type readonly) c := by
  unfold memberFromName
  refine propertyName_stays.bind fun name m => (eat_stays rfl).bind fun optional m => ?_
  refine .ite (fun _ => ?_) fun _ => memberAfterName_stays htype name optional readonly m
  exact (discard_eat_stays rfl).bind fun _ m => memberAfterName_stays htype name optional readonly m

theorem namedMember_stays (c : Cursor) : Stays text behind (namedMember type) c := by
  rw [namedMember_eq]
  refine .here (.ite (fun hword => ?_) fun _ => memberFromName_stays htype _ c)
  have hkind : c.kind = .keyword .readonlyKw := eq_of_beq (Bool.and_eq_true_iff.1 hword).1
  exact (next_stays (by rw [hkind]; rfl)).bind fun _ m => memberFromName_stays htype _ m

theorem memberShape_stays (c : Cursor) : Stays text behind (memberShape type) c := by
  have hsignature : ∀ (shape : Signature → MemberShape) m,
      Stays text behind (do return shape (← signature type)) m :=
    fun _ m => (signature_stays htype m).bind fun _ _ => .pure rfl
  unfold memberShape
  refine .here ?_
  split
  · exact indexMember_stays htype c
  · exact hsignature .call c
  · exact hsignature .call c
  · rename_i hkind
    refine .ite (fun _ => ?_) fun _ => namedMember_stays htype c
    exact (next_stays (by rw [hkind]; rfl)).bind fun _ m => hsignature .construct m
  · exact namedMember_stays htype c

end Parts

section Lists

variable {text : List Char} {behind : List Lexeme} {closers : List TokenKind} {c : Cursor}

/-- What closes the list of members that is read, if it is not the one around the semicolon. -/
def ClosesList (closers : List TokenKind) : Prop := ∀ kind ∈ closers.head?, kind = .closeBrace

theorem ClosesList.nil : ClosesList [] := fun _ hkind => by cases hkind

/-- After an error the recovery stays in the list, unless it is the list around the semicolon, which may
be read as well. -/
theorem recover_strays (hlist : ClosesList closers) (h : Strays text behind closers c) :
    ∃ d, recover .closeBrace c = .ok () d ∧ d.errors = c.errors
      ∧ (Strays text behind closers d ∨ closers = [] ∧ Crossed behind d) := by
  obtain ⟨inner, hinner, h⟩ := h
  rw [recover_eq]
  by_cases hzero : balancedLength 0 c.rest = 0
  · rw [if_pos hzero]
    by_cases hclosing : c.kind = .closeBrace ∨ c.kind = .endOfFile
    · rw [if_pos hclosing]
      exact ⟨c, rfl, rfl, .inl ⟨inner, hinner, h⟩⟩
    rw [if_neg hclosing]
    -- A delimiter that closes a group inside the list is passed over.
    have hclose : c.kind.isClose = true := by
      obtain ⟨lexeme, hrest, hkind⟩ := Cursor.rest_of_kind h.kind_ne_endOfFile
      refine eq_true_of_ne_false fun hclose => ?_
      have hpos := balancedLength_pos 0 c.next.rest (hkind ▸ hclose)
      rw [← hrest, hzero] at hpos
      exact Nat.lt_irrefl 0 hpos
    obtain ⟨outer, heq, hnext⟩ := h.next_closing hclose
    refine ⟨c.next, rfl, c.errors_next, .inl ?_⟩
    cases inner with
    | nil =>
      rw [List.nil_append] at heq
      exact absurd (.inl (hlist _ (heq ▸ rfl))) hclosing
    | cons innermost inner =>
      obtain ⟨-, rfl⟩ := List.cons.inj heq
      exact ⟨inner, fun hmem => hinner (List.mem_cons_of_mem _ hmem), hnext⟩
  · rw [if_neg hzero]
    refine ⟨_, rfl, c.errors_skip _, ?_⟩
    have hgroups : Inside text behind ([] ++ (inner ++ closers)) c := h
    rcases hgroups.skip_balanced with hskip | ⟨hnil, hcrossed⟩
    · exact .inl ⟨inner, hinner, hskip⟩
    · exact .inr ⟨(List.append_eq_nil_iff.1 hnil).2, hcrossed⟩

variable {type : Parse TypeExpr} (htype : ∀ c, Stays text behind type c)
include htype

/-- A member may end with the semicolon, if no group is open. -/
theorem member_contained (h : Inside text behind closers c) :
    (∃ shape d, member type c = .ok shape d
      ∧ (Inside text behind closers d ∨ closers = [] ∧ Crossed behind d))
      ∨ ∃ error d, member type c = .error error d ∧ Strays text behind closers d := by
  have hmember : member type c = (memberShape type >>= fun shape => do
      unless ← eat .semicolon do discard (eat .comma)
      return (⟨shape, ← spanFrom c.start, c.comments⟩ : Member)) c := rfl
  have hshape := memberShape_stays htype c closers h
  cases hrun : memberShape type c with
  | error error d =>
    rw [hrun] at hshape
    exact .inr ⟨error, d, hmember.trans (bind_of_error hrun), hshape⟩
  | ok shape m =>
    rw [hrun] at hshape
    change Inside text behind closers m at hshape
    left
    by_cases hsemicolon : m.kind = .semicolon
    · refine ⟨_, m.next, member_of_shape hrun hsemicolon, ?_⟩
      rcases hshape.next_cases with ⟨hnil, -, hcrossed⟩ | ⟨between, hbehind, hnext⟩
      · exact .inr ⟨hnil, hcrossed⟩
      · rw [hsemicolon, awaitedBehind_plain rfl rfl] at hbehind
        obtain rfl := Option.some.inj hbehind
        exact .inl hnext
    · have hexpect : Inside text behind closers (m.expect [.semicolon]) := hshape.of_rest rfl
      obtain ⟨d, hcomma, hd⟩ : ∃ d, discard (eat .comma) (m.expect [.semicolon]) = .ok () d
          ∧ Inside text behind closers d := by
        by_cases hkind : (m.expect [.semicolon]).kind = .comma
        · exact ⟨_, map_eq_ok_iff.2 ⟨true, eat_of_kind hkind, rfl⟩, hexpect.next_middle (by rw [hkind]; rfl)⟩
        · exact ⟨_, map_eq_ok_iff.2 ⟨false, eat_of_ne hkind, rfl⟩, hexpect.of_rest rfl⟩
      refine ⟨⟨shape, ⟨c.start, max d.lastEnd c.start⟩, c.comments⟩, d, ?_, .inl hd⟩
      rw [hmember, bind_of_ok hrun, bind_of_ok (eat_of_ne hsemicolon)]
      show (discard (eat .comma) >>= _) (m.expect [.semicolon]) = _
      rw [bind_of_ok hcomma]
      rfl

/-- A step does not fail. It is the last at the brace that closes the list, and if it goes on it stays in
the list, unless it is the list around the semicolon, which may be read as well. -/
theorem memberStep_contained (hlist : ClosesList closers) (h : Strays text behind closers c)
    (members : List Member) : ∃ result d, memberStep type members c = .ok result d ∧ match result with
      | .inl members' => (∃ more, members' = members ++ more)
        ∧ (Strays text behind closers d ∨ closers = [] ∧ Crossed behind d)
      | .inr members' => members' = members
        ∧ ∃ outer, closers = .closeBrace :: outer ∧ Inside text behind outer d := by
  obtain ⟨inner, hinner, h⟩ := h
  by_cases hclosing : c.kind = .closeBrace
  · refine ⟨.inr members, c.next, memberStep_of_closing hclosing, rfl, ?_⟩
    obtain ⟨outer, heq, hnext⟩ := h.next_closing (by rw [hclosing]; rfl)
    -- No group inside the list is between braces, so this is the brace of the list.
    cases inner with
    | nil => exact ⟨outer, by rwa [hclosing] at heq, hnext⟩
    | cons innermost inner =>
      obtain ⟨rfl, -⟩ := List.cons.inj heq
      rw [hclosing] at hinner
      exact absurd List.mem_cons_self hinner
  have hexpect : Inside text behind (inner ++ closers) (c.expect [.closeBrace]) := h.of_rest rfl
  rcases member_contained htype hexpect with ⟨value, d, hrun, hd⟩ | ⟨error, d, hrun, hd⟩
  · refine ⟨_, d, memberStep_of_member hclosing h.kind_ne_endOfFile hrun, ⟨[value], rfl⟩, ?_⟩
    rcases hd with hd | ⟨hnil, hcrossed⟩
    · exact .inl ⟨inner, hinner, hd⟩
    · exact .inr ⟨(List.append_eq_nil_iff.1 hnil).2, hcrossed⟩
  · have hreport : Strays text behind closers (d.report error) := (hd.outside hinner).of_rest rfl
    obtain ⟨e, hrecover, -, he⟩ := recover_strays hlist hreport
    refine ⟨.inl members, e, ?_, ⟨[], (List.append_nil _).symm⟩, he⟩
    rw [memberStep_of_error hclosing h.kind_ne_endOfFile hrun,
      bind_of_ok (rfl : report error d = .ok () (d.report error)), bind_of_ok hrecover]
    rfl

omit htype in
/-- A step that goes on has taken a lexeme. -/
theorem size_of_memberStep (htakes : ∀ m, Takes ⟨[], []⟩ (fun type xs => Fills type.outline xs) type type m)
    {members members' : List Member} {d : Cursor} (h : memberStep type members c = .ok (.inl members') d) :
    d.size < c.size := by
  obtain ⟨xs, htook⟩ := (memberStep_takes (n := c.size) (fun m _ => htakes m) (Nat.le_refl c.size)
    (adds_nil members)).ok _ d h
  exact htook.reads.size_lt htook.related.1

/-- A list of members between braces does not fail, and ends with its own brace. -/
theorem members_stays (htakes : ∀ m, Takes ⟨[], []⟩ (fun type xs => Fills type.outline xs) type type m)
    (c : Cursor) : Stays text behind (members type) c := by
  rw [members_eq]
  refine (expect_contained_of_opening rfl).bind fun _ m outer hm => ?_
  have hlist : ClosesList ([.closeBrace] ++ outer) := by
    intro kind hkind
    exact (Option.some.inj hkind).symm
  have hlast : ∀ (members : List Member) (c : Cursor), Strays text behind ([.closeBrace] ++ outer) c →
      ∃ members' d, repeatFrom (memberStep type) members c = .ok members' d
        ∧ Inside text behind outer d := by
    intro members c hc
    generalize hn : c.size = n
    induction n using Nat.strongRecOn generalizing members c with
    | ind n ih =>
      obtain ⟨result, d, hstep, hresult⟩ := memberStep_contained htype hlist hc members
      cases result with
      | inr members' =>
        obtain ⟨-, outer', heq, hd⟩ := hresult
        obtain ⟨-, rfl⟩ := List.cons.inj heq
        exact ⟨members', d, repeatFrom_of_inr hstep, hd⟩
      | inl members' =>
        have hlt := size_of_memberStep htakes hstep
        rw [repeatFrom_of_inl hstep hlt]
        rcases hresult.2 with hd | ⟨hnil, -⟩
        · exact ih d.size (hn ▸ hlt) members' d hd rfl
        · cases hnil
  obtain ⟨members, d, hrun, hd⟩ := hlast [] m hm.strays
  rw [hrun]
  exact hd

end Lists

section Types

variable {text : List Char} {behind : List Lexeme} {c : Cursor} {type suffixed : Parse TypeExpr}

theorem tupleElement_stays (htype : ∀ c, Stays text behind type c) (c : Cursor) :
    Stays text behind (tupleElement type) c := by
  have helement : ∀ m, Stays text behind (unlabeledElement type) m := by
    intro m
    unfold unlabeledElement
    exact (htype m).bind fun element m => (discard_eat_stays rfl).bind fun _ _ => .pure rfl
  rw [tupleElement_eq]
  refine (discard_eat_stays rfl).bind fun _ m => .here (.ite (fun hlabel => ?_) fun _ => helement m)
  have hname : m.kind.isName = true := (Bool.and_eq_true_iff.1 hlabel).1
  refine (next_stays (TokenKind.isMiddle_of_isName hname)).bind fun _ m => ?_
  exact (discard_eat_stays rfl).bind fun _ m => (expect_stays rfl).bind fun _ m => helement m

theorem placed_stays {shape : TypeShape} (start : Nat) (c : Cursor) :
    Stays text behind (do return (⟨shape, ← spanFrom start⟩ : TypeExpr)) c :=
  (spanFrom_stays start).bind fun _ _ => .pure rfl

variable (htype : ∀ c, Stays text behind type c) (hsuffixed : ∀ c, Stays text behind suffixed c)
  (hmembers : ∀ c, Stays text behind (members type) c)

include htype in
theorem functionType_stays (isConstructor : Bool) (c : Cursor) :
    Stays text behind (functionType type isConstructor) c := by
  have hfrom : ∀ start m, Stays text behind (functionFrom type isConstructor start) m := by
    intro start m
    unfold functionFrom
    refine (typeParams_stays htype m).bind fun typeParams m => (params_stays htype m).bind fun params m => ?_
    refine (expect_stays rfl).bind fun _ m => (returnType_stays htype m).bind fun returns m => ?_
    exact placed_stays start m
  rw [functionType_eq]
  refine .here (.ite (fun _ => ?_) fun _ => hfrom _ c)
  exact (expect_stays rfl).bind fun _ m => hfrom _ m

include htype in
theorem namedType_stays (hkind : c.kind = .identifier) : Stays text behind (namedType type) c := by
  have hreference : Stays text behind (namedType.reference type) c := by
    unfold namedType.reference
    exact entityName_stays.bind fun name m => (typeArgs_stays htype m).bind fun _ _ => .pure rfl
  have hleaf : ∀ shape : TypeShape, Stays text behind (do next; return shape) c :=
    fun shape => (next_stays (by rw [hkind]; rfl)).bind fun _ _ => .pure rfl
  unfold namedType
  refine .here (.ite (fun _ => hleaf _) fun _ => ?_)
  split
  · exact .ite (fun _ => hreference) fun _ => hleaf _
  · exact hreference

include htype hsuffixed hmembers in
theorem primaryShape_stays (c : Cursor) : Stays text behind (primaryShape type suffixed c) c := by
  have hmissing : Stays text behind primaryType.missing c := contained_of_error rfl rfl .nil
  have hleaf : ∀ shape : TypeShape, c.kind.isMiddle = true → Stays text behind (do next; return shape) c :=
    fun shape hkind => (next_stays hkind).bind fun _ _ => .pure rfl
  unfold primaryShape
  split
  · rename_i hkind
    refine (next_contained_of_opening (by rw [hkind]; rfl)).bind fun _ m => ?_
    refine ((htype m).within (unbraced_singleton (by decide))).bind fun inner m => ?_
    exact (expect_contained_of_closing rfl (by decide)).bind fun _ _ => .pure rfl
  · exact .map (hmembers c)
  · have helements : Stays text behind (enclosed .openBracket (tupleElement type) .closeBracket) c :=
      enclosed_stays rfl (by decide) (tupleElement_stays htype) c
    exact .map helements
  · rename_i hkind
    exact hleaf _ (by rw [hkind]; rfl)
  · rename_i hkind
    exact hleaf _ (by rw [hkind]; rfl)
  · rename_i hkind
    exact hleaf _ (by rw [hkind]; rfl)
  · rename_i hkind
    refine .ite (fun hnumber => ?_) fun _ => hmissing
    refine (skip_stays fun i hi => ?_).bind fun _ _ => .pure rfl
    match i, hi with
    | 0, _ =>
      show c.kind.isMiddle = true
      rw [hkind]
      rfl
    | 1, _ =>
      rw [eq_of_beq hnumber]
      rfl
  · rename_i hkind
    exact hleaf _ (by rw [hkind]; rfl)
  · rename_i hkind
    exact (next_stays (by rw [hkind]; rfl)).bind fun _ m => .map entityName_stays
  · rename_i hkind
    exact (next_stays (by rw [hkind]; rfl)).bind fun _ m => .map (hsuffixed m)
  · rename_i hkind
    exact (next_stays (by rw [hkind]; rfl)).bind fun _ m => .map (hsuffixed m)
  · rename_i hkind
    exact namedType_stays htype hkind
  · exact hmissing

include htype hsuffixed hmembers in
theorem primaryType_stays (c : Cursor) : Stays text behind (primaryType type suffixed) c := by
  rw [primaryType_eq]
  exact .here ((primaryShape_stays htype hsuffixed hmembers c).bind fun _ m => placed_stays c.start m)

include htype in
theorem suffixStep_stays (start : Nat) (object : TypeExpr) (c : Cursor) :
    Contained text behind [] (Sum.elim (fun _ => []) fun _ => []) (suffixStep type start object) c := by
  have hplaced : ∀ (shape : TypeShape) m,
      Contained text behind [] (Sum.elim (fun _ => []) fun _ => [])
        (do return (.inl (⟨shape, ← spanFrom start⟩ : TypeExpr) : TypeExpr ⊕ TypeExpr)) m :=
    fun shape m => (spanFrom_stays start).bind fun _ _ => .pure rfl
  unfold suffixStep
  refine .here (.ite (fun hopening => ?_) fun _ => .pure rfl)
  have hkind : c.kind = .openBracket := eq_of_beq (Bool.and_eq_true_iff.1 hopening).1
  refine (next_contained_of_opening (by rw [hkind]; rfl)).bind fun _ m => ?_
  refine (eat_contained_of_closing rfl).bind fun found m => ?_
  cases found
  · refine ((htype m).within (unbraced_singleton (by decide))).bind fun index m => ?_
    exact (expect_contained_of_closing rfl (by decide)).bind fun _ m => hplaced _ m
  · exact hplaced _ m

include htype hsuffixed hmembers in
theorem suffixedType_stays (c : Cursor) : Stays text behind (suffixedType type suffixed) c := by
  rw [suffixedType_eq]
  refine .here ((primaryType_stays htype hsuffixed hmembers c).bind fun primary m => ?_)
  exact repeatFrom_contained .nil (suffixStep_stays htype c.start) primary m

theorem operands_stays {operator : TokenKind} {combine : List TypeExpr → TypeShape} {part : Parse TypeExpr}
    (hoperator : operator.isMiddle = true) (hpart : ∀ c, Stays text behind part c) (c : Cursor) :
    Stays text behind (operands operator combine part) c := by
  have hstep : ∀ parts c, Contained text behind [] (Sum.elim (fun _ => []) fun _ => [])
      (operandStep operator part parts) c := by
    intro parts c
    unfold operandStep
    refine (eat_stays hoperator).bind fun _ m => .ite (fun _ => ?_) fun _ => .pure rfl
    exact (hpart m).bind fun _ _ => .pure rfl
  rw [operands_eq]
  refine .here ((eat_stays hoperator).bind fun _ m => (hpart m).bind fun first m => ?_)
  refine .isAt (.ite (fun _ => .pure rfl) fun _ => ?_)
  exact (repeatFrom_contained .nil hstep [first] m).bind fun parts m => placed_stays _ m

include htype in
theorem functionOr_stays {other : Parse TypeExpr} (hother : ∀ c, Stays text behind other c) (c : Cursor) :
    Stays text behind (functionOr type other) c :=
  .here (.ite (fun _ => functionType_stays htype false c) fun _ => hother c)

include htype hsuffixed hmembers

theorem intersectionType_stays (c : Cursor) : Stays text behind (intersectionType type suffixed) c :=
  operands_stays rfl (functionOr_stays htype (suffixedType_stays htype hsuffixed hmembers)) c

theorem unionType_stays (c : Cursor) : Stays text behind (unionType type suffixed) c :=
  operands_stays rfl (functionOr_stays htype (intersectionType_stays htype hsuffixed hmembers)) c

theorem wholeType_stays (c : Cursor) : Stays text behind (wholeType type suffixed) c := by
  unfold wholeType
  refine .here (.ite (fun _ => functionType_stays htype false c) fun _ => ?_)
  exact .ite (fun _ => functionType_stays htype true c) fun _ => unionType_stays htype hsuffixed hmembers c

omit htype hsuffixed hmembers in
theorem typeAt_stays (level : TypeLevel) (c : Cursor) : Stays text behind (typeAt level) c := by
  refine fix_stays (fun n hcall level c => ?_) level c
  -- The calls take lexemes before they come to a value, so a list of members comes to its end.
  have htakes : ∀ m, Takes ⟨[], []⟩ (fun type xs => Fills type.outline xs) (below n (typeAt .whole))
      (below n (typeAt .whole)) m := by
    intro m
    by_cases hlt : m.size < n
    · have hsize : (m.extend ⟨[], []⟩).size < n := by rwa [Cursor.size_extend]
      exact typeExpr_takes.congr (below_of_lt hlt) (below_of_lt hlt) (below_of_lt hsize)
    · exact takes_of_error (below_of_not_lt hlt) rfl (.nil m)
  have hmembers := members_stays (hcall .whole) htakes
  cases level with
  | whole => exact wholeType_stays (hcall .whole) (hcall .suffixed) hmembers c
  | suffixed => exact suffixedType_stays (hcall .whole) (hcall .suffixed) hmembers c

omit htype hsuffixed hmembers in
theorem typeExpr_stays (c : Cursor) : Stays text behind typeExpr c := typeAt_stays .whole c

end Types

end NodeFactory
