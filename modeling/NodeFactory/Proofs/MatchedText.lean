import NodeFactory.Proofs.ParseProgress
import NodeFactory.Proofs.SkippedRuns
import NodeFactory.Proofs.TypeText

/-!
# Texts whose delimiters match

In a text without errors the delimiters are matched by kind just if those within each skipped node are
(`matched_iff_within_skipped`): wherever something is read, the grammar looks for the delimiter that
closes what it has opened, and what is skipped is made up of groups, whatever delimiters they have.
-/

namespace NodeFactory

open Parse Text

section Names

variable {text : List Char} {opened : List TokenKind} {c : Cursor}

/-- Nothing is skipped, and the value has no skipped nodes. -/
def Whole {α : Type} [Outlined α] (value : α) (spans : List Span) : Prop :=
  spans = [] ∧ Leaves value []

theorem Whole.leaves {α : Type} [Outlined α] {value : α} {spans : List Span} (h : Whole value spans) :
    Leaves value spans := h.1 ▸ h.2

theorem leaves_ident (ident : Ident) :
    Leaves ident (if ident.name = "" then [ident.span] else []) := by
  unfold Leaves
  rw [outlines_ident, Ident.outline, Outline.skippedIn_node]
  simp [Outline.isSkipped]

theorem whole_ident {ident : Ident} (h : ident.name ≠ "") : Whole ident [] := by
  have hleaves := leaves_ident ident
  rw [if_neg h] at hleaves
  exact ⟨rfl, hleaves⟩

theorem TokenKind.isDelimiter_of_isName {kind : TokenKind} (h : kind.isName = true) :
    kind.isDelimiter = false := TokenKind.isDelimiter_of_isPlain (TokenKind.isPlain_of_isName h)

theorem ident_weaves : Balances text Whole ident c := by
  intro opened ident d hrun hclean
  obtain ⟨_, htook⟩ := (ident_takes (s := ⟨[], []⟩)).ok ident d hrun
  obtain ⟨lexeme, rfl, hname, rfl⟩ := htook.related
  refine ⟨htook.errors hclean, [lexeme], htook.reads, fun hc => ⟨[], whole_ident ?_, .plain ?_⟩⟩
  · have hmem := hc.mem lexeme (htook.reads.rest ▸ List.mem_cons_self)
    have htext : lexeme.text ≠ [] := Token.text_ne_nil (Lexeme.token_mem hmem)
    simpa using htext
  · exact TokenKind.isDelimiter_of_isName hname

/-- A name that is one lexeme is a skipped node if it is empty. -/
theorem name_weaves {A : Parse Ident} {ident : Ident} {lexeme : Lexeme} (hrun : A c = .ok ident c.next)
    (hrest : c.rest = lexeme :: c.next.rest) (hspan : ident.span = lexeme.span)
    (hkind : lexeme.kind.isDelimiter = false) : Balances text Leaves A c := by
  intro opened
  refine weaves_of_ok hrun (Cursor.reads_next hrest) c.errors_next fun hc => ⟨_, leaves_ident ident, ?_⟩
  split
  · obtain ⟨before, hbefore⟩ := hc
    have htext : lexemesOf text = before ++ c.rest := hbefore.rest
    have hcovers : Covers ident.span [lexeme] := by
      refine ⟨⟨lexeme, List.mem_singleton_self _, ?_⟩, ⟨lexeme, rfl, ?_⟩, fun other hmem => ?_⟩
      · rw [hspan]
      · rw [hspan]
      · rw [List.mem_singleton.1 hmem, hspan]
        exact ⟨Nat.le_refl _, Nat.le_refl _⟩
    exact ((Woven.plain hkind).covered (lexemesWithin_of_covers (hrest ▸ htext) hcovers)).within opened
  · exact .plain hkind

theorem propertyName_weaves : Balances text Leaves propertyName c := by
  have hident : Balances text Leaves ident c := fun opened =>
    (ident_weaves opened).mono fun _ _ h => h.leaves
  cases hpeek : c.peek? 0 with
  | none =>
    intro opened
    unfold propertyName
    refine .here ?_
    rw [hpeek]
    exact hident opened
  | some lexeme =>
    have hrest := Cursor.rest_of_peek hpeek
    have hone : ∀ name, lexeme.kind.isDelimiter = false →
        Balances text Leaves (do next; return (⟨name, lexeme.span⟩ : Ident)) c :=
      fun name hkind => name_weaves rfl hrest rfl hkind
    intro opened
    unfold propertyName
    refine .here ?_
    rw [hpeek]
    dsimp only
    split
    · rename_i hkind
      exact hone _ (by rw [hkind]; rfl) opened
    · rename_i hkind
      exact hone _ (by rw [hkind]; rfl) opened
    · exact hident opened

/-- Where a string is next, it is read as a name without anything being skipped. -/
theorem stringName_weaves (h : c.kind = .string) : Balances text Plain propertyName c := by
  intro opened
  cases hpeek : c.peek? 0 with
  | none => simp [Cursor.kind, Cursor.kindAt, hpeek] at h
  | some lexeme =>
    have hkind : lexeme.kind = .string := by
      simpa [Cursor.kind, Cursor.kindAt, hpeek] using h
    unfold propertyName
    refine .here ?_
    rw [hpeek]
    dsimp only
    rw [hkind]
    exact (next_balances (by rw [h]; rfl) opened).seq fun _ _ => .pure rfl rfl

theorem whole_entityName {first : Ident} {rest : List Ident} (span : Span) (hfirst : Leaves first [])
    (hrest : Leaves rest []) : Whole (⟨first, rest, span⟩ : EntityName) [] := by
  refine ⟨rfl, ?_⟩
  unfold Leaves at hfirst hrest ⊢
  show Outline.skippedIn [.node .entityName span (outlines (first :: rest))] = []
  rw [Outline.skippedIn_node, if_neg (by simp [Outline.isSkipped]), outlines_cons,
    Outline.skippedIn_append, hfirst, hrest, List.nil_append]

theorem entityName_weaves : Balances text Whole entityName c := by
  intro opened
  unfold entityName
  refine .here ((ident_weaves opened).bind fun first m => ?_)
  have hparts : Weaves text opened (fun _ => opened) Whole (repeatFrom namePart []) m := by
    refine repeatFrom_weaves (P := Whole) (fun parts m => ?_) ⟨rfl, leaves_nil⟩ m
    refine .eat rfl fun found m => .ite (fun _ => ?_) fun _ => .pure rfl no_more
    refine (ident_weaves opened).bind fun ident m => .pure rfl ?_
    rintro _ ⟨rfl, hident⟩ _ ⟨rfl, hparts⟩
    exact ⟨rfl, leaves_more [] hident [] hparts⟩
  refine hparts.bind fun rest m => (spanFrom_balances _ opened).seq fun span m => .pure rfl ?_
  rintro _ ⟨rfl, hrest⟩ _ ⟨rfl, hfirst⟩
  exact whole_entityName span hfirst hrest

end Names

section Constants

variable {text : List Char} {c : Cursor}

theorem unaryOps_weaves : Balances text Plain unaryOps c := by
  intro opened
  unfold unaryOps
  refine repeatFrom_weaves (P := Plain) (fun ops m => .here ?_) (by rfl) c
  have hnext : ∀ op, m.kind.isDelimiter = false → Weaves text opened
      (Sum.elim (fun _ => opened) fun _ => opened)
      (fun result spans => ∀ base, Plain ops base → Sum.elim Plain Plain result (base ++ spans))
      (do next; return .inl (ops ++ [op]) : Parse (List UnaryOp ⊕ List UnaryOp)) m := by
    intro op hkind
    exact (next_balances hkind opened).seq fun _ _ => .pure rfl no_more
  split
  · rename_i hkind
    exact hnext _ (by rw [hkind]; rfl)
  · rename_i hkind
    exact hnext _ (by rw [hkind]; rfl)
  · rename_i hkind
    exact hnext _ (by rw [hkind]; rfl)
  · exact .pure rfl no_more

variable {nested : Parse ConstExpr} (hnested : ∀ c, Balances text Whole nested c)
include hnested

theorem constPrimary_weaves : Balances text Whole (constPrimary nested) c := by
  intro opened
  unfold constPrimary
  refine .here ?_
  split
  · rename_i hkind
    refine .here ?_
    split
    · exact (next_balances (by rw [hkind]; rfl) opened).seq fun _ _ => .pure rfl ⟨rfl, rfl⟩
    · exact .unexpected
  · rename_i hkind
    exact (stringName_weaves hkind opened).seq fun _ _ => .pure rfl ⟨rfl, rfl⟩
  · rename_i hkind
    refine (next_opens (by rw [hkind]; rfl)).seq fun _ m => (hnested m _).bind fun inner m => ?_
    exact (expect_closes_group rfl).seq fun _ m => .pure rfl no_more
  · exact (entityName_weaves opened).bind fun name m => .pure rfl no_more

theorem constOperand_weaves : Balances text Whole (constOperand nested) c := by
  intro opened
  unfold constOperand
  refine (unaryOps_weaves opened).seq fun ops m => (constPrimary_weaves hnested opened).bind
    fun primary m => .pure rfl ?_
  rintro spans ⟨rfl, hprimary⟩
  refine ⟨rfl, ?_⟩
  unfold Leaves at hprimary ⊢
  rwa [outlines_foldr_unary]

omit hnested in
theorem constExprAbove_weaves (level : Nat) (c : Cursor) : Balances text Whole (constExprAbove level) c := by
  refine fix_weaves (e := id) (K := fun _ => []) (R := fun _ => Whole)
    (fun call hcall level c opened => ?_) level c
  refine (constOperand_weaves (fun c outer => hcall 0 c outer) opened).bind fun left m => ?_
  refine (repeatFrom_collects (P := Whole) (fun left m => .here ?_) left m).mono
    fun value spans h base hleft => h base hleft
  cases hop : m.binaryOp? with
  | none => exact .pure rfl no_more
  | some found =>
    obtain ⟨op, length⟩ := found
    refine .ite (fun _ => .pure rfl no_more) fun _ => ?_
    have hplain : ∀ i < length, (m.kindAt i).isDelimiter = false := fun i hi =>
      TokenKind.isDelimiter_of_isPlain (isPlain_of_binaryOp? hop i hi)
    refine (skip_balances hplain opened).seq fun _ m => ?_
    refine (hcall op.precedence m opened).bind fun right m => .pure rfl ?_
    rintro _ ⟨rfl, hright⟩ _ ⟨rfl, hleft⟩
    refine ⟨rfl, ?_⟩
    unfold Leaves at hleft hright ⊢
    rw [outlines_binary, Outline.skippedIn_append, hleft, hright, List.nil_append]

omit hnested in
theorem constExpr_weaves (c : Cursor) : Balances text Whole constExpr c := constExprAbove_weaves 0 c

end Constants

section Members

variable {text : List Char} {type : Parse TypeExpr}

theorem varianceWords_weaves (c : Cursor) :
    Balances text Plain (repeatFrom (fun _ => varianceStep) ()) c := by
  intro opened
  refine repeatFrom_weaves (P := Plain) (fun _ m => ?_) (by rfl) c
  unfold varianceStep
  refine .here (.ite (fun hword => ?_) fun _ => .pure rfl no_more)
  refine (next_balances_of_text (fun hm => ?_) opened).seq fun _ _ =>
    .pure rfl no_more
  cases hpeek : m.peek? 0 with
  | none =>
    simp [Cursor.kind, Cursor.kindAt, hpeek, TokenKind.isDelimiter, TokenKind.isOpen, TokenKind.isClose]
  | some lexeme =>
    have hrest := Cursor.rest_of_peek hpeek
    rw [Cursor.kind_of_cons hrest]
    have hmem := hm.mem lexeme (hrest ▸ List.mem_cons_self)
    exact TokenKind.isDelimiter_of_isName
      (isName_of_isVarianceWord hword hpeek (allGenuine_lexemesOf text lexeme hmem))

variable (htype : ∀ c, Balances text Leaves type c)
include htype

theorem typeParam_weaves (c : Cursor) : Balances text Leaves (typeParam type) c := by
  intro opened
  unfold typeParam
  refine (varianceWords_weaves c opened).seq fun _ m => (ident_weaves opened).bind fun name m => ?_
  refine .optional rfl htype fun bound m => .optional rfl htype fun fallback m => .pure rfl ?_
  intro spans'' hfallback spans' hbound spans hname
  have hname := hname.leaves
  unfold Leaves at hname hbound hfallback ⊢
  rw [outlines_ident] at hname
  rw [outlines_typeParam, Outline.skippedIn_cons, Outline.skippedIn_append, hname, hbound, hfallback,
    List.append_nil]

theorem typeParams_weaves (c : Cursor) : Balances text Leaves (typeParams type) c := by
  intro opened
  unfold typeParams
  refine .isAt (.ite (fun _ => ?_) fun _ => .pure rfl leaves_nil)
  exact angled_weaves (typeParam_weaves htype) c opened

theorem typeArgs_weaves (c : Cursor) : Balances text Leaves (typeArgs type) c := by
  intro opened
  unfold typeArgs
  refine .isAt (.ite (fun _ => ?_) fun _ => .pure rfl leaves_nil)
  exact angled_weaves htype c opened

omit htype in
/-- A pattern is skipped, and is a name that is empty. -/
theorem paramName_weaves (c : Cursor) : Balances text Leaves paramName c := by
  intro opened
  unfold paramName
  refine .here (.ite (fun hopening => .here ?_) fun _ => (ident_weaves opened).mono fun _ _ h => h.leaves)
  have hopen : c.kind.isOpen = true := by
    rcases Bool.or_eq_true_iff.1 hopening with h | h <;> rw [eq_of_beq h] <;> rfl
  refine (skipGroup_weaves hopen).covered (fun _ place spans _ => .inl ?_) opened
  exact leaves_ident ⟨"", place⟩

theorem namedParam_weaves (rest : Bool) (c : Cursor) : Balances text Leaves (namedParam type rest) c := by
  intro opened
  unfold namedParam
  refine (paramName_weaves c opened).bind fun name m => .eat rfl fun optional m => ?_
  refine .optional rfl htype fun type m => .eat rfl fun _ m => ?_
  have hparam : ∀ spans', Leaves type spans' → ∀ spans, Leaves name spans →
      Leaves (⟨name, rest, optional, type⟩ : Param) (spans ++ (spans' ++ [])) := by
    intro spans' htype spans hname
    unfold Leaves at hname htype ⊢
    rw [outlines_ident] at hname
    rw [outlines_param, Outline.skippedIn_cons, hname, htype, List.append_nil]
  refine .ite (fun _ => ?_) fun _ => .pure rfl hparam
  have hdiscard : Weaves text opened (fun _ => opened) Plain (discard constExpr) m :=
    (constExpr_weaves m opened).map fun _ _ h => h.1
  exact hdiscard.seq fun _ m => .pure rfl hparam

theorem param_weaves (c : Cursor) : Balances text Leaves (param type) c := by
  intro opened
  rw [param_eq]
  refine .eat rfl fun rest m => .isAt (.here (.ite (fun hword => ?_) fun _ => ?_))
  · have hkind : m.kind = .keyword .readonlyKw := eq_of_beq (Bool.and_eq_true_iff.1 hword).1
    refine (next_balances (by rw [hkind]; rfl) opened).seq fun _ m => ?_
    exact namedParam_weaves htype rest m opened
  · exact namedParam_weaves htype rest m opened

theorem params_weaves (c : Cursor) : Balances text Leaves (params type) c :=
  enclosed_weaves rfl (param_weaves htype) c

omit htype in
theorem leaves_type {shape : TypeShape} {span : Span} {spans : List Span} :
    Leaves (⟨shape, span⟩ : TypeExpr) spans ↔ Leaves shape spans := by
  unfold Leaves
  rw [outlines_type, outline_type, Outline.skippedIn_node, if_neg (by simp [Outline.isSkipped])]

/-- The word of a predicate stands behind the name of its parameter. -/
theorem returnType_weaves (c : Cursor) : Balances text Leaves (returnType type) c := by
  intro opened
  unfold returnType
  refine .here (.ite (fun hword => ?_) fun _ => htype c opened)
  have hkind : c.kindAt 1 = .identifier := by
    simp only [Bool.and_eq_true, beq_iff_eq] at hword
    exact hword.1.2
  refine (ident_weaves opened).bind_of_run fun param m hrun => ?_
  have hm : m.kind = .identifier := by
    rw [← hkind, ident_of_ok hrun, Cursor.kind, Cursor.kindAt_next]
  refine (next_balances (by rw [hm]; rfl) opened).seq fun _ m => (htype m opened).bind fun narrowed m => ?_
  refine (spanFrom_balances _ opened).seq fun span m => .pure rfl fun spans' hnarrowed spans hparam => ?_
  have hparam := hparam.leaves
  rw [leaves_type]
  unfold Leaves at hparam hnarrowed ⊢
  rw [outlines_ident] at hparam
  rw [outlines_type] at hnarrowed
  rw [outlines_predicate, Outline.skippedIn_cons, hparam, hnarrowed, List.append_nil]

theorem signature_weaves (c : Cursor) : Balances text Leaves (signature type) c := by
  intro opened
  unfold signature
  refine (typeParams_weaves htype c opened).bind fun typeParams m => ?_
  refine (params_weaves htype m opened).bind fun params m => ?_
  refine .optional rfl (returnType_weaves htype) fun returns m => .pure rfl ?_
  intro spans'' hreturns spans' hparams spans htypeParams
  unfold Leaves at htypeParams hparams hreturns ⊢
  rw [outlines_signature, Outline.skippedIn_append, Outline.skippedIn_append, htypeParams, hparams, hreturns,
    List.append_nil, List.append_assoc]

omit htype in
/-- What has parts has the skipped nodes among them. -/
def Shows {α : Type} [Outlined α] (value : α) (spans : List Span) : Prop :=
  outlines value ≠ [] → Leaves value spans

theorem indexRest_weaves (c : Cursor) : Balances text (fun shape _ => shape = .index) (indexRest type) c := by
  intro opened
  unfold indexRest
  refine (eat_balances rfl opened).discard.then fun _ m => .eat rfl fun _ m => .ite (fun _ => ?_) fun _ => ?_
  · exact (htype m opened).discard.then fun _ _ => .pure rfl rfl
  · exact .pure rfl rfl

theorem indexMember_weaves (c : Cursor) :
    Weaves text [] (fun _ => []) (fun shape _ => shape = .index) (indexMember type) c := by
  rw [indexMember_eq]
  refine (skipGroup_weaves rfl).then fun _ m => .isAt (.isAt (.ite (fun _ => ?_) fun _ => ?_))
  · exact (signature_weaves htype m []).discard.then fun _ _ => .pure rfl rfl
  refine .isAt (.isAt (.ite (fun hsign => ?_) fun _ => indexRest_weaves htype m []))
  have hkind : m.kind.isDelimiter = false := by
    rcases Bool.or_eq_true_iff.1 hsign with h | h <;> rw [eq_of_beq h] <;> rfl
  exact (next_balances hkind []).then fun _ m => indexRest_weaves htype m []

theorem memberAfterName_weaves (name : Ident) (optional readonly : Bool) (c : Cursor) :
    Balances text (fun shape spans => ∀ base, Leaves name base → Leaves shape (base ++ spans))
      (memberAfterName type name optional readonly) c := by
  intro opened
  unfold memberAfterName
  refine .isAt (.isAt (.ite (fun _ => ?_) fun _ => ?_))
  · refine (signature_weaves htype c opened).bind fun signature m => .pure rfl ?_
    intro spans hsignature base hname
    unfold Leaves at hname hsignature ⊢
    rw [outlines_ident] at hname
    rw [outlines_method, Outline.skippedIn_cons, hname, hsignature, List.append_nil]
  · refine .optional rfl htype fun type m => .pure rfl fun spans htype base hname => ?_
    unfold Leaves at hname htype ⊢
    rw [outlines_ident] at hname
    rw [outlines_property, Outline.skippedIn_cons, hname, htype, List.append_nil]

theorem memberFromName_weaves (readonly : Bool) (c : Cursor) :
    Balances text Leaves (memberFromName type readonly) c := by
  intro opened
  unfold memberFromName
  refine (propertyName_weaves opened).bind fun name m => .eat rfl fun optional m => ?_
  refine .ite (fun _ => ?_) fun _ => ?_
  · exact (discard_eat_balances rfl opened).seq
      fun _ m => memberAfterName_weaves htype name optional readonly m opened
  · exact memberAfterName_weaves htype name optional readonly m opened

theorem namedMember_weaves (c : Cursor) : Balances text Leaves (namedMember type) c := by
  intro opened
  rw [namedMember_eq]
  refine .here (.ite (fun hword => ?_) fun _ => memberFromName_weaves htype _ c opened)
  have hkind : c.kind = .keyword .readonlyKw := eq_of_beq (Bool.and_eq_true_iff.1 hword).1
  exact (next_balances (by rw [hkind]; rfl) opened).seq fun _ m => memberFromName_weaves htype _ m opened

theorem memberShape_weaves (c : Cursor) :
    Weaves text [] (fun _ => []) Shows (memberShape type) c := by
  have hcall : Weaves text [] (fun _ => []) Shows (do return MemberShape.call (← signature type)) c :=
    (signature_weaves htype c []).bind fun signature m => .pure rfl fun spans hsignature _ => by
      rwa [List.append_nil]
  have hnamed : Weaves text [] (fun _ => []) Shows (namedMember type) c :=
    (namedMember_weaves htype c []).mono fun _ _ h _ => h
  unfold memberShape
  refine .here ?_
  split
  · exact (indexMember_weaves htype c).mono fun _ _ h hne => absurd (h ▸ rfl) hne
  · exact hcall
  · exact hcall
  · rename_i hkind
    refine .ite (fun _ => ?_) fun _ => hnamed
    refine (next_balances (by rw [hkind]; rfl) []).seq fun _ m => ?_
    exact (signature_weaves htype m []).bind fun signature m => .pure rfl fun spans hsignature _ => by
      rwa [List.append_nil]
  · exact hnamed

omit htype in
/-- A member with the separator after it. -/
def separatedShape (type : Parse TypeExpr) : Parse MemberShape := do
  let shape ← memberShape type
  unless ← eat .semicolon do discard (eat .comma)
  return shape

omit htype in
theorem member_eq_separated (type : Parse TypeExpr) : member type = (do
    let here ← cursor
    let shape ← separatedShape type
    return ⟨shape, ← spanFrom here.start, here.comments⟩) := by
  unfold member separatedShape
  simp only [bind_assoc]
  refine congrArg _ (funext fun here => congrArg _ (funext fun shape => congrArg _ (funext fun found => ?_)))
  cases found <;> simp

/-- Nothing is kept of a member without parts. -/
theorem member_weaves (c : Cursor) : Balances text Leaves (member type) c := by
  rw [member_eq_separated]
  have hshape : Weaves text [] (fun _ => []) Shows (separatedShape type) c := by
    unfold separatedShape
    refine (memberShape_weaves htype c).bind fun shape m => .eat rfl fun _ m => ?_
    have hdone : ∀ spans, Shows shape spans → Shows shape (spans ++ []) := no_more
    refine .ite (fun _ => .pure rfl hdone) fun _ => ?_
    exact (discard_eat_balances rfl []).seq fun _ m => .pure rfl hdone
  refine fun opened => .here (hshape.covered (fun shape place spans hshows => ?_) opened)
  unfold Leaves
  rw [outlines_member, outline_member, Outline.skippedIn_node]
  by_cases hparts : outlines shape = []
  · left
    rw [hparts]
    rfl
  · right
    rw [if_neg (by simpa [Outline.isSkipped] using hparts)]
    exact hshows hparts

theorem members_weaves (c : Cursor) : Balances text Leaves (members type) c := by
  intro opened
  rw [members_eq]
  refine (expect_opens rfl).seq fun _ m => ?_
  refine repeatFrom_weaves (P := Leaves) (fun members c => ?_) leaves_nil m
  unfold memberStep
  refine .eatClosing rfl (fun m => .pure rfl no_more) fun m => ?_
  refine .isAt (.ite (fun _ => ?_) fun _ => ?_)
  · intro _ _ hrun
    cases hrun
  · exact (member_weaves htype m _).attempt (fun member m => .pure rfl leaves_more)
      fun error m result d h => errors_of_reported h

theorem unlabeledElement_weaves (c : Cursor) : Balances text Leaves (unlabeledElement type) c := by
  intro opened
  unfold unlabeledElement
  refine (htype c opened).bind fun element m => (discard_eat_balances rfl opened).seq fun _ m => ?_
  exact .pure rfl no_more

theorem tupleElement_weaves (c : Cursor) : Balances text Leaves (tupleElement type) c := by
  intro opened
  rw [tupleElement_eq]
  refine (discard_eat_balances rfl opened).seq fun _ m => .here (.ite (fun hlabel => ?_) fun _ => ?_)
  · have hname : m.kind.isName = true := (Bool.and_eq_true_iff.1 hlabel).1
    refine (next_balances (TokenKind.isDelimiter_of_isName hname) opened).seq fun _ m => ?_
    refine (discard_eat_balances rfl opened).seq fun _ m => (expect_balances rfl opened).seq fun _ m => ?_
    exact unlabeledElement_weaves htype m opened
  · exact unlabeledElement_weaves htype m opened

end Members

section Types

variable {text : List Char} {type suffixed : Parse TypeExpr}

/-- A type has the skipped nodes of its shape. -/
theorem placed_weaves {shape : TypeShape} (start : Nat) (c : Cursor) : Balances text
    (fun t spans => ∀ base, Leaves shape base → Leaves t (base ++ spans))
    (do return (⟨shape, ← spanFrom start⟩ : TypeExpr)) c := fun opened =>
  (spanFrom_balances start opened).seq fun _ _ => .pure rfl fun base hshape => by
    rw [List.append_nil]
    exact leaves_type.2 hshape

variable (htype : ∀ c, Balances text Leaves type c) (hsuffixed : ∀ c, Balances text Leaves suffixed c)

include htype in
theorem functionFrom_weaves (isConstructor : Bool) (start : Nat) (c : Cursor) :
    Balances text Leaves (functionFrom type isConstructor start) c := by
  intro opened
  unfold functionFrom
  refine (typeParams_weaves htype c opened).bind fun typeParams m => ?_
  refine (params_weaves htype m opened).bind fun params m => (expect_balances rfl opened).seq fun _ m => ?_
  refine (returnType_weaves htype m opened).bind fun returns m => ?_
  refine (spanFrom_balances start opened).seq fun _ _ => .pure rfl ?_
  intro spans'' hreturns spans' hparams spans htypeParams
  rw [leaves_type]
  unfold Leaves at htypeParams hparams hreturns ⊢
  rw [outlines_function, outlines_signature, Outline.skippedIn_append, Outline.skippedIn_append,
    outlines_some, htypeParams, hparams, hreturns, List.append_nil, List.append_assoc]

include htype in
theorem functionType_weaves (isConstructor : Bool) (c : Cursor) :
    Balances text Leaves (functionType type isConstructor) c := by
  intro opened
  rw [functionType_eq]
  refine .here (.ite (fun _ => ?_) fun _ => functionFrom_weaves htype isConstructor _ c opened)
  exact (expect_balances rfl opened).seq fun _ m => functionFrom_weaves htype isConstructor _ m opened

include htype in
theorem namedType_weaves (hkind : c.kind = .identifier) : Balances text Leaves (namedType type) c := by
  intro opened
  have hreference : Weaves text opened (fun _ => opened) Leaves (namedType.reference type) c := by
    unfold namedType.reference
    refine (entityName_weaves opened).bind fun name m => ?_
    refine (typeArgs_weaves htype m opened).bind fun args m => ?_
    refine .pure rfl fun spans' hargs spans hname => ?_
    have hname := hname.leaves
    unfold Leaves at hname hargs ⊢
    rw [outlines_entityName] at hname
    rw [outlines_reference, Outline.skippedIn_cons, hname, hargs, List.append_nil]
  have hleaf : ∀ shape : TypeShape, outlines shape = [] →
      Weaves text opened (fun _ => opened) Leaves (do next; return shape) c := by
    intro shape hshape
    refine (next_balances (by rw [hkind]; rfl) opened).seq fun _ _ => .pure rfl ?_
    unfold Leaves
    rw [hshape, Outline.skippedIn_nil]
  unfold namedType
  refine .here (.ite (fun _ => hleaf _ rfl) fun _ => ?_)
  split
  · exact .ite (fun _ => hreference) fun _ => hleaf _ rfl
  · exact hreference

include htype hsuffixed in
theorem primaryShape_weaves (c : Cursor) : Balances text Leaves (primaryShape type suffixed c) c := by
  intro opened
  have hleaf : ∀ {shape : TypeShape} m, outlines shape = [] →
      Weaves text opened (fun _ => opened) Leaves (pure shape) m := by
    refine fun m hshape => .pure rfl ?_
    unfold Leaves
    rw [hshape, Outline.skippedIn_nil]
  have hmissing : Weaves text opened (fun _ => opened) Leaves primaryType.missing c := by
    intro _ _ hrun
    cases hrun
  unfold primaryShape
  split
  · rename_i hkind
    refine (next_opens (by rw [hkind]; rfl)).seq fun _ m => (htype m _).bind fun inner m => ?_
    refine (expect_closes_group rfl).seq fun _ m => .pure rfl fun spans hinner => ?_
    rwa [List.append_nil]
  · refine (members_weaves htype c opened).map fun members spans hmembers => ?_
    unfold Leaves at hmembers ⊢
    rwa [outlines_literal]
  · refine (enclosed_weaves rfl (tupleElement_weaves htype) c opened).map fun elements spans helements => ?_
    unfold Leaves at helements ⊢
    rwa [outlines_tuple]
  · rename_i hkind
    exact (next_balances (by rw [hkind]; rfl) opened).seq fun _ m => hleaf m rfl
  · rename_i hkind
    exact (next_balances (by rw [hkind]; rfl) opened).seq fun _ m => hleaf m rfl
  · rename_i hkind
    exact (next_balances (by rw [hkind]; rfl) opened).seq fun _ m => hleaf m rfl
  · rename_i hkind
    refine .ite (fun hnumber => ?_) fun _ => hmissing
    refine (skip_balances (fun i hi => ?_) opened).seq fun _ m => hleaf m rfl
    match i, hi with
    | 0, _ =>
      show c.kind.isDelimiter = false
      rw [hkind]
      rfl
    | 1, _ =>
      rw [eq_of_beq hnumber]
      rfl
  · rename_i hkind
    exact (next_balances (by rw [hkind]; rfl) opened).seq fun _ m => hleaf m rfl
  · rename_i hkind
    refine (next_balances (by rw [hkind]; rfl) opened).seq fun _ m => ?_
    exact (entityName_weaves opened).map fun _ _ hname => hname.leaves
  · rename_i hkind
    refine (next_balances (by rw [hkind]; rfl) opened).seq fun _ m => ?_
    exact (hsuffixed m opened).map fun _ _ ht => ht
  · rename_i hkind
    refine (next_balances (by rw [hkind]; rfl) opened).seq fun _ m => ?_
    exact (hsuffixed m opened).map fun ⟨_, _⟩ _ ht => leaves_type.1 ht
  · rename_i hkind
    exact namedType_weaves htype hkind opened
  · exact hmissing

include htype hsuffixed in
theorem primaryType_weaves (c : Cursor) : Balances text Leaves (primaryType type suffixed) c := by
  intro opened
  rw [primaryType_eq]
  exact .here ((primaryShape_weaves htype hsuffixed c opened).bind fun shape m =>
    placed_weaves c.start m opened)

include htype in
theorem suffixStep_weaves (start : Nat) (object : TypeExpr) (c : Cursor) (opened : List TokenKind) :
    Weaves text opened (Sum.elim (fun _ => opened) fun _ => opened)
      (fun result spans => ∀ base, Leaves object base → Sum.elim Leaves Leaves result (base ++ spans))
      (suffixStep type start object) c := by
  have hplaced : ∀ (shape : TypeShape) m, Weaves text opened (Sum.elim (fun _ => opened) fun _ => opened)
      (fun result spans => ∀ base, Leaves shape base → Sum.elim Leaves Leaves result (base ++ spans))
      (do return (.inl (⟨shape, ← spanFrom start⟩ : TypeExpr) : TypeExpr ⊕ TypeExpr)) m := by
    refine fun shape m => (spanFrom_balances start opened).seq fun _ _ => .pure rfl fun base hshape => ?_
    rw [List.append_nil]
    exact leaves_type.2 hshape
  unfold suffixStep
  refine .here (.ite (fun hopening => ?_) fun _ => .pure rfl no_more)
  have hkind : c.kind = .openBracket := eq_of_beq (Bool.and_eq_true_iff.1 hopening).1
  refine (next_opens (by rw [hkind]; rfl)).seq fun _ m => .eatClosing rfl (fun m => ?_) fun m => ?_
  · exact hplaced (.array object) m
  · refine (htype m _).bind fun index m => (expect_closes_group rfl).seq fun _ m => ?_
    refine (hplaced (.indexed object index) m).mono fun result spans h spans' hindex base hobject => ?_
    rw [← List.append_assoc]
    refine h _ ?_
    unfold Leaves at hobject hindex ⊢
    rw [outlines_type] at hobject hindex
    rw [outlines_indexed, Outline.skippedIn_cons, hobject, hindex]

include htype hsuffixed in
theorem suffixedType_weaves (c : Cursor) : Balances text Leaves (suffixedType type suffixed) c := by
  intro opened
  rw [suffixedType_eq]
  refine .here ((primaryType_weaves htype hsuffixed c opened).bind fun primary m => ?_)
  exact repeatFrom_collects (fun object m => suffixStep_weaves htype c.start object m opened) primary m

theorem operandStep_weaves {operator : TokenKind} {part : Parse TypeExpr}
    (hoperator : operator.isDelimiter = false) (hpart : ∀ c, Balances text Leaves part c)
    (parts : List TypeExpr) (c : Cursor) (opened : List TokenKind) :
    Weaves text opened (Sum.elim (fun _ => opened) fun _ => opened)
      (fun result spans => ∀ base, Leaves parts base → Sum.elim Leaves Leaves result (base ++ spans))
      (operandStep operator part parts) c := by
  unfold operandStep
  refine .eat hoperator fun _ m => .ite (fun _ => ?_) fun _ => ?_
  · exact (hpart m opened).bind fun part m => .pure rfl leaves_more
  · exact .pure rfl no_more

theorem operands_weaves {operator : TokenKind} {combine : List TypeExpr → TypeShape} {part : Parse TypeExpr}
    (hoperator : operator.isDelimiter = false)
    (hcombine : ∀ parts, outlines (combine parts) = outlines parts)
    (hpart : ∀ c, Balances text Leaves part c) (c : Cursor) :
    Balances text Leaves (operands operator combine part) c := by
  intro opened
  rw [operands_eq]
  refine .here (.eat hoperator fun _ m => (hpart m opened).bind fun first m => ?_)
  refine .isAt (.ite (fun _ => ?_) fun _ => ?_)
  · exact .pure rfl no_more
  have hsteps := repeatFrom_collects (fun parts m => operandStep_weaves hoperator hpart parts m opened)
  refine (hsteps [first] m).bind fun parts m => ?_
  refine (placed_weaves c.start m opened).mono fun t spans ht spans' hparts base hfirst => ?_
  rw [← List.append_assoc]
  refine ht _ ?_
  unfold Leaves at hparts ⊢
  rw [hcombine]
  exact hparts base (by rwa [outlines_cons, outlines_nil, List.append_nil])

include htype in
theorem functionOr_weaves {other : Parse TypeExpr} (hother : ∀ c, Balances text Leaves other c) (c : Cursor) :
    Balances text Leaves (functionOr type other) c := fun opened =>
  .here (.ite (fun _ => functionType_weaves htype false c opened) fun _ => hother c opened)

include htype hsuffixed

theorem intersectionType_weaves (c : Cursor) : Balances text Leaves (intersectionType type suffixed) c :=
  operands_weaves rfl outlines_intersection (functionOr_weaves htype (suffixedType_weaves htype hsuffixed)) c

theorem unionType_weaves (c : Cursor) : Balances text Leaves (unionType type suffixed) c :=
  operands_weaves rfl outlines_union (functionOr_weaves htype (intersectionType_weaves htype hsuffixed)) c

theorem wholeType_weaves (c : Cursor) : Balances text Leaves (wholeType type suffixed) c := by
  intro opened
  unfold wholeType
  refine .here (.ite (fun _ => functionType_weaves htype false c opened) fun _ => ?_)
  exact .ite (fun _ => functionType_weaves htype true c opened)
    fun _ => unionType_weaves htype hsuffixed c opened

omit htype hsuffixed in
theorem typeAt_weaves (level : TypeLevel) (c : Cursor) : Balances text Leaves (typeAt level) c := by
  refine fix_weaves (e := id) (K := fun _ => []) (R := fun _ => Leaves) (fun call hcall level c => ?_) level c
  cases level with
  | whole => exact wholeType_weaves (hcall .whole) (hcall .suffixed) c
  | suffixed => exact suffixedType_weaves (hcall .whole) (hcall .suffixed) c

omit htype hsuffixed in
theorem typeExpr_weaves (c : Cursor) : Balances text Leaves typeExpr c := typeAt_weaves .whole c

end Types

section Statements

variable {text : List Char}

theorem heritageType_weaves (c : Cursor) : Balances text Leaves heritageType c := by
  intro opened
  unfold heritageType
  refine .here ((entityName_weaves opened).bind fun name m => ?_)
  refine (typeArgs_weaves typeExpr_weaves m opened).bind fun args m => ?_
  refine (spanFrom_balances _ opened).seq fun span _ => .pure rfl fun spans' hargs spans hname => ?_
  have hname := hname.leaves
  unfold Leaves at hname hargs ⊢
  show Outline.skippedIn [.node .heritageType span (name.outline :: outlines args)] = _
  rw [outlines_entityName] at hname
  rw [Outline.skippedIn_node, if_neg (by simp [Outline.isSkipped]), Outline.skippedIn_cons, hname, hargs,
    List.append_nil]

theorem heritageWord_weaves (c : Cursor) : Balances text Plain heritageWord? c := by
  intro opened
  unfold heritageWord?
  refine .eat rfl fun _ m => .ite (fun _ => .pure rfl rfl) fun _ => .eat rfl fun _ m => ?_
  exact .ite (fun _ => .pure rfl rfl) fun _ => .pure rfl rfl

theorem heritage_weaves (c : Cursor) : Balances text Leaves heritage c := by
  intro opened
  unfold heritage
  refine repeatFrom_weaves (P := Leaves) (fun clauses c => ?_) leaves_nil c
  refine .here ((heritageWord_weaves c opened).seq fun word m => ?_)
  cases word with
  | none => exact .pure rfl no_more
  | some word =>
    refine (separated_weaves heritageType_weaves m opened).bind fun types m => ?_
    refine (spanFrom_balances _ opened).seq fun span _ => .pure rfl fun spans htypes => ?_
    refine leaves_more spans ?_
    unfold Leaves at htypes ⊢
    show Outline.skippedIn [.node .heritageClause span (outlines types)] = _
    rw [Outline.skippedIn_node, if_neg (by simp [Outline.isSkipped]), htypes]

theorem interfaceDecl_weaves (c : Cursor) : Balances text Leaves interfaceDecl c := by
  intro opened
  unfold interfaceDecl
  refine (expect_balances rfl opened).seq fun _ m => (ident_weaves opened).bind fun name m => ?_
  refine (typeParams_weaves typeExpr_weaves m opened).bind fun typeParams m => ?_
  refine (heritage_weaves m opened).bind fun heritage m => ?_
  refine (members_weaves typeExpr_weaves m opened).bind fun members m => .pure rfl ?_
  intro spans' hmembers spans'' hheritage spans' htypeParams spans hname
  have hname := hname.leaves
  unfold Leaves at hname htypeParams hheritage hmembers ⊢
  rw [outlines_ident] at hname
  rw [outlines_interface, Outline.skippedIn_cons, Outline.skippedIn_append, Outline.skippedIn_append, hname,
    htypeParams, hheritage, hmembers, List.append_nil, List.append_assoc]

theorem aliasDecl_weaves (c : Cursor) : Balances text Leaves aliasDecl c := by
  intro opened
  unfold aliasDecl
  refine (expect_balances rfl opened).seq fun _ m => (ident_weaves opened).bind fun name m => ?_
  refine (typeParams_weaves typeExpr_weaves m opened).bind fun typeParams m => ?_
  refine (expect_balances rfl opened).seq fun _ m => (typeExpr_weaves m opened).bind fun type m => ?_
  refine (discard_eat_balances rfl opened).seq fun _ m => .pure rfl ?_
  intro spans'' htype spans' htypeParams spans hname
  have hname := hname.leaves
  unfold Leaves at hname htypeParams htype ⊢
  rw [outlines_ident] at hname
  rw [outlines_typeAlias, Outline.skippedIn_cons, Outline.skippedIn_append, hname, htypeParams, htype,
    List.append_nil]

theorem enumMember_weaves (c : Cursor) : Balances text Leaves enumMember c := by
  intro opened
  unfold enumMember
  refine .here ((propertyName_weaves opened).bind fun name m => ?_)
  have hvalue : ∀ m, Balances text Leaves constExpr m := fun m opened =>
    (constExpr_weaves m opened).mono fun _ _ h => h.leaves
  refine .optional rfl hvalue fun value m => (spanFrom_balances _ opened).seq fun span _ => .pure rfl ?_
  intro spans' hvalue spans hname
  unfold Leaves at hname hvalue ⊢
  show Outline.skippedIn [.node (.enumMember c.comments) span (name.outline :: outlines value)] = _
  rw [outlines_ident] at hname
  rw [Outline.skippedIn_node, if_neg (by simp [Outline.isSkipped]), Outline.skippedIn_cons, hname, hvalue,
    List.append_nil]

theorem enumDecl_weaves (isConst : Bool) (c : Cursor) : Balances text Leaves (enumDecl isConst) c := by
  intro opened
  rw [enumDecl_eq]
  refine (expect_balances rfl opened).seq fun _ m => (ident_weaves opened).bind fun name m => ?_
  refine (expect_opens rfl).seq fun _ m => ?_
  have hmembers : Weaves text (.closeBrace :: opened) (fun _ => opened) Leaves
      (repeatFrom enumStep []) m := by
    refine repeatFrom_weaves (P := Leaves) (fun members c => ?_) leaves_nil m
    unfold enumStep
    refine .eatClosing rfl (fun m => .pure rfl no_more) fun m => ?_
    refine (enumMember_weaves m _).bind fun member m => .eat rfl fun _ m => .ite (fun _ => ?_) fun _ => ?_
    · exact .pure rfl leaves_more
    · exact (expect_closes_group rfl).seq fun _ m => .pure rfl leaves_more
  refine hmembers.bind fun members m => .pure rfl fun spans' hmembers spans hname => ?_
  have hname := hname.leaves
  unfold Leaves at hname hmembers ⊢
  rw [outlines_ident] at hname
  rw [outlines_enum, Outline.skippedIn_cons, hname, hmembers, List.append_nil]

theorem modifiers_weaves (c : Cursor) : Balances text Plain modifiers c := by
  intro opened
  rw [modifiers_eq]
  refine repeatFrom_weaves (P := Plain) (fun isConst m => ?_) (by rfl) c
  have hnext : ∀ word isConst', m.kind = .keyword word → Weaves text opened
      (Sum.elim (fun _ => opened) fun _ => opened)
      (fun result spans => ∀ base, Plain isConst base → Sum.elim Plain Plain result (base ++ spans))
      (do next; return .inl isConst' : Parse (Bool ⊕ Bool)) m := by
    intro word isConst' hkind
    exact (next_balances (by rw [hkind]; rfl) opened).seq fun _ _ => .pure rfl no_more
  unfold modifierStep
  refine .here ?_
  split
  · rename_i hkind
    exact hnext _ _ hkind
  · rename_i hkind
    exact hnext _ _ hkind
  · rename_i hkind
    exact hnext _ _ hkind
  · rename_i hkind
    exact hnext _ _ hkind
  · rename_i hkind
    exact .ite (fun _ => hnext _ _ hkind) fun _ => .pure rfl no_more
  · exact .pure rfl no_more

/-- A declaration has the skipped nodes of its parts, if it has any, wherever it is placed. -/
def ShowsPlaced (make : Placement → Statement) (spans : List Span) : Prop :=
  ∃ parts, (∀ place, (make place).outline = place.outline parts)
    ∧ (parts ≠ [] → Outline.skippedIn parts = spans)

variable {body : Parse (List Statement)}
  (hbody : ∀ c outer, Weaves text (.closeBrace :: outer) (fun _ => outer) Leaves body c)
include hbody

theorem namespaceDecl_weaves (hkind : c.kind.isDelimiter = false) :
    Weaves text [] (fun _ => []) ShowsPlaced (namespaceDecl body) c := by
  unfold namespaceDecl
  refine (next_balances hkind []).seq fun _ m => (entityName_weaves []).bind fun name m => ?_
  refine (expect_opens rfl).seq fun _ m => (hbody m []).bind fun body m => .pure rfl ?_
  intro spans' hbody spans hname
  refine ⟨_, fun place => outline_namespaceDecl place name body, fun _ => ?_⟩
  have hname := hname.leaves
  unfold Leaves at hname hbody
  rw [outlines_entityName] at hname
  rw [Outline.skippedIn_cons, hname, hbody, List.append_nil]

theorem declaration_weaves (isConst : Bool) (c : Cursor) :
    Weaves text [] (fun _ => []) ShowsPlaced (declaration body isConst) c := by
  have hskipped : Weaves text [] (fun _ => []) ShowsPlaced declaration.skipped c := by
    unfold declaration.skipped
    refine skipBalanced_weaves.bind fun _ m => .pure rfl fun spans _ => ?_
    exact ⟨[], fun place => outline_skipped place, fun h => absurd rfl h⟩
  unfold declaration
  refine .here (.ite (fun _ => hskipped) fun _ => ?_)
  split
  · rename_i hkind
    exact namespaceDecl_weaves hbody (by rw [hkind]; rfl)
  · rename_i hkind
    exact namespaceDecl_weaves hbody (by rw [hkind]; rfl)
  · refine (interfaceDecl_weaves c []).bind fun decl m => .pure rfl fun spans hdecl => ?_
    exact ⟨_, fun place => outline_interfaceDecl place decl, fun _ => by rwa [List.append_nil]⟩
  · refine (aliasDecl_weaves c []).bind fun decl m => .pure rfl fun spans hdecl => ?_
    exact ⟨_, fun place => outline_aliasDecl place decl, fun _ => by rwa [List.append_nil]⟩
  · refine (enumDecl_weaves isConst c []).bind fun decl m => .pure rfl fun spans hdecl => ?_
    exact ⟨_, fun place => outline_enumDecl place decl, fun _ => by rwa [List.append_nil]⟩
  · exact hskipped

omit hbody in
/-- A declaration with its modifiers. -/
def modifiedDeclaration (body : Parse (List Statement)) : Parse (Placement → Statement) := do
  let isConst ← modifiers
  declaration body isConst

omit hbody in
theorem statement?_eq (body : Parse (List Statement)) : statement? body = (do
    let here ← cursor
    if ← eat .semicolon then return none
    if here.kind.isClose then unexpected
    let make ← modifiedDeclaration body
    return some (make ⟨← spanFrom here.start, here.comments⟩)) := by
  unfold statement? modifiedDeclaration
  simp only [bind_assoc]

/-- A statement without parts is skipped. -/
theorem statement_weaves (c : Cursor) : Balances text Leaves (statement? body) c := by
  have hmake : ∀ m, Weaves text [] (fun _ => []) ShowsPlaced (modifiedDeclaration body) m := fun m =>
    (modifiers_weaves m []).seq fun isConst m => declaration_weaves hbody isConst m
  have hplaced : ∀ comments m, Balances text Leaves
      (do
        let make ← modifiedDeclaration body
        return some (make ⟨← spanFrom m.start, comments⟩)) m := by
    refine fun comments m => (hmake m).covered fun make place spans ⟨parts, hmake, hparts⟩ => ?_
    unfold Leaves
    rw [outlines_some, outlines_statement, hmake, Placement.outline, Outline.skippedIn_node]
    cases parts with
    | nil => exact .inl rfl
    | cons part parts => exact .inr (hparts (List.cons_ne_nil _ _))
  intro opened
  rw [statement?_eq]
  refine .here ((eat_balances rfl opened).seq_of_run fun found m hrun => .ite (fun _ => ?_) fun hfalse => ?_)
  · exact .pure rfl rfl
  · rw [eat_eq] at hrun
    split at hrun <;> cases hrun
    · exact absurd rfl hfalse
    · exact .ite (fun _ => .unexpected) fun _ => hplaced c.comments (c.expect [.semicolon]) opened

omit hbody in
theorem leaves_toList {statement : Option Statement} {spans : List Span} (h : Leaves statement spans) :
    Leaves statement.toList spans := by
  cases statement with
  | none => exact h
  | some statement =>
    unfold Leaves at h ⊢
    rwa [Option.toList_some, outlines_cons, outlines_nil, List.append_nil, ← outlines_some]

theorem statementStep_weaves {closing : TokenKind} {opened outer : List TokenKind}
    (hclosing : ∀ c, Weaves text opened (fun found => if found then outer else opened) Plain (eat closing) c)
    (statements : List Statement) (c : Cursor) :
    Weaves text opened (Sum.elim (fun _ => opened) fun _ => outer)
      (fun result spans => ∀ base, Leaves statements base → Sum.elim Leaves Leaves result (base ++ spans))
      (statementStep body closing statements) c := by
  unfold statementStep
  refine (hclosing c).seq fun found m => ?_
  cases found
  · refine .isAt (.ite (fun _ => .here (.reported fun value d hrun => ?_)) fun _ => ?_)
    · cases hrun
      exact List.append_ne_nil_of_right_ne_nil _ (List.cons_ne_nil _ _)
    · exact (statement_weaves hbody m opened).attempt
        (fun statement m => .pure rfl fun spans hstatement => leaves_append spans (leaves_toList hstatement))
        fun error m result d h => errors_of_reported h
  · exact .pure rfl no_more

end Statements

section Texts

variable {text : List Char}

/-- The statements between braces, up to and with the closing one. -/
theorem statementsUntil_weaves (c : Cursor) (outer : List TokenKind) :
    Weaves text (.closeBrace :: outer) (fun _ => outer) Leaves (statementsUntil .closeBrace) c := by
  refine fix_weaves (e := fun _ : Unit => TokenKind.closeBrace) (K := fun _ => [.closeBrace])
    (R := fun _ => Leaves) (fun call hcall _ c outer => ?_) () c outer
  exact repeatFrom_weaves (statementStep_weaves (hcall ()) fun _ => eat_closes_group rfl) leaves_nil c

theorem statements_weaves (c : Cursor) :
    Weaves text [] (fun _ => []) Leaves (statementsUntil .endOfFile) c := by
  rw [statementsUntil_eq]
  exact repeatFrom_weaves (statementStep_weaves statementsUntil_weaves
    fun _ => eat_weaves fun hkind => next_balances (hkind ▸ rfl) []) leaves_nil c

/-- Where no error is reported, the delimiters of a text are properly nested and matched by kind just if
those within each skipped node are. -/
theorem matched_iff_within_skipped {text : List Char} (h : (Schema.parse text).errors = []) :
    Matched ((Token.tokenize text).map Token.kind)
      ↔ ∀ span ∈ Outline.skippedIn (outlines (Schema.parse text).statements),
        Matched ((tokensWithin text span).map Token.kind) := by
  obtain ⟨d, hrun, hend⟩ := parse_ends text
  have hclean : d.errors = [] := by
    unfold Schema.parse at h
    rw [hrun] at h
    exact h
  obtain ⟨-, xs, hxs, hspans⟩ := statements_weaves _ _ d hrun hclean
  obtain ⟨spans, hleaves, hwoven⟩ := hspans (Cursor.standsIn_ofTokens text)
  have htext : lexemesOf text = xs := by
    have hrest : lexemesOf text = xs ++ d.rest := hxs.rest
    rw [hrest, hend, List.append_nil]
  unfold Leaves at hleaves
  rw [matched_tokens, htext, hleaves]
  refine hwoven.matches_iff.trans (forall₂_congr fun span _ => ?_)
  exact (matched_tokensWithin text span).symm

/-- An index signature, a pattern in place of a parameter's name, and a function that is skipped. -/
def threeSkipped : List Char :=
  "interface A { [x: B]: C; m({ a }: D): E; }
function f(a) { return [a]; }".toList

theorem threeSkipped_matched : (Schema.parse threeSkipped).errors = []
    ∧ Outline.skippedIn (outlines (Schema.parse threeSkipped).statements) = [⟨14, 24⟩, ⟨27, 32⟩, ⟨43, 72⟩]
    ∧ Matched ((Token.tokenize threeSkipped).map Token.kind) := by
  have hclean : (Schema.parse threeSkipped).errors = [] := by decide +kernel
  exact ⟨hclean, by decide +kernel, (matched_iff_within_skipped hclean).2 (by decide +kernel)⟩

/-- A function that is not closed is skipped with the interface behind it, and a bracket that a parenthesis
closes as well. -/
theorem skipped_unmatched :
    ((Schema.parse "function f() \x7b interface A {}".toList).errors = []
      ∧ ¬ Matched ((Token.tokenize "function f() \x7b interface A {}".toList).map Token.kind))
    ∧ (Schema.parse "interface A { [x): B; }".toList).errors = []
      ∧ ¬ Matched ((Token.tokenize "interface A { [x): B; }".toList).map Token.kind) := by
  decide +kernel

end Texts

end NodeFactory
