import NodeFactory.Proofs.MemberRuns
import NodeFactory.Proofs.ReportedErrors

/-!
# Reading on from the same place

Two actions take the same course if from the same place they end at the same place, whatever errors were
reported before each of them (`SameCourse`). What a declaration has been read to so far does not matter to how
it is read on. So where two lists of members end at the same place, the declarations around them do, and the
statements behind these are the same (`readsOnAlike`).
-/

namespace NodeFactory

open Parse Text

section Combined

variable {α β γ δ : Type} {errors errors' : List ParseError} {R : α → β → Prop} {S : γ → δ → Prop}
  {A : Parse α} {A' : Parse β} {B : α → Parse γ} {B' : β → Parse δ} {c c' : Cursor}

/-- Two actions have come to values that are related, or to the same error, at the same place. Errors were
reported before each of them. -/
inductive SameEnd (errors errors' : List ParseError) (R : α → β → Prop) :
    EStateM.Result ParseError Cursor α → EStateM.Result ParseError Cursor β → Prop
  | ok {value : α} {value' : β} {d : Cursor} : R value value' →
      SameEnd errors errors' R (.ok value (d.preceded errors)) (.ok value' (d.preceded errors'))
  | error {error : ParseError} {d : Cursor} :
      SameEnd errors errors' R (.error error (d.preceded errors)) (.error error (d.preceded errors'))

/-- From the same place two actions end at the same place. -/
def SameCourse (R : α → β → Prop) (A : Parse α) (A' : Parse β) : Prop :=
  ∀ (errors errors' : List ParseError) (d : Cursor),
    SameEnd errors errors' R (A (d.preceded errors)) (A' (d.preceded errors'))

theorem Indifferent.sameCourse {A : Parse α} (h : Indifferent A) : SameCourse (· = ·) A A := by
  intro errors errors' d
  rw [h errors d, h errors' d]
  cases A d with
  | ok value e => exact .ok rfl
  | error error e => exact .error

theorem SameEnd.goOn (h : SameEnd errors errors' R (A c) (A' c'))
    (hB : ∀ (value : α) (value' : β) (d : Cursor), R value value' →
      SameEnd errors errors' S (B value (d.preceded errors)) (B' value' (d.preceded errors'))) :
    SameEnd errors errors' S ((A >>= B) c) ((A' >>= B') c') := by
  show SameEnd errors errors' S (EStateM.bind A B c) (EStateM.bind A' B' c')
  unfold EStateM.bind
  generalize A c = result at h
  generalize A' c' = result' at h
  cases h with
  | ok hvalue => exact hB _ _ _ hvalue
  | error => exact .error

theorem SameEnd.bind (h : SameEnd errors errors' R (A c) (A' c'))
    (hB : ∀ value value', R value value' → SameCourse S (B value) (B' value')) :
    SameEnd errors errors' S ((A >>= B) c) ((A' >>= B') c') :=
  h.goOn fun value value' d hvalue => hB value value' hvalue errors errors' d

theorem SameCourse.pure {value : α} {value' : β} (h : R value value') :
    SameCourse R (pure value) (pure value') := fun _ _ _ => .ok h

theorem SameCourse.bind (h : SameCourse R A A')
    (hB : ∀ value value', R value value' → SameCourse S (B value) (B' value')) :
    SameCourse S (A >>= B) (A' >>= B') :=
  fun errors errors' d => (h errors errors' d).bind hB

/-- After the same action. -/
theorem Indifferent.then {B : α → Parse γ} {B' : α → Parse δ} {A : Parse α} (hA : Indifferent A)
    (hB : ∀ value, SameCourse S (B value) (B' value)) : SameCourse S (A >>= B) (A >>= B') :=
  hA.sameCourse.bind fun value _ h => h ▸ hB value

theorem SameCourse.ite {p : Prop} [Decidable p] {A₂ : Parse α} {A₂' : Parse β} (h : SameCourse R A A')
    (h₂ : SameCourse R A₂ A₂') : SameCourse R (if p then A else A₂) (if p then A' else A₂') := by
  split
  · exact h
  · exact h₂

theorem SameCourse.here {f : Cursor → Parse α} {g : Cursor → Parse β}
    (hlook : ∀ errors c, f (c.preceded errors) = f c) (hlookg : ∀ errors c, g (c.preceded errors) = g c)
    (h : ∀ c, SameCourse R (f c) (g c)) : SameCourse R (cursor >>= f) (cursor >>= g) := by
  intro errors errors' d
  show SameEnd errors errors' R (f (d.preceded errors) (d.preceded errors))
    (g (d.preceded errors') (d.preceded errors'))
  rw [hlook, hlookg]
  exact h d errors errors' d

theorem SameCourse.isAt {kind : TokenKind} {f : Bool → Parse α} {g : Bool → Parse β}
    (h : ∀ found, SameCourse R (f found) (g found)) :
    SameCourse R (Parse.isAt kind >>= f) (Parse.isAt kind >>= g) :=
  .here (f := fun here => f (here.kind == kind)) (g := fun here => g (here.kind == kind))
    (fun _ _ => rfl) (fun _ _ => rfl) fun _ => h _

/-- Spans that begin elsewhere may be different. -/
theorem spanFrom_sameCourse (start start' : Nat) :
    SameCourse (fun _ _ => True) (spanFrom start) (spanFrom start') := fun _ _ _ => .ok trivial

/-- A repetition from states that are related. -/
theorem repeatFrom_sameCourse {σ τ : Type} {P : σ → τ → Prop} {step : σ → Parse (σ ⊕ α)}
    {step' : τ → Parse (τ ⊕ β)}
    (hstep : ∀ state state', P state state' → SameCourse (Sum.LiftRel P R) (step state) (step' state'))
    {state : σ} {state' : τ} (h : P state state') :
    SameCourse R (repeatFrom step state) (repeatFrom step' state') := by
  intro errors errors' d
  generalize hn : d.size = n
  induction n using Nat.strongRecOn generalizing state state' d with
  | ind n ih =>
    rw [repeatFrom_eq, repeatFrom_eq]
    refine (hstep state state' h errors errors' d).goOn fun result result' m hresult => ?_
    cases hresult with
    | inr hvalue => exact .ok hvalue
    | inl hstate =>
      -- The limits of both repetitions are the same.
      have hbelow : ∀ {ρ : Type} (errors : List ParseError) (A : Parse ρ),
          below (d.preceded errors).size A (m.preceded errors)
            = if m.size < d.size then A (m.preceded errors) else unexpected (m.preceded errors) :=
        fun _ _ => rfl
      show SameEnd errors errors' R (below (d.preceded errors).size _ (m.preceded errors))
        (below (d.preceded errors').size _ (m.preceded errors'))
      rw [hbelow, hbelow]
      by_cases hlt : m.size < d.size
      · rw [if_pos hlt, if_pos hlt]
        exact ih m.size (hn ▸ hlt) hstate m rfl
      · rw [if_neg hlt, if_neg hlt]
        exact .error

end Combined

section Types

variable {type part suffixed : Parse TypeExpr} {errors errors' : List ParseError} {c c' : Cursor}

/-- Any two values. -/
def Whatever {α β : Type} (_ : α) (_ : β) : Prop := True

theorem placed_sameCourse (shape shape' : TypeShape) (start start' : Nat) : SameCourse Whatever
    (do return (⟨shape, ← spanFrom start⟩ : TypeExpr)) (do return (⟨shape', ← spanFrom start'⟩ : TypeExpr)) :=
  (spanFrom_sameCourse start start').bind fun _ _ _ => .pure trivial

theorem suffixStep_sameCourse (htype : Indifferent type) (start start' : Nat) (object object' : TypeExpr) :
    SameCourse (Sum.LiftRel Whatever Whatever) (suffixStep type start object)
      (suffixStep type start' object') := by
  have hplaced : ∀ shape shape' : TypeShape, SameCourse (Sum.LiftRel Whatever Whatever)
      (do return .inl ⟨shape, ← spanFrom start⟩ : Parse (TypeExpr ⊕ TypeExpr))
      (do return .inl ⟨shape', ← spanFrom start'⟩ : Parse (TypeExpr ⊕ TypeExpr)) := fun _ _ =>
    (spanFrom_sameCourse start start').bind fun _ _ _ => .pure (.inl trivial)
  unfold suffixStep
  refine .here (fun _ _ => rfl) (fun _ _ => rfl) fun c => .ite ?_ (.pure (.inr trivial))
  refine next_indifferent.then fun _ => eat_indifferent.then fun _ => .ite ?_ ?_
  · exact hplaced (.array object) (.array object')
  · refine htype.then fun index => expect_indifferent.then fun _ => ?_
    exact hplaced (.indexed object index) (.indexed object' index)

theorem suffixed_sameEnd (htype : Indifferent type)
    (h : SameEnd errors errors' Whatever (primaryType type suffixed c) (primaryType type suffixed c')) :
    SameEnd errors errors' Whatever (suffixedType type suffixed c) (suffixedType type suffixed c') := by
  rw [suffixedType_eq]
  exact h.bind fun primary primary' _ => repeatFrom_sameCourse
    (fun object object' _ => suffixStep_sameCourse htype c.start c'.start object object') trivial

/-- Behind a first part that ends at the same place. -/
theorem operands_sameEnd {operator : TokenKind} {combine : List TypeExpr → TypeShape}
    (hpart : Indifferent part) (hc : c.kind ≠ operator) (hc' : c'.kind ≠ operator)
    (h : SameEnd errors errors' Whatever (part (c.expect [operator])) (part (c'.expect [operator]))) :
    SameEnd errors errors' Whatever (operands operator combine part c)
      (operands operator combine part c') := by
  have hoperands : ∀ c : Cursor, c.kind ≠ operator → operands operator combine part c
      = (part >>= fun first => do
        if !false && !(← isAt operator) then return first
        let parts ← repeatFrom (operandStep operator part) [first]
        return ⟨combine parts, ← spanFrom c.start⟩ : Parse TypeExpr) (c.expect [operator]) := by
    intro c hc
    rw [operands_eq]
    show (eat operator >>= _) c = _
    rw [bind_of_ok (eat_of_ne hc)]
  have hstep : ∀ parts parts' : List TypeExpr, Whatever parts parts' →
      SameCourse (Sum.LiftRel Whatever Whatever) (operandStep operator part parts)
        (operandStep operator part parts') := by
    intro parts parts' _
    unfold operandStep
    refine eat_indifferent.then fun _ => .ite ?_ (.pure (.inr trivial))
    exact hpart.then fun _ => .pure (.inl trivial)
  rw [hoperands c hc, hoperands c' hc']
  refine h.bind fun first first' _ => .isAt fun found => .ite (.pure trivial) ?_
  exact (repeatFrom_sameCourse hstep trivial).bind fun parts parts' _ => placed_sameCourse _ _ _ _

theorem functionOr_of_openBrace {other : Parse TypeExpr} (h : c.kind = .openBrace) :
    functionOr type other c = other c := by
  have hstarts : c.startsFunction = false := startsFunction_of_kind (by rw [h]; nofun) (by rw [h]; nofun)
  show (if c.startsFunction = true then functionType type false else other) c = _
  rw [hstarts, if_neg Bool.false_ne_true]

theorem members_expect (h : c.kind = .openBrace) (kinds : List TokenKind) :
    members type (c.expect kinds) = members type c := by
  have hexpect : (c.expect kinds).kind = .openBrace := h
  rw [members_eq, bind_of_ok (expect_of_kind h), bind_of_ok (expect_of_kind hexpect), Cursor.next_expect]

theorem literal_of_members {values : List Member} {d : Cursor} (h : c.kind = .openBrace)
    (hmembers : members type c = .ok values d) : primaryType type suffixed c
      = .ok ⟨.literal values, ⟨c.start, max d.lastEnd c.start⟩⟩ d := by
  have hshape : primaryShape type suffixed c = TypeShape.literal <$> members type := by
    unfold primaryShape
    rw [h]
  rw [primaryType_eq, bind_of_ok (rfl : cursor c = .ok c c), hshape,
    bind_of_ok (map_eq_ok_iff.2 ⟨values, hmembers, rfl⟩)]
  rfl

theorem typeExpr_of_openBrace (h : c.kind = .openBrace) :
    typeExpr c = unionType typeExpr (typeAt .suffixed) c := by
  have hstarts : c.startsFunction = false := startsFunction_of_kind (by rw [h]; nofun) (by rw [h]; nofun)
  refine (congrFun (typeAt_eq .whole) c).trans ?_
  show (if c.startsFunction = true then _
    else if (c.kind == .keyword .newKw) = true then _ else _ : Parse TypeExpr) c = _
  rw [hstarts, h]
  rfl

/-- Types that begin with literals which end at the same place. -/
theorem typeExpr_sameEnd {values values' : List Member} {d : Cursor} (hc : c.kind = .openBrace)
    (hc' : c'.kind = .openBrace) (h : members typeExpr c = .ok values (d.preceded errors))
    (h' : members typeExpr c' = .ok values' (d.preceded errors')) :
    SameEnd errors errors' Whatever (typeExpr c) (typeExpr c') := by
  have hsuffixed := typeAt_indifferent .suffixed
  have hpart := intersectionType_indifferent typeExpr_indifferent hsuffixed
  have hpart' := suffixedType_indifferent typeExpr_indifferent hsuffixed
  have hm : (c.expect [.bar]).kind = .openBrace := hc
  have hm' : (c'.expect [.bar]).kind = .openBrace := hc'
  have hn : ((c.expect [.bar]).expect [.ampersand]).kind = .openBrace := hc
  have hn' : ((c'.expect [.bar]).expect [.ampersand]).kind = .openBrace := hc'
  -- No operator stands before a literal.
  rw [typeExpr_of_openBrace hc, typeExpr_of_openBrace hc']
  refine operands_sameEnd (functionOr_indifferent typeExpr_indifferent hpart) (by rw [hc]; nofun)
    (by rw [hc']; nofun) ?_
  rw [functionOr_of_openBrace hm, functionOr_of_openBrace hm']
  refine operands_sameEnd (functionOr_indifferent typeExpr_indifferent hpart') (by rw [hm]; nofun)
    (by rw [hm']; nofun) ?_
  rw [functionOr_of_openBrace hn, functionOr_of_openBrace hn']
  refine suffixed_sameEnd typeExpr_indifferent ?_
  rw [literal_of_members hn (by rw [members_expect hm, members_expect hc, h]),
    literal_of_members hn' (by rw [members_expect hm', members_expect hc', h'])]
  exact .ok trivial

end Types

section Statements

variable {errors errors' : List ParseError} {b b' c c' : Cursor}

/-- An interface up to the brace before its members. -/
def interfaceHead : Parse (List Member → Interface) := do
  expect (.keyword .interfaceKw)
  let name ← ident
  let typeParams ← typeParams typeExpr
  let heritage ← heritage
  return fun members => { name, typeParams, heritage, members }

theorem interfaceDecl_eq : interfaceDecl = interfaceHead >>= fun make => make <$> members typeExpr := by
  unfold interfaceDecl interfaceHead
  simp only [bind_assoc, pure_bind, map_eq_pure_bind]

theorem interfaceDecl_of_members {make : List Member → Interface} {values : List Member} {d : Cursor}
    (hhead : interfaceHead b = .ok make c) (hmembers : members typeExpr c = .ok values d) :
    interfaceDecl b = .ok (make values) d := by
  rw [interfaceDecl_eq, bind_of_ok hhead]
  exact map_eq_ok_iff.2 ⟨values, hmembers, rfl⟩

/-- An alias up to its type. -/
def aliasHead : Parse (TypeExpr → TypeAlias) := do
  expect (.keyword .typeKw)
  let name ← ident
  let typeParams ← typeParams typeExpr
  expect .assign
  return fun type => { name, typeParams, type }

theorem aliasDecl_sameEnd {make make' : TypeExpr → TypeAlias} (hhead : aliasHead b = .ok make c)
    (hhead' : aliasHead b' = .ok make' c')
    (h : SameEnd errors errors' Whatever (typeExpr c) (typeExpr c')) :
    SameEnd errors errors' Whatever (aliasDecl b) (aliasDecl b') := by
  have hdecl : aliasDecl = aliasHead >>= fun make => do
      let type ← typeExpr
      discard (eat .semicolon)
      return make type := by
    unfold aliasDecl aliasHead
    simp only [bind_assoc, pure_bind]
  rw [hdecl, bind_of_ok hhead, bind_of_ok hhead']
  exact h.bind fun type type' _ => eat_indifferent.map.then fun _ => .pure trivial

/-- The same values have been added. -/
def AddedAlike {α : Type} (base base' all all' : List α) : Prop :=
  ∃ more, all = base ++ more ∧ all' = base' ++ more

/-- The statements that are read from the same place are the same, whatever was read before. -/
theorem statements_sameCourse (closing : TokenKind) (base base' : List Statement) :
    SameCourse (AddedAlike base base') (repeatFrom (statementStep (statementsUntil .closeBrace) closing) base)
      (repeatFrom (statementStep (statementsUntil .closeBrace) closing) base') := by
  refine repeatFrom_sameCourse (P := AddedAlike base base') (fun statements statements' h => ?_)
    ⟨[], (List.append_nil _).symm, (List.append_nil _).symm⟩
  have hstatement := statement_indifferent (statementsUntil_indifferent .closeBrace)
  unfold statementStep
  refine eat_indifferent.then fun _ => .ite (.pure (.inr h)) (.isAt fun _ => .ite ?_ ?_)
  · exact .here (fun _ _ => rfl) (fun _ _ => rfl) fun c =>
      (report_indifferent _).then fun _ => .pure (.inr h)
  refine hstatement.outcome.then fun result => ?_
  cases result with
  | ok statement =>
    obtain ⟨more, rfl, rfl⟩ := h
    exact .pure (.inl ⟨more ++ statement.toList, List.append_assoc _ _ _, List.append_assoc _ _ _⟩)
  | error error =>
    exact (report_indifferent error).then fun _ => (recover_indifferent closing).then fun _ => .pure (.inl h)

/-- Behind the lists of members that are next at two cursors reading goes on alike: what is declared with
them ends at the same place, and the statements from any place on are the same. -/
structure ReadsOnAlike (errors errors' : List ParseError) (c c' : Cursor) : Prop where
  interfaces : ∀ b b' make make', interfaceHead b = .ok make c → interfaceHead b' = .ok make' c' →
    SameEnd errors errors' Whatever (interfaceDecl b) (interfaceDecl b')
  types : SameEnd errors errors' Whatever (typeExpr c) (typeExpr c')
  aliases : ∀ b b' make make', aliasHead b = .ok make c → aliasHead b' = .ok make' c' →
    SameEnd errors errors' Whatever (aliasDecl b) (aliasDecl b')
  statements : ∀ (closing : TokenKind) (base base' : List Statement) (d : Cursor),
    SameEnd errors errors' (AddedAlike base base')
      (repeatFrom (statementStep (statementsUntil .closeBrace) closing) base (d.preceded errors))
      (repeatFrom (statementStep (statementsUntil .closeBrace) closing) base' (d.preceded errors'))

theorem readsOnAlike {values values' : List Member} {d : Cursor} (hc : c.kind = .openBrace)
    (hc' : c'.kind = .openBrace) (h : members typeExpr c = .ok values (d.preceded errors))
    (h' : members typeExpr c' = .ok values' (d.preceded errors')) : ReadsOnAlike errors errors' c c' := by
  have htypes := typeExpr_sameEnd hc hc' h h'
  refine ⟨fun b b' make make' hhead hhead' => ?_, htypes, fun b b' make make' hhead hhead' => ?_, ?_⟩
  · rw [interfaceDecl_of_members hhead h, interfaceDecl_of_members hhead' h']
    exact .ok trivial
  · exact aliasDecl_sameEnd hhead hhead' htypes
  · exact fun closing base base' d => statements_sameCourse closing base base' errors errors' d

end Statements

end NodeFactory
