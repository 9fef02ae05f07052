import NodeFactory.Proofs.StatementPlaces

/-!
# What is said of composed actions

Actions are put together in sequence, by looking at what is next, by going on after a failure, by repetition and
by recursion. Where something is said of an action from a cursor on, such that it is kept by these ways and holds
of the elementary actions (`Compositional`), it holds of all actions that the grammar is made of. There is one
lemma for each of them, from the elementary ones up to the statements (`statementsUntil_composed`).
-/

namespace NodeFactory

open Parse Text

/-- The cursor where other errors were reported before. -/
def Cursor.preceded (errors : List ParseError) (c : Cursor) : Cursor :=
  { c with errors := errors ++ c.errors }

/-- What is said of an action from a cursor on, and is kept where actions are put together. An action that comes
to the same as another, whatever errors were reported before, may stand for it. Kinds are looked for only where
none of them is next, and nothing is reported but how an action has failed. -/
structure Compositional (P : ∀ {α : Type}, Parse α → Cursor → Prop) : Prop where
  congr : ∀ {α : Type} {A B : Parse α} {c : Cursor},
    (∀ errors, A (c.preceded errors) = B (c.preceded errors)) → P B c → P A c
  pure : ∀ {α : Type} (value : α) (c : Cursor), P (pure value) c
  bind : ∀ {α β : Type} {A : Parse α} {B : α → Parse β} {c : Cursor},
    P A c → (∀ value m, P (B value) m) → P (A >>= B) c
  attempt : ∀ {α β : Type} {A : Parse α} {f : Except ParseError α → Parse β} {c : Cursor}, P A c →
    (∀ value m, P (f (.ok value)) m) → (∀ error m, A c = .error error m → P (f (.error error)) m) →
      P (Parse.outcome A >>= f) c
  next : ∀ c : Cursor, P next c
  lookedFor : ∀ {kinds : List TokenKind} {c : Cursor}, c.kind ∉ kinds →
    P (modify fun cursor => cursor.expect kinds : Parse Unit) c
  unexpected : ∀ {α : Type} (c : Cursor), P (unexpected : Parse α) c
  report : ∀ {α : Type} {A : Parse α} {error : ParseError} {c m : Cursor}, P A c → A c = .error error m →
    P (report error) m

variable {P : ∀ {α : Type}, Parse α → Cursor → Prop} {α β : Type} {A B : Parse α} {c : Cursor}

theorem ite_composed {p : Prop} [Decidable p] (hA : ∀ c, P A c) (hB : ∀ c, P B c) (c : Cursor) :
    P (if p then A else B) c := by
  split
  · exact hA c
  · exact hB c

variable (h : Compositional P)
include h

section Combined

theorem Compositional.seq {B : α → Parse β} (hA : ∀ c, P A c) (hB : ∀ value c, P (B value) c) (c : Cursor) :
    P (A >>= B) c := h.bind (hA c) hB

theorem Compositional.last {f : α → β} (hA : ∀ c, P A c) (c : Cursor) :
    P (A >>= fun value => Pure.pure (f value)) c :=
  h.seq hA (fun value => h.pure (f value)) c

theorem Compositional.map {f : α → β} (hA : ∀ c, P A c) (c : Cursor) : P (f <$> A) c := by
  rw [map_eq_pure_bind]
  exact h.last hA c

/-- An action that looks at the cursor before it reads, but not at the errors. -/
theorem Compositional.look {f : Cursor → Parse α} (hlook : ∀ errors, f (c.preceded errors) = f c)
    (hf : P (f c) c) : P (cursor >>= f) c := by
  refine h.congr (fun errors => ?_) hf
  show f (c.preceded errors) (c.preceded errors) = f c (c.preceded errors)
  rw [hlook]

theorem Compositional.here {f : Cursor → Parse α} (hlook : ∀ errors c, f (c.preceded errors) = f c)
    (hf : ∀ seen c, P (f seen) c) (c : Cursor) : P (cursor >>= f) c :=
  h.look (fun errors => hlook errors c) (hf c c)

theorem Compositional.kind {f : TokenKind → Parse α} (hf : ∀ kind c, P (f kind) c) (c : Cursor) :
    P (Parse.kind >>= f) c :=
  h.look (f := fun here => f here.kind) (fun _ => rfl) (hf _ c)

theorem Compositional.isAt {kind : TokenKind} {f : Bool → Parse α} (hf : ∀ found c, P (f found) c)
    (c : Cursor) : P (Parse.isAt kind >>= f) c :=
  h.look (f := fun here => f (here.kind == kind)) (fun _ => rfl) (hf _ c)

/-- An action fails where none of the kinds that it looks for is next. -/
theorem missing_composed {kinds : List TokenKind} (hkind : c.kind ∉ kinds) :
    P (do modify fun cursor => cursor.expect kinds; unexpected : Parse α) c :=
  h.bind (h.lookedFor hkind) fun _ => h.unexpected

end Combined

section Elementary

variable {kind : TokenKind}

theorem skip_composed : ∀ (n : Nat) (c : Cursor), P (skip n) c
  | 0, c => h.pure () c
  | n + 1, c => show P (next >>= fun _ => skip n) c from h.seq h.next (fun _ => skip_composed n) c

theorem eat_composed (c : Cursor) : P (eat kind) c := by
  show P (cursor >>= fun here => if (here.kind == kind) = true then next >>= fun _ => pure true
    else (modify fun cursor => cursor.expect [kind]) >>= fun _ => pure false) c
  refine h.look (fun _ => rfl) ?_
  split
  · exact h.last h.next c
  · rename_i hkind
    have hlookedFor : c.kind ∉ [kind] := by simpa using hkind
    exact h.bind (h.lookedFor hlookedFor) fun _ => h.pure false

theorem expect_composed (c : Cursor) : P (expect kind) c := by
  unfold expect
  exact h.seq (eat_composed h) (fun _ => ite_composed (h.pure ()) h.unexpected) c

theorem spanFrom_composed (start : Nat) (c : Cursor) : P (spanFrom start) c := by
  unfold spanFrom
  exact h.look (fun _ => rfl) (h.pure _ c)

theorem Compositional.placed {f : α → Span → β} {start : Nat} (hA : ∀ c, P A c) (c : Cursor) :
    P (A >>= fun value => spanFrom start >>= fun place => Pure.pure (f value place)) c :=
  h.seq hA (fun _ => h.last (spanFrom_composed h start)) c

theorem Compositional.optional {f : Option α → Parse β} (hA : ∀ c, P A c) (hf : ∀ value c, P (f value) c)
    (c : Cursor) :
    P (eat kind >>= fun found => if found then some <$> A >>= f else Pure.pure none >>= f) c :=
  h.seq (eat_composed h) (fun _ => ite_composed (h.seq (h.map hA) hf) (h.seq (h.pure none) hf)) c

theorem skipGroup_composed (opening : TokenKind) (c : Cursor) : P (skipGroup opening) c := by
  unfold skipGroup
  refine h.seq (expect_composed h) (fun _ => h.here (fun _ _ => rfl) fun seen => ?_) c
  dsimp only
  split
  · exact skip_composed h _
  · exact h.seq (skip_composed h _) fun _ => h.unexpected

theorem skipBalanced_composed (c : Cursor) : P skipBalanced c :=
  h.here (fun _ _ => rfl) (fun _ => skip_composed h _) c

theorem recover_composed (closing : TokenKind) (c : Cursor) : P (recover closing) c := by
  unfold recover
  refine h.here (fun _ _ => rfl) (fun seen => h.seq (skip_composed h _) fun _ => ite_composed ?_ (h.pure ())) c
  exact h.kind fun _ => ite_composed (h.pure ()) h.next

/-- What follows a failure that is reported. -/
theorem recovery_composed {error : ParseError} {m : Cursor} (hA : P A c) (hfails : A c = .error error m)
    (closing : TokenKind) (result : β) :
    P (do Parse.report error; recover closing; return result : Parse β) m :=
  h.bind (h.report hA hfails) fun _ => h.last (recover_composed h closing)

end Elementary

section Repeated

variable {ι σ : Type}

theorem fix_composed {body : (ι → Parse α) → ι → Parse α}
    (hbody : ∀ call : ι → Parse α, (∀ i c, P (call i) c) → ∀ i c, P (body call i) c) (i : ι) (c : Cursor) :
    P (fix body i) c := by
  generalize hn : c.size = n
  induction n using Nat.strongRecOn generalizing i c with
  | ind n ih =>
    refine h.congr (B := body (fun j => below c.size (fix body j)) i)
      (fun errors => fix_eq body i (c.preceded errors)) (hbody _ (fun j m => ?_) i c)
    by_cases hlt : m.size < c.size
    · exact h.congr (fun errors => below_of_lt hlt) (ih m.size (hn ▸ hlt) j m rfl)
    · exact h.congr (fun errors => below_of_not_lt hlt) (h.unexpected m)

theorem repeatFrom_composed {step : σ → Parse (σ ⊕ α)} (hstep : ∀ state c, P (step state) c) (state : σ)
    (c : Cursor) : P (repeatFrom step state) c := by
  refine fix_composed h (fun call hcall state => h.seq (hstep state) fun result => ?_) state c
  cases result with
  | inl state => exact hcall state
  | inr value => exact h.pure value

theorem separated_composed {item : Parse α} (hitem : ∀ c, P item c) (c : Cursor) : P (separated item) c := by
  unfold separated
  exact repeatFrom_composed h (fun _ => h.seq hitem fun _ => h.last (eat_composed h)) [] c

theorem enclosed_composed {opening closing : TokenKind} {item : Parse α} (hitem : ∀ c, P item c)
    (c : Cursor) : P (enclosed opening item closing) c := by
  unfold enclosed
  refine h.seq (expect_composed h) (fun _ => repeatFrom_composed h (fun items => ?_) []) c
  refine h.seq (eat_composed h) fun _ => ite_composed (h.pure _) (h.seq hitem fun item => ?_)
  exact h.seq (eat_composed h) fun _ => ite_composed (h.pure _) (h.last (expect_composed h))

end Repeated

section Names

/-- An identifier is looked for only where no name is next. -/
theorem ident_composed (c : Cursor) : P ident c := by
  unfold ident
  refine h.look (fun _ => rfl) ?_
  have hmissing : c.kind.isName = false → P ident.missing c := fun hname =>
    missing_composed h fun hmem => by
      rw [List.mem_singleton.1 hmem] at hname
      cases hname
  split
  · rename_i lexeme hpeek
    have hkind : c.kind = lexeme.kind := by rw [Cursor.kind, Cursor.kindAt, hpeek]; rfl
    split
    · exact h.last h.next c
    · rename_i hname
      exact hmissing (by rw [hkind]; exact Bool.eq_false_iff.2 hname)
  · rename_i hpeek
    exact hmissing (by rw [Cursor.kind, Cursor.kindAt, hpeek]; rfl)

theorem propertyName_composed (c : Cursor) : P propertyName c := by
  unfold propertyName
  refine h.here (fun _ _ => rfl) (fun seen => ?_) c
  split
  · split
    · exact h.last h.next
    · exact h.last h.next
    · exact ident_composed h
  · exact ident_composed h

theorem entityName_composed (c : Cursor) : P entityName c := by
  have hpart : ∀ parts c, P (namePart parts) c := fun parts =>
    h.seq (eat_composed h) fun _ => ite_composed (h.last (ident_composed h)) (h.pure _)
  unfold entityName
  refine h.here (fun _ _ => rfl) (fun seen => h.seq (ident_composed h) fun first => ?_) c
  exact h.placed (repeatFrom_composed h hpart [])

end Names

section Constants

theorem unaryOps_composed (c : Cursor) : P unaryOps c := by
  unfold unaryOps
  refine repeatFrom_composed h (fun ops => h.kind fun kind => ?_) [] c
  split
  · exact h.last h.next
  · exact h.last h.next
  · exact h.last h.next
  · exact h.pure _

theorem constPrimary_composed {nested : Parse ConstExpr} (hnested : ∀ c, P nested c) (c : Cursor) :
    P (constPrimary nested) c := by
  unfold constPrimary
  refine h.kind (fun kind => ?_) c
  split
  · refine h.here (fun _ _ => rfl) fun seen => ?_
    split
    · exact h.last h.next
    · exact h.unexpected
  · exact h.last (propertyName_composed h)
  · exact h.seq h.next fun _ => h.seq hnested fun _ => h.last (expect_composed h)
  · exact h.last (entityName_composed h)

theorem constExpr_composed (c : Cursor) : P constExpr c := by
  refine fix_composed h (fun call hcall level => ?_) 0 c
  have hoperand : ∀ c, P (constOperand (call 0)) c :=
    h.seq (unaryOps_composed h) fun _ => h.last (constPrimary_composed h (hcall 0))
  refine h.seq hoperand fun left => repeatFrom_composed h (fun left => h.here (fun _ _ => rfl) fun seen => ?_) left
  split
  · refine ite_composed (h.pure _) (h.seq (skip_composed h _) fun _ => ?_)
    exact h.last (hcall _)
  · exact h.pure _

end Constants

section Types

variable {type suffixed : Parse TypeExpr} (htype : ∀ c, P type c) (hsuffixed : ∀ c, P suffixed c)

section Parts

include htype

theorem typeParam_composed (c : Cursor) : P (typeParam type) c := by
  have hword : ∀ c, P varianceStep c :=
    h.here (fun _ _ => rfl) fun _ => ite_composed (h.last h.next) (h.pure _)
  unfold typeParam
  refine h.seq (repeatFrom_composed h (fun _ => hword) ()) (fun _ => h.seq (ident_composed h) fun name => ?_) c
  exact h.optional htype fun bound => h.optional htype fun fallback => h.pure _

theorem typeParams_composed (c : Cursor) : P (typeParams type) c :=
  h.isAt (fun _ => ite_composed (enclosed_composed h (typeParam_composed h htype)) (h.pure _)) c

theorem typeArgs_composed (c : Cursor) : P (typeArgs type) c :=
  h.isAt (fun _ => ite_composed (enclosed_composed h htype) (h.pure _)) c

omit htype in
theorem paramName_composed (c : Cursor) : P paramName c := by
  unfold paramName
  refine h.kind (fun opening => ite_composed (h.here (fun _ _ => rfl) fun seen => ?_) (ident_composed h)) c
  exact h.placed (skipGroup_composed h opening)

theorem param_composed (c : Cursor) : P (param type) c := by
  have hnamed : ∀ rest c, P (namedParam type rest) c := by
    intro rest
    unfold namedParam
    refine h.seq (paramName_composed h) fun name => h.seq (eat_composed h) fun optional => ?_
    refine h.optional htype fun type => h.seq (eat_composed h) fun _ => ite_composed ?_ (h.pure _)
    exact h.last (h.map (constExpr_composed h))
  rw [param_eq]
  refine h.seq (eat_composed h) (fun rest => h.isAt fun _ => h.here (fun _ _ => rfl) fun seen => ?_) c
  exact ite_composed (h.seq h.next fun _ => hnamed rest) (hnamed rest)

theorem params_composed (c : Cursor) : P (params type) c := enclosed_composed h (param_composed h htype) c

theorem returnType_composed (c : Cursor) : P (returnType type) c := by
  unfold returnType
  refine h.here (fun _ _ => rfl) (fun seen => ite_composed ?_ htype) c
  exact h.seq (ident_composed h) fun _ => h.seq h.next fun _ => h.placed htype

theorem signature_composed (c : Cursor) : P (signature type) c := by
  unfold signature
  refine h.seq (typeParams_composed h htype) (fun _ => h.seq (params_composed h htype) fun _ => ?_) c
  exact h.optional (returnType_composed h htype) fun _ => h.pure _

theorem indexMember_composed (c : Cursor) : P (indexMember type) c := by
  have hrest : ∀ c, P (indexRest type) c := by
    unfold indexRest
    refine h.seq (h.map (eat_composed h)) fun _ => h.seq (eat_composed h) fun _ => ?_
    exact ite_composed (h.last (h.map htype)) (h.pure _)
  rw [indexMember_eq]
  refine h.seq (skipGroup_composed h _) (fun _ => h.isAt fun _ => h.isAt fun _ => ite_composed ?_ ?_) c
  · exact h.last (h.map (signature_composed h htype))
  · exact h.isAt fun _ => h.isAt fun _ => ite_composed (h.seq h.next fun _ => hrest) hrest

theorem namedMember_composed (c : Cursor) : P (namedMember type) c := by
  have hafter : ∀ name optional readonly c, P (memberAfterName type name optional readonly) c := by
    intro name optional readonly
    unfold memberAfterName
    refine h.isAt fun _ => h.isAt fun _ => ite_composed (h.last (signature_composed h htype)) ?_
    exact h.optional htype fun _ => h.pure _
  have hfrom : ∀ readonly c, P (memberFromName type readonly) c := by
    intro readonly
    unfold memberFromName
    refine h.seq (propertyName_composed h) fun name => h.seq (eat_composed h) fun optional => ?_
    refine ite_composed ?_ (hafter _ _ _)
    exact h.seq (h.map (eat_composed h)) fun _ => hafter _ _ _
  rw [namedMember_eq]
  exact h.here (fun _ _ => rfl) (fun seen => ite_composed (h.seq h.next fun _ => hfrom _) (hfrom _)) c

theorem memberShape_composed (c : Cursor) : P (memberShape type) c := by
  have hnamed := namedMember_composed h htype
  have hsignature := signature_composed h htype
  unfold memberShape
  refine h.here (fun _ _ => rfl) (fun seen => ?_) c
  split
  · exact indexMember_composed h htype
  · exact h.last hsignature
  · exact h.last hsignature
  · exact ite_composed (h.seq h.next fun _ => h.last hsignature) hnamed
  · exact hnamed

theorem member_composed (c : Cursor) : P (member type) c := by
  unfold member
  refine h.here (fun _ _ => rfl) (fun seen => h.seq (memberShape_composed h htype) fun shape => ?_) c
  refine h.seq (eat_composed h) fun _ => ite_composed (h.last (spanFrom_composed h _)) ?_
  exact h.placed (h.map (eat_composed h))

theorem members_composed (c : Cursor) : P (members type) c := by
  rw [members_eq]
  refine h.seq (expect_composed h) (fun _ => repeatFrom_composed h (fun members => ?_) []) c
  unfold memberStep
  refine h.seq (eat_composed h) fun _ => ite_composed (h.pure _) ?_
  refine h.isAt fun _ => ite_composed h.unexpected fun m => ?_
  have hmember := member_composed h htype m
  exact h.attempt hmember (fun _ => h.pure _) fun _ _ hfails => recovery_composed h hmember hfails _ _

theorem tupleElement_composed (c : Cursor) : P (tupleElement type) c := by
  have helement : ∀ c, P (unlabeledElement type) c :=
    h.seq htype fun _ => h.last (h.map (eat_composed h))
  rw [tupleElement_eq]
  refine h.seq (h.map (eat_composed h)) (fun _ => h.here (fun _ _ => rfl) fun seen => ?_) c
  refine ite_composed (h.seq h.next fun _ => h.seq (h.map (eat_composed h)) fun _ => ?_) helement
  exact h.seq (expect_composed h) fun _ => helement

theorem functionType_composed (isConstructor : Bool) (c : Cursor) :
    P (functionType type isConstructor) c := by
  have hfrom : ∀ start c, P (functionFrom type isConstructor start) c := by
    intro start
    unfold functionFrom
    refine h.seq (typeParams_composed h htype) fun _ => h.seq (params_composed h htype) fun _ => ?_
    exact h.seq (expect_composed h) fun _ => h.placed (returnType_composed h htype)
  rw [functionType_eq]
  refine h.here (fun _ _ => rfl) (fun seen => ite_composed ?_ (hfrom _)) c
  exact h.seq (expect_composed h) fun _ => hfrom _

theorem namedType_composed (c : Cursor) : P (namedType type) c := by
  have hreference : ∀ c, P (namedType.reference type) c :=
    h.seq (entityName_composed h) fun _ => h.last (typeArgs_composed h htype)
  unfold namedType
  refine h.here (fun _ _ => rfl) (fun seen => ite_composed (h.last h.next) ?_) c
  split
  · exact ite_composed hreference (h.last h.next)
  · exact hreference

end Parts

include htype hsuffixed

/-- The beginnings of a type are looked for only where none of them is next. -/
theorem primaryShape_composed (c : Cursor) : P (primaryShape type suffixed c) c := by
  unfold primaryShape
  split
  · exact h.seq h.next (fun _ => h.seq htype fun _ => h.last (expect_composed h)) c
  · exact h.map (members_composed h htype) c
  · exact h.map (enclosed_composed h (tupleElement_composed h htype)) c
  · exact h.last h.next c
  · exact h.last h.next c
  · exact h.last h.next c
  · rename_i hkind
    split
    · exact h.last (skip_composed h 2) c
    · exact missing_composed h (by rw [hkind]; decide)
  · exact h.last h.next c
  · exact h.seq h.next (fun _ => h.map (entityName_composed h)) c
  · exact h.seq h.next (fun _ => h.map hsuffixed) c
  · exact h.seq h.next (fun _ => h.map hsuffixed) c
  · exact namedType_composed h htype c
  · refine missing_composed h ?_
    simp only [List.mem_cons, List.not_mem_nil, or_false, not_or]
    exact ⟨by assumption, by assumption, by assumption, by assumption⟩

theorem primaryType_composed (c : Cursor) : P (primaryType type suffixed) c := by
  rw [primaryType_eq]
  refine h.look (fun _ => rfl) ?_
  exact h.bind (primaryShape_composed h htype hsuffixed c) fun _ => h.last (spanFrom_composed h _)

theorem suffixedType_composed (c : Cursor) : P (suffixedType type suffixed) c := by
  have hstep : ∀ start object c, P (suffixStep type start object) c := by
    intro start object
    unfold suffixStep
    refine h.here (fun _ _ => rfl) fun seen => ite_composed (h.seq h.next fun _ => ?_) (h.pure _)
    have hplaced : ∀ (shape : TypeShape) c,
        P (do return .inl ⟨shape, ← spanFrom start⟩ : Parse (TypeExpr ⊕ TypeExpr)) c :=
      fun _ => h.last (spanFrom_composed h start)
    refine h.seq (eat_composed h) fun _ => ite_composed (hplaced (.array object)) (h.seq htype fun index => ?_)
    exact h.seq (expect_composed h) fun _ => hplaced (.indexed object index)
  rw [suffixedType_eq]
  refine h.here (fun _ _ => rfl) (fun seen => h.seq (primaryType_composed h htype hsuffixed) fun primary => ?_) c
  exact repeatFrom_composed h (hstep _) primary

omit htype hsuffixed in
theorem operands_composed {operator : TokenKind} {combine : List TypeExpr → TypeShape} {part : Parse TypeExpr}
    (hpart : ∀ c, P part c) (c : Cursor) : P (operands operator combine part) c := by
  have hstep : ∀ parts c, P (operandStep operator part parts) c := fun parts =>
    h.seq (eat_composed h) fun _ => ite_composed (h.last hpart) (h.pure _)
  rw [operands_eq]
  refine h.here (fun _ _ => rfl) (fun seen => h.seq (eat_composed h) fun _ => h.seq hpart fun first => ?_) c
  exact h.isAt fun _ => ite_composed (h.pure _) (h.placed (repeatFrom_composed h hstep _))

omit hsuffixed in
theorem functionOr_composed {other : Parse TypeExpr} (hother : ∀ c, P other c) (c : Cursor) :
    P (functionOr type other) c :=
  h.here (fun _ _ => rfl) (fun _ => ite_composed (functionType_composed h htype false) hother) c

theorem intersectionType_composed (c : Cursor) : P (intersectionType type suffixed) c :=
  operands_composed h (functionOr_composed h htype (suffixedType_composed h htype hsuffixed)) c

theorem wholeType_composed (c : Cursor) : P (wholeType type suffixed) c := by
  have hunion : ∀ c, P (unionType type suffixed) c :=
    operands_composed h (functionOr_composed h htype (intersectionType_composed h htype hsuffixed))
  have hfunction := functionType_composed h htype
  exact h.here (fun _ _ => rfl) (fun seen => ite_composed (hfunction false) (ite_composed (hfunction true) hunion)) c

omit htype hsuffixed in
theorem typeAt_composed (level : TypeLevel) (c : Cursor) : P (typeAt level) c := by
  refine fix_composed h (fun call hcall level => ?_) level c
  cases level with
  | whole => exact wholeType_composed h (hcall .whole) (hcall .suffixed)
  | suffixed => exact suffixedType_composed h (hcall .whole) (hcall .suffixed)

omit htype hsuffixed in
theorem typeExpr_composed (c : Cursor) : P typeExpr c := typeAt_composed h .whole c

end Types

section Statements

theorem heritage_composed (c : Cursor) : P heritage c := by
  have htype : ∀ c, P heritageType c :=
    h.here (fun _ _ => rfl) fun _ =>
      h.seq (entityName_composed h) fun _ => h.placed (typeArgs_composed h (typeExpr_composed h))
  have hword : ∀ c, P heritageWord? c := h.seq (eat_composed h) fun _ =>
    ite_composed (h.pure _) (h.seq (eat_composed h) fun _ => ite_composed (h.pure _) (h.pure _))
  unfold heritage
  refine repeatFrom_composed h (fun clauses => h.here (fun _ _ => rfl) fun seen => h.seq hword fun word => ?_) [] c
  cases word with
  | none => exact h.pure _
  | some word => exact h.placed (separated_composed h htype)

theorem interfaceDecl_composed (c : Cursor) : P interfaceDecl c := by
  have htypeParams := typeParams_composed h (typeExpr_composed h)
  unfold interfaceDecl
  refine h.seq (expect_composed h) (fun _ => h.seq (ident_composed h) fun _ => h.seq htypeParams fun _ => ?_) c
  exact h.seq (heritage_composed h) fun _ => h.last (members_composed h (typeExpr_composed h))

theorem aliasDecl_composed (c : Cursor) : P aliasDecl c := by
  have htypeParams := typeParams_composed h (typeExpr_composed h)
  unfold aliasDecl
  refine h.seq (expect_composed h) (fun _ => h.seq (ident_composed h) fun _ => h.seq htypeParams fun _ => ?_) c
  refine h.seq (expect_composed h) fun _ => h.seq (typeExpr_composed h) fun _ => ?_
  exact h.last (h.map (eat_composed h))

theorem enumDecl_composed (isConst : Bool) (c : Cursor) : P (enumDecl isConst) c := by
  have hmember : ∀ c, P enumMember c := by
    unfold enumMember
    refine h.here (fun _ _ => rfl) fun seen => h.seq (propertyName_composed h) fun _ => ?_
    exact h.optional (constExpr_composed h) fun _ => h.last (spanFrom_composed h _)
  have hstep : ∀ members c, P (enumStep members) c := by
    intro members
    unfold enumStep
    refine h.seq (eat_composed h) fun _ => ite_composed (h.pure _) (h.seq hmember fun _ => ?_)
    exact h.seq (eat_composed h) fun _ => ite_composed (h.pure _) (h.last (expect_composed h))
  rw [enumDecl_eq]
  refine h.seq (expect_composed h) (fun _ => h.seq (ident_composed h) fun _ => ?_) c
  exact h.seq (expect_composed h) fun _ => h.last (repeatFrom_composed h hstep [])

theorem modifiers_composed (c : Cursor) : P modifiers c := by
  rw [modifiers_eq]
  refine repeatFrom_composed h (fun isConst => h.here (fun _ _ => rfl) fun seen => ?_) false c
  split
  · exact h.last h.next
  · exact h.last h.next
  · exact h.last h.next
  · exact h.last h.next
  · exact ite_composed (h.last h.next) (h.pure _)
  · exact h.pure _

variable {body : Parse (List Statement)} (hbody : ∀ c, P body c)
include hbody

theorem declaration_composed (isConst : Bool) (c : Cursor) : P (declaration body isConst) c := by
  have hskipped : ∀ c, P declaration.skipped c := h.last (skipBalanced_composed h)
  have hnamespace : ∀ c, P (namespaceDecl body) c := h.seq h.next fun _ =>
    h.seq (entityName_composed h) fun _ => h.seq (expect_composed h) fun _ => h.last hbody
  unfold declaration
  refine h.here (fun _ _ => rfl) (fun seen => ite_composed hskipped ?_) c
  split
  · exact hnamespace
  · exact hnamespace
  · exact h.last (interfaceDecl_composed h)
  · exact h.last (aliasDecl_composed h)
  · exact h.last (enumDecl_composed h isConst)
  · exact hskipped

theorem statement_composed (c : Cursor) : P (statement? body) c := by
  unfold statement?
  refine h.here (fun _ _ => rfl) (fun seen => h.seq (eat_composed h) fun _ => ite_composed (h.pure _) ?_) c
  refine ite_composed h.unexpected (h.seq (modifiers_composed h) fun isConst => ?_)
  exact h.placed (declaration_composed h hbody isConst)

omit hbody in
/-- What is reported is how a statement has failed, or that the text ends. -/
theorem statementsUntil_composed (closing : TokenKind) (c : Cursor) : P (statementsUntil closing) c := by
  refine fix_composed h (fun call hcall closing => repeatFrom_composed h (fun statements => ?_) []) closing c
  refine h.seq (eat_composed h) fun _ => ite_composed (h.pure _) (h.isAt fun _ => ite_composed ?_ fun m => ?_)
  · intro m
    have hended : P (Parse.report m.unexpected) m := h.report (h.unexpected (α := Unit) m) rfl
    exact h.look (fun _ => rfl) (h.bind hended fun _ => h.pure _)
  have hstatement := statement_composed h (hcall .closeBrace) m
  exact h.attempt hstatement (fun _ => h.pure _) fun _ _ hfails => recovery_composed h hstatement hfails _ _

end Statements

end NodeFactory
