import NodeFactory.Proofs.LayoutFree

/-!
# Types pass over the layout

Constant expressions, types and the members of type literals are read alike from lexemes that are
alike. A type is so even if the gap before its first lexeme differs (`typeExpr_respects`).
-/

namespace NodeFactory

open Parse

section Constants

variable {m m' : Relocation} {c c' : Cursor} {nested nested' : Parse ConstExpr}

theorem gluedKind?_succ (c : Cursor) (n : Nat) : c.gluedKind? (n + 1)
    = (c.rest.drop n)[1]?.bind fun lexeme => if lexeme.isGlued then some lexeme.kind else none := by
  rw [Cursor.gluedKind?, Cursor.peek?, List.getElem?_drop]

theorem gluedKind?_eq_some_iff {n : Nat} {lexeme : Lexeme} {lexemes : List Lexeme}
    (hangle : lexeme.kind = .less ∨ lexeme.kind = .greater)
    (hrest : c.rest.drop n = lexeme :: lexemes) :
    c.gluedKind? (n + 1) = some lexeme.kind ↔ lexeme.joins lexemes = true := by
  rw [gluedKind?_succ, hrest]
  cases lexemes with
  | nil => simp [Lexeme.joins]
  | cons next more =>
    by_cases hglued : next.isGlued = true <;>
      simp [Lexeme.joins, hglued, hangle]

/-- Whether an angle bracket is continued by another one is the same on both sides. -/
theorem Alike.gluedKind?_iff (h : Alike m m' true c c') {n : Nat} {kind : TokenKind}
    (hkind : c.kindAt n = kind) (hangle : kind = .less ∨ kind = .greater) :
    c.gluedKind? (n + 1) = some kind ↔ c'.gluedKind? (n + 1) = some kind := by
  have hrest := h.rest.drop n
  have hget : c.kindAt n = ((c.rest.drop n).head?.map Lexeme.kind).getD .endOfFile := by
    rw [List.head?_drop]
    rfl
  rw [hkind] at hget
  generalize hlexemes : c.rest.drop n = lexemes at hrest hget
  generalize hlexemes' : c'.rest.drop n = lexemes' at hrest
  cases hrest with
  | nil =>
    rw [hget] at hangle
    simp at hangle
  | cons hagrees hjoins _ =>
    obtain rfl : kind = _ := hget
    have h := gluedKind?_eq_some_iff hangle hlexemes
    have h' := gluedKind?_eq_some_iff (hagrees.kind ▸ hangle) hlexemes'
    rw [← hagrees.kind, ← hjoins] at h'
    exact h.trans h'.symm

theorem Alike.binaryOp?_eq (h : Alike m m' true c c') : c.binaryOp? = c'.binaryOp? := by
  have hkind := h.kind
  unfold Cursor.binaryOp?
  rw [hkind]
  split
  case h_9 hless =>
    simp only [h.gluedKind?_iff (hkind.trans hless) (.inl rfl)]
  case h_10 hgreater =>
    have hnext : c.gluedKind? 1 = some .greater → c.kindAt 1 = .greater := by
      intro hglued
      rw [Cursor.gluedKind?, Option.bind_eq_some_iff] at hglued
      obtain ⟨lexeme, hpeek, hglued⟩ := hglued
      rw [Cursor.kindAt, hpeek]
      split at hglued
      · exact Option.some.inj hglued
      · cases hglued
    by_cases hglued : c.gluedKind? 1 = some .greater
    · have hglued' := (h.gluedKind?_iff (hkind.trans hgreater) (.inr rfl)).1 hglued
      rw [if_pos hglued, if_pos hglued']
      simp only [h.gluedKind?_iff (hnext hglued) (.inr rfl)]
    · have hglued' := mt (h.gluedKind?_iff (hkind.trans hgreater) (.inr rfl)).2 hglued
      rw [if_neg hglued, if_neg hglued']
  all_goals rfl

theorem unaryOps_respects : Respects m m' true true Eq unaryOps unaryOps := by
  unfold unaryOps
  refine repeatFrom_respects (S := Eq) ?_ rfl
  rintro ops _ rfl
  refine .kind fun kind => ?_
  split
  · exact next_respects.seq fun _ _ _ => .pure (.inl rfl)
  · exact next_respects.seq fun _ _ _ => .pure (.inl rfl)
  · exact next_respects.seq fun _ _ _ => .pure (.inl rfl)
  · exact .pure (.inr rfl)

theorem constPrimary_respects (hnested : Respects m m' true true (Same m m') nested nested') :
    Respects m m' true true (Same m m') (constPrimary nested) (constPrimary nested') := by
  unfold constPrimary
  refine .kind fun kind => ?_
  split
  · refine .cursor fun c c' hc => ?_
    rw [hc.textAt]
    split
    · exact next_respects.seq fun _ _ _ => .pure rfl
    · exact unexpected_respects
  · refine propertyName_respects.bind fun name name' hname => .pure ?_
    obtain ⟨text, span⟩ := name
    obtain ⟨text', span'⟩ := name'
    simp_all [Same]
  · refine next_respects.seq fun _ _ _ => hnested.bind fun _ _ hinner => ?_
    exact (expect_respects .closeParen).bind fun _ _ _ => .pure hinner
  · exact entityName_respects.bind fun _ _ hname => .pure (by simp_all [Same])

theorem constOperand_respects (hnested : Respects m m' true true (Same m m') nested nested') :
    Respects m m' true true (Same m m') (constOperand nested) (constOperand nested') := by
  unfold constOperand
  refine unaryOps_respects.bind fun ops ops' hops => ?_
  subst hops
  refine (constPrimary_respects hnested).bind fun primary primary' hprimary => .pure ?_
  induction ops with
  | nil => exact hprimary
  | cons op ops ih => simp_all [Same]

theorem constExprAbove_respects (level : Nat) :
    Respects m m' true true (Same m m') (constExprAbove level) (constExprAbove level) := by
  unfold constExprAbove
  refine fix_respects (I := Eq) ?_ rfl
  rintro call call' hcall level _ rfl
  refine (constOperand_respects (hcall _ _ rfl)).bind fun left left' hleft => ?_
  refine repeatFrom_respects (S := Same m m') ?_ hleft
  intro left left' hleft
  refine .cursor fun c c' hc => ?_
  rw [hc.binaryOp?_eq]
  split
  · refine .ite (fun _ => .pure (.inr hleft)) fun _ => ?_
    refine (skip_respects _).bind fun _ _ _ => (hcall _ _ rfl).bind fun right right' hright => ?_
    exact .pure (.inl (by simp_all [Same]))
  · exact .pure (.inr hleft)

theorem constExpr_respects : Respects m m' true true (Same m m') constExpr constExpr :=
  constExprAbove_respects 0

end Constants

section Members

variable {m m' : Relocation} {b : Bool} {type type' : Parse TypeExpr}

theorem Alike.isVarianceWord_eq {c c' : Cursor} (h : Alike m m' b c c') :
    isVarianceWord c = isVarianceWord c' := by
  unfold isVarianceWord
  rw [h.kind, h.textAt, h.kindAt]

theorem varianceStep_respects :
    Respects m m' true true (Sum.LiftRel Eq Eq) varianceStep varianceStep := by
  refine .cursor fun c c' hc => ?_
  rw [hc.isVarianceWord_eq]
  exact .ite (fun _ => next_respects.seq fun _ _ _ => .pure (.inl rfl)) fun _ => .pure (.inr rfl)

variable (htype : Respects m m' true true (Same m m') type type')
include htype

theorem typeParam_respects :
    Respects m m' true true (Same m m') (typeParam type) (typeParam type') := by
  rw [typeParam_eq, typeParam_eq]
  refine (repeatFrom_respects (fun _ _ _ => varianceStep_respects) rfl).bind fun _ _ _ => ?_
  refine ident_respects.bind fun name name' hname => ?_
  refine htype.optional _ fun bound bound' hbound => ?_
  refine htype.optional _ fun fallback fallback' hfallback => .pure ?_
  simp_all [Same]

theorem typeParams_respects :
    Respects m m' b b (Same m m') (typeParams type) (typeParams type') := by
  unfold typeParams
  refine .isAt fun _ => ?_
  refine .ite (fun _ => ?_) fun _ => .pure .nil
  exact (enclosed_respects _ _ (typeParam_respects htype)).weaken

theorem typeArgs_respects :
    Respects m m' b b (Same m m') (typeArgs type) (typeArgs type') := by
  unfold typeArgs
  refine .isAt fun _ => ?_
  exact .ite (fun _ => (enclosed_respects _ _ htype).weaken) fun _ => .pure .nil

omit htype in
theorem paramName_respects : Respects m m' b true (Same m m') paramName paramName := by
  unfold paramName
  refine .kind fun kind => ?_
  refine .ite (fun _ => ?_) fun _ => ident_respects
  refine .cursor fun c c' hc => (skipGroup_respects kind).seq fun _ _ _ => ?_
  refine .placed hc.start fun span span' hspan => ?_
  simp_all [Same]

theorem param_respects : Respects m m' true true (Same m m') (param type) (param type') := by
  unfold param
  refine .eaten fun rest => .isAt fun _ => ?_
  refine .cursor fun c c' hc => ?_
  simp only [hc.kindAt]
  refine .when (fun _ => next_respects) ?_
  refine paramName_respects.bind fun name name' hname => ?_
  refine .eaten fun optional => ?_
  refine htype.optional _ fun type type' htype => ?_
  refine .eat_when constExpr_respects.discard (.pure ?_)
  simp_all [Same]

theorem params_respects : Respects m m' b true (Same m m') (params type) (params type') :=
  enclosed_respects _ _ (param_respects htype)

theorem returnType_respects :
    Respects m m' true true (Same m m') (returnType type) (returnType type') := by
  unfold returnType
  refine .cursor fun c c' hc => ?_
  simp only [hc.kind, hc.kindAt, hc.textAt]
  refine .ite (fun _ => ?_) fun _ => htype
  refine ident_respects.bind fun param param' hparam => next_respects.seq fun _ _ _ => ?_
  refine htype.bind fun narrowed narrowed' hnarrowed => .placed hc.start fun span span' hspan => ?_
  simp_all [Same]

theorem signature_respects :
    Respects m m' true true (Same m m') (signature type) (signature type') := by
  unfold signature
  refine (typeParams_respects htype).bind fun typeParams typeParams' htypeParams => ?_
  refine (params_respects htype).bind fun params params' hparams => ?_
  refine (returnType_respects htype).optional _ fun returns returns' hreturns => .pure ?_
  simp_all [Same]

theorem indexMember_respects :
    Respects m m' true true (Same m m') (indexMember type) (indexMember type') := by
  unfold indexMember
  refine (skipGroup_respects _).bind fun _ _ _ => .isAt fun _ => .isAt fun _ => .ite ?_ ?_
  · exact fun _ => (signature_respects htype).discard.bind fun _ _ _ => .pure rfl
  · refine fun _ => .isAt fun _ => .isAt fun _ => .when (fun _ => next_respects) ?_
    exact (eat_respects _).discard.bind fun _ _ _ => .eat_when htype.discard (.pure rfl)

theorem namedMember_respects :
    Respects m m' true true (Same m m') (namedMember type) (namedMember type') := by
  unfold namedMember
  refine .cursor fun c c' hc => ?_
  simp only [hc.kind, hc.kindAt]
  refine .when (fun _ => next_respects) ?_
  refine propertyName_respects.bind fun name name' hname => .eaten fun optional => ?_
  refine .when (fun _ => (eat_respects _).discard) ?_
  refine .isAt fun _ => .isAt fun _ => .ite (fun _ => ?_) fun _ => ?_
  · refine (signature_respects htype).bind fun signature signature' hsignature => .pure ?_
    simp_all [Same]
  · refine htype.optional _ fun type type' htype => .pure ?_
    simp_all [Same]

theorem memberShape_respects :
    Respects m m' true true (Same m m') (memberShape type) (memberShape type') := by
  unfold memberShape
  refine .cursor fun c c' hc => ?_
  simp only [hc.kind, hc.kindAt]
  split
  · exact indexMember_respects htype
  · refine (signature_respects htype).bind fun signature signature' hsignature => .pure ?_
    simp_all [Same]
  · refine (signature_respects htype).bind fun signature signature' hsignature => .pure ?_
    simp_all [Same]
  · refine .ite (fun _ => next_respects.seq fun _ _ _ => ?_) fun _ => namedMember_respects htype
    refine (signature_respects htype).bind fun signature signature' hsignature => .pure ?_
    simp_all [Same]
  · exact namedMember_respects htype

theorem member_respects : Respects m m' true true (Same m m') (member type) (member type') := by
  unfold member
  refine .cursor fun c c' hc => ?_
  refine (memberShape_respects htype).bind fun shape shape' hshape => .eaten fun _ => ?_
  refine .unless (fun _ => (eat_respects _).discard) (.placed hc.start fun span span' hspan => ?_)
  have hcomments := hc.comments
  simp_all [Same]

theorem members_respects : Respects m m' b true (Same m m') (members type) (members type') := by
  rw [members_eq, members_eq]
  refine (expect_respects _).seq fun _ _ _ => repeatFrom_respects (S := Same m m') ?_ .nil
  intro members members' hmembers
  refine .eat (.pure (.inr hmembers)) (.isAt fun _ => .ite (fun _ => ?_) fun _ => ?_)
  · exact (unexpected_respects (R := fun _ _ => False)).bind fun _ _ h => h.elim
  · refine .attempt (member_respects htype) (fun _ _ hmember => .pure (.inl (hmembers.concat hmember)))
      fun _ _ herror => ?_
    refine (report_respects herror).bind fun _ _ _ => (recover_respects _).bind fun _ _ _ => ?_
    exact .pure (.inl hmembers)

end Members

section Types

variable {m m' : Relocation} {b : Bool} {type type' suffixed suffixed' : Parse TypeExpr}

theorem shape_respects {shape shape' : TypeShape} (hshape : Same m m' shape shape') {start start' : Nat}
    (hstart : m.position start = m'.position start') : Respects m m' true true (Same m m')
      (do return (⟨shape, ← spanFrom start⟩ : TypeExpr)) (do return ⟨shape', ← spanFrom start'⟩) := by
  refine .placed hstart fun span span' hspan => ?_
  simp_all [Same]

section Calls

variable (htype : Respects m m' true true (Same m m') type type')
include htype

theorem unlabeledElement_respects :
    Respects m m' true true (Same m m') (unlabeledElement type) (unlabeledElement type') :=
  htype.bind fun _ _ helement => (eat_respects _).discard.bind fun _ _ _ => .pure helement

theorem tupleElement_respects :
    Respects m m' true true (Same m m') (tupleElement type) (tupleElement type') := by
  rw [tupleElement_eq, tupleElement_eq]
  refine (eat_respects _).discard.bind fun _ _ _ => .cursor fun c c' hc => ?_
  simp only [hc.kind, hc.kindAt]
  refine .ite (fun _ => next_respects.seq fun _ _ _ => ?_) fun _ => unlabeledElement_respects htype
  refine (eat_respects _).discard.bind fun _ _ _ => (expect_respects _).seq fun _ _ _ => ?_
  exact unlabeledElement_respects htype

theorem functionFrom_respects (isConstructor : Bool) {start start' : Nat}
    (hstart : m.position start = m'.position start') :
    Respects m m' b true (Same m m') (functionFrom type isConstructor start)
      (functionFrom type' isConstructor start') := by
  refine (typeParams_respects htype).bind fun typeParams typeParams' htypeParams => ?_
  refine (params_respects htype).seq fun params params' hparams => ?_
  refine (expect_respects _).seq fun _ _ _ => ?_
  refine (returnType_respects htype).bind fun returns returns' hreturns => ?_
  refine .placed hstart fun span span' hspan => ?_
  simp_all [Same]

theorem functionType_respects (isConstructor : Bool) :
    Respects m m' b true (Same m m') (functionType type isConstructor)
      (functionType type' isConstructor) := by
  rw [functionType_eq, functionType_eq]
  refine .cursor fun c c' hc => .ite (fun _ => ?_) fun _ => functionFrom_respects htype _ hc.start
  exact (expect_respects _).seq fun _ _ _ => functionFrom_respects htype _ hc.start

theorem namedType_respects : Respects m m' b true (Same m m') (namedType type) (namedType type') := by
  have hreference : Respects m m' b true (Same m m') (namedType.reference type)
      (namedType.reference type') := by
    unfold namedType.reference
    refine entityName_respects.seq fun name name' hname => ?_
    refine (typeArgs_respects htype).bind fun args args' hargs => .pure ?_
    simp_all [Same]
  unfold namedType
  refine .cursor fun c c' hc => ?_
  simp only [hc.textAt, hc.kindAt]
  refine .ite (fun _ => next_respects.seq fun _ _ _ => .pure rfl) fun _ => ?_
  split
  · exact .ite (fun _ => hreference) fun _ => next_respects.seq fun _ _ _ => .pure rfl
  · exact hreference

end Calls

variable (htype : Respects m m' true true (Same m m') type type')
  (hsuffixed : Respects m m' true true (Same m m') suffixed suffixed')
include htype hsuffixed

theorem primaryShape_respects (c : Cursor) : Respects m m' b true (Same m m')
    (primaryShape type suffixed c) (primaryShape type' suffixed' c) := by
  have hmissing : Respects m m' b true (Same m m') primaryType.missing primaryType.missing :=
    (lookedFor_respects _).bind fun _ _ _ => unexpected_respects
  have hnext : ∀ shape, Same m m' shape shape → Respects m m' b true (Same m m')
      (do next; return shape : Parse TypeShape) (do next; return shape) :=
    fun _ hshape => next_respects.seq fun _ _ _ => .pure hshape
  unfold primaryShape
  split
  · refine next_respects.seq fun _ _ _ => htype.bind fun inner inner' hinner => ?_
    refine (expect_respects _).seq fun _ _ _ => .pure ?_
    simp_all [Same]
  · refine (members_respects htype).map fun members members' hmembers => ?_
    simp_all [Same]
  · refine (enclosed_respects _ _ (tupleElement_respects htype)).map fun elements elements' helements => ?_
    simp_all [Same]
  · exact hnext _ rfl
  · exact hnext _ rfl
  · exact hnext _ rfl
  · exact .ite (fun _ => (skip_succ_respects 1).seq fun _ _ _ => .pure rfl) fun _ => hmissing
  · exact hnext _ rfl
  · refine next_respects.seq fun _ _ _ => entityName_respects.map fun name name' hname => ?_
    simp_all [Same]
  · refine next_respects.seq fun _ _ _ => hsuffixed.map fun type type' htype => ?_
    simp_all [Same]
  · refine next_respects.seq fun _ _ _ => hsuffixed.map fun type type' htype => ?_
    obtain ⟨shape, span⟩ := type
    obtain ⟨shape', span'⟩ := type'
    simp_all [Same]
  · exact namedType_respects htype
  · exact hmissing

theorem primaryType_respects :
    Respects m m' b true (Same m m') (primaryType type suffixed) (primaryType type' suffixed') := by
  rw [primaryType_eq, primaryType_eq]
  refine .cursor fun c c' hc => ?_
  rw [← primaryShape_congr hc.kind fun _ => hc.kindAt 1]
  exact (primaryShape_respects htype hsuffixed c).seq fun shape shape' hshape => shape_respects hshape hc.start

omit hsuffixed in
theorem suffixStep_respects {start start' : Nat} (hstart : m.position start = m'.position start')
    {object object' : TypeExpr} (hobject : Same m m' object object') :
    Respects m m' true true (Sum.LiftRel (Same m m') (Same m m')) (suffixStep type start object)
      (suffixStep type' start' object') := by
  refine .cursor fun c c' hc => ?_
  have hbracket : (c.kind == .openBracket && !c.startsLine)
      = (c'.kind == .openBracket && !c'.startsLine) := by
    rw [← hc.kind]
    by_cases hkind : c.kind = .openBracket
    · rw [hc.startsLine hkind]
    · rw [beq_eq_false_iff_ne.2 hkind, Bool.false_and, Bool.false_and]
  have hplaced : ∀ shape shape' : TypeShape, Same m m' shape shape' →
      Respects m m' true true (Sum.LiftRel (Same m m') (Same m m'))
        (do return .inl ⟨shape, ← spanFrom start⟩ : Parse (TypeExpr ⊕ TypeExpr))
        (do return .inl ⟨shape', ← spanFrom start'⟩) := by
    refine fun shape shape' hshape => .placed hstart fun span span' hspan => .inl ?_
    simp_all [Same]
  simp only [hbracket]
  refine .ite (fun _ => next_respects.seq fun _ _ _ => .eat ?_ ?_) fun _ => .pure (.inr hobject)
  · refine hplaced (.array object) (.array object') ?_
    simp_all [Same]
  · refine htype.bind fun index index' hindex => (expect_respects _).seq fun _ _ _ => ?_
    refine hplaced (.indexed object index) (.indexed object' index') ?_
    simp_all [Same]

theorem suffixedType_respects :
    Respects m m' b true (Same m m') (suffixedType type suffixed)
      (suffixedType type' suffixed') := by
  rw [suffixedType_eq, suffixedType_eq]
  refine .cursor fun c c' hc => (primaryType_respects htype hsuffixed).seq fun _ _ hprimary => ?_
  exact repeatFrom_respects (fun _ _ hobject => suffixStep_respects htype hc.start hobject) hprimary

omit htype hsuffixed in
theorem operandStep_respects (operator : TokenKind) {part part' : Parse TypeExpr}
    (hpart : Respects m m' true true (Same m m') part part') {parts parts' : List TypeExpr}
    (hparts : Same m m' parts parts') :
    Respects m m' true true (Sum.LiftRel (Same m m') (Same m m')) (operandStep operator part parts)
      (operandStep operator part' parts') :=
  .eat (hpart.bind fun _ _ hmore => .pure (.inl (hparts.concat hmore))) (.pure (.inr hparts))

omit htype hsuffixed in
theorem operands_respects (operator : TokenKind) {combine : List TypeExpr → TypeShape}
    (hcombine : ∀ parts parts', Same m m' parts parts' →
      Same m m' (combine parts) (combine parts'))
    {part part' : Parse TypeExpr} (hpart : ∀ b, Respects m m' b true (Same m m') part part') :
    Respects m m' b true (Same m m') (operands operator combine part)
      (operands operator combine part') := by
  rw [operands_eq, operands_eq]
  refine .cursor fun c c' hc => (eat_respects operator).bind fun isLed isLed' hled => ?_
  subst hled
  refine (hpart b).seq fun first first' hfirst => .isAt fun _ => ?_
  refine .ite (fun _ => .pure hfirst) fun _ => ?_
  refine (repeatFrom_respects (fun _ _ hparts => operandStep_respects operator (hpart true) hparts)
    (Same.nil.concat hfirst)).bind fun parts parts' hparts => ?_
  exact shape_respects (hcombine parts parts' hparts) hc.start

omit htype hsuffixed in
theorem Alike.startsFunction_eq {c c' : Cursor} (h : Alike m m' b c c') :
    c.startsFunction = c'.startsFunction := by
  unfold Cursor.startsFunction
  rw [h.kind, (h.rest.drop 1).groupLength?_eq]
  simp only [h.kindAt]

omit hsuffixed in
theorem functionOr_respects {other other' : Parse TypeExpr}
    (hother : Respects m m' b true (Same m m') other other') :
    Respects m m' b true (Same m m') (functionOr type other) (functionOr type' other') := by
  unfold functionOr
  refine .cursor fun c c' hc => ?_
  rw [hc.startsFunction_eq]
  exact .ite (fun _ => functionType_respects htype false) fun _ => hother

theorem intersectionType_respects :
    Respects m m' b true (Same m m') (intersectionType type suffixed)
      (intersectionType type' suffixed') := by
  refine operands_respects _ (fun parts parts' hparts => ?_) fun _ =>
    functionOr_respects htype (suffixedType_respects htype hsuffixed)
  simp_all [Same]

theorem unionType_respects :
    Respects m m' b true (Same m m') (unionType type suffixed) (unionType type' suffixed') := by
  refine operands_respects _ (fun parts parts' hparts => ?_) fun _ =>
    functionOr_respects htype (intersectionType_respects htype hsuffixed)
  simp_all [Same]

theorem wholeType_respects :
    Respects m m' b true (Same m m') (wholeType type suffixed) (wholeType type' suffixed') := by
  unfold wholeType
  refine .cursor fun c c' hc => ?_
  simp only [hc.startsFunction_eq, hc.kind]
  refine .ite (fun _ => functionType_respects htype false) fun _ => ?_
  exact .ite (fun _ => functionType_respects htype true) fun _ => unionType_respects htype hsuffixed

end Types

section Whole

variable {m m' : Relocation} {b : Bool}

theorem typeAt_respects (level : TypeLevel) :
    Respects m m' b true (Same m m') (typeAt level) (typeAt level) := by
  unfold typeAt
  refine fix_respects_first (I := Eq) ?_ rfl
  rintro b call call' hcall level _ rfl
  cases level with
  | whole => exact wholeType_respects (hcall _ _ rfl) (hcall _ _ rfl)
  | suffixed => exact suffixedType_respects (hcall _ _ rfl) (hcall _ _ rfl)

/-- Types are read alike from lexemes that are alike, and the gap before the first does not count. -/
theorem typeExpr_respects : Respects m m' b true (Same m m') typeExpr typeExpr :=
  typeAt_respects .whole

end Whole

end NodeFactory
