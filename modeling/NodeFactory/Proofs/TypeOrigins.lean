import NodeFactory.Proofs.DeclaredTypes
import NodeFactory.Proofs.LocalTypes
import NodeFactory.Proofs.LayoutFreeStatements

/-!
# Where declared types come from

In a text without errors every type that a property has or a method returns was read as a type, by
itself, from where its lexemes begin (`declaredTypes_isRead`). An action yields values with a
property if its runs without errors do, from the lexemes of the text.
-/

namespace NodeFactory

open Parse

/-- From its place in the text, and while no errors are reported, an action gives a value with a
property and stays in the text. -/
def Yields {α : Type} (lexemes : List Lexeme) (R : α → Prop) (A : Parse α) (c : Cursor) : Prop :=
  ∀ value d, A c = .ok value d → d.errors = [] →
    c.errors = [] ∧ d.rest <:+ c.rest ∧ (c.rest <:+ lexemes → R value)

section Combined

variable {α β : Type} {lexemes : List Lexeme} {R : α → Prop} {S : β → Prop} {A A' : Parse α}
  {c : Cursor}

/-- What is local stays in the text. -/
theorem Local.yields {portion : Portion} (h : Local ⟨0, 0⟩ (fun _ => portion) A A' c)
    (hcut : portion.toCut = true) : Yields lexemes (fun _ => True) A c := by
  intro value d hrun hclean
  obtain ⟨herrors, ⟨xs, hxs, -⟩, -⟩ := h value d hrun hclean (Nat.zero_le _) fun _ => hcut
  exact ⟨herrors, ⟨xs, hxs.rest.symm⟩, fun _ => trivial⟩

theorem Yields.pure {value : α} (h : R value) : Yields lexemes R (pure value) c := by
  intro _ d hrun hclean
  cases hrun
  exact ⟨hclean, List.suffix_rfl, fun _ => h⟩

theorem Yields.mono {R' : α → Prop} (h : Yields lexemes R A c) (hR : ∀ value, R value → R' value) :
    Yields lexemes R' A c := by
  intro value d hrun hclean
  obtain ⟨herrors, hsuffix, hvalue⟩ := h value d hrun hclean
  exact ⟨herrors, hsuffix, fun hc => hR value (hvalue hc)⟩

theorem Yields.bind {B : α → Parse β} (hA : Yields lexemes R A c)
    (hB : ∀ value m, Yields lexemes (fun result => R value → S result) (B value) m) :
    Yields lexemes S (A >>= B) c := by
  intro result d hrun hclean
  obtain ⟨value, m, hrunA, hrunB⟩ := bind_eq_ok_iff.1 hrun
  obtain ⟨hm, hsuffix, hresult⟩ := hB value m result d hrunB hclean
  obtain ⟨herrors, hsuffix', hvalue⟩ := hA value m hrunA hm
  exact ⟨herrors, hsuffix.trans hsuffix', fun hc => hresult (hsuffix'.trans hc) (hvalue hc)⟩

/-- Nothing needs to be known of the first value. -/
theorem Yields.then {B : α → Parse β} (hA : Yields lexemes R A c)
    (hB : ∀ value m, Yields lexemes S (B value) m) : Yields lexemes S (A >>= B) c :=
  hA.bind fun value m => (hB value m).mono fun _ hresult _ => hresult

theorem Yields.map {f : α → β} (hA : Yields lexemes R A c) (hf : ∀ value, R value → S (f value)) :
    Yields lexemes S (f <$> A) c := by
  intro result d hrun hclean
  obtain ⟨value, hrunA, rfl⟩ := map_eq_ok_iff.1 hrun
  obtain ⟨herrors, hsuffix, hvalue⟩ := hA value d hrunA hclean
  exact ⟨herrors, hsuffix, fun hc => hf value (hvalue hc)⟩

theorem Yields.discard (hA : Yields lexemes R A c) :
    Yields lexemes (fun _ => True) (discard A) c :=
  hA.map fun _ _ => trivial

theorem Yields.ite {p : Prop} [Decidable p] {B : Parse α} (hA : p → Yields lexemes R A c)
    (hB : ¬ p → Yields lexemes R B c) : Yields lexemes R (if p then A else B) c := by
  by_cases hp : p
  · rw [if_pos hp]
    exact hA hp
  · rw [if_neg hp]
    exact hB hp

theorem Yields.here {f : Cursor → Parse α} (h : Yields lexemes R (f c) c) :
    Yields lexemes R (cursor >>= f) c := h

theorem Yields.isAt {kind : TokenKind} {f : Bool → Parse α}
    (h : ∀ found, Yields lexemes R (f found) c) : Yields lexemes R (Parse.isAt kind >>= f) c :=
  h (c.kind == kind)

theorem Yields.unexpected : Yields lexemes R (Parse.unexpected : Parse α) c := by
  intro _ _ hrun
  cases hrun

theorem Yields.reported {f : Unit → Parse α} {error : ParseError}
    (hf : Yields lexemes R (f ()) (c.report error)) :
    Yields lexemes R (report error >>= f) c := by
  intro value d hrun hclean
  obtain ⟨herrors, -, -⟩ := hf value d hrun hclean
  exact absurd herrors (List.append_ne_nil_of_right_ne_nil _ (List.cons_ne_nil _ _))

theorem Yields.attempt {f : Except ParseError α → Parse β} (hA : Yields lexemes R A c)
    (hok : ∀ value m, Yields lexemes (fun result => R value → S result) (f (.ok value)) m)
    (herror : ∀ error m result d, f (.error error) m = .ok result d → d.errors ≠ []) :
    Yields lexemes S (Parse.outcome A >>= f) c := by
  intro result d hrun hclean
  change EStateM.bind (Parse.outcome A) f c = _ at hrun
  unfold EStateM.bind Parse.outcome at hrun
  cases hrunA : A c with
  | ok value m =>
    rw [hrunA] at hrun
    have hvalue := hA.bind hok
    refine hvalue result d ?_ hclean
    rw [bind_of_ok hrunA]
    exact hrun
  | error error m =>
    rw [hrunA] at hrun
    exact absurd hclean (herror error m result d hrun)

end Combined

section Elementary

variable {α β : Type} {lexemes : List Lexeme} {R : α → Prop} {c : Cursor} {kind : TokenKind}

theorem next_yields : Yields lexemes (fun _ => True) next c := by
  intro _ _ hrun hclean
  cases hrun
  refine ⟨c.errors_next ▸ hclean, ?_, fun _ => trivial⟩
  rw [c.rest_next]
  exact List.tail_suffix _

theorem skip_yields (n : Nat) : Yields lexemes (fun _ => True) (skip n) c := by
  intro _ _ hrun hclean
  cases hrun
  refine ⟨c.errors_skip n ▸ hclean, ?_, fun _ => trivial⟩
  rw [c.rest_skip]
  exact List.drop_suffix _ _

/-- After a lexeme has been read, nothing has been looked for in vain. -/
theorem Yields.eat {f : Bool → Parse α}
    (htrue : ∀ m, m.expected = [] → Yields lexemes R (f true) m)
    (hfalse : ∀ m, Yields lexemes R (f false) m) : Yields lexemes R (Parse.eat kind >>= f) c := by
  intro value d hrun hclean
  by_cases h : c.kind = kind
  · rw [bind_of_ok (eat_of_kind h)] at hrun
    obtain ⟨herrors, hsuffix, hvalue⟩ := htrue c.next c.expected_next value d hrun hclean
    have hread : c.next.rest <:+ c.rest := c.rest_next ▸ List.tail_suffix _
    exact ⟨c.errors_next ▸ herrors, hsuffix.trans hread, fun hc => hvalue (hread.trans hc)⟩
  · rw [bind_of_ok (eat_of_ne h)] at hrun
    exact hfalse (c.expect [kind]) value d hrun hclean

theorem Yields.eaten {f : Bool → Parse α} (hf : ∀ found m, Yields lexemes R (f found) m) :
    Yields lexemes R (Parse.eat kind >>= f) c :=
  .eat (fun m _ => hf true m) (hf false)

theorem eat_yields : Yields lexemes (fun _ => True) (eat kind) c := by
  intro _ _ hrun hclean
  rw [eat_eq] at hrun
  split at hrun
  · cases hrun
    exact next_yields () _ rfl hclean
  · cases hrun
    exact ⟨hclean, List.suffix_rfl, fun _ => trivial⟩

theorem expect_yields : Yields lexemes (fun _ => True) (expect kind) c :=
  .eaten fun _ _ => .ite (fun _ => .pure trivial) fun _ => .unexpected

/-- A value after a lexeme that may be missing. -/
theorem Yields.optional {S : β → Prop} {A : Parse β} {f : Option β → Parse α}
    (hA : ∀ m, m.expected = [] → Yields lexemes S A m)
    (hf : ∀ value m, Yields lexemes (fun result => (∀ b ∈ value, S b) → R result) (f value) m) :
    Yields lexemes R
      (Parse.eat kind >>= fun found => if found then some <$> A >>= f else Pure.pure none >>= f) c := by
  refine .eat (fun m hm => ?_) fun m => ?_
  · have hsome : Yields lexemes (fun value => ∀ b ∈ value, S b) (some <$> A) m :=
      (hA m hm).map fun _ hvalue _ h => Option.some.inj h ▸ hvalue
    exact hsome.bind hf
  · have hnone : Yields lexemes (fun value => ∀ b ∈ value, S b) (Pure.pure none : Parse (Option β)) m :=
      .pure fun _ h => nomatch h
    exact hnone.bind hf

theorem spanFrom_yields (start : Nat) : Yields lexemes (fun _ => True) (spanFrom start) c :=
  (spanFrom_local start).yields rfl

theorem Yields.placed {f : Text.Span → α} {start : Nat} (h : ∀ span, R (f span)) :
    Yields lexemes R (do return f (← spanFrom start)) c :=
  (spanFrom_yields start).then fun span _ => .pure (h span)

end Elementary

section Repeated

variable {ι σ α : Type} {lexemes : List Lexeme}

/-- What a call gives is what the action gives, wherever it is called. -/
theorem fix_yields {R : ι → α → Prop} {body : (ι → Parse α) → ι → Parse α}
    (hbody : ∀ call : ι → Parse α, (∀ i m, Yields lexemes (R i) (call i) m) →
      (∀ i m value d, call i m = .ok value d → fix body i m = .ok value d) →
        ∀ i m, Yields lexemes (R i) (body call i) m) (i : ι) (c : Cursor) :
    Yields lexemes (R i) (fix body i) c := by
  generalize hn : c.size = n
  induction n using Nat.strongRecOn generalizing i c with
  | ind n ih =>
    intro value d hrun hclean
    rw [fix_eq] at hrun
    refine hbody (fun j => below c.size (fix body j)) (fun j m value d hcall hclean => ?_)
      (fun j m value d hcall => ?_) i c value d hrun hclean
    · unfold below at hcall
      split at hcall
      · rename_i hlt
        exact ih m.size (hn ▸ hlt) j m rfl value d hcall hclean
      · cases hcall
    · unfold below at hcall
      split at hcall
      · exact hcall
      · cases hcall

theorem repeatFrom_yields {P : σ → Prop} {R : α → Prop} {step : σ → Parse (σ ⊕ α)}
    (hstep : ∀ state c, Yields lexemes (fun result => P state → Sum.elim P R result) (step state) c)
    (state : σ) (c : Cursor) :
    Yields lexemes (fun value => P state → R value) (repeatFrom step state) c := by
  refine fix_yields (R := fun state value => P state → R value) (fun call hcall _ state m => ?_)
    state c
  refine (hstep state m).bind fun result m => ?_
  cases result with
  | inl state =>
    exact (hcall state m).mono fun _ hvalue hresult hstate => hvalue (hresult hstate)
  | inr result => exact .pure fun hresult hstate => hresult hstate

theorem repeated_yields {P : σ → Prop} {R : α → Prop} {step : σ → Parse (σ ⊕ α)}
    (hstep : ∀ state c, Yields lexemes (fun result => P state → Sum.elim P R result) (step state) c)
    {state : σ} (hstate : P state) (c : Cursor) : Yields lexemes R (repeatFrom step state) c :=
  (repeatFrom_yields hstep state c).mono fun _ h => h hstate

theorem enclosed_yields [Declaring α] {P : TypeExpr → Prop} {opening closing : TokenKind}
    {item : Parse α} (hitem : ∀ c, Yields lexemes (DeclaresOnly P) item c) (c : Cursor) :
    Yields lexemes (DeclaresOnly P) (enclosed opening item closing) c := by
  unfold enclosed
  refine expect_yields.then fun _ m => repeated_yields (P := DeclaresOnly P) (fun items c => ?_)
    (declaresOnly_nil P) m
  refine .eaten fun _ m => .ite (fun _ => .pure id) fun _ => (hitem m).bind fun item m => ?_
  have hmore : DeclaresOnly P item → DeclaresOnly P items → DeclaresOnly P (items ++ [item]) := by
    intro hitem hitems
    simp [hitem, hitems]
  refine .eaten fun _ m => .ite (fun _ => .pure hmore) fun _ => ?_
  exact expect_yields.then fun _ _ => .pure hmore

theorem separated_yields [Declaring α] {P : TypeExpr → Prop} {item : Parse α}
    (hitem : ∀ c, Yields lexemes (DeclaresOnly P) item c) (c : Cursor) :
    Yields lexemes (DeclaresOnly P) (separated item) c := by
  unfold separated
  refine repeated_yields (P := DeclaresOnly P) (fun items c => ?_) (declaresOnly_nil P) c
  refine (hitem c).bind fun item m => ?_
  have hmore : DeclaresOnly P item → DeclaresOnly P items → DeclaresOnly P (items ++ [item]) := by
    intro hitem hitems
    simp [hitem, hitems]
  exact .eaten fun found _ => .pure (by cases found <;> exact hmore)

end Repeated

section Names

variable {lexemes : List Lexeme} {c : Cursor}

theorem ident_yields : Yields lexemes (fun _ => True) ident c := (ident_local c).yields rfl

theorem propertyName_yields : Yields lexemes (fun _ => True) propertyName c :=
  (propertyName_local c).yields rfl

theorem entityName_yields : Yields lexemes (fun _ => True) entityName c :=
  (entityName_local c).yields rfl

theorem constExpr_yields : Yields lexemes (fun _ => True) constExpr c :=
  (constExpr_local c).yields rfl

theorem paramName_yields : Yields lexemes (fun _ => True) paramName c :=
  (paramName_local c).yields rfl

end Names

section Members

variable {lexemes : List Lexeme} {P : TypeExpr → Prop} {type : Parse TypeExpr}

theorem declaresOnly_option {α : Type} [Declaring α] {a : Option α} :
    DeclaresOnly P a ↔ ∀ b ∈ a, DeclaresOnly P b := by
  cases a <;> simp

/-- A type that is read where nothing was looked for before has the property itself. -/
def ReadsTypes (lexemes : List Lexeme) (P : TypeExpr → Prop) (type : Parse TypeExpr) : Prop :=
  ∀ c, Yields lexemes (fun t => DeclaresOnly P t ∧ (c.expected = [] → P t)) type c

variable (htype : ReadsTypes lexemes P type)
include htype

theorem ReadsTypes.declares (c : Cursor) : Yields lexemes (DeclaresOnly P) type c :=
  (htype c).mono fun _ h => h.1

theorem typeParam_yields (c : Cursor) : Yields lexemes (DeclaresOnly P) (typeParam type) c := by
  unfold typeParam
  refine (repeated_yields (P := fun _ => True) (R := fun _ => True) (fun _ m => ?_) trivial c).then
    fun _ m => ident_yields.then fun name m => ?_
  · exact .here (.ite (fun _ => next_yields.then fun _ _ => .pure fun _ => trivial)
      fun _ => .pure fun _ => trivial)
  · refine .optional (fun m _ => htype.declares m) fun bound m => ?_
    refine .optional (fun m _ => htype.declares m) fun fallback m => .pure ?_
    intro hfallback hbound
    simp [declaresOnly_option.2 hbound, declaresOnly_option.2 hfallback]

theorem typeParams_yields (c : Cursor) : Yields lexemes (DeclaresOnly P) (typeParams type) c := by
  unfold typeParams
  refine .isAt fun _ => .ite (fun _ => ?_) fun _ => .pure (declaresOnly_nil P)
  exact enclosed_yields (typeParam_yields htype) c

theorem typeArgs_yields (c : Cursor) : Yields lexemes (DeclaresOnly P) (typeArgs type) c := by
  unfold typeArgs
  refine .isAt fun _ => .ite (fun _ => ?_) fun _ => .pure (declaresOnly_nil P)
  exact enclosed_yields htype.declares c

theorem namedParam_yields (rest : Bool) (c : Cursor) :
    Yields lexemes (DeclaresOnly P) (namedParam type rest) c := by
  refine paramName_yields.then fun name m => .eaten fun optional m => ?_
  refine .optional (fun m _ => htype.declares m) fun type m => ?_
  have hparam : (∀ t ∈ type, DeclaresOnly P t) →
      DeclaresOnly P (⟨name, rest, optional, type⟩ : Param) := by
    intro htype
    simp [declaresOnly_option.2 htype]
  refine .eaten fun _ m => .ite (fun _ => ?_) fun _ => .pure hparam
  exact constExpr_yields.discard.then fun _ _ => .pure hparam

theorem param_yields (c : Cursor) : Yields lexemes (DeclaresOnly P) (param type) c := by
  rw [param_eq]
  refine .eaten fun rest m => .isAt fun _ => .here (.ite (fun _ => ?_) fun _ => ?_)
  · exact next_yields.then fun _ m => namedParam_yields htype rest m
  · exact namedParam_yields htype rest m

theorem params_yields (c : Cursor) : Yields lexemes (DeclaresOnly P) (params type) c :=
  enclosed_yields (param_yields htype) c

theorem returnType_yields (c : Cursor) : Yields lexemes
    (fun t => DeclaresOnly P t ∧ (c.expected = [] → t.isPredicate = false → P t))
    (returnType type) c := by
  unfold returnType
  refine .here (.ite (fun _ => ?_) fun _ => ?_)
  · refine ident_yields.then fun param m => next_yields.then fun _ m => ?_
    refine (htype.declares m).bind fun narrowed m => .placed fun span hnarrowed => ?_
    exact ⟨by simpa using hnarrowed, fun _ h => nomatch h⟩
  · exact (htype c).mono fun _ h => ⟨h.1, fun hc _ => h.2 hc⟩

theorem signature_yields (c : Cursor) : Yields lexemes
    (fun signature => DeclaresOnly P signature
      ∧ ∀ t ∈ signature.returns, t.isPredicate = false → P t) (signature type) c := by
  unfold signature
  refine (typeParams_yields htype c).bind fun typeParams m => ?_
  refine (params_yields htype m).bind fun params m => ?_
  refine .optional (S := fun t => DeclaresOnly P t ∧ (t.isPredicate = false → P t))
    (fun m hm => (returnType_yields htype m).mono fun _ h => ⟨h.1, h.2 hm⟩) fun returns m => .pure ?_
  intro hreturns hparams htypeParams
  refine ⟨?_, fun t ht => (hreturns t ht).2⟩
  simp [htypeParams, hparams, declaresOnly_option.2 fun t ht => (hreturns t ht).1]

theorem indexRest_yields (c : Cursor) : Yields lexemes (DeclaresOnly P) (indexRest type) c := by
  refine eat_yields.discard.then fun _ m => .eaten fun _ m => .ite (fun _ => ?_) fun _ => ?_
  · exact (htype.declares m).discard.then fun _ m => .pure (declaresOnly_index P)
  · exact .pure (declaresOnly_index P)

theorem indexMember_yields (c : Cursor) :
    Yields lexemes (DeclaresOnly P) (indexMember type) c := by
  rw [indexMember_eq]
  refine ((skipGroup_local rfl c).yields rfl).then fun _ m => .isAt fun _ => .isAt fun _ => ?_
  refine .ite (fun _ => ?_) fun _ => .isAt fun _ => .isAt fun _ => .ite (fun _ => ?_) fun _ => ?_
  · exact (signature_yields htype m).discard.then fun _ m => .pure (declaresOnly_index P)
  · exact next_yields.then fun _ m => indexRest_yields htype m
  · exact indexRest_yields htype m

theorem memberAfterName_yields (name : Ident) (optional readonly : Bool) (c : Cursor) :
    Yields lexemes (DeclaresOnly P) (memberAfterName type name optional readonly) c := by
  refine .isAt fun _ => .isAt fun _ => .ite (fun _ => ?_) fun _ => ?_
  · refine (signature_yields htype c).bind fun signature m => .pure fun hsignature => ?_
    simpa using ⟨hsignature.2, hsignature.1⟩
  · refine .optional (S := fun t => DeclaresOnly P t ∧ P t)
      (fun m hm => (htype m).mono fun _ h => ⟨h.1, h.2 hm⟩) fun type m => .pure fun htype => ?_
    rw [declaresOnly_property]
    exact ⟨fun t ht => (htype t ht).2, declaresOnly_option.2 fun t ht => (htype t ht).1⟩

theorem memberFromName_yields (readonly : Bool) (c : Cursor) :
    Yields lexemes (DeclaresOnly P) (memberFromName type readonly) c := by
  refine propertyName_yields.then fun name m => .eaten fun optional m => .ite (fun _ => ?_) fun _ => ?_
  · exact eat_yields.discard.then fun _ m => memberAfterName_yields htype _ _ _ m
  · exact memberAfterName_yields htype _ _ _ m

theorem namedMember_yields (c : Cursor) :
    Yields lexemes (DeclaresOnly P) (namedMember type) c := by
  rw [namedMember_eq]
  refine .here (.ite (fun _ => ?_) fun _ => memberFromName_yields htype _ c)
  exact next_yields.then fun _ m => memberFromName_yields htype _ m

theorem memberShape_yields (c : Cursor) :
    Yields lexemes (DeclaresOnly P) (memberShape type) c := by
  have hcall : ∀ m, Yields lexemes (DeclaresOnly P)
      (do return MemberShape.call (← signature type)) m := by
    intro m
    exact (signature_yields htype m).bind fun _ m => .pure fun h => by simpa using h.1
  unfold memberShape
  refine .here ?_
  split
  · exact indexMember_yields htype c
  · exact hcall c
  · exact hcall c
  · refine .ite (fun _ => next_yields.then fun _ m => ?_) fun _ => namedMember_yields htype c
    exact (signature_yields htype m).bind fun _ m => .pure fun h => by simpa using h.1
  · exact namedMember_yields htype c

theorem member_yields (c : Cursor) : Yields lexemes (DeclaresOnly P) (member type) c := by
  unfold member
  refine .here ((memberShape_yields htype c).bind fun shape m => .eaten fun _ m => ?_)
  refine .ite (fun _ => .placed fun span hshape => ?_) fun _ =>
    eat_yields.discard.then fun _ m => .placed fun span hshape => ?_
  · simpa using hshape
  · simpa using hshape

theorem members_yields (c : Cursor) : Yields lexemes (DeclaresOnly P) (members type) c := by
  unfold members
  refine expect_yields.then fun _ m => repeated_yields (P := DeclaresOnly P) (fun members c => ?_)
    (declaresOnly_nil P) m
  refine .eaten fun _ m => .ite (fun _ => .pure id) fun _ => .isAt fun _ => .ite (fun _ => ?_) fun _ => ?_
  · intro _ _ hrun
    cases hrun
  · refine (member_yields htype m).attempt (fun member m => .pure fun hmember hmembers => ?_)
      fun error m result d h => errors_of_reported h
    have hmore : DeclaresOnly P (members ++ [member]) := by simp [hmember, hmembers]
    exact hmore

theorem unlabeledElement_yields (c : Cursor) :
    Yields lexemes (DeclaresOnly P) (unlabeledElement type) c := by
  refine (htype.declares c).bind fun element m => ?_
  exact eat_yields.discard.then fun _ _ => .pure id

theorem tupleElement_yields (c : Cursor) :
    Yields lexemes (DeclaresOnly P) (tupleElement type) c := by
  rw [tupleElement_eq]
  refine eat_yields.discard.then fun _ m => .here (.ite (fun _ => ?_) fun _ => unlabeledElement_yields htype m)
  refine next_yields.then fun _ m => eat_yields.discard.then fun _ m => ?_
  exact expect_yields.then fun _ m => unlabeledElement_yields htype m

end Members

section Types

variable {lexemes : List Lexeme} {P : TypeExpr → Prop} {type suffixed : Parse TypeExpr}

theorem placed_yields {shape : TypeShape} (start : Nat) (c : Cursor) :
    Yields lexemes (fun t => DeclaresOnly P shape → DeclaresOnly P t)
      (do return (⟨shape, ← spanFrom start⟩ : TypeExpr)) c :=
  .placed fun _ => id

variable (htype : ReadsTypes lexemes P type)
  (hsuffixed : ∀ c, Yields lexemes (DeclaresOnly P) suffixed c)

include htype in
theorem functionFrom_yields (isConstructor : Bool) (start : Nat) (c : Cursor) :
    Yields lexemes (DeclaresOnly P) (functionFrom type isConstructor start) c := by
  refine (typeParams_yields htype c).bind fun typeParams m => ?_
  refine (params_yields htype m).bind fun params m => expect_yields.then fun _ m => ?_
  refine (returnType_yields htype m).bind fun returns m => ?_
  refine (placed_yields start m).mono fun t ht hreturns hparams htypeParams => ht ?_
  simp [htypeParams, hparams, hreturns.1]

include htype in
theorem functionType_yields (isConstructor : Bool) (c : Cursor) :
    Yields lexemes (DeclaresOnly P) (functionType type isConstructor) c := by
  rw [functionType_eq]
  refine .here (.ite (fun _ => ?_) fun _ => functionFrom_yields htype isConstructor c.start c)
  exact expect_yields.then fun _ m => functionFrom_yields htype isConstructor c.start m

include htype in
theorem namedType_yields (c : Cursor) : Yields lexemes (DeclaresOnly P) (namedType type) c := by
  have hreference : Yields lexemes (DeclaresOnly P) (namedType.reference type) c := by
    unfold namedType.reference
    refine entityName_yields.then fun name m => (typeArgs_yields htype m).bind fun args m => ?_
    exact .pure fun hargs => by simpa using hargs
  unfold namedType
  refine .here (.ite (fun _ => next_yields.then fun _ _ => .pure (by simp)) fun _ => ?_)
  split
  · exact .ite (fun _ => hreference) fun _ => next_yields.then fun _ _ => .pure (by simp)
  · exact hreference

include htype hsuffixed in
theorem primaryShape_yields (c m : Cursor) :
    Yields lexemes (DeclaresOnly P) (primaryShape type suffixed c) m := by
  have hnext : ∀ {shape : TypeShape}, DeclaresOnly P shape →
      Yields lexemes (DeclaresOnly P) (do next; return shape) m :=
    fun hshape => next_yields.then fun _ _ => .pure hshape
  unfold primaryShape
  split
  · refine next_yields.then fun _ m => (htype.declares m).bind fun inner m => ?_
    exact expect_yields.then fun _ m => .pure fun hinner => by simpa using hinner
  · refine (members_yields htype m).map fun members hmembers => ?_
    simpa using hmembers
  · refine (enclosed_yields (tupleElement_yields htype) m).map fun elements helements => ?_
    simpa using helements
  · exact hnext (by simp)
  · exact hnext (by simp)
  · exact hnext (by simp)
  · exact .ite (fun _ => (skip_yields 2).then fun _ m => .pure (by simp)) fun _ => nofun
  · exact hnext (by simp)
  · refine next_yields.then fun _ m => entityName_yields.map fun name _ => ?_
    simp
  · refine next_yields.then fun _ m => (hsuffixed m).map fun t ht => ?_
    simpa using ht
  · exact next_yields.then fun _ m => (hsuffixed m).map fun t ht => (declaresOnly_shape P t).2 ht
  · exact namedType_yields htype m
  · nofun

include htype hsuffixed in
theorem primaryType_yields (c : Cursor) :
    Yields lexemes (DeclaresOnly P) (primaryType type suffixed) c := by
  rw [primaryType_eq]
  exact .here ((primaryShape_yields htype hsuffixed c c).bind fun shape m => placed_yields c.start m)

include htype in
theorem suffixStep_yields (start : Nat) (object : TypeExpr) (c : Cursor) : Yields lexemes
    (fun result => DeclaresOnly P object → Sum.elim (DeclaresOnly P) (DeclaresOnly P) result)
    (suffixStep type start object) c := by
  have hplaced : ∀ (shape : TypeShape) m, Yields lexemes
      (fun result => DeclaresOnly P shape → Sum.elim (DeclaresOnly P) (DeclaresOnly P) result)
      (do return .inl ⟨shape, ← spanFrom start⟩ : Parse (TypeExpr ⊕ TypeExpr)) m :=
    fun _ _ => .placed fun _ => id
  refine .here (.ite (fun _ => next_yields.then fun _ m => .eaten fun _ m => ?_) fun _ => .pure id)
  refine .ite (fun _ => hplaced _ m) fun _ => (htype.declares m).bind fun index m => ?_
  refine expect_yields.then fun _ m => (hplaced _ m).mono fun _ h hindex hobject => h ?_
  simpa using ⟨hobject, hindex⟩

include htype hsuffixed in
theorem suffixedType_yields (c : Cursor) :
    Yields lexemes (DeclaresOnly P) (suffixedType type suffixed) c := by
  rw [suffixedType_eq]
  refine .here ((primaryType_yields htype hsuffixed c).bind fun primary m => ?_)
  exact repeatFrom_yields (suffixStep_yields htype c.start) primary m

theorem operandStep_yields {operator : TokenKind} {part : Parse TypeExpr}
    (hpart : ∀ c, Yields lexemes (DeclaresOnly P) part c) (parts : List TypeExpr) (c : Cursor) :
    Yields lexemes (fun result => DeclaresOnly P parts → Sum.elim (DeclaresOnly P) (DeclaresOnly P) result)
      (operandStep operator part parts) c := by
  refine .eaten fun _ m => .ite (fun _ => (hpart m).bind fun part m => .pure ?_) fun _ => .pure id
  intro hpart hparts
  have hmore : DeclaresOnly P (parts ++ [part]) := by simp [hpart, hparts]
  exact hmore

theorem operands_yields {operator : TokenKind} {combine : List TypeExpr → TypeShape}
    {part : Parse TypeExpr}
    (hcombine : ∀ parts, DeclaresOnly P parts → DeclaresOnly P (combine parts))
    (hpart : ∀ c, Yields lexemes (DeclaresOnly P) part c) (c : Cursor) :
    Yields lexemes (DeclaresOnly P) (operands operator combine part) c := by
  rw [operands_eq]
  refine .here (.eaten fun _ m => (hpart m).bind fun first m => .isAt fun _ => ?_)
  refine .ite (fun _ => .pure id) fun _ => ?_
  refine (repeatFrom_yields (operandStep_yields hpart) [first] m).bind fun parts m => ?_
  refine (placed_yields _ m).mono fun t ht hparts hfirst => ht (hcombine _ (hparts ?_))
  simpa using hfirst

include htype in
theorem functionOr_yields {other : Parse TypeExpr}
    (hother : ∀ c, Yields lexemes (DeclaresOnly P) other c) (c : Cursor) :
    Yields lexemes (DeclaresOnly P) (functionOr type other) c :=
  .here (.ite (fun _ => functionType_yields htype false c) fun _ => hother c)

include htype hsuffixed

theorem intersectionType_yields (c : Cursor) :
    Yields lexemes (DeclaresOnly P) (intersectionType type suffixed) c :=
  operands_yields (fun parts h => (declaresOnly_intersection P parts).2 h)
    (functionOr_yields htype (suffixedType_yields htype hsuffixed)) c

theorem unionType_yields (c : Cursor) :
    Yields lexemes (DeclaresOnly P) (unionType type suffixed) c :=
  operands_yields (fun parts h => (declaresOnly_union P parts).2 h)
    (functionOr_yields htype (intersectionType_yields htype hsuffixed)) c

theorem wholeType_yields (c : Cursor) :
    Yields lexemes (DeclaresOnly P) (wholeType type suffixed) c := by
  unfold wholeType
  refine .here (.ite (fun _ => functionType_yields htype false c) fun _ => ?_)
  exact .ite (fun _ => functionType_yields htype true c) fun _ => unionType_yields htype hsuffixed c

end Types

section Whole

variable {lexemes : List Lexeme}

/-- A type was read without errors from a place in the text, nothing having been looked for there. -/
def IsReadFrom (lexemes : List Lexeme) (type : TypeExpr) : Prop :=
  ∃ c d, typeExpr c = .ok type d ∧ d.errors = [] ∧ c.expected = [] ∧ c.rest <:+ lexemes

theorem readsTypes_of_same {type : Parse TypeExpr}
    (htype : ∀ c, Yields lexemes (DeclaresOnly (IsReadFrom lexemes)) type c)
    (hsame : ∀ c t d, type c = .ok t d → typeExpr c = .ok t d) :
    ReadsTypes lexemes (IsReadFrom lexemes) type := by
  intro c t d hrun hclean
  obtain ⟨herrors, hsuffix, hdeclares⟩ := htype c t d hrun hclean
  refine ⟨herrors, hsuffix, fun hc => ⟨hdeclares hc, fun hexpected => ?_⟩⟩
  exact ⟨c, d, hsame c t d hrun, hclean, hexpected, hc⟩

theorem typeAt_yields (level : TypeLevel) (c : Cursor) :
    Yields lexemes (DeclaresOnly (IsReadFrom lexemes)) (typeAt level) c := by
  refine fix_yields (R := fun _ => DeclaresOnly (IsReadFrom lexemes))
    (fun call hcall hsame level c => ?_) level c
  have htype := readsTypes_of_same (hcall .whole) (hsame .whole)
  cases level with
  | whole => exact wholeType_yields htype (hcall .suffixed) c
  | suffixed => exact suffixedType_yields htype (hcall .suffixed) c

theorem typeExpr_readsTypes : ReadsTypes lexemes (IsReadFrom lexemes) typeExpr :=
  readsTypes_of_same (typeAt_yields .whole) fun _ _ _ h => h

end Whole

section Statements

variable {lexemes : List Lexeme}

theorem typeExpr_yields (c : Cursor) :
    Yields lexemes (DeclaresOnly (IsReadFrom lexemes)) typeExpr c :=
  typeAt_yields .whole c

theorem heritageType_yields (c : Cursor) :
    Yields lexemes (DeclaresOnly (IsReadFrom lexemes)) heritageType c := by
  unfold heritageType
  refine .here (entityName_yields.then fun name m => ?_)
  refine (typeArgs_yields typeExpr_readsTypes m).bind fun args m => .placed fun span hargs => ?_
  simpa using hargs

theorem heritageWord_yields (c : Cursor) : Yields lexemes (fun _ => True) heritageWord? c := by
  unfold heritageWord?
  refine .eaten fun _ m => .ite (fun _ => .pure trivial) fun _ => .eaten fun _ m => ?_
  exact .ite (fun _ => .pure trivial) fun _ => .pure trivial

theorem heritage_yields (c : Cursor) :
    Yields lexemes (DeclaresOnly (IsReadFrom lexemes)) heritage c := by
  unfold heritage
  refine repeated_yields (P := DeclaresOnly (IsReadFrom lexemes)) (fun clauses c => ?_)
    (declaresOnly_nil _) c
  refine .here ((heritageWord_yields c).then fun word m => ?_)
  cases word with
  | none => exact .pure id
  | some word =>
    refine (separated_yields heritageType_yields m).bind fun types m => .placed fun span htypes hclauses => ?_
    simp [htypes, hclauses]

theorem interfaceDecl_yields (c : Cursor) :
    Yields lexemes (DeclaresOnly (IsReadFrom lexemes)) interfaceDecl c := by
  unfold interfaceDecl
  refine expect_yields.then fun _ m => ident_yields.then fun name m => ?_
  refine (typeParams_yields typeExpr_readsTypes m).bind fun typeParams m => ?_
  refine (heritage_yields m).bind fun heritage m => ?_
  refine (members_yields typeExpr_readsTypes m).bind fun members m => .pure ?_
  intro hmembers hheritage htypeParams
  simp [htypeParams, hheritage, hmembers]

theorem aliasDecl_yields (c : Cursor) :
    Yields lexemes (DeclaresOnly (IsReadFrom lexemes)) aliasDecl c := by
  unfold aliasDecl
  refine expect_yields.then fun _ m => ident_yields.then fun name m => ?_
  refine (typeParams_yields typeExpr_readsTypes m).bind fun typeParams m => ?_
  refine expect_yields.then fun _ m => (typeExpr_yields m).bind fun type m => ?_
  refine eat_yields.discard.then fun _ _ => .pure fun htype htypeParams => ?_
  simp [htypeParams, htype]

theorem enumMember_yields (c : Cursor) : Yields lexemes (fun _ => True) enumMember c := by
  unfold enumMember
  refine .here (propertyName_yields.then fun name m => ?_)
  exact .optional (fun _ _ => constExpr_yields) fun value m => .placed fun _ _ => trivial

theorem enumDecl_yields (isConst : Bool) (c : Cursor) :
    Yields lexemes (fun _ => True) (enumDecl isConst) c := by
  unfold enumDecl
  refine expect_yields.then fun _ m => ident_yields.then fun name m => ?_
  refine expect_yields.then fun _ m => ?_
  refine (repeated_yields (P := fun _ => True) (R := fun _ => True) (fun members c => ?_)
    trivial m).then fun _ _ => .pure trivial
  refine .eaten fun _ m => .ite (fun _ => .pure id) fun _ => (enumMember_yields m).then fun _ m => ?_
  refine .eaten fun _ m => .ite (fun _ => .pure id) fun _ => ?_
  exact expect_yields.then fun _ _ => .pure id

theorem modifiers_yields (c : Cursor) : Yields lexemes (fun _ => True) modifiers c := by
  unfold modifiers
  refine repeated_yields (P := fun _ => True) (fun isConst c => .here ?_) trivial c
  split
  · exact next_yields.then fun _ _ => .pure id
  · exact next_yields.then fun _ _ => .pure id
  · exact next_yields.then fun _ _ => .pure id
  · exact next_yields.then fun _ _ => .pure id
  · exact .ite (fun _ => next_yields.then fun _ _ => .pure id) fun _ => .pure id
  · exact .pure id

variable {body : Parse (List Statement)}
  (hbody : ∀ c, Yields lexemes (DeclaresOnly (IsReadFrom lexemes)) body c)
include hbody

theorem namespaceDecl_yields (c : Cursor) :
    Yields lexemes (fun make => ∀ place, DeclaresOnly (IsReadFrom lexemes) (make place))
      (namespaceDecl body) c := by
  refine next_yields.then fun _ m => entityName_yields.then fun name m => ?_
  refine expect_yields.then fun _ m => (hbody m).bind fun body m => .pure fun hbody place => ?_
  exact (declaresOnly_namespaceDecl _ place name body).2 hbody

theorem declaration_yields (isConst : Bool) (c : Cursor) :
    Yields lexemes (fun make => ∀ place, DeclaresOnly (IsReadFrom lexemes) (make place))
      (declaration body isConst) c := by
  have hskipped : Yields lexemes (fun make => ∀ place, DeclaresOnly (IsReadFrom lexemes) (make place))
      declaration.skipped c := by
    unfold declaration.skipped
    exact (skip_yields _).then fun _ _ => .pure fun place => declaresOnly_skipped _ place
  unfold declaration
  refine .here (.ite (fun _ => hskipped) fun _ => ?_)
  split
  · exact namespaceDecl_yields hbody c
  · exact namespaceDecl_yields hbody c
  · refine (interfaceDecl_yields c).bind fun decl m => .pure fun hdecl place => ?_
    exact (declaresOnly_interfaceDecl _ place decl).2 hdecl
  · refine (aliasDecl_yields c).bind fun decl m => .pure fun hdecl place => ?_
    exact (declaresOnly_aliasDecl _ place decl).2 hdecl
  · refine (enumDecl_yields isConst c).then fun decl m => .pure fun place => ?_
    exact declaresOnly_enumDecl _ place decl
  · exact hskipped

theorem statement_yields (c : Cursor) :
    Yields lexemes (DeclaresOnly (IsReadFrom lexemes)) (statement? body) c := by
  unfold statement?
  refine .here (.eaten fun _ m => .ite (fun _ => .pure (declaresOnly_none _)) fun _ => ?_)
  refine .ite (fun _ => .unexpected) fun _ => (modifiers_yields m).then fun isConst m => ?_
  refine (declaration_yields hbody isConst m).bind fun make m => .placed fun span hmake => ?_
  exact (declaresOnly_some _ _).2 (hmake _)

end Statements

section Texts

theorem statementsUntil_yields (lexemes : List Lexeme) (closing : TokenKind) (c : Cursor) :
    Yields lexemes (DeclaresOnly (IsReadFrom lexemes)) (statementsUntil closing) c := by
  unfold statementsUntil
  refine fix_yields (R := fun _ => DeclaresOnly (IsReadFrom lexemes))
    (fun call hcall _ closing c => ?_) closing c
  refine repeated_yields (P := DeclaresOnly (IsReadFrom lexemes)) (fun statements c => ?_)
    (declaresOnly_nil _) c
  refine .eaten fun _ m => .ite (fun _ => .pure id) fun _ => .isAt fun _ => .ite (fun _ => ?_) fun _ => ?_
  · exact .here (.reported (.pure id))
  · refine (statement_yields (hcall .closeBrace) m).attempt (fun statement m => .pure ?_)
      fun error m result d h => errors_of_reported h
    intro hstatement hstatements
    have hmore : DeclaresOnly (IsReadFrom lexemes) (statements ++ statement.toList) := by
      cases statement with
      | none => simpa using hstatements
      | some statement => simp_all
    exact hmore

theorem statementsUntil_of_errors {text : List Char} (h : (Schema.parse text).errors = []) :
    ∃ d, statementsUntil .endOfFile (Cursor.ofTokens (Token.tokenize text))
      = .ok (Schema.parse text).statements d ∧ d.errors = [] := by
  unfold Schema.parse at h ⊢
  cases hrun : statementsUntil .endOfFile (Cursor.ofTokens (Token.tokenize text)) with
  | ok statements d =>
    rw [hrun] at h
    exact ⟨d, rfl, h⟩
  | error error d =>
    rw [hrun] at h
    exact absurd h (List.append_ne_nil_of_right_ne_nil _ (List.cons_ne_nil _ _))

theorem hasNoMalformed_of_errors {text : List Char} (h : (Schema.parse text).errors = []) :
    HasNoMalformed text := by
  obtain ⟨d, hrun, hclean⟩ := statementsUntil_of_errors h
  have herrors : (Token.tokenize text).filterMap ParseError.ofToken? = [] :=
    (statementsUntil_yields (lexemesOf text) .endOfFile _ _ _ hrun hclean).1
  intro token hmem
  have hnone := List.filterMap_eq_nil_iff.1 herrors token hmem
  unfold ParseError.ofToken? at hnone
  split at hnone
  · cases hnone
  · cases hnone
  · cases hnone
  · unfold TokenKind.isMalformed
    split <;> simp_all

/-- In a text without errors, the types of properties and the return types of methods were each read
as a type. -/
theorem declaredTypes_isRead {text : List Char} (h : (Schema.parse text).errors = []) :
    ∀ type ∈ declaredTypes (Schema.parse text).statements, IsReadFrom (lexemesOf text) type := by
  obtain ⟨d, hrun, hclean⟩ := statementsUntil_of_errors h
  exact (statementsUntil_yields _ .endOfFile _ _ _ hrun hclean).2.2 List.suffix_rfl

end Texts

end NodeFactory
