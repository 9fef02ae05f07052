import NodeFactory.Proofs.TypeWords

/-!
# Reading the words of a type

A type that is written at a level is read there as it was written (`TypeExpr.reads`). A type that brackets
may follow is read up to these first, and an array or the type of a property goes on from there
(`ReadsUpToSuffixes`). What is read at one level is read alike at those below, where what follows ends it
(`ReadsAt.lower`).
-/

namespace NodeFactory

namespace Parse

variable (literals : LiteralTexts)

/-- An action reads a type as it was written, where the word after it may follow at a level. -/
def ReadsType (action : Parse TypeExpr) (level : Nat) (written : TypeExpr) : Prop :=
  ∀ ⦃c : Cursor⦄ ⦃word : Word⦄ ⦃after : List Word⦄, word.kind.followsType level = true →
    c.Stands .oneLine (written.words literals ++ word :: after) →
      Obtains .oneLine action c (word :: after) (Resembles · written)

variable {literals} {type : Parse TypeExpr}

theorem resembles_type {shape shape' : TypeShape} (h : Resembles shape shape') (span span' : Text.Span) :
    Resembles (⟨shape, span⟩ : TypeExpr) ⟨shape', span'⟩ := by
  unfold Resembles Same at *
  rw [relocate_typeExpr, relocate_typeExpr, h]
  rfl

section Lists

theorem wordsOfAll_eq_map (types : List TypeExpr) :
    TypeExpr.wordsOfAll literals types = types.map (TypeExpr.words literals) := by
  induction types with
  | nil => rfl
  | cons type types ih => rw [TypeExpr.wordsOfAll, ih, List.map_cons]

theorem paramWords_eq_map (params : List Param) :
    Param.wordsOfAll literals params = params.map (Param.words literals) := by
  induction params with
  | nil => rfl
  | cons param params ih => rw [Param.wordsOfAll, ih, List.map_cons]

theorem typeParamWords_eq_map (params : List TypeParam) :
    TypeParam.wordsOfAll literals params = params.map (TypeParam.words literals) := by
  induction params with
  | nil => rfl
  | cons param params ih => rw [TypeParam.wordsOfAll, ih, List.map_cons]

theorem wordsAfter_eq_elim (lead : TokenKind) (written : Option TypeExpr) :
    TypeExpr.wordsAfter literals lead written
      = written.elim [] fun type => .sign lead :: type.words literals := by
  cases written <;> rfl

/-- Items between angle brackets, or none at all. -/
theorem obtains_angled {α : Type} [Relocatable α] {item : Parse α} {words : α → List Word} {items : List α}
    (hitems : ∀ written ∈ items, ReadsItem .oneLine item .greater (words written) written)
    {c : Cursor} {word : Word} {after : List Word} (hword : word.kind ≠ .less)
    (hc : c.Stands .oneLine (Word.angled (items.map words) ++ word :: after)) :
    Obtains .oneLine (do if ← isAt .less then enclosed .less item .greater else return []) c
      (word :: after) (Resembles · items) := by
  cases items with
  | nil =>
    refine .isAt ?_
    rw [if_neg (by simpa [hc.kind] using hword)]
    exact .pure hc .nil
  | cons first items =>
    rw [List.map_cons, Word.angled, ← List.map_cons, List.cons_append, List.append_assoc] at hc
    have hkind : c.kind = .less := hc.kind
    refine .isAt ?_
    rw [if_pos (by rw [hkind]; rfl)]
    exact obtains_enclosed (by decide) hitems hc

end Lists

section Signatures

theorem obtains_paramName {ident : Ident} {c : Cursor} {after : List Word}
    (hc : c.Stands .oneLine (Word.ofName ident.name :: after)) :
    Obtains .oneLine paramName c after (Resembles · ident) := by
  have hbrace : c.kind ≠ .openBrace := hc.kind ▸ Word.ofName_ne rfl _
  have hbracket : c.kind ≠ .openBracket := hc.kind ▸ Word.ofName_ne rfl _
  unfold paramName
  show Obtains .oneLine (if (c.kind == .openBrace || c.kind == .openBracket) = true then _ else _) c _ _
  rw [if_neg (by simp [hbrace, hbracket])]
  exact obtains_ident ident hc

/-- A parameter from its name on. -/
theorem obtains_namedParam {param : Param} (htype : ∀ written ∈ param.type, ReadsType literals type 0 written)
    {c : Cursor} {word : Word} {after : List Word}
    (hword : word.kind = .comma ∨ word.kind = .closeParen)
    (hc : c.Stands .oneLine (.ofName param.name.name :: ((if param.optional then [.sign .question] else [])
      ++ (TypeExpr.wordsAfter literals .colon param.type ++ word :: after)))) :
    Obtains .oneLine (namedParam type param.rest) c (word :: after) (Resembles · param) := by
  obtain ⟨name, rest, optional, paramType⟩ := param
  dsimp only at htype hc ⊢
  rw [wordsAfter_eq_elim] at hc
  have hfollows : word.kind.followsType 0 = true := by rcases hword with h | h <;> rw [h] <;> rfl
  have hrest : ∀ (found : Bool) (name' : Ident) (d : Cursor), found = optional → Resembles name' name →
      d.Stands .oneLine ((paramType.elim [] fun written => .sign .colon :: written.words literals)
        ++ word :: after) →
      Obtains .oneLine (do
        let type ← if ← eat .colon then some <$> type else pure none
        if ← eat .assign then discard constExpr
        return ⟨name', rest, found, type⟩) d (word :: after)
        (Resembles · (⟨name, rest, optional, paramType⟩ : Param)) := by
    rintro found name' d rfl hname hd
    refine .optional hd (TokenKind.ne_of_followsType hfollows rfl)
      (fun written hmem d hd => htype written hmem hfollows hd) fun result d hresult hd => ?_
    refine .missed hd (hd.kind ▸ ?_) fun e he => .pure he ?_
    · rcases hword with h | h <;> rw [h] <;> decide
    · unfold Resembles Same at *
      rw [relocate_param, relocate_param, hname, hresult]
  unfold namedParam
  refine (obtains_paramName hc).bind fun name' d hname hd => ?_
  cases optional with
  | true => exact .eaten hd rfl fun e he => hrest true name' e rfl hname he
  | false =>
    refine .missed hd ?_ fun e he => hrest false name' e rfl hname he
    cases paramType with
    | none => exact hd.kind ▸ TokenKind.ne_of_followsType hfollows rfl
    | some written => exact hd.kind ▸ (by decide)

theorem reads_param {param : Param} (htype : ∀ written ∈ param.type, ReadsType literals type 0 written) :
    ReadsItem .oneLine (Parse.param type) .closeParen (param.words literals) param := by
  intro c word after hword hc
  have hwords : param.words literals = (if param.rest then [.sign .ellipsis] else [])
      ++ .ofName param.name.name :: ((if param.optional then [.sign .question] else [])
        ++ TypeExpr.wordsAfter literals .colon param.type) := by
    cases param
    rfl
  rw [hwords] at hc
  have hnamed : ∀ (rest : Bool) (d : Cursor), rest = param.rest →
      d.Stands .oneLine (.ofName param.name.name :: ((if param.optional then [.sign .question] else [])
        ++ (TypeExpr.wordsAfter literals .colon param.type ++ word :: after))) →
      Obtains .oneLine (do
        if (← isAt (.keyword .readonlyKw)) && ((← cursor).kindAt 1).isName then next
        namedParam type rest) d (word :: after) (Resembles · param) := by
    rintro _ d rfl hd
    -- A name that is spelled like the modifier is one, since no name follows it.
    have hfollowing : (d.kindAt 1).isName = false := by
      rw [hd.kindAt]
      cases param.optional with
      | true => rfl
      | false =>
        cases param.type with
        | some written => rfl
        | none => rcases hword with h | h <;> simp [TypeExpr.wordsAfter, h, TokenKind.isName]
    refine .isAt (.here ?_)
    rw [if_neg (by simp [hfollowing])]
    exact obtains_namedParam htype hword hd
  rw [param_eq]
  cases hrest : param.rest with
  | true =>
    rw [hrest, if_pos rfl] at hc
    refine ⟨hc.kind ▸ (by decide), .eaten hc rfl fun d hd => hnamed true d hrest.symm ?_⟩
    simpa using hd
  | false =>
    rw [hrest, if_neg Bool.false_ne_true, List.nil_append] at hc
    refine ⟨hc.kind ▸ Word.ofName_ne rfl _, .missed hc (hc.kind ▸ Word.ofName_ne rfl _) fun d hd =>
      hnamed false d hrest.symm ?_⟩
    simpa using hd

/-- A name is not taken for a word that says how a type parameter varies. -/
theorem not_isVarianceWord {param : TypeParam} (hfits : param.fits = true) {c : Cursor} {word : Word}
    {after : List Word} (hword : word.kind.followsType 0 = true)
    (hc : c.Stands .oneLine (param.words literals ++ word :: after)) : isVarianceWord c = false := by
  obtain ⟨name, bound, fallback⟩ := param
  simp only [TypeParam.fits, Bool.and_eq_true, Bool.or_eq_true, Option.isNone_iff_eq_none,
    Bool.not_eq_true', decide_eq_true_eq] at hfits
  unfold isVarianceWord
  rw [Bool.and_eq_false_iff]
  rcases hfits.1.1.2 with rfl | hname
  · right
    rw [hc.kindAt]
    cases fallback with
    | some written => rfl
    | none =>
      show word.kind.isName = false
      exact eq_false_of_ne_true fun hname => by
        cases hkind : word.kind <;> rw [hkind] at hword hname <;> cases hword <;> cases hname
  · left
    have htext : c.textAt 0 = name.name.toList := hc.textAt 0
    have hkind : c.kind = (Word.ofName name.name).kind := hc.kind
    simp only [isVarianceName, Bool.or_eq_false_iff, beq_eq_false_iff_ne, ne_eq] at hname
    rw [htext, hkind]
    simp only [Bool.or_eq_false_iff, beq_eq_false_iff_ne, ne_eq]
    exact ⟨⟨hname.1.1, fun h => hname.1.2 (String.toList_inj.1 h)⟩,
      fun h => hname.2 (String.toList_inj.1 h)⟩

theorem reads_typeParam {param : TypeParam} (hfits : param.fits = true)
    (hbound : ∀ written ∈ param.bound, ReadsType literals type 0 written)
    (hfallback : ∀ written ∈ param.fallback, ReadsType literals type 0 written) :
    ReadsItem .oneLine (typeParam type) .greater (param.words literals) param := by
  intro c word after hword hc
  have hfollows : word.kind.followsType 0 = true := by rcases hword with h | h <;> rw [h] <;> rfl
  have hvariance := not_isVarianceWord hfits hfollows hc
  obtain ⟨name, bound, fallback⟩ := param
  rw [TypeParam.words, wordsAfter_eq_elim, wordsAfter_eq_elim, List.cons_append] at hc
  refine ⟨hc.kind ▸ Word.ofName_ne rfl _, ?_⟩
  have hstep : varianceStep c = .ok (.inr ()) c := by
    show (if isVarianceWord c = true then _ else _ : Parse (Unit ⊕ Unit)) c = _
    rw [if_neg (by simp [hvariance])]
    rfl
  unfold typeParam
  refine Obtains.bind (P := fun _ => True) ⟨(), c, repeatFrom_of_inr hstep, trivial, hc, rfl⟩ ?_
  rintro ⟨⟩ d - hd
  refine (obtains_ident name hd).bind fun name' d hname hd => ?_
  rw [List.append_assoc] at hd
  cases fallback with
  | none =>
    refine .optional hd (TokenKind.ne_of_followsType hfollows rfl)
      (fun written hmem d hd => hbound written hmem hfollows hd) fun result d hresult hd => ?_
    refine .missed hd ?_ fun e he => .pure he ?_
    · rw [hd.kind]
      rcases hword with h | h <;> rw [h] <;> decide
    · unfold Resembles Same at *
      rw [relocate_typeParam, relocate_typeParam, hname, hresult]
  | some written =>
    refine .optional hd (by decide)
      (fun written hmem d hd => hbound written hmem rfl hd) fun result d hresult hd => ?_
    refine .eaten hd rfl fun e he => ?_
    refine ((hfallback written rfl hfollows he).map (Q := (Resembles · (some written)))
      fun _ h => h.some).bind fun result' e hresult' he => .pure he ?_
    unfold Resembles Same at *
    rw [relocate_typeParam, relocate_typeParam, hname, hresult, hresult']

theorem unlabeled_cursor {c : Cursor} {words : List Word} (hc : c.Stands .oneLine words)
    (h : Word.IsUnlabeled words) :
    (c.kind.isName = true → c.kindAt 1 ≠ .colon ∧ c.kindAt 1 ≠ .question)
      ∧ (c.kind = .identifier ∨ c.kind = .keyword .thisKw → c.kindAt 1 ≠ .identifier) := by
  rw [hc.kindAt, Cursor.kind, hc.kindAt]
  rcases words with - | ⟨_, - | ⟨_, _⟩⟩
  · exact ⟨by decide, by decide⟩
  · exact ⟨fun _ => ⟨by simp, by simp⟩, fun _ => by simp⟩
  · exact h

theorem reads_returnType {returns : TypeExpr} (hfits : returns.fits 0 = true)
    (hreturns : ReadsType literals type 0 returns) :
    ReadsType literals (returnType type) 0 returns := by
  intro c word after hword hc
  have hnamed := (unlabeled_cursor hc (TypeExpr.unlabeled literals 0 after
    (TokenKind.followsType_mono hword (Nat.zero_le 4)) returns hfits)).2
  unfold returnType
  refine .here ?_
  rw [if_neg]
  · exact hreturns hword hc
  · simp only [Bool.and_eq_true, Bool.or_eq_true, beq_iff_eq]
    exact fun h => hnamed h.1.1 h.1.2

variable {signature : Signature} {c : Cursor} {word : Word} {after : List Word}

/-- What the parts of a signature are read as. -/
structure ReadsSignature (literals : LiteralTexts) (type : Parse TypeExpr) (signature : Signature) :
    Prop where
  typeParams : ∀ param ∈ signature.typeParams,
    ReadsItem .oneLine (typeParam type) .greater (param.words literals) param
  params : ∀ param ∈ signature.params,
    ReadsItem .oneLine (Parse.param type) .closeParen (param.words literals) param
  returns : ∃ returns, signature.returns = some returns ∧ ReadsType literals (returnType type) 0 returns

theorem signature_words (signature : Signature) : signature.words literals
    = Word.angled (signature.typeParams.map (TypeParam.words literals)) ++ .sign .openParen
      :: (Word.separated .comma (signature.params.map (Param.words literals)) ++ .sign .closeParen
        :: signature.returns.elim [] fun returns => .sign .fatArrow :: returns.words literals) := by
  obtain ⟨typeParams, params, returns⟩ := signature
  rw [Signature.words, typeParamWords_eq_map, paramWords_eq_map, wordsAfter_eq_elim]

theorem obtains_functionFrom (hsignature : ReadsSignature literals type signature)
    (isConstructor : Bool) (start : Nat) (span : Text.Span) (hword : word.kind.followsType 0 = true)
    (hc : c.Stands .oneLine (signature.words literals ++ word :: after)) :
    Obtains .oneLine (functionFrom type isConstructor start) c (word :: after)
      (Resembles · (⟨.function isConstructor signature, span⟩ : TypeExpr)) := by
  obtain ⟨returns, hsome, hreturns⟩ := hsignature.returns
  rw [signature_words, List.append_assoc, hsome] at hc
  simp only [List.cons_append, List.append_assoc, Option.elim_some] at hc
  unfold functionFrom
  refine (obtains_angled hsignature.typeParams (by decide) hc).bind fun typeParams d htypeParams hd => ?_
  refine (obtains_enclosed (by decide) hsignature.params hd).bind fun params d hparams hd => ?_
  refine .expect hd rfl fun d hd => (hreturns hword hd).bind fun returns' d hreturns' hd => ?_
  refine .placed fun span' => .pure hd (resembles_type ?_ _ _)
  obtain ⟨typeParams', params', _⟩ := signature
  obtain rfl : _ = some returns := hsome
  unfold Resembles Same at *
  rw [relocate_function, relocate_function, relocate_signature, relocate_signature, htypeParams, hparams,
    relocate_some, relocate_some, hreturns']

theorem reads_functionType (hsignature : ReadsSignature literals type signature) (isConstructor : Bool)
    (span : Text.Span) :
    ReadsType literals (functionType type isConstructor) 0 ⟨.function isConstructor signature, span⟩ := by
  intro c word after hword hc
  rw [functionType_eq]
  refine .here ?_
  cases isConstructor with
  | false => exact obtains_functionFrom hsignature false _ span hword hc
  | true => exact .expect hc rfl fun d hd => obtains_functionFrom hsignature true _ span hword hd

end Signatures

section Primaries

variable {suffixed : Parse TypeExpr} {c : Cursor} {word : Word} {after : List Word}

theorem obtains_unlabeledElement {written : TypeExpr} (htype : ReadsType literals type 0 written)
    (hword : word.kind.followsType 0 = true)
    (hc : c.Stands .oneLine (written.words literals ++ word :: after)) :
    Obtains .oneLine (unlabeledElement type) c (word :: after) (Resembles · written) := by
  unfold unlabeledElement
  refine (htype hword hc).bind fun result d hresult hd => ?_
  have hquestion : Obtains .oneLine (discard (eat .question)) d (word :: after) fun _ => True :=
    Obtains.map (P := fun _ => True)
      ⟨false, _, eat_of_ne (hd.kind ▸ TokenKind.ne_of_followsType hword rfl), trivial, hd.expect _, rfl⟩
      fun _ _ => trivial
  exact hquestion.bind fun _ e _ he => .pure he hresult

theorem reads_tupleElement {written : TypeExpr} (hfits : written.fits 0 = true)
    (htype : ReadsType literals type 0 written) :
    ReadsItem .oneLine (tupleElement type) .closeBracket (written.words literals) written := by
  intro c word after hword hc
  have hfollows : word.kind.followsType 0 = true := by rcases hword with h | h <;> rw [h] <;> rfl
  obtain ⟨first, rest, hwords, hfirst⟩ := TypeExpr.words_start literals 0 written hfits
  have hkind : c.kind.startsType = true := by
    rw [hwords] at hc
    rwa [hc.kind]
  refine ⟨TokenKind.ne_of_startsType hkind rfl, ?_⟩
  rw [tupleElement_eq]
  have hellipsis : Obtains .oneLine (discard (eat .ellipsis)) c (written.words literals ++ word :: after)
      fun _ => True :=
    Obtains.map (P := fun _ => True)
      ⟨false, _, eat_of_ne (TokenKind.ne_of_startsType hkind rfl), trivial, hc.expect _, rfl⟩
      fun _ _ => trivial
  refine hellipsis.bind fun _ d _ hd => .here ?_
  have hlabel := (unlabeled_cursor hd (TypeExpr.unlabeled literals 0 after
    (TokenKind.followsType_mono hfollows (Nat.zero_le 4)) written hfits)).1
  rw [if_neg]
  · exact obtains_unlabeledElement htype hfollows hd
  · simp only [Bool.and_eq_true, Bool.or_eq_true, beq_iff_eq]
    rintro ⟨hname, hcolon | ⟨hquestion, -⟩⟩
    · exact (hlabel hname).1 hcolon
    · exact (hlabel hname).2 hquestion

/-- A type is its shape with the span that was read. -/
theorem obtains_primary {shape : TypeShape} (span : Text.Span)
    (hshape : Obtains .oneLine (primaryShape type suffixed c) c after (Resembles · shape)) :
    Obtains .oneLine (primaryType type suffixed) c after (Resembles · (⟨shape, span⟩ : TypeExpr)) := by
  rw [primaryType_eq]
  exact .here (hshape.bind fun _ _ hresult hd => .placed fun _ => .pure hd (resembles_type hresult _ _))

variable (level : Nat) (span : Text.Span)

theorem reads_paren {inner : TypeExpr} (htype : ReadsType literals type 0 inner) :
    ReadsType literals (primaryType type suffixed) level ⟨.paren inner, span⟩ := by
  intro c word after _ hc
  rw [TypeExpr.words, TypeShape.words, List.cons_append, List.append_assoc] at hc
  have hkind : c.kind = .openParen := hc.kind
  refine obtains_primary span ?_
  unfold primaryShape
  rw [hkind]
  refine .next hc fun d hd => (htype rfl hd).bind fun result d hresult hd => ?_
  refine .expect hd rfl fun d hd => .pure hd ?_
  unfold Resembles Same at *
  rw [relocate_paren, relocate_paren, hresult]

theorem reads_tuple {elements : List TypeExpr} (hfits : ∀ element ∈ elements, element.fits 0 = true)
    (htype : ∀ element ∈ elements, ReadsType literals type 0 element) :
    ReadsType literals (primaryType type suffixed) level ⟨.tuple elements, span⟩ := by
  intro c word after _ hc
  rw [TypeExpr.words, TypeShape.words, wordsOfAll_eq_map, List.cons_append, List.append_assoc] at hc
  have hkind : c.kind = .openBracket := hc.kind
  have helements := obtains_enclosed (by decide)
    (fun element hmem => reads_tupleElement (hfits element hmem) (htype element hmem)) hc
  refine obtains_primary span ?_
  unfold primaryShape
  rw [hkind]
  refine helements.map fun results hresults => ?_
  unfold Resembles Same at *
  rw [relocate_tuple, relocate_tuple, hresults]

theorem reads_this : ReadsType literals (primaryType type suffixed) level ⟨.this, span⟩ := by
  intro c word after _ hc
  have hkind : c.kind = .keyword .thisKw := hc.kind
  refine obtains_primary span ?_
  unfold primaryShape
  rw [hkind]
  exact .next hc fun d hd => .pure hd rfl

theorem reads_query (name : EntityName) :
    ReadsType literals (primaryType type suffixed) level ⟨.query name, span⟩ := by
  intro c word after hword hc
  have hkind : c.kind = .keyword .typeofKw := hc.kind
  have hdot : ∀ next ∈ (word :: after).head?, next.kind ≠ .dot := by
    rintro _ ⟨⟩
    exact TokenKind.ne_of_followsType hword rfl
  refine obtains_primary span ?_
  unfold primaryShape
  rw [hkind]
  refine .next hc fun d hd => (obtains_entityName hd hdot).map fun result hresult => ?_
  unfold Resembles Same at *
  rw [relocate_query, relocate_query, hresult]

/-- The operand takes all brackets, so that none may follow. -/
theorem reads_keyof {operand : TypeExpr} (hsuffixed : ReadsType literals suffixed 3 operand) :
    ReadsType literals (primaryType type suffixed) 3 ⟨.keyof operand, span⟩ := by
  intro c word after hword hc
  have hkind : c.kind = .keyword .keyofKw := hc.kind
  refine obtains_primary span ?_
  unfold primaryShape
  rw [hkind]
  refine .next hc fun d hd => (hsuffixed hword hd).map fun result hresult => ?_
  unfold Resembles Same at *
  rw [relocate_keyof, relocate_keyof, hresult]

theorem reads_literalValue :
    ReadsType literals (primaryType type suffixed) level ⟨.literalValue, span⟩ := by
  intro c word after hword hc
  have hliteral := literals.isLiteral span
  change c.Stands .oneLine (literals.words span ++ word :: after) at hc
  generalize literals.words span = words at hliteral hc
  refine obtains_primary span ?_
  unfold primaryShape
  cases hliteral with
  | token _ hleaf =>
    have hkind := hc.kind
    rcases hleaf with h | h | h <;>
      · rw [hkind, h]
        exact .next hc fun d hd => .pure hd rfl
  | @negative number _ hnumber =>
    have hkind : c.kind = .minus := hc.kind
    have hfollowing : c.kindAt 1 = .number := (hc.kindAt 1).trans hnumber
    rw [hkind]
    dsimp only
    rw [if_pos (beq_iff_eq.2 hfollowing)]
    have hc' : c.Stands .oneLine ([.sign .minus, number] ++ word :: after) := hc
    exact .skip hc' fun d hd => .pure hd rfl
  | @truth name hname =>
    have hkind : c.kind = .identifier := by
      rw [hc.kind]
      rcases hname with rfl | rfl <;> rfl
    have htext : c.textAt 0 = name.toList := hc.textAt 0
    rw [hkind]
    unfold namedType
    refine .here ?_
    rw [if_pos]
    · exact .next hc fun d hd => .pure hd rfl
    · rw [htext]
      rcases hname with rfl | rfl <;> rfl

theorem reads_keywordType (keyword : KeywordType) :
    ReadsType literals (primaryType type suffixed) level ⟨.keyword keyword, span⟩ := by
  intro c word after hword hc
  have hkind : c.kind = .identifier := by
    rw [hc.kind]
    cases keyword <;> rfl
  have htext : c.textAt 0 = keyword.text.toList := hc.textAt 0
  have hfollowing : c.kindAt 1 ≠ .dot := by
    rw [hc.kindAt]
    exact TokenKind.ne_of_followsType hword rfl
  refine obtains_primary span ?_
  unfold primaryShape
  rw [hkind]
  unfold namedType
  refine .here ?_
  rw [if_neg (by rw [htext]; cases keyword <;> decide), htext, KeywordType.ofName?_text]
  dsimp only
  rw [if_neg (by simpa using hfollowing)]
  exact .next hc fun d hd => .pure hd rfl

/-- A qualified name with its type arguments. -/
theorem obtains_reference {name : EntityName} {args : List TypeExpr} {c : Cursor} {word : Word}
    {after : List Word} (hfits : ∀ arg ∈ args, arg.fits 0 = true)
    (htype : ∀ arg ∈ args, ReadsType literals type 0 arg) (hword : word.kind.followsType level = true)
    (hc : c.Stands .oneLine
      (Word.ofEntityName name ++ (Word.angled (args.map (TypeExpr.words literals)) ++ word :: after))) :
    Obtains .oneLine (namedType.reference type) c (word :: after) (Resembles · (.reference name args)) := by
  have hargs : ∀ arg ∈ args, ReadsItem .oneLine type .greater (arg.words literals) arg := by
    intro arg hmem d next following hnext hd
    obtain ⟨first, rest, hwords, hfirst⟩ := TypeExpr.words_start literals 0 arg (hfits arg hmem)
    refine ⟨?_, htype arg hmem (by rcases hnext with h | h <;> rw [h] <;> rfl) hd⟩
    rw [hwords] at hd
    exact hd.kind ▸ TokenKind.ne_of_startsType hfirst rfl
  have hdot : ∀ next ∈ (Word.angled (args.map (TypeExpr.words literals)) ++ word :: after).head?,
      next.kind ≠ .dot := by
    cases args with
    | nil =>
      rintro _ ⟨⟩
      exact TokenKind.ne_of_followsType hword rfl
    | cons arg args =>
      rintro _ ⟨⟩
      decide
  unfold namedType.reference
  refine (obtains_entityName hc hdot).bind fun result d hresult hd => ?_
  refine (obtains_angled hargs (TokenKind.ne_of_followsType hword rfl) hd).bind
    fun results e hresults he => .pure he ?_
  unfold Resembles Same at *
  rw [relocate_reference, relocate_reference, hresult, hresults]

theorem reads_reference {name : EntityName} {args : List TypeExpr} (hname : name.isReference = true)
    (hfits : ∀ arg ∈ args, arg.fits 0 = true) (htype : ∀ arg ∈ args, ReadsType literals type 0 arg) :
    ReadsType literals (primaryType type suffixed) level ⟨.reference name args, span⟩ := by
  intro c word after hword hc
  simp only [EntityName.isReference, Bool.and_eq_true, beq_iff_eq, bne_iff_ne, ne_eq,
    Option.isNone_iff_eq_none] at hname
  obtain ⟨⟨⟨⟨-, hidentifier⟩, htrue⟩, hfalse⟩, hnone⟩ := hname
  rw [TypeExpr.words, TypeShape.words, wordsOfAll_eq_map, List.append_assoc] at hc
  have hkind : c.kind = .identifier := hc.kind.trans hidentifier
  have htext : c.textAt 0 = name.first.name.toList := hc.textAt 0
  refine obtains_primary span ?_
  unfold primaryShape
  rw [hkind]
  unfold namedType
  refine .here ?_
  rw [if_neg, htext, hnone]
  · exact obtains_reference level hfits htype hword hc
  · rw [htext]
    simp only [Bool.or_eq_true, beq_iff_eq]
    rintro (h | h)
    · exact htrue (String.toList_inj.1 h)
    · exact hfalse (String.toList_inj.1 h)

end Primaries

section Suffixes

variable (literals) in
/-- Reading a type, where the word after it may follow at a level, comes to going on with the brackets at
its end. -/
def ReadsUpToSuffixes (level : Nat) (written : TypeExpr) : Prop :=
  ∀ ⦃c : Cursor⦄ ⦃word : Word⦄ ⦃after : List Word⦄, word.kind.followsType level = true →
    c.Stands .oneLine (written.words literals ++ word :: after) → ∃ value d,
      suffixedType (typeAt .whole) (typeAt .suffixed) c
          = repeatFrom (suffixStep (typeAt .whole) c.start) value d
        ∧ Resembles value written ∧ d.Stands .oneLine (word :: after) ∧ d.errors = c.errors

variable {level : Nat} {written : TypeExpr} {c : Cursor} {word : Word} {after : List Word}

theorem readsUpToSuffixes_of_primary
    (h : ReadsType literals (primaryType (typeAt .whole) (typeAt .suffixed)) level written) :
    ReadsUpToSuffixes literals level written := by
  intro c word after hword hc
  obtain ⟨value, d, hrun, hvalue, hd, herrors⟩ := h hword hc
  refine ⟨value, d, ?_, hvalue, hd, herrors⟩
  rw [suffixedType_eq, bind_of_ok (rfl : cursor c = .ok c c)]
  exact bind_of_ok hrun

theorem ReadsUpToSuffixes.mono {level' : Nat} (h : ReadsUpToSuffixes literals level' written)
    (hle : level ≤ level') : ReadsUpToSuffixes literals level written :=
  fun _ _ _ hword hc => h (TokenKind.followsType_mono hword hle) hc

theorem startsLine_of_stands (hc : c.Stands .oneLine (word :: after)) : c.startsLine = false := by
  obtain ⟨lexeme, lexemes, hrest, -, -⟩ := hc.rest
  have hline := hc.layout
  rw [hrest] at hline
  rw [Cursor.startsLine, Cursor.peek?, hrest]
  exact hline lexeme List.mem_cons_self

/-- No brackets follow, so the type ends. -/
theorem ReadsUpToSuffixes.gives (h : ReadsUpToSuffixes literals 3 written) :
    ReadsType literals (suffixedType (typeAt .whole) (typeAt .suffixed)) 3 written := by
  intro c word after hword hc
  obtain ⟨value, d, hrun, hvalue, hd, herrors⟩ := h hword hc
  have hbracket : d.kind ≠ .openBracket := hd.kind ▸ TokenKind.ne_of_followsType hword rfl
  have hstep : suffixStep (typeAt .whole) c.start value d = .ok (.inr value) d := by
    unfold suffixStep
    rw [bind_of_ok (rfl : cursor d = .ok d d), if_neg (by simp [hbracket])]
    rfl
  exact ⟨value, d, hrun.trans (repeatFrom_of_inr hstep), hvalue, hd, herrors⟩

/-- A type goes on with the brackets after it. -/
theorem ReadsUpToSuffixes.suffixed {object : TypeExpr} (brackets : List Word) {shape : TypeShape}
    {span : Text.Span} (h : ReadsUpToSuffixes literals 4 object)
    (hwords : shape.words literals span = object.words literals ++ .sign .openBracket :: brackets)
    (hstep : ∀ ⦃value : TypeExpr⦄ ⦃d : Cursor⦄ ⦃start : Nat⦄ ⦃word : Word⦄ ⦃after : List Word⦄,
      Resembles value object → d.Stands .oneLine (.sign .openBracket :: (brackets ++ word :: after)) →
        Obtains .oneLine (suffixStep (typeAt .whole) start value) d (word :: after) fun result =>
          ∃ type, result = .inl type ∧ Resembles type ⟨shape, span⟩) :
    ReadsUpToSuffixes literals 4 ⟨shape, span⟩ := by
  intro c word after hword hc
  rw [TypeExpr.words, hwords, List.append_assoc, List.cons_append] at hc
  obtain ⟨value, d, hrun, hvalue, hd, herrors⟩ := h rfl hc
  obtain ⟨_, e, hrun', ⟨type, rfl, htype⟩, he, herrors'⟩ := @hstep _ _ c.start _ _ hvalue hd
  have hsize : e.size < d.size := by
    rw [he.size, hd.size]
    simp only [List.length_append, List.length_cons]
    omega
  exact ⟨type, e, hrun.trans (repeatFrom_of_inl hrun' hsize), htype, he, herrors'.trans herrors⟩

/-- The step over brackets, which stand on the line of the type before them. -/
theorem obtains_suffixStep {value : TypeExpr} {start : Nat} {Q : TypeExpr ⊕ TypeExpr → Prop}
    (hbracket : word.kind = .openBracket) {brackets : List Word}
    (hc : c.Stands .oneLine (word :: brackets))
    (h : ∀ d : Cursor, d.Stands .oneLine brackets → Obtains .oneLine (do
      let shape ←
        if ← eat .closeBracket then pure (.array value)
        else
          let index ← typeAt .whole
          expect .closeBracket
          pure (.indexed value index)
      return .inl ⟨shape, ← spanFrom start⟩) d after Q) :
    Obtains .oneLine (suffixStep (typeAt .whole) start value) c after Q := by
  have hkind : c.kind = .openBracket := hc.kind.trans hbracket
  unfold suffixStep
  refine .here ?_
  rw [if_pos (by simp [hkind, startsLine_of_stands hc])]
  exact .next hc h

theorem obtains_suffix {A : Parse TypeShape} {shape : TypeShape} {start : Nat} (span : Text.Span)
    (hA : Obtains .oneLine A c after (Resembles · shape)) :
    Obtains .oneLine (A >>= fun shape => do return (.inl ⟨shape, ← spanFrom start⟩ : TypeExpr ⊕ TypeExpr)) c
      after fun result => ∃ type, result = .inl type ∧ Resembles type ⟨shape, span⟩ :=
  hA.bind fun _ _ hresult hd => .placed fun _ => .pure hd ⟨_, rfl, resembles_type hresult _ _⟩

theorem ReadsUpToSuffixes.array {element : TypeExpr} (h : ReadsUpToSuffixes literals 4 element)
    (span : Text.Span) : ReadsUpToSuffixes literals 4 ⟨.array element, span⟩ := by
  refine h.suffixed [.sign .closeBracket] rfl ?_
  intro value d start word after hvalue hd
  refine obtains_suffixStep rfl hd fun e he => .eaten he rfl fun f hf => obtains_suffix span (.pure hf ?_)
  unfold Resembles Same at *
  rw [relocate_array, relocate_array, hvalue]

theorem ReadsUpToSuffixes.indexed {object index : TypeExpr} (h : ReadsUpToSuffixes literals 4 object)
    (hfits : index.fits 0 = true) (hindex : ReadsType literals (typeAt .whole) 0 index)
    (span : Text.Span) : ReadsUpToSuffixes literals 4 ⟨.indexed object index, span⟩ := by
  refine h.suffixed (index.words literals ++ [.sign .closeBracket]) rfl ?_
  intro value d start word after hvalue hd
  refine obtains_suffixStep rfl hd fun e he => ?_
  rw [List.append_assoc] at he
  obtain ⟨first, rest, hwords, hfirst⟩ := TypeExpr.words_start literals 0 index hfits
  have hkind : e.kind ≠ .closeBracket := by
    rw [hwords] at he
    exact he.kind ▸ TokenKind.ne_of_startsType hfirst rfl
  refine .missed he hkind fun f hf => (hindex rfl hf).bind fun result f hresult hf => ?_
  refine .expect hf rfl fun g hg => obtains_suffix span (.pure hg ?_)
  unfold Resembles Same at *
  rw [relocate_indexed, relocate_indexed, hvalue, hresult]

end Suffixes

section Operands

variable {operator : TokenKind} {combine : List TypeExpr → TypeShape} {part : Parse TypeExpr}
  {level level' : Nat} {c : Cursor} {word : Word} {after : List Word}

/-- A type that no operator follows is read as the operands are. -/
theorem reads_operands_of_part {written : TypeExpr} (hfits : written.fits level' = true)
    (hpart : ReadsType literals part level' written) (hle : level ≤ level')
    (hfollows : operator.followsType level = false) (hstarts : operator.startsType = false) :
    ReadsType literals (operands operator combine part) level written := by
  intro c word after hword hc
  obtain ⟨first, rest, hwords, hfirst⟩ := TypeExpr.words_start literals level' written hfits
  have hkind : c.kind ≠ operator := by
    rw [hwords] at hc
    exact hc.kind ▸ TokenKind.ne_of_startsType hfirst hstarts
  rw [operands_eq]
  refine .here (.missed hc hkind fun d hd => ?_)
  refine (hpart (TokenKind.followsType_mono hword hle) hd).bind fun result d hresult hd => .isAt ?_
  have hend : d.kind ≠ operator := hd.kind ▸ TokenKind.ne_of_followsType hword hfollows
  rw [if_pos (by simp [hend])]
  exact .pure hd hresult

theorem separated_eq_flatMap (item : List Word) (items : List (List Word)) :
    Word.separated operator (item :: items) = item ++ items.flatMap fun next => .sign operator :: next := by
  induction items generalizing item with
  | nil => exact (List.append_nil item).symm
  | cons next items ih => rw [Word.separated_cons, ih, List.flatMap_cons, List.cons_append]

/-- The parts behind the first. -/
theorem obtains_operands (hword : word.kind.followsType level = true) (hle : level ≤ level')
    (hfollows : operator.followsType level = false) (hfollows' : operator.followsType level' = true) :
    ∀ {parts : List TypeExpr}, (∀ written ∈ parts, ReadsType literals part level' written) →
    ∀ {read written : List TypeExpr} {c : Cursor}, Resembles read written →
    c.Stands .oneLine (((parts.map (TypeExpr.words literals)).flatMap fun words =>
      .sign operator :: words) ++ word :: after) →
    Obtains .oneLine (repeatFrom (operandStep operator part) read) c (word :: after)
      (Resembles · (written ++ parts))
  | [], _, read, written, c, hread, hc => by
    rw [List.append_nil]
    refine .last (.missed hc ?_ fun d hd => .pure hd ⟨read, rfl, hread⟩)
    exact hc.kind ▸ TokenKind.ne_of_followsType hword hfollows
  | next :: parts, hparts, read, written, c, hread, hc => by
    obtain ⟨hnext, hparts⟩ := List.forall_mem_cons.1 hparts
    rw [List.map_cons, List.flatMap_cons, List.cons_append, List.cons_append, List.append_assoc] at hc
    let behind := ((parts.map (TypeExpr.words literals)).flatMap fun words => .sign operator :: words)
      ++ word :: after
    obtain ⟨first, rest, hbehind, hfirst⟩ : ∃ first rest, behind = first :: rest
        ∧ first.kind.followsType level' = true := by
      cases parts with
      | nil => exact ⟨word, after, rfl, TokenKind.followsType_mono hword hle⟩
      | cons => exact ⟨_, _, rfl, hfollows'⟩
    refine .more (Resembles · (written ++ [next])) behind hc
      (by simp only [behind, List.length_append, List.length_cons]; omega)
      (.eaten hc rfl fun d hd => ?_) fun read d hread hd => ?_
    · change d.Stands .oneLine (next.words literals ++ behind) at hd
      rw [hbehind] at hd ⊢
      exact (hnext hfirst hd).bind fun result e hresult he =>
        .pure he ⟨_, rfl, hread.concat hresult⟩
    · have hmore := obtains_operands hword hle hfollows hfollows' hparts hread hd
      rwa [List.append_assoc] at hmore

/-- Two or more parts are joined by the operator. -/
theorem reads_operands {first next : TypeExpr} {parts : List TypeExpr} {span : Text.Span}
    (hfits : first.fits level' = true)
    (hparts : ∀ written ∈ first :: next :: parts, ReadsType literals part level' written)
    (hle : level ≤ level') (hfollows : operator.followsType level = false)
    (hfollows' : operator.followsType level' = true) (hstarts : operator.startsType = false)
    (hwords : (combine (first :: next :: parts)).words literals span
      = Word.separated operator ((first :: next :: parts).map (TypeExpr.words literals)))
    (hcombine : ∀ {types types' : List TypeExpr}, Resembles types types' →
      Resembles (combine types) (combine types')) :
    ReadsType literals (operands operator combine part) level ⟨combine (first :: next :: parts), span⟩ := by
  intro c word after hword hc
  rw [TypeExpr.words, hwords, List.map_cons, List.map_cons, Word.separated_cons, List.append_assoc] at hc
  obtain ⟨hfirst, hrest⟩ := List.forall_mem_cons.1 hparts
  obtain ⟨lead, rest, hlead, hstart⟩ := TypeExpr.words_start literals level' first hfits
  have hkind : c.kind ≠ operator := by
    rw [hlead] at hc
    exact hc.kind ▸ TokenKind.ne_of_startsType hstart hstarts
  rw [operands_eq]
  refine .here (.missed hc hkind fun d hd => ?_)
  refine (hfirst hfollows' hd).bind fun result d hresult hd => .isAt ?_
  have hend : d.kind = operator := hd.kind
  rw [if_neg (by simp [hend])]
  have hd' : d.Stands .oneLine ((((next :: parts).map (TypeExpr.words literals)).flatMap fun words =>
      .sign operator :: words) ++ word :: after) := by
    rw [separated_eq_flatMap] at hd
    simpa using hd
  refine (obtains_operands hword hle hfollows hfollows' hrest (Same.nil.concat hresult) hd').bind
    fun results e hresults he => .placed fun span' => .pure he (resembles_type (hcombine ?_) _ _)
  exact hresults

end Operands

section Levels

variable {level level' : Nat} {written : TypeExpr}

variable (literals) in
/-- A type is read as it was written where the grammar expects a type of the level. -/
def ReadsAt : Nat → TypeExpr → Prop
  | 0, written => ReadsType literals (typeAt .whole) 0 written
  | 1, written => ReadsType literals (unionType (typeAt .whole) (typeAt .suffixed)) 1 written
  | 2, written => ReadsType literals
    (functionOr (typeAt .whole) (intersectionType (typeAt .whole) (typeAt .suffixed))) 2 written
  | 3, written => ReadsType literals
      (functionOr (typeAt .whole) (suffixedType (typeAt .whole) (typeAt .suffixed))) 3 written
    ∧ ReadsType literals (typeAt .suffixed) 3 written
  | _, written => ReadsUpToSuffixes literals 4 written

theorem fits_mono : ∀ {written : TypeExpr}, written.fits level' = true → level ≤ level' →
    written.fits level = true
  | ⟨.union _, _⟩, h, hle | ⟨.intersection _, _⟩, h, hle | ⟨.function _ _, _⟩, h, hle
  | ⟨.keyof _, _⟩, h, hle => by
    simp only [TypeExpr.fits, TypeShape.fits, Bool.and_eq_true, decide_eq_true_eq] at h ⊢
    refine ⟨?_, h.2⟩
    have hlevel := h.1
    omega
  | ⟨.reference _ _, _⟩, h, _ | ⟨.array _, _⟩, h, _ | ⟨.indexed _ _, _⟩, h, _ | ⟨.tuple _, _⟩, h, _
  | ⟨.paren _, _⟩, h, _ | ⟨.literalValue, _⟩, h, _ | ⟨.keyword _, _⟩, h, _ | ⟨.this, _⟩, h, _
  | ⟨.query _, _⟩, h, _ | ⟨.literal _, _⟩, h, _ | ⟨.predicate _ _, _⟩, h, _ => h

/-- No function type is next, so what is next is read. -/
theorem reads_functionOr {other : Parse TypeExpr} (hfits : written.fits level = true)
    (hlevel : 1 ≤ level) (hle : level ≤ 4) (h : ReadsType literals other level written) :
    ReadsType literals (functionOr type other) level written := by
  intro c word after hword hc
  have hfinds := TypeExpr.not_findsFunction literals hlevel (TokenKind.followsType_mono hword hle)
    written hfits hc
  unfold functionOr
  refine .here ?_
  rw [if_neg fun hstarts => hfinds (.inl hstarts)]
  exact h hword hc

theorem reads_whole (hfits : written.fits 1 = true)
    (h : ReadsType literals (unionType (typeAt .whole) (typeAt .suffixed)) 1 written) :
    ReadsType literals (typeAt .whole) 0 written := by
  intro c word after hword hc
  have hfinds := TypeExpr.not_findsFunction literals (Nat.le_refl 1)
    (TokenKind.followsType_mono hword (Nat.zero_le 4)) written hfits hc
  rw [typeAt_eq]
  dsimp only
  unfold wholeType
  refine .here ?_
  rw [if_neg fun hstarts => hfinds (.inl hstarts),
    if_neg fun hnew => hfinds (.inr (beq_iff_eq.1 hnew))]
  exact h (TokenKind.followsType_mono hword (Nat.zero_le 1)) hc

theorem readsAt_three (hfits : written.fits 3 = true) (h : ReadsUpToSuffixes literals 3 written) :
    ReadsAt literals 3 written := by
  refine ⟨reads_functionOr hfits (by decide) (by decide) h.gives, ?_⟩
  rw [typeAt_eq]
  exact h.gives

/-- What is read at a level is read at the one below. -/
theorem ReadsAt.lower (hlevel : level < 4) (hfits : written.fits (level + 1) = true)
    (h : ReadsAt literals (level + 1) written) : ReadsAt literals level written := by
  match level, hlevel with
  | 0, _ => exact reads_whole hfits h
  | 1, _ => exact reads_operands_of_part hfits h (by decide) rfl rfl
  | 2, _ =>
    refine reads_functionOr (fits_mono hfits (by decide)) (by decide) (by decide) ?_
    exact reads_operands_of_part hfits h.1 (by decide) rfl rfl
  | 3, _ => exact readsAt_three (fits_mono hfits (by decide)) (ReadsUpToSuffixes.mono h (by decide))

theorem ReadsAt.mono (hle : level ≤ level') (hlevel : level' ≤ 4) (hfits : written.fits level' = true)
    (h : ReadsAt literals level' written) : ReadsAt literals level written := by
  induction hle with
  | refl => exact h
  | step _ ih => exact ih (by omega) (fits_mono hfits (Nat.le_succ _)) (h.lower hlevel hfits)

/-- What has neither operators nor suffixes is read at every level. -/
theorem readsAt_of_primary (hlevel : level ≤ 4) (hfits : written.fits 4 = true)
    (h : ReadsType literals (primaryType (typeAt .whole) (typeAt .suffixed)) 4 written) :
    ReadsAt literals level written := by
  have hfour : ReadsAt literals 4 written := readsUpToSuffixes_of_primary h
  exact hfour.mono hlevel (Nat.le_refl 4) hfits

section Joined

variable {first next : TypeExpr} {parts : List TypeExpr} (span : Text.Span)

theorem readsAt_union
    (hparts : ∀ part ∈ first :: next :: parts, part.fits 2 = true ∧ ReadsAt literals 2 part) :
    ReadsAt literals 1 ⟨.union (first :: next :: parts), span⟩ := by
  have hwords : (TypeShape.union (first :: next :: parts)).words literals span
      = Word.separated .bar ((first :: next :: parts).map (TypeExpr.words literals)) := by
    rw [TypeShape.words, wordsOfAll_eq_map]
  refine reads_operands (hparts first List.mem_cons_self).1 (fun part hmem => (hparts part hmem).2)
    (by decide) rfl rfl rfl hwords fun hresembles => ?_
  unfold Resembles Same at *
  rw [relocate_union, relocate_union, hresembles]

theorem readsAt_intersection
    (hparts : ∀ part ∈ first :: next :: parts, part.fits 3 = true ∧ ReadsAt literals 3 part)
    (hfits : (⟨.intersection (first :: next :: parts), span⟩ : TypeExpr).fits 2 = true) :
    ReadsAt literals 2 ⟨.intersection (first :: next :: parts), span⟩ := by
  have hwords : (TypeShape.intersection (first :: next :: parts)).words literals span
      = Word.separated .ampersand ((first :: next :: parts).map (TypeExpr.words literals)) := by
    rw [TypeShape.words, wordsOfAll_eq_map]
  refine reads_functionOr hfits (by decide) (by decide) ?_
  refine reads_operands (hparts first List.mem_cons_self).1 (fun part hmem => (hparts part hmem).2.1)
    (by decide) rfl rfl rfl hwords fun hresembles => ?_
  unfold Resembles Same at *
  rw [relocate_intersection, relocate_intersection, hresembles]

end Joined

theorem reads_function {signature : Signature} {isConstructor : Bool} {span : Text.Span}
    (hfits : signature.fits = true) (hsignature : ReadsSignature literals (typeAt .whole) signature) :
    ReadsAt literals 0 ⟨.function isConstructor signature, span⟩ := by
  intro c word after hword hc
  have hfunction := reads_functionType hsignature isConstructor span hword hc
  rw [typeAt_eq]
  dsimp only
  unfold wholeType
  refine .here ?_
  cases isConstructor with
  | true =>
    have hkind : c.kind = .keyword .newKw := hc.kind
    rw [if_neg, if_pos (beq_iff_eq.2 hkind)]
    · exact hfunction
    · rw [startsFunction_of_kind (by rw [hkind]; decide) (by rw [hkind]; decide)]
      exact Bool.false_ne_true
  | false =>
    rw [if_pos]
    · exact hfunction
    · obtain ⟨typeParams, params, returns⟩ := signature
      obtain ⟨result, rfl, -⟩ := hsignature.returns
      cases typeParams with
      | cons param typeParams => exact startsFunction_of_less hc.kind
      | nil =>
        simp only [Signature.fits, Bool.and_eq_true] at hfits
        have hparams : Word.Sound (Word.separated .comma (Param.wordsOfAll literals params)) :=
          .separated (by decide) (by decide) (Param.allWords_sound literals params hfits.1.1.2)
        have hwords : c.Stands .oneLine (.sign .openParen
            :: (Word.separated .comma (Param.wordsOfAll literals params)
              ++ .sign .closeParen :: .sign .fatArrow :: (result.words literals ++ word :: after))) := by
          simpa [TypeExpr.words, TypeShape.words, Signature.words, TypeParam.wordsOfAll, Word.angled,
            TypeExpr.wordsAfter] using hc
        rw [hwords.startsFunction hparams]
        rfl

end Levels

section Types

mutual

theorem TypeShape.reads {level : Nat} (hlevel : level ≤ 4) (span : Text.Span) : ∀ shape : TypeShape,
    shape.fits level = true → ReadsAt literals level ⟨shape, span⟩
  | .reference name args, h => by
    have hparts := h
    simp only [TypeShape.fits, Bool.and_eq_true] at hparts
    have hargs := TypeExpr.allRead (by decide) args hparts.2
    exact readsAt_of_primary hlevel h (reads_reference 4 span hparts.1 (fun arg hmem => (hargs arg hmem).1)
      fun arg hmem => (hargs arg hmem).2)
  | .union (first :: next :: parts), h => by
    have hparts := h
    simp only [TypeShape.fits, Bool.and_eq_true, decide_eq_true_eq] at hparts
    have hunion := readsAt_union span (TypeExpr.allRead (by decide) (first :: next :: parts) hparts.2)
    refine hunion.mono hparts.1.1 (by decide) ?_
    simp only [TypeExpr.fits, TypeShape.fits, hparts.1.2, hparts.2, decide_true, Bool.and_self, Nat.le_refl]
  | .intersection (first :: next :: parts), h => by
    have hparts := h
    simp only [TypeShape.fits, Bool.and_eq_true, decide_eq_true_eq] at hparts
    have hfits : (⟨.intersection (first :: next :: parts), span⟩ : TypeExpr).fits 2 = true := by
      simp only [TypeExpr.fits, TypeShape.fits, hparts.1.2, hparts.2, decide_true, Bool.and_self, Nat.le_refl]
    have hall := TypeExpr.allRead (by decide) (first :: next :: parts) hparts.2
    exact (readsAt_intersection span hall hfits).mono hparts.1.1 (by decide) hfits
  | .array element, h => by
    have helement : ReadsAt literals 4 element := TypeExpr.reads (Nat.le_refl 4) element h
    have harray : ReadsAt literals 4 ⟨.array element, span⟩ := ReadsUpToSuffixes.array helement span
    exact harray.mono hlevel (Nat.le_refl 4) h
  | .indexed object index, h => by
    have hparts := h
    simp only [TypeShape.fits, Bool.and_eq_true] at hparts
    have hobject : ReadsAt literals 4 object := TypeExpr.reads (Nat.le_refl 4) object hparts.1
    have hindexed : ReadsAt literals 4 ⟨.indexed object index, span⟩ := ReadsUpToSuffixes.indexed hobject
      hparts.2 (TypeExpr.reads (Nat.zero_le 4) index hparts.2) span
    exact hindexed.mono hlevel (Nat.le_refl 4) h
  | .tuple elements, h => by
    have helements := TypeExpr.allRead (Nat.zero_le 4) elements h
    exact readsAt_of_primary hlevel h (reads_tuple 4 span (fun element hmem => (helements element hmem).1)
      fun element hmem => (helements element hmem).2)
  | .paren inner, h =>
    readsAt_of_primary hlevel h (reads_paren 4 span (TypeExpr.reads (Nat.zero_le 4) inner h))
  | .function isConstructor signature, h => by
    simp only [TypeShape.fits, Bool.and_eq_true, decide_eq_true_eq] at h
    obtain ⟨rfl, hsignature⟩ := h
    exact reads_function hsignature (Signature.reads signature hsignature)
  | .literalValue, h => readsAt_of_primary hlevel h (reads_literalValue 4 span)
  | .keyword keyword, h => readsAt_of_primary hlevel h (reads_keywordType 4 span keyword)
  | .this, h => readsAt_of_primary hlevel h (reads_this 4 span)
  | .query name, h => readsAt_of_primary hlevel h (reads_query 4 span name)
  | .keyof operand, h => by
    have hparts := h
    simp only [TypeShape.fits, Bool.and_eq_true, decide_eq_true_eq] at hparts
    have hoperand : ReadsAt literals 3 operand := TypeExpr.reads (by decide) operand hparts.2
    have hfits : (⟨.keyof operand, span⟩ : TypeExpr).fits 3 = true := by
      simp only [TypeExpr.fits, TypeShape.fits, hparts.2, decide_true, Bool.and_self, Nat.le_refl]
    exact (readsAt_three hfits (readsUpToSuffixes_of_primary (reads_keyof span hoperand.2))).mono
      hparts.1 (by decide) hfits
  | .union [], h | .union [_], h | .intersection [], h | .intersection [_], h
  | .literal _, h | .predicate _ _, h => by simp [TypeShape.fits] at h

/-- A type that fits a level is read there as it was written. -/
theorem TypeExpr.reads {level : Nat} (hlevel : level ≤ 4) : ∀ written : TypeExpr,
    written.fits level = true → ReadsAt literals level written
  | ⟨shape, span⟩, h => TypeShape.reads hlevel span shape h

theorem TypeExpr.allRead {level : Nat} (hlevel : level ≤ 4) : ∀ types : List TypeExpr,
    TypeExpr.allFit level types = true →
      ∀ written ∈ types, written.fits level = true ∧ ReadsAt literals level written
  | [], _ => nofun
  | written :: types, h => by
    simp only [TypeExpr.allFit, Bool.and_eq_true] at h
    exact List.forall_mem_cons.2
      ⟨⟨h.1, TypeExpr.reads hlevel written h.1⟩, TypeExpr.allRead hlevel types h.2⟩

theorem TypeExpr.readIfPresent : ∀ written : Option TypeExpr, TypeExpr.fitsIfPresent written = true →
    ∀ type ∈ written, ReadsType literals (typeAt .whole) 0 type
  | none, _ => nofun
  | some type, h => by
    rintro _ ⟨⟩
    exact TypeExpr.reads (Nat.zero_le 4) type h

theorem Signature.reads : ∀ signature : Signature, signature.fits = true →
    ReadsSignature literals (typeAt .whole) signature
  | ⟨typeParams, params, none⟩, h => by simp [Signature.fits] at h
  | ⟨typeParams, params, some returns⟩, h => by
    simp only [Signature.fits, Bool.and_eq_true] at h
    exact ⟨TypeParam.allRead typeParams h.1.1.1, Param.allRead params h.1.1.2,
      returns, rfl, reads_returnType h.2 (TypeExpr.reads (Nat.zero_le 4) returns h.2)⟩

theorem Param.reads : ∀ param : Param, param.fits = true →
    ReadsItem .oneLine (Parse.param (typeAt .whole)) .closeParen (param.words literals) param
  | ⟨name, rest, optional, type⟩, h => by
    simp only [Param.fits, Bool.and_eq_true] at h
    exact reads_param (TypeExpr.readIfPresent type h.2)

theorem Param.allRead : ∀ params : List Param, Param.allFit params = true → ∀ param ∈ params,
    ReadsItem .oneLine (Parse.param (typeAt .whole)) .closeParen (param.words literals) param
  | [], _ => nofun
  | param :: params, h => by
    simp only [Param.allFit, Bool.and_eq_true] at h
    exact List.forall_mem_cons.2 ⟨Param.reads param h.1, Param.allRead params h.2⟩

theorem TypeParam.reads : ∀ param : TypeParam, param.fits = true →
    ReadsItem .oneLine (typeParam (typeAt .whole)) .greater (param.words literals) param
  | ⟨name, bound, fallback⟩, h => by
    have hparts := h
    simp only [TypeParam.fits, Bool.and_eq_true] at hparts
    exact reads_typeParam h (TypeExpr.readIfPresent bound hparts.1.2)
      (TypeExpr.readIfPresent fallback hparts.2)

theorem TypeParam.allRead : ∀ params : List TypeParam, TypeParam.allFit params = true →
    ∀ param ∈ params,
      ReadsItem .oneLine (typeParam (typeAt .whole)) .greater (param.words literals) param
  | [], _ => nofun
  | param :: params, h => by
    simp only [TypeParam.allFit, Bool.and_eq_true] at h
    exact List.forall_mem_cons.2 ⟨TypeParam.reads param h.1, TypeParam.allRead params h.2⟩

end

end Types

end Parse

end NodeFactory
