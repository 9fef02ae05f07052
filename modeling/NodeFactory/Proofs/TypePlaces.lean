import NodeFactory.Proofs.TakenLexemes

/-!
# Where constant expressions, types and members are written

A type fills the lexemes that are taken for it, and so does a member, whose name stands first; the types
and names that they are made of lie within (`typeExpr_takes`, `member_takes`). This holds whether or not
errors are reported: a member that cannot be read leaves nothing behind.
-/

namespace NodeFactory

open Parse Text

section Constants

variable {s : Sequel} {c : Cursor}

theorem unaryOps_takes : Takes s (fun _ _ => True) unaryOps unaryOps c := by
  unfold unaryOps
  refine repeatFrom_takes (I := fun _ _ => True) (fun ops m zs _ _ => .kind ?_) trivial
  have hnext : ∀ op, m.kind ≠ .endOfFile → Takes s (StepTakes (fun _ _ => True) (fun _ _ => True) zs)
      (do next; return .inl (ops ++ [op]) : Parse (List UnaryOp ⊕ List UnaryOp))
      (do next; return .inl (ops ++ [op])) m :=
    fun op hkind => (next_takes_of_kind hkind).last fun _ xs hxs => ⟨hxs.ne_nil, trivial⟩
  split
  · rename_i hkind
    exact hnext _ (by rw [hkind]; decide)
  · rename_i hkind
    exact hnext _ (by rw [hkind]; decide)
  · rename_i hkind
    exact hnext _ (by rw [hkind]; decide)
  · exact .pure trivial

/-- An operator is made of lexemes that are left. -/
theorem Cursor.length_of_binaryOp? {op : BinaryOp} {n : Nat} (h : c.binaryOp? = some (op, n)) :
    n ≠ 0 ∧ n ≤ c.rest.length := by
  have hpos : n ≠ 0 := by
    rintro rfl
    unfold binaryOp? at h
    repeat' split at h
    all_goals cases h
  refine ⟨hpos, Nat.le_of_not_lt fun hlt => ?_⟩
  have hplain := isPlain_of_binaryOp? h (n - 1) (by omega)
  rw [kindAt, peek?, List.getElem?_eq_none (by omega)] at hplain
  cases hplain

theorem outlines_foldr_unary (ops : List UnaryOp) (operand : ConstExpr) :
    outlines (ops.foldr .unary operand) = outlines operand := by
  induction ops with
  | nil => rfl
  | cons op ops ih => rw [List.foldr_cons, outlines_unary, ih]

variable {nested nested' : Parse ConstExpr}

theorem constPrimary_takes
    (hnested : ∀ m, m.size < c.size →
      Takes s (fun value xs => Within (outlines value) xs) nested nested' m) :
    Takes s (fun value xs => xs ≠ [] ∧ Within (outlines value) xs)
      (constPrimary nested) (constPrimary nested') c := by
  unfold constPrimary
  refine .kind ?_
  split
  · rename_i hkind
    refine .here ?_ fun hne _ => by rw [Cursor.textAt_extend hne]
    split
    · exact (next_takes_of_kind (by rw [hkind]; decide)).last fun _ xs hxs => ⟨hxs.ne_nil, .none _⟩
    · exact .unexpected
  · refine propertyName_takes.last fun name xs hxs => ⟨hxs.fills.ne_nil, .none _⟩
  · rename_i hkind
    refine (next_takes_of_kind (by rw [hkind]; decide)).bind fun _ m xs hxs hone => ?_
    refine (hnested m (hxs.size_lt hone.ne_nil)).bind fun inner m ys _ hinner => ?_
    refine (expect_takes (by decide)).last fun _ zs _ => ⟨by simp [hone.ne_nil], ?_⟩
    exact (hinner.before zs).after xs
  · refine entityName_takes.last fun name xs hxs => ⟨hxs.1.ne_nil, ?_⟩
    exact Within.single hxs.1

theorem constOperand_takes
    (hnested : ∀ m, m.size < c.size →
      Takes s (fun value xs => Within (outlines value) xs) nested nested' m) :
    Takes s (fun value xs => xs ≠ [] ∧ Within (outlines value) xs)
      (constOperand nested) (constOperand nested') c := by
  unfold constOperand
  refine unaryOps_takes.bind fun ops m xs hxs _ => ?_
  have hle := hxs.size_le
  refine (constPrimary_takes fun m' hlt => hnested m' (by omega)).last fun primary ys hprimary => ?_
  rw [outlines_foldr_unary]
  exact ⟨by simp [hprimary.1], hprimary.2.after xs⟩

theorem constExprAbove_body_takes :
    BodyTakes s (fun _ value xs => Within (outlines value) xs) (fun exprAbove level => do
      let left ← constOperand (exprAbove 0)
      repeatFrom (fun left => do
        match (← cursor).binaryOp? with
        | some (op, length) =>
          if op.precedence ≤ level then return .inr left
          skip length
          return .inl (.binary op left (← exprAbove op.precedence))
        | none => return .inr left) left) := by
  intro n call call' hcall _ level c hc
  refine (constOperand_takes fun m hlt => hcall 0 m (by omega)).bind fun left m xs hxs hleft => ?_
  have hlt := hxs.size_lt hleft.1
  refine repeatFrom_takes (I := fun left zs => Within (outlines left) (xs ++ zs)) ?_
    (hleft.2.before [])
  intro left m' zs hzs hleft
  have hle := hzs.size_le
  refine .here ?_ fun hne hended => by rw [Cursor.binaryOp?_extend hended hne]
  cases hop : m'.binaryOp? with
  | none => exact .pure (by simpa [StepTakes] using hleft)
  | some found =>
    obtain ⟨op, length⟩ := found
    refine .ite (fun _ => .pure (by simpa [StepTakes] using hleft)) fun _ => ?_
    obtain ⟨hpos, hlength⟩ := Cursor.length_of_binaryOp? hop
    refine (skip_takes hlength).bind fun _ d ys hys hskip => ?_
    have hle' := hys.size_le
    refine (hcall op.precedence d (by omega)).last fun right us hright => ⟨?_, ?_⟩
    · rintro h
      rw [(List.append_eq_nil_iff.1 h).1] at hskip
      exact hpos hskip.symm
    · simpa using hleft.append (hright.after ys)

theorem constExpr_takes : Takes s (fun value xs => Within (outlines value) xs) constExpr constExpr c :=
  fix_takes constExprAbove_body_takes 0 c

end Constants

section Members

variable {s : Sequel} {c : Cursor} {n : Nat} {type type' : Parse TypeExpr}

/-- Lexemes that a type with these parts may fill. -/
structure TypeParts (parts : List Outline) (lexemes : List Lexeme) : Prop where
  ne_nil : lexemes ≠ []
  within : Within parts lexemes
  unended : Unended lexemes

theorem Fills.typeParts {type : TypeExpr} {xs : List Lexeme} (h : Fills type.outline xs) :
    TypeParts (outlines type.shape) xs := by
  obtain ⟨shape, span⟩ := type
  rw [outline_type] at h
  generalize hnode : Outline.node .type span (outlines shape) = node at h
  cases h with
  | plain _ hfits hparts =>
    obtain ⟨rfl, -, rfl⟩ := Outline.node.inj hnode
    exact ⟨List.cons_ne_nil _ _, hparts, hfits⟩
  | led hcomments =>
    obtain ⟨rfl, -, -⟩ := Outline.node.inj hnode
    cases hcomments

theorem TypeParts.fills {shape : TypeShape} {d : Cursor} {xs : List Lexeme}
    (h : TypeParts (outlines shape) xs) (hxs : c.Reads xs d) :
    Fills (TypeExpr.outline ⟨shape, ⟨c.start, max d.lastEnd c.start⟩⟩) xs := by
  obtain ⟨first, rest, rfl⟩ := List.exists_cons_of_ne_nil h.ne_nil
  rw [outline_type, hxs.span]
  exact .plain rfl h.unended h.within

theorem Fills.within_type {type : TypeExpr} {xs : List Lexeme} (h : Fills type.outline xs) :
    Within (outlines type) xs :=
  .single h

/-- Where fewer lexemes are left than that, a type fills the lexemes that are taken for it. -/
def TypesBelow (s : Sequel) (n : Nat) (type type' : Parse TypeExpr) : Prop :=
  ∀ m, m.size < n → Takes s (fun type xs => Fills type.outline xs) type type' m

theorem varianceWords_takes : Takes s (fun _ _ => True) (repeatFrom (fun _ => varianceStep) ())
    (repeatFrom (fun _ => varianceStep) ()) c := by
  refine repeatFrom_takes (I := fun _ _ => True) (fun _ m zs _ _ => ?_) trivial
  refine .here (.ite (fun hword => ?_) fun _ => .pure trivial) fun hne hended => by
    rw [Cursor.isVarianceWord_extend hended hne]
  cases hpeek : m.peek? 0 with
  | none => simp [isVarianceWord, Cursor.kind, Cursor.kindAt, Cursor.textAt, hpeek] at hword
  | some lexeme => exact (next_takes_of_peek hpeek).last fun _ xs hxs => ⟨by simp [hxs], trivial⟩

variable (htype : TypesBelow s n type type')
include htype

theorem typeParam_takes (hc : c.size < n) :
    Takes s (fun param xs => Within (outlines param) xs) (typeParam type) (typeParam type') c := by
  unfold typeParam
  refine varianceWords_takes.bind fun _ m xs hxs _ => ident_takes.bind fun name m ys hys hname => ?_
  have hle := (hxs.append hys).size_le
  refine .optional (by decide) (fun d hd => htype d (by omega)) fun bound m zs hzs hbound => ?_
  have hle' := hzs.size_le
  refine .optional (by decide) (fun d hd => htype d (by omega)) fun fallback m ws _ hfallback => ?_
  refine .pure ?_
  have hbound := hbound.within fun _ _ h => h.within_type
  have hfallback := hfallback.within fun _ _ h => h.within_type
  simpa using ((Within.single hname.fills).append (hbound.append hfallback)).after xs

theorem typeParams_takes (hc : c.size ≤ n) :
    Takes s (fun params xs => (outlines params = [] ∧ xs = []) ∨ Behind (outlines params) xs)
      (typeParams type) (typeParams type') c := by
  unfold typeParams
  refine .isAt (.ite (fun _ => ?_) fun _ => .pure (.inl ⟨rfl, rfl⟩))
  refine (enclosed_takes (by decide) (by decide) (by decide) fun m hlt => ?_).mono
    fun params xs h => .inr h.1
  exact typeParam_takes htype (by omega)

theorem typeArgs_takes (hc : c.size ≤ n) :
    Takes s (fun args xs => Within (outlines args) xs ∧ Unended xs) (typeArgs type) (typeArgs type')
      c := by
  unfold typeArgs
  refine .isAt (.ite (fun _ => ?_) fun _ => .pure ⟨.nil, .nil⟩)
  refine (enclosed_takes (by decide) (by decide) (by decide) fun m hlt => ?_).mono
    fun args xs h => ⟨h.1.within, h.2⟩
  exact (htype m (by omega)).mono fun type xs h => h.within_type

omit htype in
theorem paramName_takes : Takes s (fun name xs => Fills name.outline xs) paramName paramName c := by
  unfold paramName
  refine .kind (.ite (fun hopening => ?_) fun _ => ident_takes.mono fun _ _ h => h.fills)
  refine .here ?_ fun hne _ => by simp only [Cursor.start_extend hne]
  have hkind : c.kind ≠ .endOfFile := by
    intro h
    rw [h] at hopening
    cases hopening
  refine (skipGroup_takes hkind).bind fun _ m xs hxs hne => .placed ?_
  obtain ⟨first, rest, rfl⟩ := List.exists_cons_of_ne_nil hne
  rw [List.append_nil]
  exact .ident hxs.span

theorem namedParam_takes (rest : Bool) (hc : c.size < n) :
    Takes s (fun param xs => Within (outlines param) xs) (namedParam type rest) (namedParam type' rest)
      c := by
  unfold namedParam
  refine paramName_takes.bind fun name m xs hxs hname => ?_
  have hle := hxs.size_le
  refine (eat_takes (by decide)).bind fun optional m ys hys _ => ?_
  have hle' := hys.size_le
  refine .optional (by decide) (fun d hd => htype d (by omega)) fun type m zs _ htype => ?_
  have hparam : ∀ ws, Within (outlines (⟨name, rest, optional, type⟩ : Param))
      (xs ++ (ys ++ (zs ++ ws))) := by
    intro ws
    have htype := htype.within fun _ _ h => h.within_type
    simpa using (Within.single hname).append ((htype.before ws).after ys)
  refine (eat_takes (by decide)).bind fun _ m ws _ _ => .ite (fun _ => ?_) fun _ => .pure (hparam _)
  exact constExpr_takes.discard.bind fun _ m us _ _ => .pure (hparam _)

theorem param_takes (hc : c.size < n) :
    Takes s (fun param xs => Within (outlines param) xs) (param type) (param type') c := by
  rw [param_eq, param_eq]
  refine (eat_takes (by decide)).bind fun rest m xs hxs _ => ?_
  have hle := hxs.size_le
  refine .isAt (.here (.ite (fun _ => ?_) fun _ => ?_) fun hne hended => ?_)
  · refine next_takes.bind fun _ d ys hys _ => ?_
    have hle' := hys.size_le
    exact (namedParam_takes htype rest (by omega)).mono fun param zs h => (h.after ys).after xs
  · exact (namedParam_takes htype rest (by omega)).mono fun param ys h => h.after xs
  · simp only [Cursor.followed_extend hended (.keyword .readonlyKw) rfl TokenKind.isName]

theorem params_takes (hc : c.size ≤ n) :
    Takes s (fun params xs => Behind (outlines params) xs) (params type) (params type') c :=
  (enclosed_takes (by decide) (by decide) (by decide) fun m hlt =>
    param_takes htype (by omega)).mono fun _ _ h => h.1

theorem returnType_takes (hc : c.size < n) :
    Takes s (fun type xs => Fills type.outline xs) (returnType type) (returnType type') c := by
  unfold returnType
  refine .here (.ite (fun _ => ?_) fun _ => htype c hc) fun hne hended => ?_
  · refine ident_takes.bind fun param m xs hxs hparam => ?_
    refine next_takes.bind fun _ m ys hys _ => ?_
    have hle := (hxs.append hys).size_le
    refine (htype m (by omega)).bind fun narrowed m zs hzs hnarrowed => .placed ?_
    refine TypeParts.fills ⟨by simp [hparam.fills.ne_nil], ?_, ?_⟩
      (hxs.append (hys.append (hzs.append (.nil m))))
    · simpa using (Within.single hparam.fills).append ((Within.single hnarrowed).after ys)
    · have hend := hnarrowed.typeParts
      simpa using hend.unended.after hend.ne_nil (xs ++ ys)
  · simp only [Cursor.kind_extend hne, Cursor.start_extend hne]
    rcases Cursor.second_extend (s := s) hended with ⟨hkind, htext⟩ | hkind | hkind | hkind
    · simp only [hkind, htext]
    all_goals simp only [hkind]; rfl

theorem signature_takes (hc : c.size ≤ n) :
    Takes s (fun signature xs => Behind (outlines signature) xs) (signature type) (signature type')
      c := by
  unfold signature
  refine (typeParams_takes htype hc).bind fun typeParams m xs hxs htypeParams => ?_
  have hle := hxs.size_le
  refine (params_takes htype (by omega)).bind fun params m ys hys hparams => ?_
  have hle' := hys.size_le
  refine .optional (by decide) (fun d hd => returnType_takes htype (by omega))
    fun returns m zs _ hreturns => .pure ?_
  have hreturns := hreturns.within fun _ _ h => h.within_type
  simpa using (Behind.lead htypeParams hparams).append hreturns

theorem indexRest_takes (hc : c.size < n) :
    Takes s (fun shape _ => shape = .index) (indexRest type) (indexRest type') c := by
  unfold indexRest
  refine (eat_takes (by decide)).discard.bind fun _ m xs hxs _ => ?_
  have hle := hxs.size_le
  refine (eat_takes (by decide)).bind fun _ m ys hys _ => .ite (fun _ => ?_) fun _ => .pure rfl
  have hle' := hys.size_le
  exact (htype m (by omega)).discard.last fun _ _ _ => rfl

theorem indexMember_takes (hc : c.size ≤ n) :
    Takes s (fun shape xs => LedBy (outlines shape) xs) (indexMember type) (indexMember type') c := by
  rw [indexMember_eq, indexMember_eq]
  refine (skipGroup_takes (by decide)).bind fun _ m xs hxs hne => ?_
  have hlt := hxs.size_lt hne
  have hindex : ∀ shape ys, shape = MemberShape.index → LedBy (outlines shape) (xs ++ ys) := by
    rintro shape ys rfl
    exact (behind_of_ne_nil hne (.none _)).ledBy
  refine .isAt (.isAt (.ite (fun _ => ?_) fun _ => .isAt (.isAt (.ite (fun _ => ?_) fun _ => ?_))))
  · exact (signature_takes htype (by omega)).discard.last fun _ ys _ => hindex _ ys rfl
  · refine next_takes.bind fun _ m ys hys _ => ?_
    have hle := hys.size_le
    exact (indexRest_takes htype (by omega)).mono fun shape zs h => hindex shape (ys ++ zs) h
  · exact (indexRest_takes htype (by omega)).mono hindex

omit htype in
theorem IsPropertyName.ledBy {name : Ident} {xs : List Lexeme} (h : IsPropertyName name xs) :
    LedBy (outlines name) xs := by
  have hfills := h.fills
  obtain ⟨lexeme, rfl, -, -⟩ := h
  refine ⟨lexeme, [], [name.outline], [], rfl, rfl, fun part hpart => ?_, .single hfills, .nil⟩
  obtain rfl := List.mem_singleton.1 hpart
  exact ⟨name.name, rfl⟩

theorem memberAfterName_takes {name : Ident} (optional readonly : Bool) {xs : List Lexeme}
    (hname : LedBy (outlines name) xs) (hc : c.size < n) :
    Takes s (fun shape ys => LedBy (outlines shape) (xs ++ ys))
      (memberAfterName type name optional readonly) (memberAfterName type' name optional readonly) c := by
  unfold memberAfterName
  refine .isAt (.isAt (.ite (fun _ => ?_) fun _ => ?_))
  · refine (signature_takes htype (by omega)).last fun signature ys hsignature => ?_
    rw [outlines_method]
    exact hname.append hsignature.within
  · refine .optional (by decide) (fun d hd => htype d (by omega)) fun type m ys _ htype => .pure ?_
    rw [outlines_property, List.append_nil]
    exact hname.append (htype.within fun _ _ h => h.within_type)

theorem memberFromName_takes (readonly : Bool) (hc : c.size ≤ n) :
    Takes s (fun shape xs => LedBy (outlines shape) xs) (memberFromName type readonly)
      (memberFromName type' readonly) c := by
  unfold memberFromName
  refine propertyName_takes.bind fun name m xs hxs hname => ?_
  have hlt := hxs.size_lt hname.fills.ne_nil
  refine (eat_takes (by decide)).bind fun optional m ys hys _ => ?_
  have hle := hys.size_le
  refine .ite (fun _ => ?_) fun _ => ?_
  · refine (eat_takes (by decide)).discard.bind fun _ m zs hzs _ => ?_
    have hle' := hzs.size_le
    have h := memberAfterName_takes (c := m) htype optional readonly (hname.ledBy.before (ys ++ zs))
      (by omega)
    simpa only [List.append_assoc] using h
  · have h := memberAfterName_takes (c := m) htype optional readonly (hname.ledBy.before ys) (by omega)
    simpa only [List.append_assoc] using h

theorem namedMember_takes (hc : c.size ≤ n) :
    Takes s (fun shape xs => LedBy (outlines shape) xs) (namedMember type) (namedMember type') c := by
  rw [namedMember_eq, namedMember_eq]
  refine .here (.ite (fun hread => ?_) fun _ => memberFromName_takes htype _ hc) fun hne hended => ?_
  · have hkind : c.kind ≠ .endOfFile := by
      intro h
      simp [h] at hread
    refine (next_takes_of_kind hkind).bind fun _ m xs hxs hone => ?_
    have hle := hxs.size_le
    refine (memberFromName_takes htype _ (by omega)).mono fun shape ys h => ?_
    exact (behind_of_ne_nil hone.ne_nil h.within).ledBy
  · have hfollowed := Cursor.followed_extend (s := s) hended (.keyword .readonlyKw) rfl
      fun kind => kind.isName || kind == .string || kind == .number
    simp only [Cursor.kind_extend hne, hfollowed]

theorem memberShape_takes (hc : c.size ≤ n) :
    Takes s (fun shape xs => LedBy (outlines shape) xs) (memberShape type) (memberShape type') c := by
  have hcall : Takes s (fun shape xs => LedBy (outlines shape) xs)
      (do return MemberShape.call (← signature type)) (do return MemberShape.call (← signature type'))
      c :=
    (signature_takes htype hc).last fun _ _ h => h.ledBy
  unfold memberShape
  refine .here ?_ fun hne hended => ?_
  · split
    · exact indexMember_takes htype hc
    · exact hcall
    · exact hcall
    · rename_i hnew
      refine .ite (fun _ => ?_) fun _ => namedMember_takes htype hc
      refine (next_takes_of_kind (by rw [hnew]; decide)).bind fun _ m xs hxs hone => ?_
      have hle := hxs.size_le
      refine (signature_takes htype (by omega)).last fun signature ys h => ?_
      exact (behind_of_ne_nil hone.ne_nil h.within).ledBy
    · exact namedMember_takes htype hc
  · simp only [Cursor.kind_extend hne]
    rcases Cursor.second_extend (s := s) hended with ⟨hkind, -⟩ | hkind | hkind | hkind
    · simp only [hkind]
    all_goals simp only [hkind]

theorem member_takes (hc : c.size ≤ n) :
    Takes s (fun member xs => Fills member.outline xs) (member type) (member type') c := by
  have hplaced : ∀ shape zs m, c.Reads zs m → LedBy (outlines shape) zs →
      Takes s (fun member ys => Fills member.outline (zs ++ ys))
        (do return (⟨shape, ← spanFrom c.start, c.comments⟩ : Member))
        (do return (⟨shape, ← spanFrom c.start, c.comments⟩ : Member)) m := by
    intro shape zs m hzs h
    refine .placed ?_
    obtain ⟨first, rest, rfl⟩ := List.exists_cons_of_ne_nil h.ne_nil
    rw [List.append_nil, outline_member, hzs.span, hzs.comments]
    exact h.fills rfl
  unfold member
  refine .here ((memberShape_takes htype hc).bind fun shape m xs hxs hshape => ?_) fun hne _ => by
    simp only [Cursor.start_extend hne, Cursor.comments_extend hne]
  refine (eat_takes (by decide)).bind fun _ m ys hys _ => .ite (fun _ => ?_) fun _ => ?_
  · simpa only [List.append_assoc] using hplaced shape _ m (hxs.append hys) (hshape.before ys)
  · refine (eat_takes (by decide)).discard.bind fun _ m zs hzs _ => ?_
    simpa only [List.append_assoc] using
      hplaced shape _ m (hxs.append (hys.append hzs)) (hshape.before (ys ++ zs))

omit htype in
/-- What an action and the recovery from its failure take is not nothing, unless the list ends. -/
theorem recovery_takes {α : Type} {closing : TokenKind} {error : ParseError} {result : α}
    {m : Cursor} {xs : List Lexeme} (hxs : c.Reads xs m) (hclosing : c.kind ≠ closing)
    (hend : c.kind ≠ .endOfFile) :
    Takes s (fun value ys => value = result ∧ xs ++ ys ≠ [])
      (do report error; recover closing; return result)
      (do report error; recover closing; return result) m := by
  refine .reported fun d hd herrors => (recover_takes closing herrors).last fun _ ys hys => ⟨rfl, ?_⟩
  cases xs with
  | nil =>
    rw [hd, hxs.kind_eq] at hys
    exact hys hclosing hend
  | cons first rest => exact List.cons_ne_nil _ _

/-- A step takes a lexeme or is the last one, whatever errors it recovers from. -/
theorem memberStep_takes (hc : c.size ≤ n) {base members : List Member} {zs : List Lexeme}
    (hmembers : Adds base members zs) :
    Takes s (StepTakes (Adds base) (fun members xs => Adds base members xs ∧ Unended xs) zs)
      (memberStep type members) (memberStep type' members) c := by
  unfold memberStep
  refine (eat_takes (by decide)).bind fun found m ws hws hfound => .ite (fun htrue => ?_) fun hfalse => ?_
  · rw [if_pos htrue] at hfound
    refine .pure ⟨hmembers.before _, ?_⟩
    rw [List.append_nil]
    exact hfound.unended (by decide) zs
  rw [if_neg hfalse] at hfound
  obtain ⟨rfl, hclosing⟩ := hfound
  refine .isAt (.ite (fun _ => .unexpected) fun hend => ?_)
  have hle := hws.size_le
  refine (member_takes htype (by omega)).attempt (fun member d xs hxs hmember => ?_) ?_ ?_
  · have hsingle : Within (outlines [member]) xs := .single hmember
    refine .pure ⟨by simp [hmember.ne_nil], ?_⟩
    simpa using hmembers.append hsingle
  · intro error d xs hxs
    refine (recovery_takes hxs ?_ ?_).mono fun result ys ⟨hresult, hne⟩ => ?_
    · rwa [hws.kind_eq]
    · simpa using hend
    · rw [hresult]
      exact ⟨hne, hmembers.before _⟩
  · exact fun error d result d' h => errors_of_reported h

theorem members_takes (hc : c.size ≤ n) :
    Takes s (fun members xs => Behind (outlines members) xs ∧ Unended xs)
      (members type) (members type') c := by
  rw [members_eq, members_eq]
  refine (expect_takes (by decide)).bind fun _ m xs hxs hone => ?_
  have hle := hxs.size_le
  have hmembers : Takes s (fun members xs => Within (outlines members) xs ∧ Unended xs)
      (repeatFrom (memberStep type) []) (repeatFrom (memberStep type') []) m := by
    refine (repeatFrom_takes (I := Adds [])
      (R := fun members xs => Adds [] members xs ∧ Unended xs)
      (fun members d zs hzs hmembers => ?_) (adds_nil [])).mono
      fun members xs ⟨hmembers, hxs⟩ => ⟨hmembers.within, hxs⟩
    have hle' := hzs.size_le
    exact memberStep_takes htype (by omega) hmembers
  exact hmembers.mono fun members ys ⟨hmembers, hys⟩ =>
    ⟨behind_of_ne_nil hone.ne_nil hmembers, (hone.unended (by decide) []).append hys⟩

theorem unlabeledElement_takes (hc : c.size < n) :
    Takes s (fun element xs => Within (outlines element) xs) (unlabeledElement type)
      (unlabeledElement type') c := by
  unfold unlabeledElement
  refine (htype c hc).bind fun element m xs _ helement => ?_
  exact (eat_takes (by decide)).discard.last fun _ ys _ => helement.within_type.before ys

theorem tupleElement_takes (hc : c.size < n) :
    Takes s (fun element xs => Within (outlines element) xs) (tupleElement type) (tupleElement type')
      c := by
  rw [tupleElement_eq, tupleElement_eq]
  refine (eat_takes (by decide)).discard.bind fun _ m xs hxs _ => ?_
  have hle := hxs.size_le
  refine .here (.ite (fun _ => ?_) fun _ => ?_) fun hne hended => ?_
  · refine next_takes.bind fun _ m ys hys _ => (eat_takes (by decide)).discard.bind fun _ m zs hzs _ => ?_
    refine (expect_takes (by decide)).bind fun _ m ws hws _ => ?_
    have hle' := (hys.append (hzs.append hws)).size_le
    refine (unlabeledElement_takes htype (by omega)).mono fun element us h => ?_
    simpa using h.after (xs ++ (ys ++ (zs ++ ws)))
  · exact (unlabeledElement_takes htype (by omega)).mono fun element ys h => h.after xs
  · simp only [Cursor.kind_extend hne]
    rcases Cursor.second_extend (s := s) hended with ⟨hkind, -⟩ | hkind | hkind | hkind
    · rw [hkind]
      by_cases hquestion : m.kindAt 1 = .question
      · rw [Cursor.kindAt_succ_extend hended (by rw [hquestion]; rfl)]
      · simp only [beq_eq_false_iff_ne.2 hquestion, Bool.false_and]
    all_goals simp only [hkind]; rfl

end Members

section Types

variable {s : Sequel} {c : Cursor} {n : Nat} {type type' suffixed suffixed' : Parse TypeExpr}

/-- A type that is placed where its lexemes are. -/
theorem TypeParts.placed {shape : TypeShape} {d : Cursor} {xs : List Lexeme}
    (h : TypeParts (outlines shape) xs) (hxs : c.Reads xs d) :
    Takes s (fun type ys => Fills type.outline (xs ++ ys))
      (do return (⟨shape, ← spanFrom c.start⟩ : TypeExpr))
      (do return (⟨shape, ← spanFrom c.start⟩ : TypeExpr)) d := by
  refine .placed ?_
  rw [List.append_nil]
  exact h.fills hxs

theorem TypeParts.leaf {kind : TokenKind} {xs : List Lexeme} (h : IsOne kind xs)
    (hkind : kind ≠ .semicolon) : TypeParts [] xs :=
  ⟨h.ne_nil, .none xs, h.unended hkind []⟩

/-- A type behind other lexemes. -/
theorem Fills.typeParts_after {type : TypeExpr} {ys : List Lexeme} (h : Fills type.outline ys)
    (xs : List Lexeme) : TypeParts [type.outline] (xs ++ ys) := by
  have hparts := h.typeParts
  exact ⟨by simp [hparts.ne_nil], (Within.single h).after xs, hparts.unended.after hparts.ne_nil xs⟩

variable (htype : TypesBelow s n type type') (hsuffixed : TypesBelow s n suffixed suffixed')

include htype in
theorem functionFrom_takes (isConstructor : Bool) {xs : List Lexeme} {m : Cursor}
    (hxs : c.Reads xs m) (hc : c.size ≤ n) :
    Takes s (fun type ys => Fills type.outline (xs ++ ys))
      (functionFrom type isConstructor c.start) (functionFrom type' isConstructor c.start) m := by
  have hle := hxs.size_le
  refine (typeParams_takes htype (by omega)).bind fun typeParams m ys hys htypeParams => ?_
  have hle := hys.size_le
  refine (params_takes htype (by omega)).bind fun params m zs hzs hparams => ?_
  refine (expect_takes (by decide)).bind fun _ m ws hws hone => ?_
  have hlt := (hzs.append hws).size_lt (by simp [hone.ne_nil])
  refine (returnType_takes htype (by omega)).bind fun returns m us hus hreturns => ?_
  have hparts := hreturns.typeParts
  have hread := hxs.append (hys.append (hzs.append (hws.append hus)))
  have hsignature := (Behind.lead htypeParams hparams).within.append ((Within.single hreturns).after ws)
  refine (TypeParts.placed (s := s) ⟨by simp [hparts.ne_nil], ?_, ?_⟩ hread).mono ?_
  · simpa using hsignature.after xs
  · simpa using hparts.unended.after hparts.ne_nil (xs ++ (ys ++ (zs ++ ws)))
  · intro type vs h
    simpa only [List.append_assoc] using h

include htype in
theorem functionType_takes (isConstructor : Bool) (hc : c.size ≤ n) :
    Takes s (fun type xs => Fills type.outline xs)
      (functionType type isConstructor) (functionType type' isConstructor) c := by
  rw [functionType_eq, functionType_eq]
  refine .here (.ite (fun _ => ?_) fun _ => functionFrom_takes htype isConstructor (.nil c) hc)
    fun hne _ => by simp only [Cursor.start_extend hne]
  exact (expect_takes (by decide)).bind fun _ m xs hxs _ =>
    functionFrom_takes htype isConstructor hxs hc

/-- A shape that is one lexeme. -/
theorem leaf_takes {kind : TokenKind} {shape : TypeShape} (hkind : c.kind = kind)
    (hend : kind ≠ .endOfFile) (hsemicolon : kind ≠ .semicolon) (hshape : outlines shape = []) :
    Takes s (fun shape xs => TypeParts (outlines shape) xs) (do next; return shape)
      (do next; return shape) c := by
  refine (next_takes_of_kind (by rwa [hkind])).last fun _ xs hxs => ?_
  rw [hshape]
  exact .leaf (hkind ▸ hxs) hsemicolon

/-- A shape that stands behind one lexeme. -/
theorem prefixed_takes {A A' : Parse TypeShape} (hkind : c.kind ≠ .endOfFile)
    (hA : ∀ m, m.size < c.size → Takes s (fun shape xs => TypeParts (outlines shape) xs) A A' m) :
    Takes s (fun shape xs => TypeParts (outlines shape) xs) (do next; A) (do next; A') c := by
  refine (next_takes_of_kind hkind).bind fun _ m xs hxs hone => ?_
  refine (hA m (hxs.size_lt hone.ne_nil)).mono fun shape ys hshape => ?_
  exact ⟨by simp [hone.ne_nil], hshape.within.after xs, hshape.unended.after hshape.ne_nil xs⟩

include htype in
theorem namedType_takes (hc : c.size ≤ n) (hkind : c.kind = .identifier) :
    Takes s (fun shape xs => TypeParts (outlines shape) xs) (namedType type) (namedType type') c := by
  have hreference : Takes s (fun shape xs => TypeParts (outlines shape) xs)
      (namedType.reference type) (namedType.reference type') c := by
    unfold namedType.reference
    refine entityName_takes.bind fun name m xs hxs hname => ?_
    have hle := hxs.size_le
    refine (typeArgs_takes htype (by omega)).last fun args ys hargs => ⟨?_, ?_, ?_⟩
    · simp [hname.1.ne_nil]
    · simpa using (Within.single hname.1).append hargs.1
    · exact hname.2.append hargs.2
  have hinner : c.kind.isInner = true := by rw [hkind]; rfl
  unfold namedType
  refine .here (.ite (fun _ => leaf_takes hkind (by decide) (by decide) rfl) fun _ => ?_) fun hne hended => ?_
  · split
    · exact .ite (fun _ => hreference) fun _ => leaf_takes hkind (by decide) (by decide) rfl
    · exact hreference
  · simp only [Cursor.textAt_extend hne, Cursor.kindAt_succ_extend hended hinner]

/-- A minus sign and the number behind it. -/
theorem negative_takes (hkind : c.kind = .minus) (hnumber : c.kindAt 1 = .number) :
    Takes s (fun shape xs => TypeParts (outlines shape) xs) (do skip 2; return TypeShape.literalValue)
      (do skip 2; return TypeShape.literalValue) c := by
  show Takes s _ (next >>= fun _ => next >>= fun _ => _) (next >>= fun _ => next >>= fun _ => _) c
  refine (next_takes_of_kind (by rw [hkind]; decide)).bind fun _ m xs hxs hone => ?_
  have hbehind : m.kind = .number := (hone.kind_behind hxs).trans hnumber
  refine (next_takes_of_kind (by rw [hbehind]; decide)).last fun _ ys hys => ?_
  exact ⟨by simp [hone.ne_nil], .none _, (hbehind ▸ hys).unended (by decide) xs⟩

include htype in
theorem paren_takes (hkind : c.kind = .openParen) (hc : c.size ≤ n) :
    Takes s (fun shape xs => TypeParts (outlines shape) xs)
      (do next; let inner ← type; expect .closeParen; return TypeShape.paren inner)
      (do next; let inner ← type'; expect .closeParen; return TypeShape.paren inner) c := by
  refine (next_takes_of_kind (by rw [hkind]; decide)).bind fun _ m xs hxs hone => ?_
  have hlt := hxs.size_lt hone.ne_nil
  refine (htype m (by omega)).bind fun inner m ys _ hinner => ?_
  refine (expect_takes (by decide)).last fun _ zs hclose => ?_
  refine ⟨by simp [hone.ne_nil], ((Within.single hinner).before zs).after xs, ?_⟩
  rw [← List.append_assoc]
  exact hclose.unended (by decide) (xs ++ ys)

include htype hsuffixed in
theorem primaryShape_takes (hc : c.size ≤ n) :
    Takes s (fun shape xs => TypeParts (outlines shape) xs)
      (primaryShape type suffixed c) (primaryShape type' suffixed' c) c := by
  have hmissing : Takes s (fun shape xs => TypeParts (outlines shape) xs)
      primaryType.missing primaryType.missing c :=
    takes_of_error rfl rfl (c.reads_expect _)
  unfold primaryShape
  split
  · rename_i hkind
    exact paren_takes htype hkind hc
  · refine (members_takes htype hc).map fun members xs h => ?_
    rw [outlines_literal]
    exact ⟨h.1.ne_nil, h.1.within, h.2⟩
  · refine (enclosed_takes (by decide) (by decide) (by decide) fun m hlt => ?_).map fun elements xs h => ?_
    · exact tupleElement_takes htype (by omega)
    · rw [outlines_tuple]
      exact ⟨h.1.ne_nil, h.1.within, h.2⟩
  · rename_i hkind
    exact leaf_takes hkind (by decide) (by decide) rfl
  · rename_i hkind
    exact leaf_takes hkind (by decide) (by decide) rfl
  · rename_i hkind
    exact leaf_takes hkind (by decide) (by decide) rfl
  · rename_i hkind
    exact .ite (fun hnumber => negative_takes hkind (eq_of_beq hnumber)) fun _ => hmissing
  · rename_i hkind
    exact leaf_takes hkind (by decide) (by decide) rfl
  · rename_i hkind
    refine prefixed_takes (by rw [hkind]; decide) fun m _ => entityName_takes.map fun name xs h => ?_
    exact ⟨h.1.ne_nil, .single h.1, h.2⟩
  · rename_i hkind
    refine prefixed_takes (by rw [hkind]; decide) fun m hlt => (hsuffixed m (by omega)).map ?_
    exact fun type xs h => h.typeParts_after []
  · rename_i hkind
    refine prefixed_takes (by rw [hkind]; decide) fun m hlt => (hsuffixed m (by omega)).map ?_
    exact fun type xs h => h.typeParts
  · rename_i hkind
    exact namedType_takes htype hc hkind
  · exact hmissing

include htype hsuffixed in
theorem primaryType_takes (hc : c.size ≤ n) :
    Takes s (fun type xs => Fills type.outline xs)
      (primaryType type suffixed) (primaryType type' suffixed') c := by
  rw [primaryType_eq, primaryType_eq]
  refine .here ((primaryShape_takes htype hsuffixed hc).bind fun shape m xs hxs h => h.placed hxs)
    fun hne hended => ?_
  have hnext (hminus : c.kind = .minus) : (c.extend s).kindAt 1 = c.kindAt 1 :=
    Cursor.kindAt_succ_extend hended (by rw [show c.kindAt 0 = .minus from hminus]; rfl)
  rw [Cursor.start_extend hne, primaryShape_congr (Cursor.kind_extend hne) hnext]

include htype in
/-- Brackets make a type of all lexemes that are taken from the first one on. -/
theorem suffixStep_takes {object : TypeExpr} {xs zs : List Lexeme} {m : Cursor}
    (hread : c.Reads (xs ++ zs) m) (hobject : Fills object.outline (xs ++ zs)) (hm : m.size < n) :
    Takes s (StepTakes (fun object zs => Fills object.outline (xs ++ zs))
        (fun object zs => Fills object.outline (xs ++ zs)) zs)
      (suffixStep type c.start object) (suffixStep type' c.start object) m := by
  refine .here (.ite (fun hopening => ?_) fun _ => .pure (by simpa [StepTakes] using hobject))
    fun hne _ => by simp only [Cursor.kind_extend hne, Cursor.startsLine_extend hne]
  have hkind : m.kind = .openBracket := by
    simp only [Bool.and_eq_true, beq_iff_eq] at hopening
    exact hopening.1
  refine (next_takes_of_kind (by rw [hkind]; decide)).bind fun _ d ws hws hone => ?_
  have hle := hws.size_le
  have hmore : ∀ shape us e, m.Reads (ws ++ us) e →
      TypeParts (outlines shape) (xs ++ (zs ++ (ws ++ us))) → Takes s
        (fun result vs => StepTakes (fun object zs => Fills object.outline (xs ++ zs))
          (fun object zs => Fills object.outline (xs ++ zs)) zs result (ws ++ (us ++ vs)))
        (do return (.inl (⟨shape, ← spanFrom c.start⟩ : TypeExpr) : TypeExpr ⊕ TypeExpr))
        (do return (.inl (⟨shape, ← spanFrom c.start⟩ : TypeExpr) : TypeExpr ⊕ TypeExpr)) e := by
    intro shape us e hus hparts
    refine .placed ⟨by simp [hone.ne_nil], ?_⟩
    rw [List.append_nil]
    exact hparts.fills (by simpa only [List.append_assoc] using hread.append hus)
  refine (eat_takes (by decide)).bind fun found e us hus hfound => .ite (fun htrue => ?_) fun _ => ?_
  · rw [if_pos htrue] at hfound
    refine hmore _ us e (hws.append hus) ⟨by simp [hone.ne_nil], ?_, ?_⟩
    · simpa using (Within.single hobject).before (ws ++ us)
    · simpa using hfound.unended (by decide) (xs ++ (zs ++ ws))
  · have hle' := hus.size_le
    refine (htype e (by omega)).bind fun index e vs hvs hindex => ?_
    refine (expect_takes (by decide)).bind fun _ e ts hts hclose => ?_
    have hindexed := hmore (.indexed object index) (us ++ (vs ++ ts)) e
      (hws.append (hus.append (hvs.append hts))) ⟨by simp [hone.ne_nil], ?_, ?_⟩
    · simp only [List.append_assoc] at hindexed
      exact hindexed
    · simpa using (Within.single hobject).append (((Within.single hindex).before ts).after (ws ++ us))
    · simpa using hclose.unended (by decide) (xs ++ (zs ++ (ws ++ (us ++ vs))))

include htype hsuffixed in
theorem suffixedType_takes (hc : c.size ≤ n) :
    Takes s (fun type xs => Fills type.outline xs)
      (suffixedType type suffixed) (suffixedType type' suffixed') c := by
  rw [suffixedType_eq, suffixedType_eq]
  refine .here ((primaryType_takes htype hsuffixed hc).bind fun primary m xs hxs hprimary => ?_)
    fun hne _ => by simp only [Cursor.start_extend hne]
  have hlt := hxs.size_lt hprimary.typeParts.ne_nil
  refine repeatFrom_takes (I := fun object zs => Fills object.outline (xs ++ zs)) ?_
    (by rwa [List.append_nil])
  intro object m zs hzs hobject
  have hle := hzs.size_le
  exact suffixStep_takes htype (hxs.append hzs) hobject (by omega)

section Operands

variable {operator : TokenKind} {part part' : Parse TypeExpr} (hoperator : operator ≠ .endOfFile)
include hoperator

theorem operandStep_takes
    (hpart : ∀ m, m.size ≤ c.size → Takes s (fun type xs => Fills type.outline xs) part part' m)
    {parts : List TypeExpr} {xs zs : List Lexeme} (hparts : TypeParts (outlines parts) (xs ++ zs)) :
    Takes s (StepTakes (fun parts zs => TypeParts (outlines parts) (xs ++ zs))
        (fun parts zs => TypeParts (outlines parts) (xs ++ zs)) zs)
      (operandStep operator part parts) (operandStep operator part' parts) c := by
  unfold operandStep
  refine (eat_takes hoperator).bind fun found m ws hws hfound => .ite (fun htrue => ?_) fun hfalse => ?_
  · rw [if_pos htrue] at hfound
    refine (hpart m hws.size_le).last fun part us hpart => ⟨by simp [hfound.ne_nil], ?_⟩
    have hmore := hpart.typeParts_after ws
    refine ⟨by simp [hfound.ne_nil], ?_, ?_⟩
    · simpa using hparts.within.append hmore.within
    · simpa using hparts.unended.append hmore.unended
  · rw [if_neg hfalse] at hfound
    obtain ⟨rfl, -⟩ := hfound
    exact .pure (by simpa [StepTakes] using hparts)

theorem operands_takes {combine : List TypeExpr → TypeShape}
    (hcombine : ∀ parts, outlines (combine parts) = outlines parts)
    (hpart : ∀ m, m.size ≤ c.size → Takes s (fun type xs => Fills type.outline xs) part part' m) :
    Takes s (fun type xs => Fills type.outline xs)
      (operands operator combine part) (operands operator combine part') c := by
  rw [operands_eq, operands_eq]
  refine .here ?_ fun hne _ => by simp only [Cursor.start_extend hne]
  refine (eat_takes hoperator).bind fun isLed m xs hxs hled => ?_
  have hle := hxs.size_le
  refine (hpart m hle).bind fun first m ys hys hfirst => .isAt ?_
  have hle' := hys.size_le
  refine .ite (fun hsingle => .pure ?_) fun _ => ?_
  · have hfalse : isLed = false := by
      cases isLed
      · rfl
      · simp at hsingle
    subst hfalse
    obtain ⟨rfl, -⟩ := hled
    simpa using hfirst
  have hparts : Takes s (fun parts zs => TypeParts (outlines parts) ((xs ++ ys) ++ zs))
      (repeatFrom (operandStep operator part) [first])
      (repeatFrom (operandStep operator part') [first]) m := by
    refine repeatFrom_takes (I := fun parts zs => TypeParts (outlines parts) ((xs ++ ys) ++ zs))
      (fun parts d zs hzs hparts => ?_) (by simpa using hfirst.typeParts_after xs)
    have hsize := hzs.size_le
    exact operandStep_takes hoperator (fun e he => hpart e (by omega)) hparts
  refine hparts.bind fun parts d zs hzs hparts => ?_
  rw [← hcombine] at hparts
  simpa only [List.append_assoc] using hparts.placed ((hxs.append hys).append hzs)

end Operands

/-- Where an action comes to a value, it has taken all of the groups that it has opened. -/
def ReadsGroups (A : Parse TypeExpr) : Prop :=
  ∀ c value d, A c = .ok value d → d.errors = [] → AllGenuine c.rest →
    ∃ xs, c.Reads xs d ∧ xs ≠ [] ∧ Nests 0 0 xs

theorem readsGroups_of_local {A A' : Parse TypeExpr}
    (h : ∀ c, Local ⟨0, 0⟩ (atLeast 1) A A' c) : ReadsGroups A := by
  intro c value d hrun hclean hgenuine
  obtain ⟨-, ⟨xs, hxs, hportion⟩, -⟩ := h c value d hrun hclean (Nat.zero_le _) fun _ => rfl
  refine ⟨xs, hxs, List.length_pos_iff.1 hportion.least, hportion.nests ?_⟩
  exact (allGenuine_append.1 (hxs.rest ▸ hgenuine)).1

include htype in
omit hsuffixed in
theorem functionOr_takes {other other' : Parse TypeExpr} (hgroups : ReadsGroups other)
    (hc : c.size ≤ n)
    (hother : Takes s (fun type xs => Fills type.outline xs) other other' c) :
    Takes s (fun type xs => Fills type.outline xs)
      (functionOr type other) (functionOr type' other') c := by
  unfold functionOr
  refine .look (.ite (fun _ => functionType_takes htype false hc) fun _ => hother) ?_
  intro value d hrun hclean hleft hended
  by_cases hstarts : c.startsFunction = true
  · rw [Cursor.startsFunction_extend_of_true hstarts, hstarts]
  · -- What is looked ahead for ends within the groups that `other` reads.
    rw [if_neg hstarts] at hrun
    obtain ⟨xs, hxs, hne, hnests⟩ := hgroups c value d hrun hclean hended.genuine
    rw [Bool.not_eq_true] at hstarts
    rw [Cursor.startsFunction_extend_of_false hstarts hxs hne hnests hleft, hstarts]

variable {type'' suffixed'' : Parse TypeExpr} (hlocal : ∀ c, Local ⟨0, 0⟩ (atLeast 1) type type'' c)
  (hlocal' : ∀ c, Local ⟨0, 0⟩ (atLeast 1) suffixed suffixed'' c)
include htype hsuffixed hlocal hlocal'

theorem intersectionType_takes (hc : c.size ≤ n) : Takes s (fun type xs => Fills type.outline xs)
    (intersectionType type suffixed) (intersectionType type' suffixed') c :=
  operands_takes (by decide) outlines_intersection fun m hm =>
    functionOr_takes htype (readsGroups_of_local (suffixedType_local hlocal hlocal')) (by omega)
      (suffixedType_takes htype hsuffixed (by omega))

theorem unionType_takes (hc : c.size ≤ n) : Takes s (fun type xs => Fills type.outline xs)
    (unionType type suffixed) (unionType type' suffixed') c :=
  operands_takes (by decide) outlines_union fun m hm =>
    functionOr_takes htype (readsGroups_of_local (intersectionType_local hlocal hlocal')) (by omega)
      (intersectionType_takes htype hsuffixed hlocal hlocal' (by omega))

theorem wholeType_takes (hc : c.size ≤ n) : Takes s (fun type xs => Fills type.outline xs)
    (wholeType type suffixed) (wholeType type' suffixed') c := by
  rw [wholeType_eq, wholeType_eq]
  refine functionOr_takes htype (readsGroups_of_local (constructorOrUnion_local hlocal hlocal')) hc ?_
  refine .here (.ite (fun _ => functionType_takes htype true hc) fun _ => ?_) fun hne _ => by
    rw [Cursor.kind_extend hne]
  exact unionType_takes htype hsuffixed hlocal hlocal' hc

end Types

section Whole

variable {s : Sequel} {c : Cursor}

theorem typeAt_body_takes : BodyTakes s (fun _ type xs => Fills type.outline xs)
    (fun (typeAt : TypeLevel → Parse TypeExpr) level =>
      match level with
      | .whole => wholeType (typeAt .whole) (typeAt .suffixed)
      | .suffixed => suffixedType (typeAt .whole) (typeAt .suffixed)) := by
  intro n call call' hcall hfix level c hc
  have hlocal : ∀ level c, Local ⟨0, 0⟩ (atLeast 1) (call level) (typeAt level) c :=
    fun level c value d hrun => typeAt_local level c value d (hfix level c value d hrun)
  cases level with
  | whole =>
    exact wholeType_takes (hcall .whole) (hcall .suffixed) (hlocal .whole) (hlocal .suffixed) hc
  | suffixed => exact suffixedType_takes (hcall .whole) (hcall .suffixed) hc

theorem typeExpr_takes : Takes s (fun type xs => Fills type.outline xs) typeExpr typeExpr c :=
  fix_takes typeAt_body_takes .whole c

end Whole

end NodeFactory
