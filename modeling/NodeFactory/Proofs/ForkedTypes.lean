import NodeFactory.Proofs.Forks
import NodeFactory.Proofs.LocalTypes

/-!
# Types end at a fork

Every part of the grammar of types persists at a fork, up to the types themselves (`typeExpr_persists`) and the
members that contain them (`memberShape_persists`). A type may end at the fork. What is looked for behind it, a
bracket, a dot, an operator, an arrow, type arguments or a predicate, is missed in both texts: there is a semicolon
in one of them, and in the other nothing that the type would go on with. A member that does not end with a type has
to end before the fork, since more may be looked for behind it than may follow a type.
-/

namespace NodeFactory

open Parse

section Names

variable {fork : Fork} {c : Cursor}

theorem missing_persists {q : Ident → Reading} : Persists fork q ident.missing ident.missing c := by
  intro _ _ hrun
  cases hrun

theorem Cursor.kind_of_peek? {lexeme : Lexeme} (h : c.peek? 0 = some lexeme) : c.kind = lexeme.kind := by
  rw [Cursor.kind, Cursor.kindAt, h]
  rfl

theorem TokenKind.ne_endOfFile_of_isName {kind : TokenKind} (h : kind.isName = true) : kind ≠ .endOfFile :=
  TokenKind.ne_endOfFile_of_isPlain (TokenKind.isPlain_of_isName h)

theorem ident_persists (c : Cursor) : Persists fork (anywhere 1) ident ident c := by
  unfold ident
  refine .look 1 (fun _ => Nat.le_refl 1) ?_ fun c' hc hle => by rw [hc.peek?_eq (by omega)]
  cases hpeek : c.peek? 0 with
  | none => exact missing_persists
  | some lexeme =>
    refine .ite (fun hname => .next (c.rest_ne_nil ?_) (.pure rfl)) fun _ => missing_persists
    rw [Cursor.kind_of_peek? hpeek]
    exact TokenKind.ne_endOfFile_of_isName hname

theorem propertyName_persists (c : Cursor) : Persists fork (anywhere 1) propertyName propertyName c := by
  unfold propertyName
  refine .look 1 (fun _ => Nat.le_refl 1) ?_ fun c' hc hle => by rw [hc.peek?_eq (by omega)]
  cases hpeek : c.peek? 0 with
  | none => exact ident_persists c
  | some lexeme =>
    have hkind := Cursor.kind_of_peek? hpeek
    dsimp only
    split
    · rename_i h
      exact .next (Cursor.rest_ne_nil (by rw [hkind, h]; nofun)) (.pure rfl)
    · rename_i h
      exact .next (Cursor.rest_ne_nil (by rw [hkind, h]; nofun)) (.pure rfl)
    · exact ident_persists c

theorem entityName_persists (c : Cursor) : Persists fork (anywhere 1) entityName entityName c := by
  have hpart : ∀ (parts : List Ident) m, Persists fork (anywhere 0) (namePart parts) (namePart parts) m := by
    intro parts m
    refine .eat nofun (.inl rfl) (fun _ => ?_) fun _ => .pure rfl
    exact (ident_persists _).seq fun _ _ _ => .pure rfl
  unfold entityName
  refine .look 1 (fun _ => Nat.le_refl 1) ?_ fun c' hc hle => by rw [hc.start_eq (by omega)]
  refine (ident_persists c).seq fun first m _ => (repeated_persists hpart [] m).bind fun rest m => ?_
  exact .placed rfl

theorem ident_reads_name {value : Ident} {d : Cursor} (h : ident c = .ok value d) :
    ∃ lexeme, c.rest = lexeme :: d.rest ∧ lexeme.kind.isName = true := by
  obtain rfl := ident_of_ok h
  unfold ident at h
  rw [bind_of_ok (rfl : cursor c = .ok c c)] at h
  cases hrest : c.rest with
  | nil =>
    have hpeek : c.peek? 0 = none := by rw [Cursor.peek?, hrest]; rfl
    rw [hpeek] at h
    cases h
  | cons lexeme lexemes =>
    have hpeek : c.peek? 0 = some lexeme := by rw [Cursor.peek?, hrest]; rfl
    rw [hpeek] at h
    by_cases hname : lexeme.kind.isName = true
    · exact ⟨lexeme, by rw [c.rest_next, hrest, List.tail_cons], hname⟩
    · dsimp only at h
      rw [if_neg hname] at h
      cases h

/-- The last lexeme of a name with dots is a name. -/
theorem entityName_reads_name {value : EntityName} {d : Cursor} (h : entityName c = .ok value d) :
    ∃ xs lexeme, c.rest = xs ++ lexeme :: d.rest ∧ lexeme.kind.isName = true := by
  change (ident >>= fun first => repeatFrom namePart [] >>= fun rest => _) c = _ at h
  obtain ⟨first, m, hfirst, h⟩ := bind_eq_ok_iff.1 h
  obtain ⟨rest, e, hrest, h⟩ := bind_eq_ok_iff.1 h
  cases h
  obtain ⟨lexeme, hm, hname⟩ := ident_reads_name hfirst
  suffices m.rest = d.rest ∨ ∃ xs lexeme, m.rest = xs ++ lexeme :: d.rest ∧ lexeme.kind.isName = true by
    rcases this with hd | ⟨xs, last, hd, hlast⟩
    · exact ⟨[], lexeme, by rw [hm, hd, List.nil_append], hname⟩
    · exact ⟨lexeme :: xs, last, by rw [hm, hd, List.cons_append], hlast⟩
  refine repeatFrom_induction (motive := fun _ m => m.rest = d.rest
    ∨ ∃ xs lexeme, m.rest = xs ++ lexeme :: d.rest ∧ lexeme.kind.isName = true) ?_ ?_ hrest
  · intro parts m hlast
    by_cases hdot : m.kind = .dot
    · change (eat .dot >>= _) m = _ at hlast
      rw [bind_of_ok (eat_of_kind hdot)] at hlast
      obtain ⟨part, e, -, hlast⟩ := bind_eq_ok_iff.1 hlast
      cases hlast
    · change (eat .dot >>= _) m = _ at hlast
      rw [bind_of_ok (eat_of_ne hdot)] at hlast
      cases hlast
      exact .inl rfl
  · intro parts m parts' m' hmore _ _ ih
    by_cases hdot : m.kind = .dot
    · change (eat .dot >>= _) m = _ at hmore
      rw [bind_of_ok (eat_of_kind hdot)] at hmore
      obtain ⟨part, e, hpart, hmore⟩ := bind_eq_ok_iff.1 hmore
      cases hmore
      obtain ⟨dot, hrest, -⟩ := Cursor.rest_of_kind (show m.kind ≠ .endOfFile by rw [hdot]; nofun)
      obtain ⟨lexeme, hnext, hname⟩ := ident_reads_name hpart
      rw [hrest, hnext]
      rcases ih with hd | ⟨xs, last, hd, hlast⟩
      · exact .inr ⟨[dot], lexeme, by rw [hd]; rfl, hname⟩
      · exact .inr ⟨dot :: lexeme :: xs, last, by rw [hd]; rfl, hlast⟩
    · change (eat .dot >>= _) m = _ at hmore
      rw [bind_of_ok (eat_of_ne hdot)] at hmore
      cases hmore

theorem skipGroup_persists {opening : TokenKind} (hopening : opening.isOpen = true) (c : Cursor) :
    Persists fork (anywhere 1) (skipGroup opening) (skipGroup opening) c := by
  unfold skipGroup
  refine .expect (TokenKind.ne_endOfFile_of_isOpen hopening) fun _ => ?_
  intro value d hrun hclean hend
  generalize c.next = m at hrun ⊢
  rw [bind_of_ok (rfl : cursor m = .ok m m)] at hrun
  cases hlength : groupLength? 1 m.rest with
  | none =>
    rw [hlength] at hrun
    cases hrun
  | some n =>
    rw [hlength] at hrun
    cases hrun
    obtain ⟨hle, -⟩ := nests_of_groupLength? hlength
    have hsize : n + fork.size ≤ m.size := by
      rw [Cursor.size_eq, Cursor.rest_skip, List.length_drop] at hend
      rw [m.size_eq]
      change fork.size + 0 ≤ _ at hend
      omega
    refine ⟨m.errors_skip n ▸ hclean, ?_, fun m' hm => ⟨m'.skip n, ?_, hm.skip hsize⟩⟩
    · show 0 + (m.skip n).size ≤ m.size
      rw [Cursor.size_eq, Cursor.rest_skip, List.length_drop, m.size_eq]
      omega
    · obtain ⟨xs, hrest, hrest', -⟩ := hm.rest
      have hxs : n ≤ xs.length := by
        rw [m.size_eq, hrest, List.length_append, List.length_cons, Fork.size] at hsize
        omega
      have htake : m.rest.take xs.length = xs := by rw [hrest, List.take_left]
      have hlength' : groupLength? 1 m'.rest = some n := by
        rw [hrest', ← htake]
        exact groupLength?_take hlength hxs _
      rw [bind_of_ok (rfl : cursor m' = .ok m' m'), hlength']
      rfl

end Names

section Constants

theorem Lexeme.isGlued_of_startsLine {lexeme : Lexeme} (h : lexeme.startsLine = true) :
    lexeme.isGlued = false := by
  unfold startsLine at h
  unfold isGlued
  cases hgap : lexeme.gap with
  | nil =>
    rw [hgap] at h
    cases h
  | cons => rfl

variable {fork : Fork} {c : Cursor} {nested nested' : Parse ConstExpr}

theorem unaryOps_persists (c : Cursor) : Persists fork (anywhere 0) unaryOps unaryOps c := by
  unfold unaryOps
  refine repeated_persists (fun ops m => ?_) [] c
  show Persists fork (anywhere 0) (cursor >>= fun here => _) (cursor >>= fun here => _) m
  refine .look 0 (fun _ => Nat.le_refl 0) ?_ fun m' hm hle => ?_
  · split
    · rename_i hkind
      exact .next (Cursor.rest_ne_nil (by rw [hkind]; nofun)) (.pure rfl)
    · rename_i hkind
      exact .next (Cursor.rest_ne_nil (by rw [hkind]; nofun)) (.pure rfl)
    · rename_i hkind
      exact .next (Cursor.rest_ne_nil (by rw [hkind]; nofun)) (.pure rfl)
    · exact .pure rfl
  · rcases Nat.lt_or_eq_of_le hle with hlt | heq
    · rw [hm.kind_eq (by omega)]
    · obtain ⟨hkind, hkind'⟩ := hm.kindAt_of_eq heq
      rw [Cursor.kind, Cursor.kind, hkind, hkind']
      have hfollows := fork.follows.kind
      generalize fork.first.kind = kind at hfollows
      cases kind <;> first | rfl | cases hfollows

variable (hnested : ∀ m, Persists fork (inside 1) nested nested' m)
include hnested

theorem constPrimary_persists (c : Cursor) :
    Persists fork (anywhere 1) (constPrimary nested) (constPrimary nested') c := by
  unfold constPrimary
  refine .kind (fun _ => Nat.le_refl 1) ?_
  split
  · rename_i hkind
    refine .look 1 (fun _ => Nat.le_refl 1) ?_ fun c' hc hle => by rw [hc.textAt_of_lt (by omega)]
    split
    · exact .next (Cursor.rest_ne_nil (by rw [hkind]; nofun)) (.pure rfl)
    · exact .unexpected
  · exact (propertyName_persists c).seq fun _ _ _ => .pure rfl
  · rename_i hkind
    refine .next (Cursor.rest_ne_nil (by rw [hkind]; nofun)) ?_
    refine ((hnested _).less (Nat.zero_le 1) (Nat.le_refl 1)).bind_of (s := fun _ => anywhere 1)
      (fun _ m _ => ?_) (fun _ _ => Nat.zero_le _) (fun _ _ => Nat.le_refl 0) fun _ _ => Nat.le_refl 1
    exact .expect nofun fun _ => .pure rfl
  · exact (entityName_persists c).seq fun _ _ _ => .pure rfl

theorem constOperand_persists (c : Cursor) :
    Persists fork (anywhere 1) (constOperand nested) (constOperand nested') c := by
  unfold constOperand
  refine (unaryOps_persists c).bind fun ops m => ?_
  exact (constPrimary_persists hnested m).seq fun _ _ _ => .pure rfl

omit hnested

theorem Fork.Beside.gluedKind?_of_lt {c' : Cursor} {n : Nat} (h : fork.Beside c c')
    (hn : n + fork.size < c.size) : c'.gluedKind? n = c.gluedKind? n := by
  rw [Cursor.gluedKind?, h.peek?_of_lt hn, Cursor.gluedKind?]

/-- No operator goes over the fork. -/
theorem Fork.Beside.gluedKind?_ne {c' : Cursor} {n : Nat} {kind : TokenKind} (h : fork.Beside c c')
    (hn : n + fork.size = c.size) (hkind : kind = .less ∨ kind = .greater) :
    c.gluedKind? n ≠ some kind ∧ c'.gluedKind? n ≠ some kind := by
  obtain ⟨hc, hc'⟩ := h.peek?_of_eq hn
  have hglued : ∀ lexeme : Lexeme, (lexeme.kind = kind → lexeme.isGlued = false) →
      (some lexeme).bind (fun lexeme => if lexeme.isGlued then some lexeme.kind else none) ≠ some kind := by
    intro lexeme hgap h
    rw [Option.bind_some] at h
    split at h
    · rename_i hglued
      rw [hgap (Option.some.inj h)] at hglued
      cases hglued
    · cases h
  rw [Cursor.gluedKind?, Cursor.gluedKind?, hc, hc']
  refine ⟨hglued _ fun hsame => ?_, hglued _ fun hsame => ?_⟩
  · rw [fork.ends] at hsame
    rcases hkind with rfl | rfl <;> cases hsame
  · rcases hkind with rfl | rfl
    · exact Lexeme.isGlued_of_startsLine (fork.follows.onNewLine (.inr hsame))
    · exact absurd hsame (Fork.first_ne rfl)

theorem Fork.Beside.gluedKind?_iff {c' : Cursor} {n : Nat} {kind : TokenKind} (h : fork.Beside c c')
    (hn : n + fork.size ≤ c.size) (hkind : kind = .less ∨ kind = .greater) :
    c'.gluedKind? n = some kind ↔ c.gluedKind? n = some kind := by
  rcases Nat.lt_or_eq_of_le hn with hlt | heq
  · rw [h.gluedKind?_of_lt hlt]
  · exact iff_of_false (h.gluedKind?_ne heq hkind).2 (h.gluedKind?_ne heq hkind).1

theorem Fork.Beside.binaryOp?_eq {c' : Cursor} (h : fork.Beside c c') (hlt : fork.size < c.size) :
    c'.binaryOp? = c.binaryOp? := by
  unfold Cursor.binaryOp?
  rw [h.kind_eq hlt]
  split
  case h_9 =>
    have hnext := h.gluedKind?_iff (n := 1) (by omega) (.inl rfl)
    simp only [hnext]
  case h_10 =>
    by_cases hnext : c.gluedKind? 1 = some .greater
    · have hinside : 1 + fork.size < c.size := by
        refine Nat.lt_of_le_of_ne (by omega) fun heq => ?_
        exact (h.gluedKind?_ne heq (.inr rfl)).1 hnext
      have hlast := h.gluedKind?_iff (n := 2) (by omega) (.inr rfl)
      simp only [h.gluedKind?_of_lt hinside, hlast]
    · rw [if_neg hnext, if_neg (mt (h.gluedKind?_iff (by omega) (.inr rfl)).1 hnext)]
  all_goals rfl

/-- The lexemes of an operator are there. -/
theorem length_le_of_binaryOp? {op : BinaryOp} {length : Nat} (h : c.binaryOp? = some (op, length)) :
    length ≤ c.rest.length := by
  cases length with
  | zero => exact Nat.zero_le _
  | succ n =>
    have hlast := isOperator_of_binaryOp? h n (Nat.lt_succ_self n)
    refine Nat.lt_of_not_le fun hle => ?_
    rw [Cursor.kindAt, Cursor.peek?, List.getElem?_eq_none hle] at hlast
    cases hlast

theorem constExpr_persists (c : Cursor) : Persists fork (inside 1) constExpr constExpr c := by
  unfold constExpr constExprAbove
  refine fix_persists (q := fun _ => inside 1) (fun call call' _ hcall level c => ?_) 0 c
  refine (constOperand_persists (hcall 0) c).seq fun left m _ => repeated_persists (fun left m => ?_) left m
  refine .look 1 (fun _ => Nat.le_refl 1) ?_ fun m' hm hle => by rw [hm.binaryOp?_eq (by omega)]
  cases hop : m.binaryOp? with
  | none => exact .pure rfl
  | some op =>
    obtain ⟨op, length⟩ := op
    refine .ite (fun _ => .pure rfl) fun _ => ?_
    refine ((skip_persists (length_le_of_binaryOp? hop)).less (Nat.zero_le _) (Nat.le_refl 0)).bind fun _ e => ?_
    exact ((hcall op.precedence e).less (Nat.zero_le 1) (Nat.le_refl 1)).before (fun _ _ => .pure rfl) fun _ =>
      Nat.le_refl 1

end Constants

section Parameters

variable {fork : Fork} {c : Cursor} {type type' : Parse TypeExpr}

/-- A word says how a type parameter varies only before a name, and behind that comes what closes the list. -/
theorem varianceStep_persists (c : Cursor) :
    Persists fork (fun _ => ⟨0, 2⟩) varianceStep varianceStep c := by
  unfold varianceStep
  refine .look 2 (fun _ => Nat.le_refl 2) ?_ fun c' hc hle => ?_
  · refine .ite (fun hword => ?_) fun _ => .pure rfl
    refine .next (fun hnil => ?_) (.pure rfl)
    have hname := (isVarianceWord_iff.1 hword).2
    rw [Cursor.kindAt, Cursor.peek?, hnil] at hname
    cases hname
  · have hword : isVarianceWord c' = isVarianceWord c := by
      unfold isVarianceWord
      rw [hc.kind_eq (by omega), hc.textAt_of_lt (by omega), hc.kindAt_of_lt (by omega)]
    rw [hword]

variable (htype : ∀ c, Persists fork (anywhere 1) type type' c)
include htype

theorem typeParam_persists (c : Cursor) :
    Persists fork (inside 1) (typeParam type) (typeParam type') c := by
  rw [typeParam_eq, typeParam_eq]
  refine (repeated_persists (fun _ => varianceStep_persists) () c).before (fun _ m => ?_) fun _ => Nat.le_refl 2
  refine (ident_persists m).seq fun name m _ => ?_
  exact .optional_inside nofun htype fun bound m => .optional_inside nofun htype fun fallback m => .pure rfl

/-- Type parameters are followed by a group. -/
theorem typeParams_persists (c : Cursor) :
    Persists fork (inside 0) (typeParams type) (typeParams type') c := by
  unfold typeParams
  refine .isAt (.inr fun _ => Nat.le_refl 1) (.ite (fun _ => ?_) fun _ => .pure rfl)
  exact (enclosed_persists (by decide) (by decide)
    (fun m => (typeParam_persists htype m).less (Nat.zero_le 1) (Nat.le_refl 1)) c).less (Nat.zero_le 2)
    (Nat.zero_le 1)

omit htype in
theorem paramName_persists (c : Cursor) : Persists fork (anywhere 1) paramName paramName c := by
  unfold paramName
  refine .kind (fun _ => Nat.le_refl 1) (.ite (fun hopening => ?_) fun _ => ident_persists c)
  refine .look 1 (fun _ => Nat.le_refl 1) ?_ fun c' hc hle => by rw [hc.start_eq (by omega)]
  have hkind : c.kind.isOpen = true := by
    simp only [Bool.or_eq_true, beq_iff_eq] at hopening
    rcases hopening with h | h <;> rw [h] <;> rfl
  exact (skipGroup_persists hkind c).seq fun _ m _ => .placed rfl

theorem namedParam_persists (rest : Bool) (c : Cursor) :
    Persists fork (inside 1) (namedParam type rest) (namedParam type' rest) c := by
  refine (paramName_persists c).seq fun name m _ => (eat_persists rfl (by decide)).bind fun optional m => ?_
  refine .optional_inside nofun htype fun type m => .eat nofun (.inl rfl) (fun _ => ?_) fun _ => .pure rfl
  exact ((constExpr_persists _).less (Nat.zero_le 1) (Nat.le_refl 1)).discard.before (fun _ _ => .pure rfl)
    fun _ => Nat.le_refl 1

theorem param_persists (c : Cursor) : Persists fork (inside 1) (param type) (param type') c := by
  rw [param_eq, param_eq]
  refine (eat_persists rfl (by decide)).bind fun rest c => ?_
  simp only [isAt_bind, cursor_bind_cursor]
  refine .look 2 (fun _ => Nat.le_refl 2) ?_ fun c' hc hle => ?_
  · refine .ite (fun h => ?_) fun _ => namedParam_persists htype rest c
    simp only [Bool.and_eq_true, beq_iff_eq] at h
    refine .next (c.rest_ne_nil (by rw [h.1]; nofun)) ?_
    exact (namedParam_persists htype rest _).less (Nat.zero_le 1) (Nat.le_refl 1)
  · rw [hc.kind_eq (by omega), hc.kindAt_of_lt (by omega)]

theorem params_persists (c : Cursor) : Persists fork (anywhere 2) (params type) (params type') c :=
  enclosed_persists (by decide) (by decide)
    (fun m => (param_persists htype m).less (Nat.zero_le 1) (Nat.le_refl 1)) c

omit htype in
/-- Behind a name there is no `is` at the fork, in either text. -/
theorem Fork.Beside.predicate_eq {c' : Cursor} (h : fork.Beside c c') (hlt : fork.size < c.size) :
    ((c'.kind == .identifier || c'.kind == .keyword .thisKw) && c'.kindAt 1 == .identifier
        && c'.textAt 1 == ['i', 's'])
      = ((c.kind == .identifier || c.kind == .keyword .thisKw) && c.kindAt 1 == .identifier
        && c.textAt 1 == ['i', 's']) := by
  rw [h.kind_eq hlt]
  rcases Nat.lt_or_eq_of_le (Nat.succ_le_of_lt hlt) with hinside | heq
  · rw [h.kindAt_of_lt (by omega), h.textAt_of_lt (by omega)]
  obtain ⟨hkind, hkind'⟩ := h.kindAt_of_eq (n := 1) (by omega)
  have htext : c'.textAt 1 = fork.first.text := by
    rw [Cursor.textAt, (h.peek?_of_eq (n := 1) (by omega)).2]
    rfl
  rw [hkind, hkind', htext, Bool.eq_iff_iff]
  simp only [Bool.and_eq_true, Bool.or_eq_true, beq_iff_eq]
  refine iff_of_false ?_ fun hfound => by cases hfound.1.2
  rintro ⟨⟨hname, hfirst⟩, his⟩
  have hmore : c.kind ≠ .endOfFile := by rcases hname with h | h <;> simp [h]
  obtain ⟨lexeme, hrest, hlexeme⟩ := Cursor.rest_of_kind hmore
  have hsize := c.size_next
  obtain rfl := h.last_eq (show c.rest = [] ++ lexeme :: c.next.rest from hrest) (by omega)
  refine fork.follows.not_goesOn ⟨?_, .inr ⟨hfirst, his⟩⟩
  rw [hlexeme]
  rcases hname with h | h <;> rw [h] <;> rfl

theorem returnType_persists (c : Cursor) :
    Persists fork (anywhere 1) (returnType type) (returnType type') c := by
  unfold returnType
  refine .look 1 (fun _ => Nat.le_refl 1) ?_ fun c' hc hle => ?_
  · refine .ite (fun h => ?_) fun _ => htype c
    simp only [Bool.and_eq_true, beq_iff_eq] at h
    refine (ident_persists c).seq fun param m hident => ?_
    have hkind : m.kind = .identifier := by
      rw [ident_of_ok hident, Cursor.kind, Cursor.kindAt_next, h.1.2]
    refine .next (m.rest_ne_nil (by simp [hkind])) ?_
    exact ((htype _).less (Nat.zero_le 1) (Nat.le_refl 0)).bind fun narrowed m => .placed rfl
  · simp only [hc.predicate_eq (show fork.size < c.size by omega), hc.start_eq (show fork.size < c.size by omega)]

theorem signature_persists (c : Cursor) :
    Persists fork (anywhere 2) (signature type) (signature type') c := by
  unfold signature
  refine (typeParams_persists htype c).before (fun typeParams m => ?_) fun _ => Nat.le_succ 1
  refine (params_persists htype m).seq fun params m _ => ?_
  exact .optional nofun (.inl rfl) (returnType_persists htype) (fun _ _ => .pure rfl) fun _ => .pure rfl

end Parameters

section Members

/-- The type that a member ends with: of the property, or what is returned. A member without a name has none. -/
def MemberShape.type? : MemberShape → Option TypeExpr
  | .property _ _ _ type => type
  | .method _ _ signature | .call signature | .construct signature => signature.returns
  | .index => none

/-- Only what ends with a type may end at the fork. -/
def Reading.typed {α : Type} (m n : Nat) (type? : α → Option TypeExpr) (value : α) : Reading :=
  match type? value with
  | none => ⟨m, 1⟩
  | some _ => ⟨n, 0⟩

theorem Reading.typed_least_le {α : Type} {type? : α → Option TypeExpr} {m n k : Nat} (hm : m ≤ k) (hn : n ≤ k)
    (value : α) : (Reading.typed m n type? value).least ≤ k := by
  unfold Reading.typed
  split
  · exact hm
  · exact hn

theorem Reading.typed_precedes {α : Type} {type? : α → Option TypeExpr} {m n k : Nat} (hm : k ≤ m + 1)
    (hn : k ≤ n) : Reading.Precedes (Reading.typed m n type?) k := by
  intro value
  unfold Reading.typed
  split
  · exact hm
  · exact hn

theorem Reading.behind_typed {α : Type} {type? : α → Option TypeExpr} (m n k : Nat) :
    Reading.behind k (Reading.typed m n type?) = Reading.typed (m - k) (n - k) type? := by
  funext value
  cases h : type? value <;> simp only [Reading.behind, Reading.typed, h]

theorem Persists.inside_of_typed {α : Type} {fork : Fork} {type? : α → Option TypeExpr} {A A' : Parse α}
    {c : Cursor} {m n : Nat} (h : Persists fork (Reading.typed m n type?) A A' c) (hle : m ≤ n) :
    Persists fork (inside m) A A' c := by
  refine h.mono (fun value => ?_) fun value => ?_
  · unfold Reading.typed
    split
    · exact Nat.le_refl m
    · exact hle
  · unfold Reading.typed
    split
    · exact Nat.le_refl 1
    · exact Nat.zero_le 1

/-- A member that begins with a bracket, with the type that it ends with. -/
def bracketMember (type : Parse TypeExpr) : Parse (Option TypeExpr) := do
  skipGroup .openBracket
  if (← isAt .openParen) || (← isAt .less) then
    return (← signature type).returns
  else
    if (← isAt .plus) || (← isAt .minus) then next
    discard (eat .question)
    if ← eat .colon then some <$> type else return none

/-- What follows the brackets, with the type that it ends with. -/
def bracketRest (type : Parse TypeExpr) : Parse (Option TypeExpr) := do
  discard (eat .question)
  if ← eat .colon then some <$> type else return none

theorem bracketMember_eq (type : Parse TypeExpr) : bracketMember type = (do
    skipGroup .openBracket
    if (← isAt .openParen) || (← isAt .less) then
      return (← signature type).returns
    else
      if (← isAt .plus) || (← isAt .minus) then next
      bracketRest type) := rfl

theorem indexMember_eq_map (type : Parse TypeExpr) :
    indexMember type = (fun _ => MemberShape.index) <$> bracketMember type := by
  unfold indexMember bracketMember
  simp only [map_bind, map_pure, apply_ite, discard, map_const, Function.comp_apply, bind_map_left,
    Functor.map_map, bind_pure_comp]

variable {fork : Fork} {c : Cursor} {type type' : Parse TypeExpr}
  (htype : ∀ c, Persists fork (anywhere 1) type type' c)
include htype

/-- What is made of a signature ends where the signature does. -/
theorem ofSignature_persists {α : Type} {type? : α → Option TypeExpr} {m n : Nat} (hm : m ≤ 2) (hn : n ≤ 2)
    (f : Signature → α) (c : Cursor) : Persists fork (Reading.typed m n type?)
      (do return f (← signature type)) (do return f (← signature type')) c := by
  refine (signature_persists htype c).seq fun signature e _ => .pure ?_
  exact Nat.sub_eq_zero_of_le (Reading.typed_least_le hm hn _)

theorem bracketRest_persists (c : Cursor) :
    Persists fork (Reading.typed 0 2 id) (bracketRest type) (bracketRest type') c := by
  refine (eat_persists rfl (by decide)).discard.bind fun _ m => ?_
  exact .eat nofun (.inl rfl) (fun _ => .map (htype _)) fun _ => .pure rfl

theorem bracketMember_persists (c : Cursor) :
    Persists fork (Reading.typed 1 3 id) (bracketMember type) (bracketMember type') c := by
  rw [bracketMember_eq, bracketMember_eq]
  refine (skipGroup_persists rfl c).seq fun _ m _ => ?_
  rw [Reading.behind_typed]
  have hinside : Reading.Precedes (Reading.typed 0 2 id) 1 := Reading.typed_precedes (Nat.le_refl 1) (by decide)
  refine .isAt (.inr hinside) (.isAt (.inr hinside) (.ite (fun _ => ?_) fun _ => ?_))
  · exact ofSignature_persists htype (Nat.zero_le 2) (Nat.le_refl 2) Signature.returns m
  · have hrest := bracketRest_persists htype
    refine .isAt (.inl rfl) (.isAt (.inl rfl) (.ite (fun hkind => ?_) fun _ => hrest m))
    refine .next (m.rest_ne_nil ?_) ((hrest _).mono (fun _ => Nat.sub_le _ _) fun _ => Nat.le_refl _)
    simp only [Bool.or_eq_true, beq_iff_eq] at hkind
    rcases hkind with h | h <;> rw [h] <;> nofun

theorem memberAfterName_persists (name : Ident) (optional readonly : Bool) (c : Cursor) :
    Persists fork (Reading.typed 0 1 MemberShape.type?) (memberAfterName type name optional readonly)
      (memberAfterName type' name optional readonly) c := by
  have hinside : Reading.Precedes (Reading.typed 0 1 MemberShape.type?) 1 :=
    Reading.typed_precedes (Nat.le_refl 1) (Nat.le_refl 1)
  refine .isAt (.inr hinside) (.isAt (.inr hinside) (.ite (fun _ => ?_) fun _ => ?_))
  · exact ofSignature_persists htype (Nat.zero_le 2) (by decide) _ c
  · exact .optional nofun (.inl rfl) htype (fun _ _ => .pure rfl) fun _ => .pure rfl

theorem memberFromName_persists (readonly : Bool) (c : Cursor) :
    Persists fork (Reading.typed 1 2 MemberShape.type?) (memberFromName type readonly)
      (memberFromName type' readonly) c := by
  refine (propertyName_persists c).seq fun name m _ => ?_
  rw [Reading.behind_typed]
  refine (eat_persists rfl (by decide)).bind fun optional m => .ite (fun _ => ?_) fun _ => ?_
  · exact (eat_persists rfl (by decide)).discard.bind fun _ m => memberAfterName_persists htype _ _ _ m
  · exact memberAfterName_persists htype _ _ _ m

theorem namedMember_persists (c : Cursor) :
    Persists fork (Reading.typed 1 2 MemberShape.type?) (namedMember type) (namedMember type') c := by
  rw [namedMember_eq, namedMember_eq]
  refine .look 2 (Reading.typed_precedes (Nat.le_refl 2) (Nat.le_refl 2)) ?_ fun c' hc hle => ?_
  · refine .ite (fun h => ?_) fun _ => memberFromName_persists htype _ c
    simp only [Bool.and_eq_true, beq_iff_eq] at h
    refine .next (c.rest_ne_nil (by rw [h.1]; nofun)) ?_
    exact (memberFromName_persists htype _ _).mono (fun _ => Nat.sub_le _ _) fun _ => Nat.le_refl _
  · rw [hc.kind_eq (by omega), hc.kindAt_of_lt (by omega)]

/-- A member ends at the fork only if it ends with a type there. -/
theorem memberShape_persists (c : Cursor) :
    Persists fork (Reading.typed 1 2 MemberShape.type?) (memberShape type) (memberShape type') c := by
  unfold memberShape
  refine .look 2 (Reading.typed_precedes (Nat.le_refl 2) (Nat.le_refl 2)) ?_ fun c' hc hle => ?_
  · split
    · rw [indexMember_eq_map, indexMember_eq_map]
      exact .map ((bracketMember_persists htype c).inside_of_typed (by decide))
    · exact ofSignature_persists htype (by decide) (Nat.le_refl 2) _ c
    · exact ofSignature_persists htype (by decide) (Nat.le_refl 2) _ c
    · rename_i hkind
      refine .ite (fun _ => .next (c.rest_ne_nil (by rw [hkind]; nofun)) ?_) fun _ =>
        namedMember_persists htype c
      rw [Reading.behind_typed]
      exact ofSignature_persists htype (Nat.zero_le 2) (by decide) _ _
    · exact namedMember_persists htype c
  · rw [hc.kind_eq (by omega), hc.kindAt_of_lt (by omega)]

/-- Inside braces a member is followed by something else. -/
theorem member_persists (c : Cursor) : Persists fork (inside 1) (member type) (member type') c := by
  unfold member
  refine .look 1 (fun _ => Nat.le_add_left 1 1) ?_ fun c' hc hle => by
    rw [hc.start_eq (by omega), hc.comments_eq (by omega)]
  refine ((memberShape_persists htype c).inside_of_typed (by decide)).bind_of (s := fun _ => inside 0)
    (fun shape m _ => ?_) (fun _ _ => Nat.le_refl 1) (fun _ _ => Nat.le_refl 1) fun _ _ => Nat.le_refl 1
  refine .eat nofun (.inr fun _ => Nat.le_refl 1) (fun _ => .placed rfl) fun _ => ?_
  have hcomma : Persists fork (inside 0) (eat .comma) (eat .comma) (m.expect [.semicolon]) := by
    have heat : Persists fork (inside 0) (eat .comma >>= Pure.pure) (eat .comma >>= Pure.pure)
        (m.expect [.semicolon]) :=
      .eat nofun (.inr fun _ => Nat.le_refl 1) (fun _ => .pure rfl) fun _ => .pure rfl
    rwa [bind_pure] at heat
  exact hcomma.discard.before (fun _ _ => .placed rfl) fun _ => Nat.le_refl 1

/-- Members stand between braces, so each of them ends before the fork. -/
theorem members_persists (c : Cursor) : Persists fork (anywhere 2) (members type) (members type') c := by
  unfold members
  have hstep : Reading.Precedes
      (Sum.elim (fun _ => ⟨0, 1⟩) fun _ => ⟨1, 0⟩ : List Member ⊕ List Member → Reading) 1 := by
    rintro (_ | _) <;> exact Nat.le_refl 1
  refine .expect nofun fun _ => repeatFrom_persists (n := 1) (k := 0) (fun members m => ?_) [] _
  refine .eat nofun (.inr hstep) (fun _ => .pure rfl) fun _ => ?_
  refine .isAt (.inr hstep) ?_
  split
  · exact .unexpected
  · refine .attempt ?_ fun error m result d h => errors_of_reported h
    exact (member_persists htype _).bind_of (s := fun _ => Sum.elim (fun _ => ⟨0, 1⟩) fun _ => ⟨1, 0⟩)
      (fun member m _ => .pure rfl) (fun _ _ => Nat.le_add_left _ _) (fun _ _ => Nat.le_refl _) fun _ => hstep

theorem unlabeledElement_persists (c : Cursor) :
    Persists fork (inside 1) (unlabeledElement type) (unlabeledElement type') c := by
  refine (htype c).seq fun element m _ => ?_
  exact (eat_persists rfl (by decide)).discard.bind fun _ _ => .pure rfl

theorem tupleElement_persists (c : Cursor) :
    Persists fork (inside 1) (tupleElement type) (tupleElement type') c := by
  rw [tupleElement_eq, tupleElement_eq]
  refine (eat_persists rfl (by decide)).discard.bind fun _ c => ?_
  refine .look 2 (fun _ => Nat.le_refl 2) ?_ fun c' hc hle => ?_
  · refine .ite (fun h => ?_) fun _ => unlabeledElement_persists htype c
    rw [Bool.and_eq_true] at h
    refine .next (c.rest_ne_nil (TokenKind.ne_endOfFile_of_isName h.1)) ?_
    refine (eat_persists rfl (by decide)).discard.bind fun _ m => .expect nofun fun _ => ?_
    exact (unlabeledElement_persists htype _).less (Nat.zero_le 1) (Nat.le_refl 1)
  · rw [hc.kind_eq (by omega), hc.kindAt_of_lt (by omega),
      hc.kindAt_beq (n := 2) (by omega) (rfl : TokenKind.colon.mayFollow = false)]

end Members

section Types

variable {fork : Fork} {c : Cursor} {type type' suffixed suffixed' : Parse TypeExpr}
  (htype : ∀ c, Persists fork (anywhere 1) type type' c)
  (hsuffixed : ∀ c, Persists fork (anywhere 1) suffixed suffixed' c)

include htype in
theorem functionFrom_persists (isConstructor : Bool) (start : Nat) (c : Cursor) : Persists fork (anywhere 1)
    (functionFrom type isConstructor start) (functionFrom type' isConstructor start) c := by
  refine (typeParams_persists htype c).before (fun typeParams m => ?_) fun _ => Nat.le_refl 1
  refine (params_persists htype m).seq fun params m _ => .expect nofun fun _ => ?_
  exact ((returnType_persists htype _).less (Nat.zero_le 1) (Nat.le_refl 0)).bind fun returns m => .placed rfl

include htype in
theorem functionType_persists (isConstructor : Bool) (c : Cursor) : Persists fork (anywhere 1)
    (functionType type isConstructor) (functionType type' isConstructor) c := by
  rw [functionType_eq, functionType_eq]
  refine .look 1 (fun _ => Nat.le_refl 1) ?_ fun c' hc hle => by rw [hc.start_eq (by omega)]
  refine .ite (fun _ => .expect nofun fun _ => ?_) fun _ => functionFrom_persists htype _ _ c
  exact (functionFrom_persists htype _ _ _).less (Nat.zero_le 1) (Nat.le_refl 0)

include htype in
/-- Type arguments are looked for behind a name, so not at the fork where their bracket stands there. -/
theorem reference_persists (c : Cursor) :
    Persists fork (anywhere 1) (namedType.reference type) (namedType.reference type') c := by
  have hlook : ∀ (type : Parse TypeExpr) (m : Cursor), typeArgs type m
      = (if (m.kind == .less) = true then enclosed .less type .greater else Pure.pure []) m := fun _ _ => rfl
  intro shape d hrun hclean hend
  change (entityName >>= fun name => typeArgs type >>= fun args => _) c = _ at hrun
  obtain ⟨name, m, hname, hrun⟩ := bind_eq_ok_iff.1 hrun
  obtain ⟨args, e, hargs, hrun⟩ := bind_eq_ok_iff.1 hrun
  cases hrun
  rw [hlook] at hargs
  change fork.size ≤ d.size at hend
  suffices m.errors = [] ∧ d.size ≤ m.size ∧ ∀ c' m', fork.Beside c c' → fork.Beside m m' →
      ∃ d', typeArgs type' m' = .ok args d' ∧ fork.Beside d d' by
    obtain ⟨hm, hread, hargs'⟩ := this
    obtain ⟨herrors, hread', hname'⟩ := entityName_persists c name m hname hm (Nat.le_trans hend hread)
    refine ⟨herrors, Nat.le_trans (Nat.add_le_add_left hread 1) hread', fun c' hc => ?_⟩
    obtain ⟨m', hrun', hm'⟩ := hname' c' hc
    obtain ⟨d', hargs', hd⟩ := hargs' c' m' hc hm'
    exact ⟨d', bind_eq_ok_iff.2 ⟨name, m', hrun', bind_eq_ok_iff.2 ⟨args, d', hargs', rfl⟩⟩, hd⟩
  by_cases hless : m.kind = .less
  · rw [if_pos (beq_iff_eq.2 hless)] at hargs
    obtain ⟨hm, hread, hargs'⟩ := enclosed_persists (by decide) (by decide)
      (fun m => (htype m).less (Nat.zero_le 1) (Nat.zero_le 1)) m args d hargs hclean hend
    change 2 + d.size ≤ m.size at hread
    refine ⟨hm, by omega, fun _ m' _ hm' => ?_⟩
    rw [hlook, if_pos (beq_iff_eq.2 ((hm'.kind_eq (by omega)).trans hless))]
    exact hargs' m' hm'
  · rw [if_neg (by simpa using hless)] at hargs
    cases hargs
    refine ⟨hclean, Nat.le_refl _, fun c' m' hc hm' => ⟨m', ?_, hm'⟩⟩
    have hless' : m'.kind ≠ .less := by
      rcases Nat.lt_or_eq_of_le hend with hlt | heq
      · rwa [hm'.kind_eq hlt]
      · obtain ⟨xs, last, hrest, hlast⟩ := entityName_reads_name hname
        obtain rfl := hc.last_eq hrest heq.symm
        rw [Cursor.kind, (hm'.kindAt_of_eq (n := 0) (by omega)).2]
        exact fun hfirst => fork.follows.not_goesOn ⟨hlast, .inl hfirst⟩
    rw [hlook, if_neg (by simpa using hless')]
    rfl

include htype in
theorem namedType_persists (hkind : c.kind = .identifier) :
    Persists fork (anywhere 1) (namedType type) (namedType type') c := by
  have hreference := reference_persists htype c
  have hnext : ∀ shape : TypeShape,
      Persists fork (anywhere 1) (do next; return shape) (do next; return shape) c :=
    fun shape => .next (c.rest_ne_nil (by rw [hkind]; nofun)) (.pure rfl)
  unfold namedType
  refine .look 1 (fun _ => Nat.le_refl 1) ?_ fun c' hc hle => ?_
  · refine .ite (fun _ => hnext _) fun _ => ?_
    split
    · exact .ite (fun _ => hreference) fun _ => hnext _
    · exact hreference
  · rw [hc.textAt_of_lt (by omega), hc.kindAt_beq (n := 1) (by omega) (rfl : TokenKind.dot.mayFollow = false)]

/-- The number behind a sign is looked for before it is read. -/
theorem primaryShape_persists_of_minus (hminus : c.kind = .minus) : Persists fork (anywhere 2)
    (primaryShape type suffixed c) (primaryShape type' suffixed' c) c := by
  unfold primaryShape
  rw [hminus]
  refine .ite (fun hnumber => ?_) fun _ => nofun
  refine (skip_persists (Nat.lt_of_not_le fun hle => ?_)).seq fun _ m _ => .pure rfl
  rw [Cursor.kindAt, Cursor.peek?, List.getElem?_eq_none hle] at hnumber
  cases hnumber

include htype hsuffixed in
theorem primaryShape_persists (c : Cursor) : Persists fork (anywhere 1)
    (primaryShape type suffixed c) (primaryShape type' suffixed' c) c := by
  by_cases hminus : c.kind = .minus
  · exact (primaryShape_persists_of_minus hminus).less (by decide) (Nat.le_refl 0)
  have hnext : ∀ shape : TypeShape, c.kind ≠ .endOfFile →
      Persists fork (anywhere 1) (do next; return shape) (do next; return shape) c :=
    fun _ hend => .next (c.rest_ne_nil hend) (.pure rfl)
  unfold primaryShape
  split
  · rename_i hkind
    refine .next (c.rest_ne_nil (by simp [hkind])) ?_
    refine ((htype _).less (Nat.zero_le 1) (Nat.le_refl 0)).bind fun inner m => ?_
    exact .expect (by simp) fun _ => .pure rfl
  · exact .map ((members_persists htype c).less (by decide) (Nat.le_refl 0))
  · refine .map ((enclosed_persists (by decide) (by decide) (fun m => ?_) c).less (by decide) (Nat.le_refl 0))
    exact (tupleElement_persists htype m).less (Nat.zero_le 1) (Nat.le_refl 1)
  · rename_i hkind
    exact hnext _ (by simp [hkind])
  · rename_i hkind
    exact hnext _ (by simp [hkind])
  · rename_i hkind
    exact hnext _ (by simp [hkind])
  · contradiction
  · rename_i hkind
    exact hnext _ (by simp [hkind])
  · rename_i hkind
    refine .next (c.rest_ne_nil (by simp [hkind])) ?_
    exact .map ((entityName_persists _).less (Nat.zero_le 1) (Nat.le_refl 0))
  · rename_i hkind
    refine .next (c.rest_ne_nil (by simp [hkind])) ?_
    exact .map ((hsuffixed _).less (Nat.zero_le 1) (Nat.le_refl 0))
  · rename_i hkind
    refine .next (c.rest_ne_nil (by simp [hkind])) ?_
    exact .map ((hsuffixed _).less (Nat.zero_le 1) (Nat.le_refl 0))
  · rename_i hkind
    exact namedType_persists htype hkind
  · nofun

include htype hsuffixed in
theorem primaryType_persists (c : Cursor) :
    Persists fork (anywhere 1) (primaryType type suffixed) (primaryType type' suffixed') c := by
  rw [primaryType_eq, primaryType_eq]
  by_cases hminus : c.kind = .minus
  · refine Persists.less (m := 2) (k := 0) (.look 2 (fun _ => Nat.le_refl 2) ?_ fun c' hc hle => ?_)
      (by decide) (Nat.le_refl 0)
    · exact (primaryShape_persists_of_minus hminus).seq fun shape m _ => .placed rfl
    · rw [hc.start_eq (by omega),
        primaryShape_congr (hc.kind_eq (by omega)) fun _ => hc.kindAt_of_lt (by omega)]
  · refine .look 1 (fun _ => Nat.le_refl 1) ?_ fun c' hc hle => ?_
    · exact (primaryShape_persists htype hsuffixed c).seq fun shape m _ => .placed rfl
    · rw [hc.start_eq (by omega), primaryShape_congr (hc.kind_eq (by omega)) (absurd · hminus)]

/-- A bracket at the fork is on a new line. -/
theorem Fork.Beside.bracket_eq {c' : Cursor} (h : fork.Beside c c') :
    (c'.kind == .openBracket && !c'.startsLine) = (c.kind == .openBracket && !c.startsLine) := by
  rcases Nat.lt_or_eq_of_le h.size_le with hlt | heq
  · rw [h.kind_eq hlt, h.startsLine_eq hlt]
  · obtain ⟨hkind, hkind'⟩ := h.kindAt_of_eq (n := 0) (by omega)
    have hstarts : c'.startsLine = fork.first.startsLine := by
      rw [Cursor.startsLine, (h.peek?_of_eq (n := 0) (by omega)).2]
      rfl
    rw [Cursor.kind, Cursor.kind, hkind, hkind', hstarts, Bool.eq_iff_iff]
    simpa using fun h => fork.follows.onNewLine (.inl h)

include htype in
theorem suffixStep_persists (start : Nat) (object : TypeExpr) (c : Cursor) : Persists fork (anywhere 0)
    (suffixStep type start object) (suffixStep type' start object) c := by
  unfold suffixStep
  refine .look 0 (fun _ => Nat.le_refl 0) (.ite (fun h => ?_) fun _ => .pure rfl) fun c' hc hle => by
    rw [hc.bracket_eq]
  have hplaced : ∀ shape m, Persists fork (anywhere 0)
      (do return .inl ⟨shape, ← spanFrom start⟩ : Parse (TypeExpr ⊕ TypeExpr))
      (do return .inl ⟨shape, ← spanFrom start⟩) m := fun _ _ => .placed rfl
  rw [Bool.and_eq_true, beq_iff_eq] at h
  refine .next (c.rest_ne_nil (by rw [h.1]; nofun)) (.eat nofun (.inl rfl) (fun _ => hplaced _ _) fun _ => ?_)
  refine ((htype _).less (Nat.zero_le 1) (Nat.le_refl 0)).bind fun index m => ?_
  exact .expect nofun fun _ => hplaced _ _

include htype hsuffixed in
theorem suffixedType_persists (c : Cursor) :
    Persists fork (anywhere 1) (suffixedType type suffixed) (suffixedType type' suffixed') c := by
  rw [suffixedType_eq, suffixedType_eq]
  refine .look 1 (fun _ => Nat.le_refl 1) ?_ fun c' hc hle => by rw [hc.start_eq (by omega)]
  refine (primaryType_persists htype hsuffixed c).seq fun primary m _ => ?_
  exact repeated_persists (suffixStep_persists htype c.start) primary m

section Operands

variable {operator : TokenKind} {part part' : Parse TypeExpr} (hfollow : operator.mayFollow = false)
  (hend : operator ≠ .endOfFile) (hpart : ∀ c, Persists fork (anywhere 1) part part' c)
include hfollow hend hpart

theorem operandStep_persists (parts : List TypeExpr) (c : Cursor) : Persists fork (anywhere 0)
    (operandStep operator part parts) (operandStep operator part' parts) c := by
  refine .eat hend (.inl hfollow) (fun _ => ?_) fun _ => .pure rfl
  exact ((hpart _).less (Nat.zero_le 1) (Nat.le_refl 0)).bind fun _ _ => .pure rfl

theorem operands_persists (combine : List TypeExpr → TypeShape) (c : Cursor) :
    Persists fork (anywhere 1) (operands operator combine part) (operands operator combine part') c := by
  rw [operands_eq, operands_eq]
  refine .look 1 (fun _ => Nat.le_refl 1) ?_ fun c' hc hle => by rw [hc.start_eq (by omega)]
  refine (eat_persists hfollow hend).bind fun isLed m => (hpart m).seq fun first m _ => ?_
  refine .isAt (.inl hfollow) (.ite (fun _ => .pure rfl) fun _ => ?_)
  refine (repeated_persists (operandStep_persists hfollow hend hpart) [first] m).bind fun parts m => ?_
  exact .placed rfl

end Operands

end Types

section Functions

variable {fork : Fork} {c : Cursor}

/-- The text may be cut at the fork. -/
def Fork.cut (fork : Fork) : Cut := ⟨fork.size, 0⟩

theorem Fork.Beside.rest_of_append {c' d : Cursor} {xs : List Lexeme} (h : fork.Beside c c')
    (hrest : c.rest = xs ++ d.rest) (hle : fork.size ≤ d.size) : ∃ rest', c'.rest = xs ++ rest' := by
  obtain ⟨ys, hc, hc', -⟩ := h.rest
  rw [d.size_eq, size] at hle
  obtain ⟨zs, rfl⟩ : xs <+: ys := by
    refine List.prefix_of_prefix_length_le ⟨d.rest, hrest.symm⟩ ⟨_, hc.symm⟩ ?_
    have hlength := congrArg List.length (hrest.symm.trans hc)
    rw [List.length_append, List.length_append, List.length_cons] at hlength
    omega
  exact ⟨zs ++ fork.first :: fork.more, by rw [hc', List.append_assoc]⟩

/-- What is read before the fork begins like a function type in both texts or in neither: it nests, so a group at
its beginning is read, and what comes behind the group is at the fork at most. -/
theorem Fork.Beside.startsFunction_eq {c' d : Cursor} {xs : List Lexeme} (h : fork.Beside c c')
    (hreads : c.Reads xs d) (hholds : Portion.Holds ⟨1, 0, true⟩ xs) (hle : fork.size ≤ d.size) :
    c'.startsFunction = c.startsFunction := by
  have hsize := hreads.size_eq
  have hleast : 1 ≤ xs.length := hholds.least
  have hkind := h.kind_eq (by omega)
  by_cases hless : c.kind = .less
  · rw [startsFunction_of_less hless, startsFunction_of_less (hkind.trans hless)]
  by_cases hparen : c.kind = .openParen
  case neg =>
    rw [startsFunction_of_kind hless hparen, startsFunction_of_kind (hkind ▸ hless) (hkind ▸ hparen)]
  obtain ⟨rest', hrest'⟩ := h.rest_of_append hreads.rest hle
  have hnests := hholds.nests (allGenuine_append.1 (hreads.rest ▸ h.genuine)).1
  obtain ⟨paren, group, rfl⟩ := List.exists_cons_of_length_pos hleast
  rw [Cursor.kind_of_cons hreads.rest] at hparen
  obtain ⟨n, hn, hlooks⟩ := startsFunction_of_nests hparen hnests
  rw [List.length_cons] at hsize
  rw [hlooks c _ hreads.rest, hlooks c' _ hrest']
  exact h.kindAt_beq (by omega) rfl

variable {type type' type₁ : Parse TypeExpr} (htype : ∀ c, Persists fork (anywhere 1) type type' c)
  (hlocal : ∀ c, Local fork.cut (atLeast 1) type type₁ c)
include htype hlocal

theorem functionOr_persists {other other' other₁ : Parse TypeExpr}
    (hother : ∀ c, Persists fork (anywhere 1) other other' c)
    (hotherLocal : ∀ c, Local fork.cut (atLeast 1) other other₁ c) (c : Cursor) :
    Persists fork (anywhere 1) (functionOr type other) (functionOr type' other') c := by
  have hpersists : Persists fork (anywhere 1)
      (if c.startsFunction = true then functionType type false else other)
      (if c.startsFunction = true then functionType type' false else other') c :=
    .ite (fun _ => functionType_persists htype false c) fun _ => hother c
  have hreads : Local fork.cut (atLeast 1)
      (if c.startsFunction = true then functionType type false else other)
      (if c.startsFunction = true then functionType type₁ false else other₁) c :=
    .ite (fun _ => functionType_local hlocal false c) fun _ => hotherLocal c
  intro value d hrun hclean hend
  obtain ⟨herrors, hread, hrun'⟩ := hpersists value d hrun hclean hend
  obtain ⟨-, ⟨xs, hxs, hholds⟩, -⟩ := hreads value d hrun hclean hend fun _ => rfl
  refine ⟨herrors, hread, fun c' hc => ?_⟩
  show ∃ d', (if c'.startsFunction = true then functionType type' false else other') c' = _ ∧ _
  rw [hc.startsFunction_eq hxs hholds hend]
  exact hrun' c' hc

variable {suffixed suffixed' suffixed₁ : Parse TypeExpr}
  (hsuffixed : ∀ c, Persists fork (anywhere 1) suffixed suffixed' c)
  (hsuffixedLocal : ∀ c, Local fork.cut (atLeast 1) suffixed suffixed₁ c)
include hsuffixed hsuffixedLocal

theorem intersectionType_persists (c : Cursor) : Persists fork (anywhere 1)
    (intersectionType type suffixed) (intersectionType type' suffixed') c :=
  operands_persists rfl (by decide) (functionOr_persists htype hlocal (suffixedType_persists htype hsuffixed)
    (suffixedType_local hlocal hsuffixedLocal)) _ c

theorem unionType_persists (c : Cursor) : Persists fork (anywhere 1)
    (unionType type suffixed) (unionType type' suffixed') c :=
  operands_persists rfl (by decide) (functionOr_persists htype hlocal
    (intersectionType_persists htype hlocal hsuffixed hsuffixedLocal)
    (intersectionType_local hlocal hsuffixedLocal)) _ c

theorem constructorOrUnion_persists (c : Cursor) : Persists fork (anywhere 1)
    (constructorOrUnion type suffixed) (constructorOrUnion type' suffixed') c := by
  refine .look 1 (fun _ => Nat.le_refl 1) ?_ fun c' hc hle => by rw [hc.kind_eq (by omega)]
  exact .ite (fun _ => functionType_persists htype true c) fun _ =>
    unionType_persists htype hlocal hsuffixed hsuffixedLocal c

theorem wholeType_persists (c : Cursor) : Persists fork (anywhere 1)
    (wholeType type suffixed) (wholeType type' suffixed') c := by
  rw [wholeType_eq, wholeType_eq]
  exact functionOr_persists htype hlocal (constructorOrUnion_persists htype hlocal hsuffixed hsuffixedLocal)
    (constructorOrUnion_local hlocal hsuffixedLocal) c

end Functions

section Whole

variable {fork : Fork}

theorem typeAt_persists (level : TypeLevel) (c : Cursor) :
    Persists fork (anywhere 1) (typeAt level) (typeAt level) c := by
  refine fix_persists (q := fun _ => anywhere 1) (fun call call' hcalled hcall level c => ?_) level c
  have hlocal : ∀ level c, Local fork.cut (atLeast 1) (call level) (typeAt level) c :=
    fun level c value d hrun => typeAt_local level c value d (hcalled level c value d hrun)
  cases level with
  | whole => exact wholeType_persists (hcall .whole) (hlocal .whole) (hcall .suffixed) (hlocal .suffixed) c
  | suffixed => exact suffixedType_persists (hcall .whole) (hcall .suffixed) c

/-- A type that ends where a semicolon ends a member is read the same where another member follows. -/
theorem typeExpr_persists (c : Cursor) : Persists fork (anywhere 1) typeExpr typeExpr c :=
  typeAt_persists .whole c

end Whole

end NodeFactory
