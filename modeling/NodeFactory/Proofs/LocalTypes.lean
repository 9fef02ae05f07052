import NodeFactory.Grammar.TypeExpr
import NodeFactory.Proofs.Locality

/-!
# Types are read the same from less

Constant expressions, types and the members of type literals are local: what is read does not depend
on the lexemes behind it (`typeExpr_local`). An action that looks past what it reads is told apart
by cases (`Local.branch`), because a lexeme that is found where it looks is then read, and a semicolon
at the cut is none of the lexemes that it looks for.
-/

namespace NodeFactory

open Parse

section Constants

variable {cut : Cut} {c : Cursor} {nested nested' : Parse ConstExpr}

theorem unaryOps_local (c : Cursor) : Local cut (atLeast 0) unaryOps unaryOps c := by
  unfold unaryOps
  refine repeated_local (fun ops c => ?_) [] c
  by_cases h : c.kind = .plus ∨ c.kind = .minus ∨ c.kind = .tilde
  · refine Local.weaken (m := 1) (.kind ?_ fun h => by rw [cut.kind_of_read (by omega)]) (Nat.zero_le 1)
    rcases h with h | h | h
    · rw [h]
      exact (next_local (by rw [h]; rfl)).seq fun _ _ => .pure .nil
    · rw [h]
      exact (next_local (by rw [h]; rfl)).seq fun _ _ => .pure .nil
    · rw [h]
      exact (next_local (by rw [h]; rfl)).seq fun _ _ => .pure .nil
  · have h' : 0 + cut.left ≤ c.size → ¬ ((cut.cursor c).kind = .plus ∨ (cut.cursor c).kind = .minus
        ∨ (cut.cursor c).kind = .tilde) := by
      intro hle
      rcases cut.kind_cases hle with hkind | hkind | hkind <;> rw [hkind]
      · exact h
      · decide
      · decide
    refine .kind ?_ fun hle => ?_
    · split <;> simp_all [Local.pure, Portion.Holds.nil]
    · have := h' hle
      clear h'
      split <;> split <;> simp_all

variable (hnested : ∀ m, Local cut (atLeast 1) nested nested' m)

include hnested in
theorem constPrimary_local (c : Cursor) :
    Local cut (atLeast 1) (constPrimary nested) (constPrimary nested') c := by
  unfold constPrimary
  refine .kind ?_ fun h => by rw [cut.kind_of_read (by omega)]
  split
  · rename_i hkind
    refine .here ?_ fun h => by rw [cut.textAt_of_read (by omega)]
    split
    · exact (next_local (by rw [hkind]; rfl)).seq fun _ _ => .pure .nil
    · exact .unexpected
  · exact (propertyName_local c).seq fun _ _ => .pure .nil
  · rename_i hkind
    refine .opened (by rw [hkind]; rfl) fun m => ((hnested m).weaken (Nat.zero_le 1)).bind fun _ m => ?_
    exact (closing_local rfl).closed fun _ _ => .pure .nil
  · exact (entityName_local c).seq fun _ _ => .pure .nil

include hnested in
theorem constOperand_local (c : Cursor) :
    Local cut (atLeast 1) (constOperand nested) (constOperand nested') c := by
  unfold constOperand
  refine (unaryOps_local c).bind fun ops m => ?_
  exact (constPrimary_local hnested m).seq fun _ _ => .pure .nil

/-- At the cut, an operator is another one that binds as tightly, or none. -/
theorem Cut.binaryOp?_cases (h : cut.left ≤ c.size) : (cut.cursor c).binaryOp? = none
    ∨ ∃ op length op' length', c.binaryOp? = some (op, length)
      ∧ (cut.cursor c).binaryOp? = some (op', length') ∧ op'.precedence = op.precedence := by
  have hglued : ∀ n, (cut.cursor c).gluedKind? n = c.gluedKind? n
      ∨ (cut.cursor c).gluedKind? n = some .semicolon ∨ (cut.cursor c).gluedKind? n = none := by
    intro n
    unfold Cursor.gluedKind?
    rcases cut.peek?_cases h n with hpeek | hpeek | hpeek <;> rw [hpeek]
    · exact .inl rfl
    · exact .inr (.inl rfl)
    · exact .inr (.inr rfl)
  unfold Cursor.binaryOp?
  rcases cut.kind_cases (c := c) (by omega) with hkind | hkind | hkind
  · rw [hkind]
    split
    case h_9 =>
      rcases hglued 1 with h1 | h1 | h1 <;> rw [h1]
      · split
        · exact .inr ⟨_, _, _, _, rfl, rfl, rfl⟩
        · exact .inl rfl
      · exact .inl rfl
      · exact .inl rfl
    case h_10 =>
      rcases hglued 1 with h1 | h1 | h1 <;> rw [h1]
      · by_cases hnext : c.gluedKind? 1 = some .greater
        · rw [if_pos hnext, if_pos hnext]
          right
          split <;> split <;> exact ⟨_, _, _, _, rfl, rfl, rfl⟩
        · rw [if_neg hnext]
          exact .inl rfl
      · exact .inl rfl
      · exact .inl rfl
    case h_11 => exact .inl rfl
    all_goals exact .inr ⟨_, _, _, _, rfl, rfl, rfl⟩
  · rw [hkind]
    exact .inl rfl
  · rw [hkind]
    exact .inl rfl

theorem Cut.binaryOp?_of_read {op : BinaryOp} {length : Nat} (h : c.binaryOp? = some (op, length))
    (hread : length + 1 + cut.left ≤ c.size) : (cut.cursor c).binaryOp? = c.binaryOp? := by
  have hglued : ∀ n, n ≤ length → (cut.cursor c).gluedKind? n = c.gluedKind? n := by
    intro n hn
    unfold Cursor.gluedKind?
    rw [cut.peek?_of_lt (by omega)]
  unfold Cursor.binaryOp? at h ⊢
  rw [cut.kind_of_read (by omega)]
  split at h
  case h_9 =>
    split at h
    · cases h
      rw [hglued 1 (by omega)]
    · cases h
  case h_10 =>
    split at h
    · split at h
      · cases h
        rw [hglued 1 (by omega), hglued 2 (by omega)]
      · cases h
        rw [hglued 1 (by omega), hglued 2 (by omega)]
    · cases h
  all_goals rfl

/-- The lexemes that binary operators are made of. -/
def TokenKind.isOperator : TokenKind → Bool
  | .bar | .caret | .ampersand | .plus | .minus | .star | .slash | .percent | .less | .greater => true
  | _ => false

theorem TokenKind.isPlain_of_isOperator {kind : TokenKind} (h : kind.isOperator = true) :
    kind.isPlain = true := by
  cases kind <;> first | rfl | cases h

theorem isOperator_of_gluedKind? {n : Nat} {kind : TokenKind} (h : c.gluedKind? n = some kind)
    (hkind : kind.isOperator = true) : (c.kindAt n).isOperator = true := by
  unfold Cursor.gluedKind? at h
  obtain ⟨lexeme, hpeek, hlexeme⟩ := Option.bind_eq_some_iff.1 h
  split at hlexeme
  · have hsame : lexeme.kind = kind := Option.some.inj hlexeme
    rw [Cursor.kindAt, hpeek, Option.map_some, Option.getD_some, hsame, hkind]
  · cases hlexeme

theorem isOperator_of_binaryOp? {op : BinaryOp} {length : Nat} (h : c.binaryOp? = some (op, length)) :
    ∀ i < length, (c.kindAt i).isOperator = true := by
  unfold Cursor.binaryOp? at h
  have hone : ∀ kind : TokenKind, c.kind = kind → kind.isOperator = true →
      ∀ i < 1, (c.kindAt i).isOperator = true := by
    intro kind hkind hoperator i hi
    obtain rfl : i = 0 := by omega
    rw [show c.kindAt 0 = kind from hkind, hoperator]
  split at h
  case h_9 hkind =>
    split at h
    · rename_i hnext
      cases h
      intro i hi
      obtain rfl | rfl : i = 0 ∨ i = 1 := by omega
      · exact hone _ hkind rfl 0 (by decide)
      · exact isOperator_of_gluedKind? hnext rfl
    · cases h
  case h_10 hkind =>
    split at h
    · rename_i hnext
      split at h
      · rename_i hlast
        cases h
        intro i hi
        obtain rfl | rfl | rfl : i = 0 ∨ i = 1 ∨ i = 2 := by omega
        · exact hone _ hkind rfl 0 (by decide)
        · exact isOperator_of_gluedKind? hnext rfl
        · exact isOperator_of_gluedKind? hlast rfl
      · cases h
        intro i hi
        obtain rfl | rfl : i = 0 ∨ i = 1 := by omega
        · exact hone _ hkind rfl 0 (by decide)
        · exact isOperator_of_gluedKind? hnext rfl
    · cases h
  case h_11 => cases h
  all_goals
    rename_i hkind
    cases h
    exact hone _ hkind rfl

theorem isPlain_of_binaryOp? {op : BinaryOp} {length : Nat} (h : c.binaryOp? = some (op, length)) :
    ∀ i < length, (c.kindAt i).isPlain = true :=
  fun i hi => TokenKind.isPlain_of_isOperator (isOperator_of_binaryOp? h i hi)

theorem constExprAbove_local (level : Nat) (c : Cursor) :
    Local cut (atLeast 1) (constExprAbove level) (constExprAbove level) c := by
  unfold constExprAbove
  refine fix_local (q := fun _ => atLeast 1) (fun call call' hcall level c => ?_) level c
  refine (constOperand_local (hcall 0) c).seq fun left m => repeated_local (fun left m => ?_) left m
  cases hop : m.binaryOp? with
  | none =>
    refine .here (by rw [hop]; exact .pure .nil) fun hle => ?_
    rcases cut.binaryOp?_cases (c := m) (by omega) with h | ⟨_, _, _, _, h, -⟩
    · rw [h, hop]
    · rw [hop] at h
      cases h
  | some op =>
    obtain ⟨op, length⟩ := op
    by_cases hlevel : op.precedence ≤ level
    · refine .here ?_ fun hle => ?_
      · rw [hop]
        dsimp only
        rw [if_pos hlevel, if_pos hlevel]
        exact .pure .nil
      · rcases cut.binaryOp?_cases (c := m) (by omega) with h | ⟨_, _, op', length', h, h', hsame⟩
        · rw [h, hop]
          exact (if_pos hlevel).symm
        · rw [hop] at h
          cases h
          rw [h', hop]
          dsimp only
          rw [if_pos hlevel, if_pos (hsame ▸ hlevel)]
    · refine Local.weaken (m := length + 1) (.here ?_ fun hle => ?_) (Nat.zero_le _)
      · rw [hop]
        dsimp only
        rw [if_neg hlevel, if_neg hlevel]
        refine (skip_local (isPlain_of_binaryOp? hop)).add fun _ d _ => ?_
        exact (hcall op.precedence d).seq fun _ _ => .pure .nil
      · rw [cut.binaryOp?_of_read hop hle]

theorem constExpr_local (c : Cursor) : Local cut (atLeast 1) constExpr constExpr c :=
  constExprAbove_local 0 c

end Constants

section Members

variable {cut : Cut} {c : Cursor} {type type' : Parse TypeExpr}

theorem isVarianceWord_iff : isVarianceWord c = true ↔
    (c.kind = .keyword .constKw ∨ c.textAt 0 = ['i', 'n'] ∨ c.textAt 0 = ['o', 'u', 't'])
      ∧ (c.kindAt 1).isName = true := by
  simp [isVarianceWord, or_assoc]

theorem Cut.isVarianceWord_eq_false (h : cut.left ≤ c.size) (hword : isVarianceWord c = false) :
    isVarianceWord (cut.cursor c) = false := by
  rw [← Bool.not_eq_true, isVarianceWord_iff] at hword ⊢
  rintro ⟨hfirst, hnext⟩
  refine hword ⟨?_, ?_⟩
  · unfold Cursor.kind Cursor.kindAt Cursor.textAt at hfirst ⊢
    rcases cut.peek?_cases h 0 with hpeek | hpeek | hpeek <;> rw [hpeek] at hfirst
    · exact hfirst
    · simp [Cut.semicolon, Lexeme.kind, Lexeme.text] at hfirst
    · simp at hfirst
  · rcases cut.kindAt_cases h 1 with hkind | hkind | hkind <;> rw [hkind] at hnext
    · exact hnext
    · cases hnext
    · cases hnext

theorem isName_of_isVarianceWord {lexeme : Lexeme} (hword : isVarianceWord c = true)
    (hpeek : c.peek? 0 = some lexeme) (hgenuine : lexeme.IsGenuine) : lexeme.kind.isName = true := by
  obtain ⟨hfirst, -⟩ := isVarianceWord_iff.1 hword
  unfold Cursor.kind Cursor.kindAt Cursor.textAt at hfirst
  rw [hpeek] at hfirst
  rcases hfirst with hkind | htext
  · rw [show lexeme.kind = .keyword .constKw from hkind]
    rfl
  · exact hgenuine htext

/-- Such a word is one only before a name, which is left. -/
theorem varianceStep_local (c : Cursor) :
    Local cut (fun _ => ⟨0, 0, false⟩) varianceStep varianceStep c := by
  have hstep : ∀ c, varianceStep c
      = if isVarianceWord c = true then .ok (.inl ()) c.next else .ok (.inr ()) c := by
    intro c
    show (if isVarianceWord c = true then (do next; return .inl ()) else return .inr () :
      Parse (Unit ⊕ Unit)) c = _
    split <;> rfl
  intro value d hrun hclean hleft hend
  rw [hstep] at hrun ⊢
  by_cases hword : isVarianceWord c = true
  · rw [if_pos hword] at hrun
    cases hrun
    have hne : c.next.size ≠ cut.left := fun h => by cases hend h
    have hsize := c.size_next
    have hread : 1 + cut.left < c.size := by omega
    have hword' : isVarianceWord (cut.cursor c) = true := by
      rw [isVarianceWord_iff] at hword ⊢
      rwa [cut.kind_of_read (by omega), cut.textAt_of_read (by omega), cut.kindAt_of_lt hread]
    cases hrest : c.rest with
    | nil =>
      rw [c.size_eq, hrest] at hread
      exact absurd hread (Nat.not_lt_zero _)
    | cons lexeme lexemes =>
      have hpeek : c.peek? 0 = some lexeme := by rw [Cursor.peek?, hrest]; rfl
      refine ⟨c.errors_next ▸ hclean, ⟨[lexeme], Cursor.reads_next hrest, ?_⟩, fun _ => ?_⟩
      · have hnil : Portion.Holds ⟨0, 0, false⟩ [] := .nil
        have hplain : lexeme.IsGenuine → lexeme.kind.isPlain = true := fun h =>
          TokenKind.isPlain_of_isName (isName_of_isVarianceWord hword hpeek h)
        exact ⟨Nat.zero_le _, (hnil.plain hplain).nests⟩
      · rw [if_pos hword', cut.next_cursor (by omega)]
  · rw [if_neg hword] at hrun
    cases hrun
    refine ⟨hclean, ⟨[], ⟨rfl, rfl⟩, Portion.Holds.nil⟩, fun _ => if_neg ?_⟩
    rw [cut.isVarianceWord_eq_false hleft (by simpa using hword)]
    exact Bool.false_ne_true

variable (htype : ∀ c, Local cut (atLeast 1) type type' c)
include htype

theorem typeParam_local (c : Cursor) :
    Local cut (atLeast 1) (typeParam type) (typeParam type') c := by
  have hwords : Local cut (fun _ => ⟨0, 0, false⟩) (repeatFrom (fun _ => varianceStep) ())
      (repeatFrom (fun _ => varianceStep) ()) c := by
    refine repeatFrom_local (b := false) (fun _ c => ?_) (fun h _ => h) () c
    refine (varianceStep_local c).weaken_of ?_ ?_
    · rintro (_ | _) _ h
      · exact h
      · exact h
    · rintro (_ | _) _
      · assumption
      · assumption
  rw [typeParam_eq, typeParam_eq]
  refine hwords.bind_of (s := fun _ => atLeast 1) (fun _ m _ => ?_)
    (fun _ _ _ _ hxs hys => hxs.append hys)
    fun _ _ h => ⟨h, fun hnil => absurd hnil.least (Nat.not_succ_le_zero 0)⟩
  refine (ident_local m).seq fun name m => ?_
  refine .optional htype rfl (by decide) fun bound m => ?_
  exact .optional htype rfl (by decide) fun fallback m => .pure .nil

omit htype in
/-- An action that begins with a lexeme, where that lexeme is next. -/
theorem Local.when_at {α : Type} {A A' B B' : Parse α} {kind : TokenKind} (hne : kind ≠ .semicolon)
    (hA : c.kind = kind → Local cut (atLeast 1) A A' c) (hB : Local cut (atLeast 0) B B' c) :
    Local cut (atLeast 0) (Parse.isAt kind >>= fun found => if found then A else B)
      (Parse.isAt kind >>= fun found => if found then A' else B') c := by
  rw [isAt_bind, isAt_bind]
  refine .branch (Nat.zero_le 1) (fun h => hA (eq_of_beq h)) (fun _ => hB)
    (fun hle => ⟨by rw [cut.kind_of_read (by omega)], rfl⟩) fun hle h => ⟨?_, rfl⟩
  rw [beq_eq_false_iff_ne] at h ⊢
  exact cut.kind_ne (by omega) h hne

theorem typeParams_local (c : Cursor) :
    Local cut (atLeast 0) (typeParams type) (typeParams type') c := by
  unfold typeParams
  refine .when_at (by decide) (fun _ => ?_) (.pure .nil)
  exact enclosed_local_of_plain rfl rfl (by decide)
    (fun m => (typeParam_local htype m).weaken (Nat.zero_le 1)) c

theorem typeArgs_local (c : Cursor) : Local cut (atLeast 0) (typeArgs type) (typeArgs type') c := by
  unfold typeArgs
  refine .when_at (by decide) (fun _ => ?_) (.pure .nil)
  exact enclosed_local_of_plain rfl rfl (by decide) (fun m => (htype m).weaken (Nat.zero_le 1)) c

omit htype in
theorem paramName_local (c : Cursor) : Local cut (atLeast 1) paramName paramName c := by
  unfold paramName
  refine .kind ?_ fun hle => by rw [cut.kind_of_read (by omega)]
  refine .ite (fun hopening => ?_) fun _ => ident_local c
  refine .here ?_ fun hle => by rw [cut.start_of_read (by omega)]
  have hkind : c.kind.isOpen = true := by
    simp only [Bool.or_eq_true, beq_iff_eq] at hopening
    rcases hopening with h | h <;> rw [h] <;> rfl
  exact (skipGroup_local hkind c).seq fun _ m => placed_local _ _ m

theorem namedParam_local (rest : Bool) (c : Cursor) :
    Local cut (atLeast 1) (namedParam type rest) (namedParam type' rest) c := by
  unfold namedParam
  refine (paramName_local c).seq fun name m => ?_
  refine (eat_local rfl (by decide)).bind fun optional m => ?_
  refine .optional htype rfl (by decide) fun type m => ?_
  refine (eat_local rfl (by decide)).bind fun _ m => .ite (fun _ => ?_) fun _ => .pure .nil
  exact ((constExpr_local m).weaken (Nat.zero_le 1)).discard.bind fun _ _ => .pure .nil

theorem param_local (c : Cursor) : Local cut (atLeast 1) (param type) (param type') c := by
  rw [param_eq, param_eq]
  refine (eat_local rfl (by decide)).bind fun rest c => ?_
  simp only [isAt_bind, cursor_bind_cursor]
  refine .branch (n := 2) (by decide) (fun h => ?_) (fun _ => namedParam_local htype rest c)
    (fun hle => ⟨?_, rfl⟩) fun hle h => ⟨?_, rfl⟩
  · rw [Bool.and_eq_true, beq_iff_eq] at h
    exact (next_local (by rw [h.1]; rfl)).add fun _ m _ => namedParam_local htype rest m
  · rw [cut.kind_of_read (by omega), cut.kindAt_of_lt (by omega)]
  · rw [← Bool.not_eq_true, Bool.and_eq_true] at h ⊢
    rintro ⟨hkind, hname⟩
    have hkind := cut.found (n := 0) (by omega) (· == .keyword .readonlyKw) rfl rfl hkind
    exact h ⟨hkind, cut.found (by omega) TokenKind.isName rfl rfl hname⟩

theorem params_local (c : Cursor) : Local cut (atLeast 1) (params type) (params type') c :=
  enclosed_local rfl rfl (fun m => (param_local htype m).weaken (Nat.zero_le 1)) c

theorem returnType_local (c : Cursor) :
    Local cut (atLeast 1) (returnType type) (returnType type') c := by
  unfold returnType
  refine .branch (n := 2) (by decide) (fun h => ?_) (fun _ => htype c) (fun hle => ⟨?_, ?_⟩)
    fun hle h => ⟨?_, rfl⟩
  · simp only [Bool.and_eq_true, beq_iff_eq] at h
    refine (ident_local c).add (n := 1) fun param m hident => ?_
    refine (next_local ?_).seq fun _ m => ?_
    · rw [ident_of_ok hident, Cursor.kind, Cursor.kindAt_next, h.1.2]
      rfl
    · exact ((htype m).weaken (Nat.zero_le 1)).bind fun narrowed m => placed_local _ _ m
  · rw [cut.kind_of_read (by omega), cut.kindAt_of_lt (by omega), cut.textAt_of_lt (by omega)]
  · rw [cut.start_of_read (by omega)]
  · simp only [← Bool.not_eq_true, Bool.and_eq_true, Bool.or_eq_true, beq_iff_eq] at h ⊢
    rintro ⟨⟨hkind, hname⟩, htext⟩
    rw [cut.kind_of_read (by omega)] at hkind
    have hname := cut.found (by omega) (· == .identifier) rfl rfl (beq_iff_eq.2 hname)
    refine h ⟨⟨hkind, beq_iff_eq.1 hname⟩, ?_⟩
    unfold Cursor.textAt at htext ⊢
    rcases cut.peek?_cases (c := c) (by omega) 1 with hpeek | hpeek | hpeek <;> rw [hpeek] at htext
    · exact htext
    · cases htext
    · cases htext

theorem signature_local (c : Cursor) :
    Local cut (atLeast 1) (signature type) (signature type') c := by
  unfold signature
  refine (typeParams_local htype c).bind fun typeParams m => ?_
  refine (params_local htype m).seq fun params m => ?_
  exact .optional (returnType_local htype) rfl (by decide) fun returns m => .pure .nil

omit htype in
/-- An action for either of two lexemes. -/
theorem Local.when_at_either {α : Type} {A A' B B' : Parse α} {kind kind' : TokenKind}
    (hne : kind ≠ .semicolon) (hne' : kind' ≠ .semicolon)
    (hA : c.kind = kind ∨ c.kind = kind' → Local cut (atLeast 1) A A' c)
    (hB : Local cut (atLeast 0) B B' c) :
    Local cut (atLeast 0)
      (Parse.isAt kind >>= fun first => Parse.isAt kind' >>= fun second =>
        if first || second then A else B)
      (Parse.isAt kind >>= fun first => Parse.isAt kind' >>= fun second =>
        if first || second then A' else B') c := by
  simp only [isAt_bind, cursor_bind_cursor]
  refine .branch (Nat.zero_le 1) (fun h => hA (by simpa using h)) (fun _ => hB)
    (fun hle => ⟨by rw [cut.kind_of_read (by omega)], rfl⟩) fun hle h => ⟨?_, rfl⟩
  rw [Bool.or_eq_false_iff, beq_eq_false_iff_ne, beq_eq_false_iff_ne] at h ⊢
  exact ⟨cut.kind_ne (by omega) h.1 hne, cut.kind_ne (by omega) h.2 hne'⟩

theorem indexRest_local (c : Cursor) :
    Local cut (atLeast 0) (indexRest type) (indexRest type') c := by
  refine (eat_local rfl (by decide)).discard.bind fun _ m => ?_
  refine (eat_local rfl (by decide)).bind fun _ m => .ite (fun _ => ?_) fun _ => .pure .nil
  exact ((htype m).weaken (Nat.zero_le 1)).discard.bind fun _ _ => .pure .nil

theorem indexMember_local (c : Cursor) :
    Local cut (atLeast 1) (indexMember type) (indexMember type') c := by
  rw [indexMember_eq, indexMember_eq]
  refine (skipGroup_local rfl c).seq fun _ m => .when_at_either (by decide) (by decide) (fun _ => ?_) ?_
  · exact (signature_local htype m).discard.seq fun _ _ => .pure .nil
  · refine .when_at_either (by decide) (by decide) (fun hkind => ?_) (indexRest_local htype m)
    refine (next_local ?_).seq fun _ m => indexRest_local htype m
    rcases hkind with h | h <;> rw [h] <;> rfl

theorem memberAfterName_local (name : Ident) (optional readonly : Bool) (c : Cursor) :
    Local cut (atLeast 0) (memberAfterName type name optional readonly)
      (memberAfterName type' name optional readonly) c := by
  refine .when_at_either (by decide) (by decide) (fun _ => ?_) ?_
  · exact (signature_local htype c).seq fun _ _ => .pure .nil
  · exact .optional htype rfl (by decide) fun _ _ => .pure .nil

theorem memberFromName_local (readonly : Bool) (c : Cursor) :
    Local cut (atLeast 1) (memberFromName type readonly) (memberFromName type' readonly) c := by
  refine (propertyName_local c).seq fun name m => ?_
  refine (eat_local rfl (by decide)).bind fun optional m => .ite (fun _ => ?_) fun _ => ?_
  · exact (eat_local rfl (by decide)).discard.bind fun _ m => memberAfterName_local htype _ _ _ m
  · exact memberAfterName_local htype _ _ _ m

theorem namedMember_local (c : Cursor) :
    Local cut (atLeast 1) (namedMember type) (namedMember type') c := by
  rw [namedMember_eq, namedMember_eq]
  refine .branch (n := 2) (by decide) (fun h => ?_) (fun _ => memberFromName_local htype _ c)
    (fun hle => ?_) fun hle h => have hnone := ?_; ⟨hnone, congrArg (memberFromName type') (hnone.trans h.symm)⟩
  · rw [Bool.and_eq_true, beq_iff_eq] at h
    exact (next_local (by rw [h.1]; rfl)).add (n := 1) fun _ m _ => memberFromName_local htype _ m
  · rw [cut.kind_of_read (by omega), cut.kindAt_of_lt (by omega)]
    exact ⟨rfl, rfl⟩
  · rw [← Bool.not_eq_true, Bool.and_eq_true] at h ⊢
    rintro ⟨hkind, hfollowing⟩
    rw [cut.kind_of_read (by omega)] at hkind
    exact h ⟨hkind, cut.found (by omega)
      (fun kind => kind.isName || kind == .string || kind == .number) rfl rfl hfollowing⟩

theorem memberShape_local (c : Cursor) :
    Local cut (atLeast 1) (memberShape type) (memberShape type') c := by
  unfold memberShape
  by_cases hnew : c.kind = .keyword .newKw ∧ (c.kindAt 1 = .openParen ∨ c.kindAt 1 = .less)
  · refine Local.weaken (m := 2) (.here ?_ fun hle => ?_) (by decide)
    · rw [hnew.1]
      dsimp only
      rw [if_pos (by simpa using hnew.2), if_pos (by simpa using hnew.2)]
      refine (next_local (by rw [hnew.1]; rfl)).add (n := 1) fun _ m _ => ?_
      exact (signature_local htype m).seq fun _ _ => .pure .nil
    · rw [cut.kind_of_read (by omega), cut.kindAt_of_lt (by omega)]
  · refine .here ?_ fun hle => ?_
    · split
      · exact indexMember_local htype c
      · exact (signature_local htype c).seq fun _ _ => .pure .nil
      · exact (signature_local htype c).seq fun _ _ => .pure .nil
      · rename_i hkind
        rw [if_neg (by simpa using fun h => hnew ⟨hkind, h⟩),
          if_neg (by simpa using fun h => hnew ⟨hkind, h⟩)]
        exact namedMember_local htype c
      · exact namedMember_local htype c
    · rw [cut.kind_of_read (by omega)]
      split
      · rfl
      · rfl
      · rfl
      · rename_i hkind
        rw [if_neg, if_neg (by simpa using fun h => hnew ⟨hkind, h⟩)]
        simp only [Bool.or_eq_true, beq_iff_eq]
        rintro (h | h)
        · exact cut.kindAt_ne (by omega) (fun h => hnew ⟨hkind, .inl h⟩) (by decide) (by decide) h
        · exact cut.kindAt_ne (by omega) (fun h => hnew ⟨hkind, .inr h⟩) (by decide) (by decide) h
      · rfl

theorem member_local (c : Cursor) :
    Local cut (fun _ => ⟨1, 0, false⟩) (member type) (member type') c := by
  unfold member
  refine .here ?_ fun hle => by rw [cut.start_of_read (by omega), cut.comments_of_read (by omega)]
  refine (memberShape_local htype c).bind_of (s := fun _ _ => ⟨0, 0, false⟩) (fun shape m _ => ?_)
    (fun _ _ _ _ hxs hys => hxs.append hys) fun _ _ h => nomatch h
  refine .semicolon (fun _ => rfl) fun found m => ?_
  refine Local.weaken_of (p := atLeast 0) (.ite (fun _ => placed_local _ _ m) fun _ => ?_)
    (fun _ _ hxs => ⟨hxs.least, hxs.nests⟩) fun _ _ => rfl
  exact (eat_local rfl (by decide)).discard.bind fun _ m => placed_local _ _ m

theorem members_local (c : Cursor) : Local cut (atLeast 1) (members type) (members type') c := by
  rw [members_eq, members_eq]
  refine .group rfl fun m => repeatFrom_local (b := false) (fun members c => ?_)
    (fun _ h => absurd h Nat.one_ne_zero) _ _
  refine .close rfl rfl fun m => .unlessAtEnd ?_
  refine (member_local htype m).attempt
    (s := fun _ => Sum.elim (fun _ => ⟨0, 0, true⟩) fun _ => ⟨0, 1, true⟩)
    (fun member m => .pure .nil) (fun error m result d h => errors_of_reported h) ?_ ?_
  · rintro _ (_ | _) xs ys hxs hys
    · exact ⟨Nat.zero_le _, (hxs.append hys).nests⟩
    · exact ⟨Nat.zero_le _, (hxs.append hys).nests⟩
  · rintro _ (_ | _) h
    · cases h
    · refine ⟨rfl, fun hnil => ?_⟩
      cases hnil.nests allGenuine_nil

theorem unlabeledElement_local (c : Cursor) :
    Local cut (atLeast 1) (unlabeledElement type) (unlabeledElement type') c := by
  refine (htype c).seq fun element m => ?_
  exact (eat_local rfl (by decide)).discard.bind fun _ _ => .pure .nil

theorem tupleElement_local (c : Cursor) :
    Local cut (atLeast 1) (tupleElement type) (tupleElement type') c := by
  rw [tupleElement_eq, tupleElement_eq]
  refine (eat_local rfl (by decide)).discard.bind fun _ c => ?_
  refine .branch (n := 3) (by decide) (fun h => ?_) (fun _ => unlabeledElement_local htype c)
    (fun hle => ⟨?_, rfl⟩) fun hle h => ⟨?_, rfl⟩
  · rw [Bool.and_eq_true] at h
    refine (next_local (TokenKind.isPlain_of_isName h.1)).add (n := 2) fun _ m _ => ?_
    refine (eat_local rfl (by decide)).discard.bind fun _ m => ?_
    exact (expect_local rfl).add (n := 1) fun _ m _ => unlabeledElement_local htype m
  · rw [cut.kind_of_read (by omega), cut.kindAt_of_lt (by omega), cut.kindAt_of_lt (by omega)]
  · rw [← Bool.not_eq_true, Bool.and_eq_true, Bool.or_eq_true, Bool.and_eq_true] at h ⊢
    rintro ⟨hname, hcolon⟩
    rw [cut.kind_of_read (by omega)] at hname
    refine h ⟨hname, hcolon.imp (fun hcolon => ?_) fun hcolon => ⟨?_, ?_⟩⟩
    · exact cut.found (by omega) (· == .colon) rfl rfl hcolon
    · exact cut.found (by omega) (· == .question) rfl rfl hcolon.1
    · exact cut.found (by omega) (· == .colon) rfl rfl hcolon.2

end Members

section Types

variable {cut : Cut} {c : Cursor} {type type' suffixed suffixed' : Parse TypeExpr}
  (htype : ∀ c, Local cut (atLeast 1) type type' c)
  (hsuffixed : ∀ c, Local cut (atLeast 1) suffixed suffixed' c)

include htype in
theorem arrowFrom_local (isConstructor : Bool) (typeParams : List TypeParam) (params : List Param)
    (start : Nat) (c : Cursor) : Local cut (atLeast 1)
      (arrowFrom type isConstructor typeParams params start)
      (arrowFrom type' isConstructor typeParams params start) c := by
  refine (expect_local rfl).seq fun _ m => ?_
  exact ((returnType_local htype m).weaken (Nat.zero_le 1)).bind fun returns m => placed_local _ _ m

include htype in
theorem functionFrom_local (isConstructor : Bool) (start : Nat) (c : Cursor) : Local cut (atLeast 1)
    (functionFrom type isConstructor start) (functionFrom type' isConstructor start) c := by
  rw [functionFrom_eq, functionFrom_eq]
  refine (typeParams_local htype c).bind fun typeParams m => ?_
  exact ((params_local htype m).weaken (Nat.zero_le 1)).bind fun _ m => arrowFrom_local htype _ _ _ _ m

include htype in
theorem functionType_local (isConstructor : Bool) (c : Cursor) : Local cut (atLeast 1)
    (functionType type isConstructor) (functionType type' isConstructor) c := by
  rw [functionType_eq, functionType_eq]
  refine .here ?_ fun hle => by rw [cut.start_of_read (by omega)]
  refine .ite (fun _ => ?_) fun _ => functionFrom_local htype _ _ c
  exact (expect_local rfl).seq fun _ m => (functionFrom_local htype _ _ m).weaken (Nat.zero_le 1)

include htype in
theorem namedType_local (hkind : c.kind = .identifier) :
    Local cut (atLeast 1) (namedType type) (namedType type') c := by
  have hreference : Local cut (atLeast 1) (namedType.reference type) (namedType.reference type') c := by
    unfold namedType.reference
    refine (entityName_local c).seq fun name m => ?_
    exact (typeArgs_local htype m).bind fun _ _ => .pure .nil
  have hnext : ∀ shape : TypeShape,
      Local cut (atLeast 1) (do next; return shape) (do next; return shape) c :=
    fun shape => (next_local (by rw [hkind]; rfl)).seq fun _ _ => .pure .nil
  unfold namedType
  by_cases hdot : c.kindAt 1 = .dot
  · have hreference : Local cut (atLeast 2) (namedType.reference type)
        (namedType.reference type') c := by
      unfold namedType.reference
      refine (entityName_local_of_dot hdot).add (n := 0) fun name m _ => ?_
      exact (typeArgs_local htype m).bind fun _ _ => .pure .nil
    by_cases hvalue : (c.textAt 0 == ['t', 'r', 'u', 'e'] || c.textAt 0 == ['f', 'a', 'l', 's', 'e']) = true
    · refine .here ?_ fun hle => ?_
      · rw [if_pos hvalue, if_pos hvalue]
        exact hnext _
      · rw [cut.textAt_of_read (by omega), if_pos hvalue, if_pos hvalue]
    · refine Local.weaken (m := 2) (.here ?_ fun hle => ?_) (by decide)
      · rw [if_neg hvalue, if_neg hvalue, hdot]
        split
        · exact hreference
        · exact hreference
      · rw [cut.textAt_of_read (by omega), cut.kindAt_of_lt (by omega)]
  · refine .here ?_ fun hle => ?_
    · refine .ite (fun _ => hnext _) fun _ => ?_
      split
      · exact .ite (fun _ => hreference) fun _ => hnext _
      · exact hreference
    · rw [cut.textAt_of_read (by omega), beq_eq_false_iff_ne.2 hdot,
        beq_eq_false_iff_ne.2 (cut.kindAt_ne (by omega) hdot (by decide) (by decide))]

/-- A sign is read with the number behind it. -/
theorem primaryShape_local_of_minus (hminus : c.kind = .minus) : Local cut (atLeast 2)
    (primaryShape type suffixed c) (primaryShape type' suffixed' c) c := by
  unfold primaryShape
  rw [hminus]
  refine .ite (fun hnumber => ?_) fun _ => nofun
  refine (skip_local fun i hi => ?_).add (n := 0) fun _ m _ => .pure .nil
  obtain rfl | rfl : i = 0 ∨ i = 1 := by omega
  · rw [show c.kindAt 0 = .minus from hminus]
    rfl
  · rw [eq_of_beq hnumber]
    rfl

include htype hsuffixed in
theorem primaryShape_local (c : Cursor) : Local cut (atLeast 1)
    (primaryShape type suffixed c) (primaryShape type' suffixed' c) c := by
  by_cases hminus : c.kind = .minus
  · exact (primaryShape_local_of_minus hminus).weaken (by decide)
  have hnext : ∀ shape : TypeShape, c.kind.isPlain = true →
      Local cut (atLeast 1) (do next; return shape) (do next; return shape) c :=
    fun _ hplain => (next_local hplain).seq fun _ _ => .pure .nil
  unfold primaryShape
  split
  · rename_i hkind
    refine .opened (by rw [hkind]; rfl) fun m => ?_
    refine ((htype m).weaken (Nat.zero_le 1)).bind fun inner m => ?_
    exact (closing_local rfl).closed fun _ m => .pure .nil
  · exact (members_local htype c).map
  · exact (enclosed_local rfl rfl (fun m => (tupleElement_local htype m).weaken (Nat.zero_le 1)) c).map
  · rename_i hkind
    exact hnext _ (by rw [hkind]; rfl)
  · rename_i hkind
    exact hnext _ (by rw [hkind]; rfl)
  · rename_i hkind
    exact hnext _ (by rw [hkind]; rfl)
  · contradiction
  · rename_i hkind
    exact hnext _ (by rw [hkind]; rfl)
  · rename_i hkind
    exact (next_local (by rw [hkind]; rfl)).seq fun _ m => ((entityName_local m).weaken (Nat.zero_le 1)).map
  · rename_i hkind
    exact (next_local (by rw [hkind]; rfl)).seq fun _ m => ((hsuffixed m).weaken (Nat.zero_le 1)).map
  · rename_i hkind
    exact (next_local (by rw [hkind]; rfl)).seq fun _ m => ((hsuffixed m).weaken (Nat.zero_le 1)).map
  · rename_i hkind
    exact namedType_local htype hkind
  · nofun

include htype hsuffixed in
theorem primaryType_local (c : Cursor) :
    Local cut (atLeast 1) (primaryType type suffixed) (primaryType type' suffixed') c := by
  rw [primaryType_eq, primaryType_eq]
  by_cases hminus : c.kind = .minus
  · refine Local.weaken (m := 2) (.here ?_ fun hle => ?_) (by decide)
    · exact (primaryShape_local_of_minus hminus).add (n := 0) fun shape m _ => placed_local _ _ m
    · rw [cut.start_of_read (by omega),
        primaryShape_congr (cut.kind_of_read (by omega)) fun _ => cut.kindAt_of_lt (by omega)]
  · refine .here ((primaryShape_local htype hsuffixed c).seq fun shape m => placed_local _ _ m) fun hle => ?_
    rw [cut.start_of_read (by omega), primaryShape_congr (cut.kind_of_read (by omega)) (absurd · hminus)]

include htype in
theorem suffixStep_local (start : Nat) (object : TypeExpr) (c : Cursor) : Local cut (atLeast 0)
    (suffixStep type start object) (suffixStep type' start object) c := by
  unfold suffixStep
  have hplaced : ∀ shape m, Local cut (atLeast 0)
      (do return .inl ⟨shape, ← spanFrom start⟩ : Parse (TypeExpr ⊕ TypeExpr))
      (do return .inl ⟨shape, ← spanFrom start⟩) m := fun _ => placed_local _ _
  refine .branch (n := 1) (Nat.zero_le 1) (fun h => ?_) (fun _ => .pure .nil) (fun hle => ⟨?_, rfl⟩)
    fun hle h => ⟨?_, rfl⟩
  · rw [Bool.and_eq_true, beq_iff_eq] at h
    refine .opened (by rw [h.1]; rfl) fun m => .close_or rfl (hplaced _) fun m => ?_
    refine ((htype m).weaken (Nat.zero_le 1)).bind fun index m => ?_
    exact (closing_local rfl).closed fun _ m => hplaced _ m
  · rw [cut.kind_of_read (by omega), cut.startsLine_of_read (by omega)]
  · unfold Cursor.kind Cursor.kindAt Cursor.startsLine at h ⊢
    rcases cut.peek?_cases (c := c) (by omega) 0 with hpeek | hpeek | hpeek <;> rw [hpeek]
    · exact h
    · rfl
    · rfl

include htype hsuffixed in
theorem suffixedType_local (c : Cursor) :
    Local cut (atLeast 1) (suffixedType type suffixed) (suffixedType type' suffixed') c := by
  rw [suffixedType_eq, suffixedType_eq]
  refine .here ?_ fun hle => by rw [cut.start_of_read (by omega)]
  refine (primaryType_local htype hsuffixed c).seq fun primary m => ?_
  exact repeated_local (suffixStep_local htype c.start) primary m

section Operands

variable {operator : TokenKind} {part part' : Parse TypeExpr} (hplain : operator.isPlain = true)
  (hpart : ∀ c, Local cut (atLeast 1) part part' c)
include hplain hpart

theorem operandStep_local_of_kind (parts : List TypeExpr) (h : c.kind = operator) :
    Local cut (atLeast 1) (operandStep operator part parts) (operandStep operator part' parts) c := by
  refine (eat_local_of_kind hplain h).seq fun _ m => .ite (fun _ => ?_) fun _ => .pure .nil
  exact ((hpart m).weaken (Nat.zero_le 1)).bind fun _ _ => .pure .nil

theorem operandStep_local (hne : operator ≠ .semicolon) (parts : List TypeExpr) (c : Cursor) :
    Local cut (atLeast 0) (operandStep operator part parts) (operandStep operator part' parts) c := by
  refine (eat_local hplain hne).bind fun _ m => .ite (fun _ => ?_) fun _ => .pure .nil
  exact ((hpart m).weaken (Nat.zero_le 1)).bind fun _ _ => .pure .nil

theorem operands_local (hne : operator ≠ .semicolon) (combine : List TypeExpr → TypeShape) (c : Cursor) :
    Local cut (atLeast 1) (operands operator combine part) (operands operator combine part') c := by
  rw [operands_eq, operands_eq]
  refine .here ?_ fun hle => by rw [cut.start_of_read (by omega)]
  refine (eat_local hplain hne).bind fun isLed m => (hpart m).seq fun first m => ?_
  have hstep := operandStep_local hplain hpart hne
  have hplaced := fun parts m => (placed_local (TypeExpr.mk (combine parts)) c.start m : Local cut _ _ _ m)
  cases isLed with
  | true =>
    exact .isAt (.ite (fun h => nomatch h) fun _ => (repeated_local hstep [first] m).bind hplaced) fun _ => rfl
  | false =>
    by_cases h : m.kind = operator
    · refine Local.weaken (m := 1) (.isAt ?_ fun hle => by rw [cut.kind_of_read (by omega)])
        (Nat.zero_le 1)
      rw [if_neg (by simpa using h), if_neg (by simpa using h)]
      exact (repeated_local_first hstep (operandStep_local_of_kind hplain hpart _ h)).seq hplaced
    · refine .isAt ?_ fun hle => ?_
      · rw [if_pos (by simpa using h), if_pos (by simpa using h)]
        exact .pure .nil
      · rw [if_pos (by simpa using cut.kind_ne (by omega) h hne), if_pos (by simpa using h)]

end Operands

end Types

section Functions

variable {cut : Cut} {c : Cursor}

theorem Cut.rest_of_append (cut : Cut) {xs rest : List Lexeme} (h : c.rest = xs ++ rest)
    (hle : cut.left ≤ rest.length) : ∃ rest', (cut.cursor c).rest = xs ++ rest' := by
  have hsize := c.size_eq
  rw [h, List.length_append] at hsize
  refine ⟨rest.take (c.size - cut.left - xs.length) ++ [cut.semicolon], ?_⟩
  rw [cut.rest_cursor, h, List.take_append, List.take_of_length_le (by omega), List.append_assoc]

/-- Past a group that is read, a function type is told by the lexeme that comes next. -/
theorem startsFunction_of_nests {paren : Lexeme} {group : List Lexeme}
    (hparen : paren.kind = .openParen) (hnests : Nests 0 0 (paren :: group)) :
    ∃ n ≤ group.length, ∀ (c : Cursor) (rest : List Lexeme), c.rest = paren :: group ++ rest →
      c.startsFunction = (c.kindAt (n + 1) == .fatArrow) := by
  have hinside : Nests 1 0 group := by
    cases hnests with
    | plain hopen =>
      rw [hparen] at hopen
      cases hopen
    | opening _ h => exact h
  obtain ⟨n, hn, hlength⟩ := hinside.groupLength?
  refine ⟨n, hn, fun c rest hrest => ?_⟩
  have hkind : c.kind = .openParen := by
    rw [Cursor.kind, Cursor.kindAt, Cursor.peek?, hrest]
    exact hparen
  have hdrop : groupLength? 1 (c.rest.drop 1) = some n := by
    rw [hrest]
    exact hlength rest
  unfold Cursor.startsFunction
  rw [hkind, hdrop]

theorem startsFunction_of_less (h : c.kind = .less) : c.startsFunction = true := by
  unfold Cursor.startsFunction
  rw [h]

theorem startsFunction_of_kind (hless : c.kind ≠ .less) (hparen : c.kind ≠ .openParen) :
    c.startsFunction = false := by
  unfold Cursor.startsFunction
  split
  · contradiction
  · contradiction
  · rfl

theorem Cursor.kind_of_cons {lexeme : Lexeme} {lexemes : List Lexeme}
    (h : c.rest = lexeme :: lexemes) : c.kind = lexeme.kind := by
  rw [kind, kindAt, peek?, h]
  rfl

variable {type type' : Parse TypeExpr} (htype : ∀ c, Local cut (atLeast 1) type type' c)
include htype

/-- The parameters of a function type that is read, and the arrow after them, lie before the cut. -/
theorem Cut.startsFunction_of_functionType {value : TypeExpr} {d : Cursor}
    (hrun : functionType type false c = .ok value d) (hclean : d.errors = [])
    (hleft : cut.left ≤ d.size) (hgenuine : AllGenuine c.rest) (hstarts : c.startsFunction = true) :
    (cut.cursor c).startsFunction = true := by
  obtain ⟨-, ⟨xs, hxs, hread⟩, -⟩ :=
    functionType_local htype false c value d hrun hclean hleft fun _ => rfl
  have hsize := hxs.size_eq
  have hleast : 1 ≤ xs.length := hread.least
  by_cases hless : c.kind = .less
  · exact startsFunction_of_less ((cut.kind_of_read (by omega)).trans hless)
  by_cases hparen : c.kind = .openParen
  case neg =>
    rw [startsFunction_of_kind hless hparen] at hstarts
    cases hstarts
  change (typeParams type >>= fun typeParams => params type >>= fun params => _) c = _ at hrun
  obtain ⟨typeParams, m', htypeParams, hrun⟩ := bind_eq_ok_iff.1 hrun
  obtain rfl : c = m' := by
    change (if (c.kind == .less) = true then enclosed .less (typeParam type) .greater else pure []) c
      = _ at htypeParams
    rw [if_neg (by simpa using hless)] at htypeParams
    cases htypeParams
    rfl
  obtain ⟨params, m, hparams, harrow⟩ := bind_eq_ok_iff.1 hrun
  obtain ⟨hm, ⟨ys, hys, hmore⟩, -⟩ :=
    arrowFrom_local htype false typeParams params c.start m value d harrow hclean hleft fun _ => rfl
  have hsize' := hys.size_eq
  have hmore : 1 ≤ ys.length := hmore.least
  obtain ⟨-, ⟨ps, hps, hgroup⟩, -⟩ :=
    params_local htype c params m hparams hm (by omega) fun _ => rfl
  have hsize'' := hps.size_eq
  cases ps with
  | nil => exact absurd hgroup.least (Nat.not_succ_le_zero 0)
  | cons paren group =>
    have hkind : paren.kind = .openParen := (Cursor.kind_of_cons hps.rest).symm.trans hparen
    have hnests := hgroup.nests (allGenuine_append.1 (hps.rest ▸ hgenuine)).1
    obtain ⟨n, hn, hlooks⟩ := startsFunction_of_nests hkind hnests
    obtain ⟨rest', hrest'⟩ := cut.rest_of_append hps.rest (by rw [← Cursor.size_eq]; omega)
    rw [List.length_cons] at hsize''
    rw [hlooks _ rest' hrest', cut.kindAt_of_lt (by omega), ← hlooks c m.rest hps.rest, hstarts]

theorem functionOr_local {other other' : Parse TypeExpr}
    (hother : ∀ c, Local cut (atLeast 1) other other' c) (c : Cursor) :
    Local cut (atLeast 1) (functionOr type other) (functionOr type' other') c := by
  intro value d hrun hclean hleft hend
  change (if c.startsFunction = true then functionType type false else other) c = _ at hrun
  by_cases h : c.startsFunction = true
  · rw [if_pos h] at hrun
    obtain ⟨herrors, hportion, hrun'⟩ :=
      functionType_local htype false c value d hrun hclean hleft hend
    refine ⟨herrors, hportion, fun hgenuine => ?_⟩
    have h' := Cut.startsFunction_of_functionType htype hrun hclean hleft hgenuine h
    show (if (cut.cursor c).startsFunction = true then functionType type' false else other') _ = _
    rw [if_pos h', hrun' hgenuine]
  · rw [if_neg h] at hrun
    rw [Bool.not_eq_true] at h
    obtain ⟨herrors, ⟨xs, hxs, hportion⟩, hrun'⟩ := hother c value d hrun hclean hleft hend
    have hsize := hxs.size_eq
    refine ⟨herrors, ⟨xs, hxs, hportion⟩, fun hgenuine => ?_⟩
    have h' : (cut.cursor c).startsFunction = false := by
      cases xs with
      | nil => exact absurd hportion.least (Nat.not_succ_le_zero 0)
      | cons paren group =>
        rw [List.length_cons] at hsize
        by_cases hless : c.kind = .less
        · rw [startsFunction_of_less hless] at h
          cases h
        by_cases hparen : c.kind = .openParen
        · have hkind : paren.kind = .openParen := (Cursor.kind_of_cons hxs.rest).symm.trans hparen
          have hnests := hportion.nests (allGenuine_append.1 (hxs.rest ▸ hgenuine)).1
          obtain ⟨n, hn, hlooks⟩ := startsFunction_of_nests hkind hnests
          obtain ⟨rest', hrest'⟩ := cut.rest_of_append hxs.rest (by rw [← Cursor.size_eq]; exact hleft)
          rw [hlooks _ rest' hrest', beq_eq_false_iff_ne]
          rw [hlooks c d.rest hxs.rest, beq_eq_false_iff_ne] at h
          exact cut.kindAt_ne (by omega) h (by decide) (by decide)
        · have hread := cut.kind_of_read (c := c) (by omega)
          exact startsFunction_of_kind (by rwa [hread]) (by rwa [hread])
    show (if (cut.cursor c).startsFunction = true then functionType type' false else other') _ = _
    rw [if_neg (by rw [h']; exact Bool.false_ne_true), hrun' hgenuine]

variable {suffixed suffixed' : Parse TypeExpr}
  (hsuffixed : ∀ c, Local cut (atLeast 1) suffixed suffixed' c)
include hsuffixed

theorem intersectionType_local (c : Cursor) : Local cut (atLeast 1)
    (intersectionType type suffixed) (intersectionType type' suffixed') c :=
  operands_local rfl (functionOr_local htype (suffixedType_local htype hsuffixed)) (by decide) _ c

theorem unionType_local (c : Cursor) : Local cut (atLeast 1)
    (unionType type suffixed) (unionType type' suffixed') c :=
  operands_local rfl (functionOr_local htype (intersectionType_local htype hsuffixed)) (by decide) _ c

theorem constructorOrUnion_local (c : Cursor) : Local cut (atLeast 1)
    (constructorOrUnion type suffixed) (constructorOrUnion type' suffixed') c := by
  refine .here ?_ fun hle => by rw [cut.kind_of_read (by omega)]
  exact .ite (fun _ => functionType_local htype true c) fun _ => unionType_local htype hsuffixed c

theorem wholeType_local (c : Cursor) : Local cut (atLeast 1)
    (wholeType type suffixed) (wholeType type' suffixed') c := by
  rw [wholeType_eq, wholeType_eq]
  exact functionOr_local htype (constructorOrUnion_local htype hsuffixed) c

end Functions

section Whole

variable {cut : Cut}

theorem typeAt_local (level : TypeLevel) (c : Cursor) :
    Local cut (atLeast 1) (typeAt level) (typeAt level) c := by
  refine fix_local (q := fun _ => atLeast 1) (fun call call' hcall level c => ?_) level c
  cases level with
  | whole => exact wholeType_local (hcall .whole) (hcall .suffixed) c
  | suffixed => exact suffixedType_local (hcall .whole) (hcall .suffixed) c

/-- A type is read the same whatever is behind it. -/
theorem typeExpr_local (c : Cursor) : Local cut (atLeast 1) typeExpr typeExpr c :=
  typeAt_local .whole c

end Whole

end NodeFactory
