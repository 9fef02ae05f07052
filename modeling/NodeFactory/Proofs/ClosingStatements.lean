import Mathlib.Data.List.Basic
import NodeFactory.Proofs.DelimiterDepth

/-!
# The statement at the end

Lexemes that end with a semicolon or a closing brace end with a statement that takes it as its own last
one. Such a statement looks for nothing behind it, so it is read alike whatever follows
(`statement_closes`). A skipped statement is, because it ends outside all groups; an alias is if it takes a
semicolon, since behind a closing brace its type may go on.

So statements that are read in turn up to the end are read so where others follow (`ReadsInTurn.extend`).
-/

namespace NodeFactory

open Parse

section Combined

variable {α β : Type} {s : Sequel} {P : β → Prop} {Q : α → Prop} {A : Parse α} {c : Cursor}

/-- An action takes the last lexeme and looks for nothing behind it. Where others follow it does the
same. -/
structure Closed (s : Sequel) (A : Parse α) (c : Cursor) (value : α) (d : Cursor) : Prop where
  errors : c.errors = []
  left : c.rest ≠ []
  expected : d.expected = []
  steady : A (c.extend s) = .ok value (d.extend s)

/-- An action that reports no error and leaves nothing, of lexemes that end a declaration, has taken the
last one, if its value is such as is asked for. -/
def Closes (s : Sequel) (Q : α → Prop) (A : Parse α) (c : Cursor) : Prop :=
  ∀ value d, Q value → A c = .ok value d → d.errors = [] → d.rest = [] → Ended c.rest →
    Closed s A c value d

theorem Closes.of_ended (h : Ended c.rest → Closes s Q A c) : Closes s Q A c :=
  fun value d hvalue hrun hclean hend hended => h hended value d hvalue hrun hclean hend hended

theorem Closes.never (h : ∀ value d, A c = .ok value d → ¬ Q value) : Closes s Q A c :=
  fun value d hvalue hrun => absurd hvalue (h value d hrun)

theorem Closes.unexpected : Closes s Q (Parse.unexpected : Parse α) c := .never nofun

/-- The action before one that takes the last lexeme does not take it. -/
theorem Closes.bind {R : α → List Lexeme → Prop} {B : α → Parse β} (hA : Takes s R A A c)
    (hB : ∀ value m xs, c.Reads xs m → R value xs → Closes s P (B value) m) :
    Closes s P (A >>= B) c := by
  intro result d hresult hrun hclean hend hended
  obtain ⟨value, m, hrunA, hrunB⟩ := bind_eq_ok_iff.1 hrun
  obtain ⟨xs, htook⟩ := hA.ok value m hrunA
  have hclosed := hB value m xs htook.reads htook.related result d hresult hrunB hclean hend
    (htook.reads.ended hended)
  refine ⟨htook.errors hclosed.errors, htook.reads.rest_ne_nil hclosed.left, hclosed.expected, ?_⟩
  rw [bind_of_ok (htook.steady hclosed.errors hclosed.left hended), hclosed.steady]

/-- What is made of the value of the last action. -/
theorem Closes.last {f : α → β} (hA : Closes s Q A c) (hf : ∀ value, P (f value) → Q value) :
    Closes s P (A >>= fun value => pure (f value)) c := by
  intro result d hresult hrun hclean hend hended
  obtain ⟨value, m, hrunA, hrunB⟩ := bind_eq_ok_iff.1 hrun
  cases hrunB
  have hclosed := hA value d (hf value hresult) hrunA hclean hend hended
  exact ⟨hclosed.errors, hclosed.left, hclosed.expected, bind_of_ok hclosed.steady⟩

/-- Whatever is made of the value. -/
theorem Closes.finish {f : α → β} (hA : Closes s (fun _ => True) A c) :
    Closes s P (A >>= fun value => pure (f value)) c :=
  hA.last fun _ _ => trivial

theorem Closes.discard (hA : Closes s (fun _ => True) A c) :
    Closes s (fun _ => True) (discard A) c := by
  show Closes s _ ((fun _ => ()) <$> A) c
  rw [map_eq_pure_bind]
  exact hA.finish

theorem Closes.placed {f : α → Text.Span → β} {start : Nat} (hA : Closes s Q A c)
    (hf : ∀ value place, P (f value place) → Q value) :
    Closes s P (A >>= fun value => spanFrom start >>= fun place => pure (f value place)) c := by
  intro result d hresult hrun hclean hend hended
  obtain ⟨value, m, hrunA, hrunB⟩ := bind_eq_ok_iff.1 hrun
  cases hrunB
  have hclosed := hA value d (hf value _ hresult) hrunA hclean hend hended
  exact ⟨hclosed.errors, hclosed.left, hclosed.expected, bind_of_ok hclosed.steady⟩

theorem Closes.ite {p : Prop} [Decidable p] {B : Parse α} (hA : p → Closes s Q A c)
    (hB : ¬ p → Closes s Q B c) : Closes s Q (if p then A else B) c := by
  by_cases hp : p
  · rw [if_pos hp]
    exact hA hp
  · rw [if_neg hp]
    exact hB hp

theorem Closes.here {f : Cursor → Parse α} (h : Closes s Q (f c) c)
    (hlook : c.rest ≠ [] → Ended c.rest → f (c.extend s) = f c) : Closes s Q (cursor >>= f) c := by
  intro value d hvalue hrun hclean hend hended
  have hclosed := h value d hvalue hrun hclean hend hended
  refine ⟨hclosed.errors, hclosed.left, hclosed.expected, ?_⟩
  show f (c.extend s) (c.extend s) = _
  rw [hlook hclosed.left hended, hclosed.steady]

theorem Closes.isAt {kind : TokenKind} {f : Bool → Parse α} (h : Closes s Q (f (c.kind == kind)) c) :
    Closes s Q (Parse.isAt kind >>= f) c :=
  show Closes s Q (cursor >>= fun here => f (here.kind == kind)) c from
    .here h fun hne _ => by rw [Cursor.kind_extend hne]

theorem next_closes (h : c.kind ≠ .endOfFile) : Closes s (fun _ => True) next c := by
  intro value d _ hrun hclean _ _
  cases hrun
  obtain ⟨lexeme, hrest, -⟩ := Cursor.rest_of_kind h
  have hne : c.rest ≠ [] := by
    rw [hrest]
    exact List.cons_ne_nil _ _
  refine ⟨c.errors_next ▸ hclean, hne, c.expected_next, ?_⟩
  show EStateM.Result.ok () (c.extend s).next = _
  rw [Cursor.next_extend hne]

variable {kind : TokenKind}

theorem eat_closes (hkind : kind ≠ .endOfFile) (h : c.kind = kind) :
    Closes s (fun _ => True) (eat kind) c := by
  intro found d _ hrun hclean hend hended
  rw [eat_of_kind h] at hrun
  cases hrun
  have hclosed := next_closes (s := s) (h ▸ hkind) () c.next trivial rfl hclean
    hend hended
  refine ⟨hclosed.errors, hclosed.left, hclosed.expected, ?_⟩
  rw [eat_of_kind ((Cursor.kind_extend hclosed.left).trans h), Cursor.next_extend hclosed.left]

/-- A lexeme that ends what is read, or something else. -/
theorem Closes.eat {f : Bool → Parse α} {value : α} (hkind : kind ≠ .endOfFile)
    (htrue : f true = pure value) (hfalse : c.kind ≠ kind → Closes s Q (f false) (c.expect [kind])) :
    Closes s Q (eat kind >>= f) c := by
  by_cases h : c.kind = kind
  · intro result d hresult hrun hclean hend hended
    rw [bind_of_ok (eat_of_kind h), htrue] at hrun
    cases hrun
    have hclosed := eat_closes (s := s) hkind h true c.next trivial
      (eat_of_kind h) hclean hend hended
    refine ⟨hclosed.errors, hclosed.left, hclosed.expected, ?_⟩
    rw [bind_of_ok hclosed.steady, htrue]
    rfl
  · intro result d hresult hrun hclean hend hended
    rw [bind_of_ok (eat_of_ne h)] at hrun
    have hclosed := hfalse h result d hresult hrun hclean hend hended
    refine ⟨hclosed.errors, hclosed.left, hclosed.expected, ?_⟩
    have hne : c.rest ≠ [] := hclosed.left
    rw [bind_of_ok (eat_of_ne (by rwa [Cursor.kind_extend hne])), Cursor.expect_extend, hclosed.steady]

theorem expect_closes (hkind : kind ≠ .endOfFile) : Closes s (fun _ => True) (expect kind) c :=
  .eat hkind rfl fun _ => .unexpected

/-- A repetition whose last step takes the last lexeme. -/
theorem repeatFrom_closes {σ : Type} {step : σ → Parse (σ ⊕ α)}
    (hstep : ∀ state m, ∃ R, Takes s R (step state) (step state) m)
    (hlast : ∀ state m, Closes s (Sum.elim (fun _ => False) Q) (step state) m) (state : σ) :
    Closes s Q (repeatFrom step state) c := by
  intro value d hvalue hrun hclean hend
  refine repeatFrom_induction
    (motive := fun state c => Ended c.rest → Closed s (repeatFrom step state) c value d) ?_ ?_ hrun
  · intro state c hfirst hended
    have hclosed := hlast state c (.inr value) d hvalue hfirst hclean hend hended
    exact ⟨hclosed.errors, hclosed.left, hclosed.expected, repeatFrom_of_inr hclosed.steady⟩
  · intro state c state' m hfirst hlt _ ih hended
    obtain ⟨R, htakes⟩ := hstep state c
    obtain ⟨xs, htook⟩ := htakes.ok _ _ hfirst
    have hclosed := ih (htook.reads.ended hended)
    refine ⟨htook.errors hclosed.errors, htook.reads.rest_ne_nil hclosed.left, hclosed.expected, ?_⟩
    rw [repeatFrom_of_inl (htook.steady hclosed.errors hclosed.left hended), hclosed.steady]
    rw [Cursor.size_extend, Cursor.size_extend]
    omega

end Combined

section Skipped

variable {s : Sequel} {c : Cursor}

theorem Cursor.expected_skip : ∀ {n : Nat} {c : Cursor}, 0 < n → (c.skip n).expected = []
  | 1, c, _ => c.expected_next
  | n + 2, c, _ => by
    rw [skip]
    exact expected_skip (Nat.succ_pos n)

/-- A lexeme that ends a declaration outside all groups, or closes the last of them, ends the run. -/
theorem balancedLength_of_isEnd {lexeme : Lexeme} {depth : Nat} (hend : lexeme.IsEnd)
    (hdepth : depth + lexeme.kind.depth = 0) (ys : List Lexeme) :
    balancedLength depth (lexeme :: ys) = 1 := by
  rcases hend with ⟨hkind, -⟩ | ⟨hkind, -⟩ <;> rw [hkind] at hdepth
  · obtain rfl : depth = 0 := by simpa [TokenKind.depth, TokenKind.isOpen, TokenKind.isClose] using hdepth
    simp [balancedLength, hkind, TokenKind.isOpen, TokenKind.isClose]
  · obtain rfl : depth = 1 := by
      simp only [TokenKind.depth, TokenKind.isOpen, TokenKind.isClose, Bool.false_eq_true, if_false,
        if_true] at hdepth
      omega
    simp [balancedLength, hkind, TokenKind.isClose]

/-- A balanced run of all lexemes that ends outside all groups ends there whatever follows. -/
theorem balancedLength_append_of_ended (ys : List Lexeme) : ∀ {depth : Nat} {xs : List Lexeme},
    Ended xs → xs ≠ [] → depth + depthOf xs = 0 → balancedLength depth xs = xs.length →
      balancedLength depth (xs ++ ys) = xs.length
  | _, [], _, hne, _, _ => absurd rfl hne
  | depth, [lexeme], hended, _, hdepth, _ => by
    rw [depthOf_cons, depthOf, Int.add_zero] at hdepth
    exact balancedLength_of_isEnd (hended.last lexeme rfl) hdepth ys
  | depth, lexeme :: next :: xs, hended, _, hdepth, hall => by
    have hrest : Ended (next :: xs) := Ended.of_append (show Ended ([lexeme] ++ next :: xs) from hended)
    rw [depthOf_cons] at hdepth
    rw [List.cons_append, List.length_cons]
    rcases balancedLength_cases depth lexeme with ⟨-, -, hrun⟩ | ⟨-, hrun⟩ | ⟨depth', hdepth', hrun⟩
    · rw [hrun] at hall
      cases hall
    · rw [hrun] at hall
      cases hall
    · rw [hrun] at hall
      rw [hrun, balancedLength_append_of_ended ys hrest (List.cons_ne_nil _ _) (by omega)
        (Nat.succ_inj.1 hall)]

/-- What is skipped ends with the last lexeme, if it leads out of all its groups. -/
theorem skipBalanced_closes (hne : c.rest ≠ []) (hdepth : depthOf c.rest = 0) :
    Closes s (fun _ => True) skipBalanced c := by
  intro value d _ hrun hclean hend hended
  have hrun' : ∀ m : Cursor, skipBalanced m = .ok () (m.skip (balancedLength 0 m.rest)) := fun _ => rfl
  rw [hrun'] at hrun
  cases hrun
  have hle := balancedLength_le 0 c.rest
  have hpos := List.length_pos_iff.2 hne
  have hall : balancedLength 0 c.rest = c.rest.length := by
    rw [Cursor.rest_skip, List.drop_eq_nil_iff] at hend
    omega
  refine ⟨c.errors_skip _ ▸ hclean, hne, Cursor.expected_skip (by omega), ?_⟩
  rw [hrun', Cursor.rest_extend,
    balancedLength_append_of_ended s.lexemes hended hne (by simpa using hdepth) hall,
    Cursor.skip_extend (Nat.le_refl _), hall]

end Skipped

section Declarations

variable {s : Sequel} {c : Cursor}

theorem memberStep_closes (members : List Member) :
    Closes s (Sum.elim (fun _ => False) fun _ => True) (memberStep typeExpr members) c := by
  unfold memberStep
  refine .eat (by decide) rfl fun _ => .isAt (.ite (fun _ => .unexpected) fun _ => .never ?_)
  intro result d hrun
  obtain ⟨outcome, m, -, hrun⟩ := bind_eq_ok_iff.1 hrun
  cases outcome with
  | ok member =>
    cases hrun
    exact id
  | error error =>
    obtain ⟨_, e, -, hrun⟩ := bind_eq_ok_iff.1 hrun
    obtain ⟨_, e, -, hrun⟩ := bind_eq_ok_iff.1 hrun
    cases hrun
    exact id

theorem members_closes : Closes s (fun _ => True) (members typeExpr) c := by
  rw [members_eq]
  refine .bind (expect_takes (by decide)) fun _ m xs _ _ => ?_
  have hstep : ∀ members d, ∃ R, Takes s R (memberStep typeExpr members) (memberStep typeExpr members) d :=
    fun members d => ⟨_, memberStep_takes (n := d.size) (fun _ _ => typeExpr_takes) (Nat.le_refl _)
      (adds_nil members)⟩
  exact repeatFrom_closes hstep (fun members d => memberStep_closes members) []

theorem interfaceDecl_closes : Closes s (fun _ => True) interfaceDecl c := by
  unfold interfaceDecl
  refine .bind (expect_takes (by decide)) fun _ m _ _ _ => .bind ident_takes fun name m _ _ _ => ?_
  refine .bind (typeParams_takes (fun _ _ => typeExpr_takes) (Nat.le_refl _)) fun _ m _ _ _ => ?_
  refine .bind heritage_takes fun heritage m _ _ _ => ?_
  exact members_closes.finish

/-- A type does not take a semicolon, so one that is the last lexeme is left for its alias. -/
theorem aliasDecl_closes :
    Closes s (fun _ => ∀ lexeme ∈ c.rest.getLast?, lexeme.kind = .semicolon) aliasDecl c := by
  unfold aliasDecl
  refine .bind (expect_takes (by decide)) fun _ m xs hxs _ => .bind ident_takes fun name m ys hys _ => ?_
  refine .bind (typeParams_takes (fun _ _ => typeExpr_takes) (Nat.le_refl _)) fun _ m zs hzs _ => ?_
  refine .bind (expect_takes (by decide)) fun _ m ws hws _ => ?_
  refine .bind typeExpr_takes fun type d us hus htype => ?_
  have hread := (((hxs.append hys).append hzs).append hws).append hus
  by_cases hkind : d.kind = .semicolon
  · exact (eat_closes (by decide) hkind).discard.finish
  · -- Nothing is taken behind the type, which would be the last, but no type ends with a semicolon.
    intro decl e hlast hrun hclean hend hended
    obtain ⟨_, e', hdiscard, hrun⟩ := bind_eq_ok_iff.1 hrun
    obtain ⟨found, heat, -⟩ := map_eq_ok_iff.1 hdiscard
    rw [eat_of_ne hkind] at heat
    cases heat
    cases hrun
    change d.rest = [] at hend
    have hunended : Unended c.rest := by
      rw [hread.rest, hend, List.append_nil]
      exact htype.typeParts.unended.after htype.ne_nil _
    obtain ⟨last, hmem⟩ : ∃ last, c.rest.getLast? = some last := by
      refine Option.isSome_iff_exists.1 (List.getLast?_isSome.2 ?_)
      rw [hread.rest]
      exact List.append_ne_nil_of_left_ne_nil (List.append_ne_nil_of_right_ne_nil _ htype.ne_nil) _
    exact absurd (hlast last hmem) (hunended last hmem)

theorem enumStep_closes (members : List EnumMember) :
    Closes s (Sum.elim (fun _ => False) fun _ => True) (enumStep members) c := by
  unfold enumStep
  refine .eat (by decide) rfl fun _ => .bind enumMember_takes fun member m _ _ _ => ?_
  refine .bind (eat_takes (by decide)) fun found m _ _ _ => .ite (fun _ => .never ?_) fun _ => ?_
  · intro result d hrun
    cases hrun
    exact id
  · exact (expect_closes (by decide)).finish

theorem enumDecl_closes (isConst : Bool) : Closes s (fun _ => True) (enumDecl isConst) c := by
  rw [enumDecl_eq]
  refine .bind (expect_takes (by decide)) fun _ m _ _ _ => .bind ident_takes fun name m _ _ _ => ?_
  refine .bind (expect_takes (by decide)) fun _ m _ _ _ => ?_
  refine (repeatFrom_closes (fun members d => ⟨_, enumStep_takes (adds_nil members)⟩)
    (fun members d => enumStep_closes members) []).finish

end Declarations

section Statements

variable {s : Sequel} {c : Cursor}

/-- The statements of a namespace end with the brace that closes it. -/
theorem statementsUntil_closes : Closes s (fun _ => True) (statementsUntil .closeBrace) c := by
  rw [statementsUntil_eq]
  refine repeatFrom_closes (fun statements m => ⟨_, statementStep_takes (n := m.size)
    (fun _ _ => statementsUntil_takes .closeBrace) (Nat.le_refl _) .closeBrace (adds_nil statements)⟩)
    (fun statements m => ?_) []
  intro result d hresult hrun hclean hend hended
  rcases statementStep_of_clean hrun hclean with ⟨hkind, rfl, rfl⟩ | ⟨-, -, statement, -, rfl⟩
  · have hclosed := next_closes (s := s) (c := m) (by rw [hkind]; decide) () m.next
      trivial rfl hclean hend hended
    refine ⟨hclosed.errors, hclosed.left, hclosed.expected, ?_⟩
    rw [statementStep_of_closing ((Cursor.kind_extend hclosed.left).trans hkind),
      Cursor.next_extend hclosed.left]
  · exact hresult.elim

theorem namespaceDecl_closes {P : (Placement → Statement) → Prop} (hkind : c.kind ≠ .endOfFile) :
    Closes s P (namespaceDecl (statementsUntil .closeBrace)) c := by
  unfold namespaceDecl
  refine .bind (next_takes_of_kind hkind) fun _ m _ _ _ => .bind entityName_takes fun name m _ _ _ => ?_
  exact .bind (expect_takes (by decide)) fun _ m _ _ _ => statementsUntil_closes.finish

/-- If a statement is an alias, a semicolon is the last lexeme. -/
def AliasEnds (lexemes : List Lexeme) (statement : Statement) : Prop :=
  ∀ place decl, statement = .aliasDecl place decl → ∀ lexeme ∈ lexemes.getLast?, lexeme.kind = .semicolon

/-- A statement that is the last of some lexemes needs nothing behind them: an alias has its semicolon, and
what is skipped has left all groups. -/
structure IsComplete (lexemes : List Lexeme) (statement : Statement) : Prop where
  aliasEnds : AliasEnds lexemes statement
  depth : ∀ place, statement = .skipped place → depthOf lexemes = 0

theorem declaration_closes (isConst : Bool) (hne : c.rest ≠ []) :
    Closes s (fun make => ∃ place, IsComplete c.rest (make place))
      (declaration (statementsUntil .closeBrace) isConst) c := by
  have hskipped : Closes s (fun make => ∃ place, IsComplete c.rest (make place)) declaration.skipped c := by
    rintro make d ⟨place, hcomplete⟩ hrun
    obtain ⟨_, _, -, hmake⟩ := bind_eq_ok_iff.1 hrun
    cases hmake
    have hdepth := hcomplete.depth place rfl
    exact (skipBalanced_closes hne hdepth).finish (P := fun _ => True) _ _ trivial hrun
  unfold declaration
  refine .here (.ite (fun _ => hskipped) fun _ => ?_) fun hne hended => ?_
  · split
    · rename_i hkind
      exact namespaceDecl_closes (by rw [hkind]; decide)
    · rename_i hkind
      exact namespaceDecl_closes (by rw [hkind]; decide)
    · exact interfaceDecl_closes.finish
    · exact aliasDecl_closes.last fun decl ⟨place, hcomplete⟩ => hcomplete.aliasEnds place decl rfl
    · exact (enumDecl_closes isConst).finish
    · exact hskipped
  · simp only [Cursor.kind_extend hne]
    rcases Cursor.second_extend (s := s) hended with ⟨hkind, -⟩ | hkind | hkind | hkind
    · simp only [hkind]
    all_goals simp only [hkind, ite_self]

/-- Behind modifiers the lexemes go on, since none of these ends a declaration. -/
theorem AreKeywords.left {xs ys : List Lexeme} (h : AreKeywords xs) (hended : Ended (xs ++ ys))
    (hne : xs ++ ys ≠ []) : ys ≠ [] := by
  rintro rfl
  rw [List.append_nil] at hended hne
  obtain ⟨last, hlast⟩ := Option.isSome_iff_exists.1 (List.getLast?_isSome.2 hne)
  have hkind := h last (List.mem_of_getLast? hlast)
  rcases hended.last last hlast with ⟨hend, -⟩ | ⟨hend, -⟩ <;> rw [hend] at hkind <;> cases hkind

theorem AreKeywords.depthOf_eq {xs : List Lexeme} (h : AreKeywords xs) : depthOf xs = 0 := by
  induction xs with
  | nil => rfl
  | cons lexeme xs ih =>
    obtain ⟨hkind, hrest⟩ := List.forall_mem_cons.1 h
    have hplain : lexeme.kind.depth = 0 := by
      cases hlexeme : lexeme.kind with
      | keyword word => rfl
      | _ =>
        rw [hlexeme] at hkind
        cases hkind
    rw [depthOf_cons, ih hrest, hplain]
    rfl

theorem statement_closes (hkind : c.kind ≠ .endOfFile) :
    Closes s (fun statement => ∀ value ∈ statement, IsComplete c.rest value)
      (statement? (statementsUntil .closeBrace)) c := by
  unfold statement?
  refine .here ?_ fun hne _ => by
    simp only [Cursor.kind_extend hne, Cursor.start_extend hne, Cursor.comments_extend hne]
  refine .eat (by decide) rfl fun _ => .of_ended fun hended => ?_
  refine .ite nofun fun _ => .ite (fun _ => .unexpected) fun _ => ?_
  refine .bind modifiers_takes fun isConst m xs hxs hkeywords => ?_
  obtain ⟨lexeme, hrest, -⟩ := Cursor.rest_of_kind hkind
  have hall : c.rest = xs ++ m.rest := hxs.rest
  have hne : m.rest ≠ [] :=
    hkeywords.left (hall ▸ hended) (by rw [← hall, hrest]; exact List.cons_ne_nil _ _)
  refine (declaration_closes isConst hne).placed fun make place hcomplete => ⟨⟨place, c.comments⟩, ?_⟩
  have hcomplete' := hcomplete _ rfl
  refine ⟨fun place' decl hdecl lexeme hmem => hcomplete'.aliasEnds place' decl hdecl lexeme ?_,
    fun place' hskipped => ?_⟩
  · rw [hall]
    exact List.mem_getLast?_append_of_mem_getLast? hmem
  · have hdepth := hcomplete'.depth place' hskipped
    rw [hall, depthOf_append, hkeywords.depthOf_eq] at hdepth
    omega

variable {d : Cursor} {statements : List Statement} {closing : TokenKind}

theorem ReadsInTurn.errors
    (h : ReadsInTurn (statementsUntil .closeBrace) closing c statements d) (hclean : d.errors = []) :
    c.errors = [] := by
  induction h with
  | done c => exact hclean
  | next _ _ hstatement _ ih =>
    obtain ⟨xs, htook⟩ := (statement_takes (s := ⟨[], []⟩) (fun _ _ => statementsUntil_takes .closeBrace)
      (Nat.le_refl _)).ok _ _ hstatement
    exact htook.errors (ih hclean)

/-- Statements that are read in turn to the end are so read where others follow, and nothing is left to
look for. -/
theorem ReadsInTurn.extend_of_last (h : ReadsInTurn (statementsUntil .closeBrace) closing c statements d)
    (hclean : d.errors = []) (hend : d.rest = []) (hne : c.rest ≠ []) (hended : Ended c.rest)
    (hlast : ∀ value ∈ statements.getLast?, IsComplete c.rest value) :
    ReadsInTurn (statementsUntil .closeBrace) closing (c.extend s) statements (d.extend s)
      ∧ d.expected = [] := by
  induction h with
  | done c => exact absurd hend hne
  | next hclosing hkind hstatement hreads ih =>
    rename_i c m d statement statements
    have hclosing' : (c.extend s).kind ≠ closing := by rwa [Cursor.kind_extend hne]
    have hkind' : (c.extend s).kind ≠ .endOfFile := by rwa [Cursor.kind_extend hne]
    -- A statement that leaves lexemes is steady; only the one that takes the last must close.
    by_cases hleft : m.rest = []
    · cases hreads with
      | next _ hend' =>
        refine absurd ?_ hend'
        rw [Cursor.kind, Cursor.kindAt, Cursor.peek?, hleft]
        rfl
      | done =>
        have hclosed := statement_closes (s := s) (c := c.expect [closing]) hkind statement m
          (fun value hvalue => ?_) hstatement hclean hend hended
        · exact ⟨.next hclosing' hkind' hclosed.steady (.done _), hclosed.expected⟩
        · refine hlast value ?_
          rw [Option.mem_def.1 hvalue]
          rfl
    · have hm := hreads.errors hclean
      obtain ⟨-, xs, hrest, hshift⟩ := statement_shifts (c := c.expect [closing])
        (fun m _ => statementsUntil_shifts m) (Nat.le_refl _) statement m hstatement hm hleft
      change c.rest = xs ++ m.rest at hrest
      have hended' : Ended (xs ++ m.rest) := hrest ▸ hended
      have hzero : depthOf xs = 0 := hshift (allGenuine_append.1 hended'.genuine).1
      have hlast' : ∀ value ∈ statements.getLast?, IsComplete m.rest value := by
        intro value hvalue
        have hcomplete := hlast value (List.mem_getLast?_append_of_mem_getLast? hvalue)
        rw [hrest] at hcomplete
        refine ⟨fun place decl hdecl lexeme hmem => hcomplete.aliasEnds place decl hdecl lexeme
          (List.mem_getLast?_append_of_mem_getLast? hmem), fun place hskipped => ?_⟩
        have hdepth := hcomplete.depth place hskipped
        rwa [depthOf_append, hzero, Int.zero_add] at hdepth
      obtain ⟨hreads', hexpected⟩ := ih hclean hend hleft hended'.of_append hlast'
      obtain ⟨xs, htook⟩ := (statement_takes (s := s) (c := c.expect [closing])
        (fun _ _ => statementsUntil_takes .closeBrace) (Nat.le_refl _)).ok statement m hstatement
      exact ⟨.next hclosing' hkind' (htook.steady hm hleft hended) hreads', hexpected⟩

theorem ReadsInTurn.extend (h : ReadsInTurn (statementsUntil .closeBrace) closing c statements d)
    (hclean : d.errors = []) (hend : d.rest = []) (hne : c.rest ≠ []) (hended : Ended c.rest)
    (hdepth : depthOf c.rest = 0) (halias : ∀ value ∈ statements.getLast?, AliasEnds c.rest value) :
    ReadsInTurn (statementsUntil .closeBrace) closing (c.extend s) statements (d.extend s)
      ∧ d.expected = [] :=
  h.extend_of_last hclean hend hne hended fun value hvalue => ⟨halias value hvalue, fun _ _ => hdepth⟩

end Statements

end NodeFactory
