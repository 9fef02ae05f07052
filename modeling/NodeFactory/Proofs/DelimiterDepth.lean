import NodeFactory.Proofs.StatementRuns

/-!
# Depth of delimiters

An action that reports no error and is not at the end leads as deep as its value says (`Shifts`): a
declaration, and a statement that is skipped, leads back to where it begins, and the statements up to a
closing brace lead out of one group.
-/

namespace NodeFactory

open Parse

section Combined

variable {α β : Type} {k : α → Int} {l : β → Int} {A : Parse α} {c : Cursor} {kind : TokenKind}

/-- An action that reports no error and leaves lexemes leads as deep as its value says. -/
def Shifts (k : α → Int) (A : Parse α) (c : Cursor) : Prop :=
  ∀ value d, A c = .ok value d → d.errors = [] → d.rest ≠ [] →
    c.errors = [] ∧ ∃ xs, c.rest = xs ++ d.rest ∧ (AllGenuine xs → depthOf xs = k value)

theorem Local.shifts {n : Nat} {A' : Parse α} (h : Local ⟨0, 0⟩ (atLeast n) A A' c) :
    Shifts (fun _ => 0) A c := by
  intro value d hrun hclean _
  obtain ⟨herrors, ⟨xs, hxs, hportion⟩, -⟩ := h value d hrun hclean (Nat.zero_le _) fun _ => rfl
  refine ⟨herrors, xs, hxs.rest, fun hgenuine => ?_⟩
  simpa using (hportion.nests hgenuine).depthOf_eq

theorem Shifts.pure {value : α} (h : k value = 0) : Shifts k (pure value) c := by
  intro _ d hrun hclean _
  cases hrun
  exact ⟨hclean, [], rfl, fun _ => h.symm⟩

theorem Shifts.bind {B : α → Parse β} (hA : Shifts k A c)
    (hB : ∀ value m, A c = .ok value m → Shifts (fun result => l result - k value) (B value) m) :
    Shifts l (A >>= B) c := by
  intro result d hrun hclean hleft
  obtain ⟨value, m, hrunA, hrunB⟩ := bind_eq_ok_iff.1 hrun
  obtain ⟨hm, ys, hys, hdepth'⟩ := hB value m hrunA result d hrunB hclean hleft
  have hm' : m.rest ≠ [] := by
    rw [hys]
    exact List.append_ne_nil_of_right_ne_nil _ hleft
  obtain ⟨herrors, xs, hxs, hdepth⟩ := hA value m hrunA hm hm'
  refine ⟨herrors, xs ++ ys, by rw [hxs, hys, List.append_assoc], fun hgenuine => ?_⟩
  obtain ⟨hgenuine, hgenuine'⟩ := allGenuine_append.1 hgenuine
  rw [depthOf_append, hdepth hgenuine, hdepth' hgenuine']
  dsimp only
  omega

/-- An action that leads nowhere, and another one. -/
theorem Shifts.seq {B : α → Parse β} (hA : Shifts (fun _ => 0) A c)
    (hB : ∀ value m, A c = .ok value m → Shifts l (B value) m) : Shifts l (A >>= B) c :=
  hA.bind fun value m hrun => by simpa using hB value m hrun

theorem Shifts.map {f : α → β} (hA : Shifts (fun _ => 0) A c) :
    Shifts (fun _ => 0) (f <$> A) c := by
  rw [map_eq_pure_bind]
  exact hA.seq fun _ _ _ => .pure rfl

theorem Shifts.ite {p : Prop} [Decidable p] {B : Parse α} (hA : p → Shifts k A c)
    (hB : ¬ p → Shifts k B c) : Shifts k (if p then A else B) c := by
  by_cases hp : p
  · rw [if_pos hp]
    exact hA hp
  · rw [if_neg hp]
    exact hB hp

theorem Shifts.here {f : Cursor → Parse α} (h : Shifts k (f c) c) : Shifts k (cursor >>= f) c := h

theorem Shifts.unexpected : Shifts k (Parse.unexpected : Parse α) c := by
  intro value d hrun
  cases hrun

theorem next_shifts (h : c.kind ≠ .endOfFile) : Shifts (fun _ => c.kind.depth) next c := by
  intro value d hrun hclean _
  obtain ⟨lexeme, hrest, hkind⟩ := Cursor.rest_of_kind h
  obtain rfl : c.next = d := (EStateM.Result.ok.inj hrun).2
  refine ⟨c.errors_next ▸ hclean, [lexeme], hrest, fun _ => ?_⟩
  rw [← hkind]
  exact Int.add_zero _

theorem eat_shifts (hkind : kind ≠ .endOfFile) :
    Shifts (fun found => if found then kind.depth else 0) (eat kind) c := by
  by_cases h : c.kind = kind
  · intro value d hrun
    rw [eat_of_kind h] at hrun
    cases hrun
    have hnext := next_shifts (h ▸ hkind) () c.next rfl
    rwa [h] at hnext
  · intro value d hrun hclean _
    rw [eat_of_ne h] at hrun
    cases hrun
    exact ⟨hclean, [], rfl, fun _ => rfl⟩

/-- Whether a lexeme is found or not, it is no delimiter. -/
theorem eat_shifts_of_plain (hkind : kind ≠ .endOfFile) (hdepth : kind.depth = 0) :
    Shifts (fun _ => 0) (eat kind) c := by
  have heat := eat_shifts (c := c) hkind
  simpa [hdepth] using heat

theorem expect_shifts (hkind : kind ≠ .endOfFile) :
    Shifts (fun _ => kind.depth) (expect kind) c := by
  by_cases h : c.kind = kind
  · intro value d hrun
    rw [expect_of_kind h] at hrun
    cases hrun
    have hnext := next_shifts (h ▸ hkind) () c.next rfl
    rwa [h] at hnext
  · intro value d hrun
    rw [expect_of_ne h] at hrun
    cases hrun

theorem spanFrom_shifts (start : Nat) : Shifts (fun _ => 0) (spanFrom start) c := by
  intro value d hrun hclean _
  cases hrun
  exact ⟨hclean, [], rfl, fun _ => rfl⟩

theorem Shifts.optional {B : Option α → Parse β} (hkind : kind ≠ .endOfFile)
    (hdepth : kind.depth = 0) (hA : ∀ m, Shifts (fun _ => 0) A m) (hB : ∀ value m, Shifts l (B value) m) :
    Shifts l (eat kind >>= fun found => if found then some <$> A >>= B else Pure.pure none >>= B) c :=
  (eat_shifts_of_plain hkind hdepth).seq fun _ m _ =>
    .ite (fun _ => (hA m).map.seq fun value m _ => hB value m) fun _ => hB none m

theorem skipBalanced_shifts : Shifts (fun _ => 0) skipBalanced c := by
  intro value d hrun hclean hleft
  have hrun' : skipBalanced c = .ok () (c.skip (balancedLength 0 c.rest)) := rfl
  rw [hrun'] at hrun
  cases hrun
  rw [Cursor.rest_skip] at hleft ⊢
  refine ⟨c.errors_skip _ ▸ hclean, _, (List.take_append_drop _ _).symm, fun _ => ?_⟩
  have hlt : balancedLength 0 c.rest < c.rest.length := by
    have := List.length_pos_iff.2 hleft
    rw [List.length_drop] at this
    omega
  simpa using depthOf_take_balancedLength hlt

theorem repeatFrom_shifts {σ : Type} {step : σ → Parse (σ ⊕ α)} {n : Nat}
    (hstep : ∀ state m, m.size ≤ n → Shifts (Sum.elim (fun _ => 0) k) (step state) m) (state : σ)
    (hc : c.size ≤ n) : Shifts k (repeatFrom step state) c := by
  generalize hm : c.size = m
  induction m using Nat.strongRecOn generalizing state c with
  | ind m ih =>
    intro value d hrun
    rw [repeatFrom_eq] at hrun
    refine (hstep state c hc).bind (fun result d _ => ?_) value d hrun
    cases result with
    | inl state =>
      show Shifts (fun result => k result - 0) (below c.size (repeatFrom step state)) d
      by_cases hlt : d.size < c.size
      · intro value e hrun
        rw [below_of_lt hlt] at hrun
        simpa using ih d.size (hm ▸ hlt) state (by omega) rfl value e hrun
      · intro value e hrun
        rw [below_of_not_lt hlt] at hrun
        cases hrun
    | inr value => exact .pure (Int.sub_self _)

end Combined

section Declarations

variable {c : Cursor}

theorem heritageType_shifts (c : Cursor) : Shifts (fun _ => 0) heritageType c := by
  unfold heritageType
  refine .here ((entityName_local c).shifts.seq fun _ m _ => ?_)
  refine (typeArgs_local typeExpr_local m).shifts.seq fun _ m _ => ?_
  exact (spanFrom_shifts _).seq fun _ _ _ => .pure rfl

theorem heritageWord_shifts : Shifts (fun _ => 0) heritageWord? c := by
  unfold heritageWord?
  refine (eat_shifts_of_plain (by decide) rfl).seq fun _ m _ => .ite (fun _ => .pure rfl) fun _ => ?_
  exact (eat_shifts_of_plain (by decide) rfl).seq fun _ m _ => .ite (fun _ => .pure rfl) fun _ => .pure rfl

theorem heritage_shifts : Shifts (fun _ => 0) heritage c := by
  unfold heritage
  refine repeatFrom_shifts (fun clauses m _ => .here ?_) [] (Nat.le_refl _)
  refine heritageWord_shifts.seq fun word m _ => ?_
  cases word with
  | none => exact .pure rfl
  | some word =>
    have htypes : Shifts (fun _ => 0) (separated heritageType) m := by
      unfold separated
      refine repeatFrom_shifts (fun types m _ => ?_) [] (Nat.le_refl _)
      refine (heritageType_shifts m).seq fun type m _ => ?_
      refine (eat_shifts_of_plain (by decide) rfl).seq fun found m _ => ?_
      cases found <;> exact .pure rfl
    exact htypes.seq fun types m _ => (spanFrom_shifts _).seq fun _ _ _ => .pure rfl

theorem interfaceDecl_shifts : Shifts (fun _ => 0) interfaceDecl c := by
  unfold interfaceDecl
  refine (expect_shifts (by decide)).seq fun _ m _ => (ident_local m).shifts.seq fun _ m _ => ?_
  refine (typeParams_local typeExpr_local m).shifts.seq fun _ m _ => ?_
  refine heritage_shifts.seq fun _ m _ => ?_
  exact (members_local typeExpr_local m).shifts.seq fun _ _ _ => .pure rfl

theorem aliasDecl_shifts : Shifts (fun _ => 0) aliasDecl c := by
  unfold aliasDecl
  refine (expect_shifts (by decide)).seq fun _ m _ => (ident_local m).shifts.seq fun _ m _ => ?_
  refine (typeParams_local typeExpr_local m).shifts.seq fun _ m _ => ?_
  refine (expect_shifts (by decide)).seq fun _ m _ => (typeExpr_local m).shifts.seq fun _ m _ => ?_
  exact (eat_shifts_of_plain (by decide) rfl).map.seq fun _ _ _ => .pure rfl

theorem enumMember_shifts : Shifts (fun _ => 0) enumMember c := by
  unfold enumMember
  refine .here ((propertyName_local c).shifts.seq fun _ m _ => ?_)
  refine .optional (by decide) rfl (fun m => (constExpr_local m).shifts) fun value m => ?_
  exact (spanFrom_shifts _).seq fun _ _ _ => .pure rfl

/-- The members of an enum lead out of the group that is opened before them. -/
theorem enumDecl_shifts (isConst : Bool) : Shifts (fun _ => 0) (enumDecl isConst) c := by
  unfold enumDecl
  refine (expect_shifts (by decide)).seq fun _ m _ => (ident_local m).shifts.seq fun _ m _ => ?_
  refine (expect_shifts (by decide)).bind fun _ m _ => ?_
  refine Shifts.bind (k := fun _ => -1) (repeatFrom_shifts (fun members m _ => ?_) [] (Nat.le_refl _))
    fun _ _ _ => .pure rfl
  refine (eat_shifts (by decide)).bind fun found m _ => ?_
  cases found with
  | true => exact .pure rfl
  | false =>
    refine enumMember_shifts.bind fun member m _ => ?_
    refine (eat_shifts_of_plain (by decide) rfl).bind fun found m _ => ?_
    cases found with
    | true => exact .pure rfl
    | false => exact (expect_shifts (by decide)).bind fun _ _ _ => .pure rfl

theorem modifiers_shifts : Shifts (fun _ => 0) modifiers c := by
  unfold modifiers
  refine repeatFrom_shifts (fun isConst m _ => .here ?_) false (Nat.le_refl _)
  have hnext : ∀ kind isConst, m.kind = kind → kind ≠ .endOfFile → kind.depth = 0 →
      Shifts (Sum.elim (fun _ => 0) fun _ => 0)
        (do next; return .inl isConst : Parse (Bool ⊕ Bool)) m := by
    intro kind isConst hkind hend hdepth
    have hnext := next_shifts (c := m) (hkind ▸ hend)
    rw [hkind, hdepth] at hnext
    exact hnext.seq fun _ _ _ => .pure rfl
  split
  · rename_i hkind
    exact hnext _ _ hkind (by decide) rfl
  · rename_i hkind
    exact hnext _ _ hkind (by decide) rfl
  · rename_i hkind
    exact hnext _ _ hkind (by decide) rfl
  · rename_i hkind
    exact hnext _ _ hkind (by decide) rfl
  · rename_i hkind
    exact .ite (fun _ => hnext _ _ hkind (by decide) rfl) fun _ => .pure rfl
  · exact .pure rfl

end Declarations

section Statements

variable {c : Cursor} {n : Nat} {body : Parse (List Statement)}
  (hbody : ∀ m, m.size < n → Shifts (fun _ => -1) body m)
include hbody

theorem namespaceDecl_shifts (hkind : c.kind ≠ .endOfFile) (hdepth : c.kind.depth = 0)
    (hc : c.size ≤ n) : Shifts (fun _ => 0) (namespaceDecl body) c := by
  have hnext := next_shifts hkind
  rw [hdepth] at hnext
  refine hnext.seq fun _ m hrun => (entityName_local m).shifts.seq fun name m' hrun' => ?_
  refine (expect_shifts (by decide)).bind fun _ d hrun'' => ?_
  obtain ⟨xs, hxs⟩ := (next_takes (s := ⟨[], []⟩)).ok _ _ hrun
  obtain ⟨ys, hys⟩ := (entityName_takes (s := ⟨[], []⟩)).ok _ _ hrun'
  obtain ⟨zs, hzs⟩ := (expect_takes (s := ⟨[], []⟩) (by decide)).ok _ _ hrun''
  have hlt := hzs.reads.size_lt hzs.related.ne_nil
  have hle := (hxs.reads.append hys.reads).size_le
  exact (hbody d (by omega)).bind fun _ _ _ => .pure rfl

theorem declaration_shifts (isConst : Bool) (hc : c.size ≤ n) :
    Shifts (fun _ => 0) (declaration body isConst) c := by
  have hskipped : Shifts (fun _ => 0) declaration.skipped c :=
    skipBalanced_shifts.seq fun _ _ _ => .pure rfl
  unfold declaration
  refine .here (.ite (fun _ => hskipped) fun _ => ?_)
  split
  · rename_i hkind
    exact namespaceDecl_shifts hbody (by rw [hkind]; decide) (by rw [hkind]; rfl) hc
  · rename_i hkind
    exact namespaceDecl_shifts hbody (by rw [hkind]; decide) (by rw [hkind]; rfl) hc
  · exact interfaceDecl_shifts.seq fun _ _ _ => .pure rfl
  · exact aliasDecl_shifts.seq fun _ _ _ => .pure rfl
  · exact (enumDecl_shifts isConst).seq fun _ _ _ => .pure rfl
  · exact hskipped

theorem statement_shifts (hc : c.size ≤ n) : Shifts (fun _ => 0) (statement? body) c := by
  unfold statement?
  refine .here ((eat_shifts_of_plain (by decide) rfl).seq fun _ m hrun =>
    .ite (fun _ => .pure rfl) fun _ => ?_)
  refine .ite (fun _ => .unexpected) fun _ => modifiers_shifts.seq fun isConst m' hrun' => ?_
  obtain ⟨xs, hxs⟩ := (eat_takes (s := ⟨[], []⟩) (by decide)).ok _ _ hrun
  obtain ⟨ys, hys⟩ := (modifiers_takes (s := ⟨[], []⟩)).ok _ _ hrun'
  have hle := (hxs.reads.append hys.reads).size_le
  refine (declaration_shifts hbody isConst (by omega)).seq fun make d _ => ?_
  exact (spanFrom_shifts _).seq fun _ _ _ => .pure rfl

theorem statementStep_shifts (hc : c.size ≤ n) (statements : List Statement) :
    Shifts (Sum.elim (fun _ => 0) fun _ => -1) (statementStep body .closeBrace statements) c := by
  intro result d hrun hclean hleft
  rcases statementStep_of_clean hrun hclean with ⟨hkind, rfl, rfl⟩ | ⟨-, -, statement, hstatement, rfl⟩
  · have hnext := next_shifts (c := c) (by rw [hkind]; decide)
    rw [hkind] at hnext
    exact hnext () _ rfl hclean hleft
  · exact statement_shifts hbody (c := c.expect [.closeBrace]) hc statement d hstatement hclean hleft

omit hbody in
/-- The statements of a namespace lead out of the group that is opened before them. -/
theorem statementsUntil_shifts (c : Cursor) :
    Shifts (fun _ => -1) (statementsUntil .closeBrace) c := by
  generalize hn : c.size = n
  induction n using Nat.strongRecOn generalizing c with
  | ind n ih =>
    rw [statementsUntil_eq]
    refine repeatFrom_shifts (fun statements m hm => ?_) [] (Nat.le_of_eq hn)
    exact statementStep_shifts (fun d hd => ih d.size hd d rfl) hm statements

end Statements

end NodeFactory
