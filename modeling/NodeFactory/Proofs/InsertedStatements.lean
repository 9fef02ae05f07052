import NodeFactory.Proofs.InsertedMembers
import NodeFactory.Proofs.LayoutFreeStatements
import NodeFactory.Proofs.OverlookingStatements

/-!
# Statements around a member put in

Reading the statements of a text leads to the members of an interface through the statements before it, and
through the namespaces around it, whatever errors are reported in them (`LeadsTo`). Where a member is put in
there, the way is the same. If the list of members ends with a brace, the text has the same statements but that
the interface gains the member (`LeadsTo.gains`).
-/

namespace NodeFactory

open Parse

section Declarations

variable {body : Parse (List Statement)} {closing : TokenKind} {c d m b : Cursor} {isConst : Bool}

/-- A declaration is begun: its modifiers are read, and behind the word that is next there is a name. -/
structure BeginsDeclaration (closing : TokenKind) (c : Cursor) (isConst : Bool) (m : Cursor) : Prop where
  notClosing : c.kind ≠ closing
  more : c.kind ≠ .endOfFile
  notEmpty : c.kind ≠ .semicolon
  notClose : c.kind.isClose = false
  modifiers : modifiers ((c.expect [closing]).expect [.semicolon]) = .ok isConst m
  named : (m.kindAt 1).isName = true

/-- What is declared is the next statement. -/
theorem BeginsDeclaration.step (h : BeginsDeclaration closing c isConst m) {make : Placement → Statement}
    (hdeclaration : declaration body isConst m = .ok make d) (statements : List Statement) :
    statementStep body closing statements c
      = .ok (.inl (statements ++ [make ⟨⟨c.start, max d.lastEnd c.start⟩, c.comments⟩])) d := by
  have hstatement : statement? body (c.expect [closing])
      = .ok (some (make ⟨⟨c.start, max d.lastEnd c.start⟩, c.comments⟩)) d := by
    have hclose : (c.expect [closing]).kind.isClose = false := h.notClose
    rw [statement_of_ne (show (c.expect [closing]).kind ≠ .semicolon from h.notEmpty), hclose,
      if_neg Bool.false_ne_true, bind_of_ok h.modifiers, bind_of_ok hdeclaration]
    rfl
  exact statementStep_of_statement h.notClosing h.more hstatement

theorem declaration_of_interface (hnamed : (m.kindAt 1).isName = true)
    (hkind : m.kind = .keyword .interfaceKw) {decl : Interface} (h : interfaceDecl m = .ok decl d) :
    declaration body isConst m = .ok (fun place => .interfaceDecl place decl) d := by
  unfold declaration
  rw [bind_of_ok (rfl : cursor m = .ok m m), hnamed, hkind]
  show (interfaceDecl >>= fun decl => pure fun place => Statement.interfaceDecl place decl) m = _
  rw [bind_of_ok h]
  rfl

theorem declaration_of_namespace (hnamed : (m.kindAt 1).isName = true)
    (hkind : m.kind = .keyword .namespaceKw ∨ m.kind = .keyword .moduleKw) {name : EntityName}
    (hhead : namespaceHead m = .ok name b) {statements : List Statement} (h : body b = .ok statements d) :
    declaration body isConst m = .ok (fun place => .namespaceDecl place name statements) d := by
  have hdeclaration : declaration body isConst m = (namespaceHead >>= fun name => body >>= fun statements =>
      pure fun place => Statement.namespaceDecl place name statements) m := by
    unfold declaration namespaceHead
    simp only [bind_assoc, pure_bind]
    rw [bind_of_ok (rfl : cursor m = .ok m m), hnamed]
    rcases hkind with hkind | hkind <;> rw [hkind] <;> rfl
  rw [hdeclaration, bind_of_ok hhead, bind_of_ok h]
  rfl

/-- From a cursor, reading statements up to a closing lexeme leads to the members of an interface. -/
inductive LeadsTo : TokenKind → Cursor → Cursor → Prop
  | inInterface {closing : TokenKind} {c d m e : Cursor} {statements : List Statement} {isConst : Bool}
      {make : List Member → Interface} :
      Steps (statementStep (statementsUntil .closeBrace) closing) [] c statements d →
        BeginsDeclaration closing d isConst m → m.kind = .keyword .interfaceKw →
          interfaceHead m = .ok make e → LeadsTo closing c e
  | inNamespace {closing : TokenKind} {c d m b e : Cursor} {statements : List Statement} {isConst : Bool}
      {name : EntityName} :
      Steps (statementStep (statementsUntil .closeBrace) closing) [] c statements d →
        BeginsDeclaration closing d isConst m →
          m.kind = .keyword .namespaceKw ∨ m.kind = .keyword .moduleKw → namespaceHead m = .ok name b →
            LeadsTo .closeBrace b e → LeadsTo closing c e

end Declarations

section Gains

/-- A statement gains members: in the interface that it is or has inside it they stand between its own. What
is behind them is the same up to where it is. -/
inductive Statement.Gains (added : List Member) : Statement → Statement → Prop
  | inInterface {place place' : Placement} {decl : Interface} {base behind behind' : List Member} :
      Same .erasing .erasing place place' → decl.members = base ++ behind →
        Same .erasing .erasing behind behind' → Gains added (.interfaceDecl place decl)
          (.interfaceDecl place' { decl with members := base ++ added ++ behind' })
  | inNamespace {place place' : Placement} {name : EntityName} {statement statement' : Statement}
      {base behind behind' : List Statement} :
      Same .erasing .erasing place place' → Gains added statement statement' →
        Same .erasing .erasing behind behind' → Gains added
          (.namespaceDecl place name (base ++ statement :: behind))
          (.namespaceDecl place' name (base ++ statement' :: behind'))

/-- One of the statements gains members. -/
def GainIn (added : List Member) (statements statements' : List Statement) : Prop :=
  ∃ base statement statement' behind behind', statements = base ++ statement :: behind
    ∧ statements' = base ++ statement' :: behind' ∧ statement.Gains added statement'
    ∧ Same .erasing .erasing behind behind'

theorem same_place (place place' : Placement) : Same .erasing .erasing place place' := rfl

theorem statementStep_respects {m m' : Relocation} {closing : TokenKind} {base base' all all' : List Statement}
    (h : AddsSame m m' base base' all all') :
    Respects m m' true true (Sum.LiftRel (AddsSame m m' base base') (AddsSame m m' base base'))
      (statementStep (statementsUntil .closeBrace) closing all)
      (statementStep (statementsUntil .closeBrace) closing all') := by
  unfold statementStep
  refine .eat (.pure (.inr h)) (.isAt fun _ => .ite (fun _ => ?_) fun _ => ?_)
  · exact .cursor fun c c' hc => (report_respects hc.unexpected).bind fun _ _ _ => .pure (.inr h)
  refine .attempt (statement?_respects (statementsUntil_respects .closeBrace))
    (fun statement statement' hstatement => .pure (.inl (h.append ?_))) fun _ _ herror => ?_
  · cases statement <;> cases statement' <;> simp_all [Same]
  · refine (report_respects herror).bind fun _ _ _ => (recover_respects _).bind fun _ _ _ => ?_
    exact .pure (.inl h)

variable {i : Insertion} {closing : TokenKind} {c c' d d' e m : Cursor} {isConst : Bool}
  {base : List Statement} {statement statement' : Statement} {added : List Member}

/-- Behind a statement that gains members the same statements are read. -/
theorem statements_gain (hgains : statement.Gains added statement') (h : Alike .erasing .erasing true d d') :
    ∃ all all' f f', repeatFrom (statementStep (statementsUntil .closeBrace) closing) (base ++ [statement]) d
        = .ok all f
      ∧ repeatFrom (statementStep (statementsUntil .closeBrace) closing) (base ++ [statement']) d' = .ok all' f'
      ∧ GainIn added all all' ∧ Alike .erasing .erasing true f f' := by
  have hstep : ∀ all all', AddsSame .erasing .erasing (base ++ [statement]) (base ++ [statement']) all all' →
      Respects .erasing .erasing true true _ (statementStep (statementsUntil .closeBrace) closing all)
        (statementStep (statementsUntil .closeBrace) closing all') := fun _ _ => statementStep_respects
  have hrun := repeatFrom_respects hstep (addsSame_refl (base ++ [statement]) (base ++ [statement'])) d d' h
  obtain ⟨all, f, hall⟩ := (statementStep_advances closing).ends statementStep_ok (base ++ [statement]) d
  rw [hall] at hrun ⊢
  generalize repeatFrom (statementStep (statementsUntil .closeBrace) closing) (base ++ [statement']) d'
    = result at hrun ⊢
  cases hrun with
  | ok hadds hf =>
    obtain ⟨more, more', rfl, rfl, hmore⟩ := hadds
    refine ⟨_, _, f, _, rfl, rfl, ⟨base, statement, statement', more, more', ?_, ?_, hgains, hmore⟩, hf⟩
    · rw [List.append_assoc, List.singleton_append]
    · rw [List.append_assoc, List.singleton_append]

end Gains

section Ways

variable {i : Insertion} {closing : TokenKind} {c c' d e m : Cursor} {isConst : Bool}

theorem BeginsDeclaration.size_le (h : BeginsDeclaration closing d isConst m) (hm : i.size ≤ m.size) :
    i.size ≤ d.size := by
  have hd : i.size ≤ ((d.expect [closing]).expect [.semicolon]).size :=
    modifiers_overlooks.not_passed h.modifiers hm
  exact hd

/-- A declaration that is begun before the mark is begun on the other side. -/
theorem BeginsDeclaration.overlooked (h : BeginsDeclaration closing c isConst m) (hc : i.Parallel c c')
    (hm : i.size ≤ m.size) (hword : m.kind.isMark = false) :
    ∃ m', BeginsDeclaration closing c' isConst m' ∧ i.Parallel m m' := by
  obtain ⟨m', hmodifiers, hm'⟩ :=
    modifiers_overlooks.ok ((hc.expect [closing]).expect [.semicolon]) h.modifiers hm
  have hkind : c.kind = c'.kind := Insertion.Views.kind (.inl hc)
  refine ⟨m', ⟨hkind ▸ h.notClosing, hkind ▸ h.more, hkind ▸ h.notEmpty, hkind ▸ h.notClose, hmodifiers, ?_⟩, hm'⟩
  rw [← Insertion.Views.kindAt_one (.inl hm') hword]
  exact h.named

/-- An interface is made of its head and its members. -/
theorem interfaceHead_makes {make : List Member → Interface} (h : interfaceHead m = .ok make e)
    (all all' : List Member) : (make all).members = all ∧ make all' = { make all with members := all' } := by
  unfold interfaceHead at h
  obtain ⟨-, m₁, -, h⟩ := bind_eq_ok_iff.1 h
  obtain ⟨name, m₂, -, h⟩ := bind_eq_ok_iff.1 h
  obtain ⟨typeParams, m₃, -, h⟩ := bind_eq_ok_iff.1 h
  obtain ⟨heritage, m₄, -, h⟩ := bind_eq_ok_iff.1 h
  cases h
  exact ⟨rfl, rfl⟩

/-- Statements are read on behind a declaration. -/
theorem statementsUntil_of_declaration {base : List Statement} {make : Placement → Statement} {f : Cursor}
    (hsteps : Steps (statementStep (statementsUntil .closeBrace) closing) [] c base d)
    (hbegins : BeginsDeclaration closing d isConst m)
    (hdeclaration : declaration (statementsUntil .closeBrace) isConst m = .ok make f) :
    statementsUntil closing c = repeatFrom (statementStep (statementsUntil .closeBrace) closing)
      (base ++ [make ⟨⟨d.start, max f.lastEnd d.start⟩, d.comments⟩]) f := by
  rw [statementsUntil_eq, hsteps.run (statementStep_advances closing), (statementStep_advances closing).repeats,
    bind_of_ok (hbegins.step hdeclaration base)]

theorem statementSteps_overlook (closing : TokenKind) (statements : List Statement) : Overlooks i
    (statementStep (statementsUntil .closeBrace) closing statements)
    (statementStep (statementsUntil .closeBrace) closing statements) :=
  statementStep_overlooks (statementsUntil_overlooks .closeBrace) closing statements

theorem LeadsTo.size_le (h : LeadsTo closing c e) (he : i.size ≤ e.size) : i.size ≤ c.size := by
  induction h with
  | inInterface hsteps hbegins _ hhead =>
    exact hsteps.not_passed (statementSteps_overlook _)
      (hbegins.size_le (interfaceHead_overlooks.not_passed hhead he))
  | inNamespace hsteps hbegins _ hhead _ ih =>
    exact hsteps.not_passed (statementSteps_overlook _)
      (hbegins.size_le (namespaceHead_overlooks.not_passed hhead (ih he)))

/-- Where members are put in, the way to them is the same, and one of the statements gains them. -/
theorem LeadsTo.gains (h : LeadsTo closing c e) (hc : i.Parallel c c') (he : i.size ≤ e.size) :
    ∃ e', i.Parallel e e' ∧ ∀ {base added all all' : List Member} {f f' : Cursor},
      members typeExpr e = .ok all f → members typeExpr e' = .ok all' f' →
        AddsSame .erasing .erasing base (base ++ added) all all' → Alike .erasing .erasing true f f' →
          ∃ statements statements' g g', statementsUntil closing c = .ok statements g
            ∧ statementsUntil closing c' = .ok statements' g' ∧ GainIn added statements statements'
            ∧ Alike .erasing .erasing true g g' := by
  induction h generalizing c' with
  | @inInterface closing c d m e statements isConst make hsteps hbegins hkind hhead =>
    have hm := interfaceHead_overlooks.not_passed hhead he
    obtain ⟨d', hsteps', hd⟩ := hsteps.overlooked (statementSteps_overlook closing) hc (hbegins.size_le hm)
    obtain ⟨m', hbegins', hm'⟩ := hbegins.overlooked hd hm (by rw [hkind]; rfl)
    obtain ⟨e', hhead', he'⟩ := interfaceHead_overlooks.ok hm' hhead he
    have hkind' : m'.kind = .keyword .interfaceKw := (Insertion.Views.kind (.inl hm')).symm.trans hkind
    refine ⟨e', he', fun {base added all all' f f'} hall hall' hadds hf => ?_⟩
    obtain ⟨behind, behind', rfl, rfl, hbehind⟩ := hadds
    obtain ⟨hmembers, hmake⟩ := interfaceHead_makes hhead (base ++ behind) (base ++ added ++ behind')
    rw [statementsUntil_of_declaration hsteps hbegins
        (declaration_of_interface hbegins.named hkind (interfaceDecl_of_members hhead hall)),
      statementsUntil_of_declaration hsteps' hbegins'
        (declaration_of_interface hbegins'.named hkind' (interfaceDecl_of_members hhead' hall')), hmake]
    exact statements_gain (.inInterface (same_place _ _) hmembers hbehind) hf
  | @inNamespace closing c d m b e statements isConst name hsteps hbegins hkind hhead hinner ih =>
    have hb : i.size ≤ b.size := hinner.size_le he
    have hm := namespaceHead_overlooks.not_passed hhead hb
    obtain ⟨d', hsteps', hd⟩ := hsteps.overlooked (statementSteps_overlook closing) hc (hbegins.size_le hm)
    have hword : m.kind.isMark = false := by
      rcases hkind with hkind | hkind <;> rw [hkind] <;> rfl
    obtain ⟨m', hbegins', hm'⟩ := hbegins.overlooked hd hm hword
    obtain ⟨b', hhead', hb'⟩ := namespaceHead_overlooks.ok hm' hhead hb
    have hkind' : m'.kind = .keyword .namespaceKw ∨ m'.kind = .keyword .moduleKw :=
      (Insertion.Views.kind (.inl hm')) ▸ hkind
    obtain ⟨e', he', hgains⟩ := ih hb' he
    refine ⟨e', he', fun hall hall' hadds hf => ?_⟩
    obtain ⟨inner, inner', g, g', hrun, hrun', ⟨base, statement, statement', behind, behind', rfl, rfl, hgain,
      hbehind⟩, hg⟩ := hgains hall hall' hadds hf
    rw [statementsUntil_of_declaration hsteps hbegins
        (declaration_of_namespace hbegins.named hkind hhead hrun),
      statementsUntil_of_declaration hsteps' hbegins'
        (declaration_of_namespace hbegins'.named hkind' hhead' hrun')]
    exact statements_gain (.inNamespace (same_place _ _) hgain hbehind) hg

end Ways

end NodeFactory
