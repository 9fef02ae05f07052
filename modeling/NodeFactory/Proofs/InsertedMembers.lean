import NodeFactory.Proofs.IndexMembers
import NodeFactory.Proofs.LayoutFreeTypes
import NodeFactory.Proofs.Overlooking

/-!
# Members put in

In a list of members, behind the opening brace or behind a semicolon that ends a member, an index signature
or a mapped member is put in (`BeforeMember`). The members before it are read as they are, errors in
them included (`BeforeMember.overlooked`). The inserted lexemes are read as one member without a name, with a
property before it if they begin with `readonly` (`indexMember_run`). The members behind are read as without
it but for where they are (`memberLoop_alike`). So the list has those members besides, and no other errors
(`members_inserted`).
-/

namespace NodeFactory

open Parse Text

section Before

variable {i : Insertion} {c c' d : Cursor} {base : List Member}

/-- In the list of members at a cursor, a place where none has been begun: behind the opening brace, or
behind a semicolon that ends a member. -/
inductive BeforeMember (c : Cursor) : List Member → Cursor → Prop
  | first : c.kind = .openBrace → BeforeMember c [] c.next
  | behind {base : List Member} {value : Member} {m d : Cursor} :
      c.kind = .openBrace → Steps (memberStep typeExpr) [] c.next base m → MembersInTurn m [value] d →
        BeforeMember c (base ++ [value]) d

/-- The list is read on from there. -/
theorem BeforeMember.run (h : BeforeMember c base d) :
    members typeExpr c = repeatFrom (memberStep typeExpr) base d := by
  have hmembers : c.kind = .openBrace →
      members typeExpr c = repeatFrom (memberStep typeExpr) [] c.next := fun hkind => by
    rw [members_eq, bind_of_ok (expect_of_kind hkind)]
  cases h with
  | first hkind => exact hmembers hkind
  | behind hkind hsteps hlast => rw [hmembers hkind, hsteps.run memberStep_advances, hlast.run]

/-- Before lexemes of which the first is the mark. -/
theorem Insertion.Parallel.before_mark (h : i.Parallel c c') (hnext : c.next.rest = i.behind)
    (hmore : c.kind ≠ .endOfFile) : c.rest = i.left ∧ c'.rest = i.filled := by
  obtain ⟨ahead, hc, hc'⟩ := h.rest
  obtain ⟨first, hrest, -⟩ := Cursor.rest_of_kind hmore
  have hlength := congrArg List.length (hc.symm.trans hrest)
  rw [hnext, List.length_append, List.length_cons] at hlength
  have hsize : i.left.length = i.behind.length + 1 := rfl
  obtain rfl : ahead = [] := List.eq_nil_of_length_eq_zero (by omega)
  exact ⟨hc, hc'⟩

/-- What is put in is next on the other side once the mark has been read. -/
theorem Insertion.Parallel.next_of_mark (h : i.Parallel c c') (hc : c.rest = i.left) (hc' : c'.rest = i.filled) :
    c'.next.rest = i.inserted ++ i.moved ∧ c'.next.lastEnd = i.mark.span.stop
      ∧ c.next.lastEnd = i.mark.span.stop ∧ c'.next.errors = c.next.errors := by
  rw [Cursor.next_of_cons hc, Cursor.next_of_cons hc']
  exact ⟨rfl, rfl, rfl, h.errors.symm⟩

/-- The place is found on the other side, with the same members before it. -/
theorem BeforeMember.overlooked (h : BeforeMember c base d) (hc : i.Parallel c c') (hd : d.rest = i.behind) :
    ∃ d', BeforeMember c' base d' ∧ d'.rest = i.inserted ++ i.moved ∧ d'.lastEnd = i.mark.span.stop
      ∧ d'.expected = [] ∧ d.expected = [] ∧ d'.errors = d.errors := by
  have hopens : c.kind = .openBrace → c'.kind = .openBrace := fun hkind =>
    (Insertion.Views.kind (.inl hc)).symm.trans hkind
  cases h with
  | first hkind =>
    obtain ⟨hleft, hfilled⟩ := hc.before_mark hd (by rw [hkind]; nofun)
    obtain ⟨hrest, hlast, -, herrors⟩ := hc.next_of_mark hleft hfilled
    exact ⟨c'.next, .first (hopens hkind), hrest, hlast, c'.expected_next, c.expected_next, herrors⟩
  | @behind base value e d hkind hsteps hlast =>
    cases hlast with
    | @next e m _ _ _ hclosing hend hshape hsemicolon hmember hdone =>
    cases hdone
    have hsize : i.size = m.rest.length := by
      obtain ⟨semicolon, hm, -⟩ := Cursor.rest_of_semicolon hsemicolon
      rw [hm, hd]
      rfl
    have hleft : i.size ≤ m.size := hsize.trans_le (m.size_eq ▸ Nat.le_refl _)
    have hshapes := memberShape_overlooks (i := i) typeExpr_overlooks
    have he : i.size ≤ (e.expect [.closeBrace]).size := hshapes.not_passed hshape hleft
    have hstep : ∀ members, Overlooks i (memberStep typeExpr members) (memberStep typeExpr members) :=
      memberStep_overlooks typeExpr_overlooks
    have hnext : i.Parallel c.next c'.next :=
      hc.next.resolve_right (Nat.not_lt.2 (hsteps.not_passed hstep he))
    obtain ⟨e', hsteps', he'⟩ := hsteps.overlooked hstep hnext he
    obtain ⟨m', hshape', hm⟩ := hshapes.ok (he'.expect [.closeBrace]) hshape hleft
    obtain ⟨hmleft, hmfilled⟩ := hm.before_mark hd (by rw [hsemicolon]; nofun)
    obtain ⟨hrest, hlast, hlast', herrors⟩ := hm.next_of_mark hmleft hmfilled
    have hviews : i.Views (e.expect [.closeBrace]) (e'.expect [.closeBrace]) := .inl (he'.expect _)
    have hsemicolon' : m'.kind = .semicolon := (Insertion.Views.kind (.inl hm)).symm.trans hsemicolon
    have hmember' : member typeExpr (e'.expect [.closeBrace]) = .ok value m'.next := by
      have hvalue := (EStateM.Result.ok.inj (hmember.symm.trans (member_of_shape hshape hsemicolon))).1
      rw [member_of_shape hshape' hsemicolon', ← hviews.start, ← hviews.comments, hlast, ← hlast', ← hvalue]
    have hkind' : e'.kind = e.kind := hviews.kind.symm
    refine ⟨m'.next, .behind (hopens hkind) hsteps' (.next ?_ ?_ hshape' hsemicolon' hmember' (.done _)),
      hrest, hlast, m'.expected_next, m.expected_next, herrors⟩
    · rwa [hkind']
    · rwa [hkind']

end Before

section Inserted

variable {text : List Char} {c : Cursor} {modifier : Option Lexeme} {xs after : List Lexeme}

/-- What a `readonly` before a bracket is read as: a property of that name without a type. -/
def strayShapes (modifier : Option Lexeme) : List MemberShape :=
  modifier.toList.map fun lexeme => .property ⟨String.ofList lexeme.text, lexeme.span⟩ false false none

theorem indexMember_run (hindex : IsIndexMember xs)
    (hmodifier : ∀ lexeme ∈ modifier, lexeme.kind = .keyword .readonlyKw)
    (htext : ∀ lexeme ∈ xs, lexeme ∈ lexemesOf text) (hrest : c.rest = modifier.toList ++ (xs ++ after))
    (hexpected : c.expected = []) (base : List Member) : ∃ stray index d,
      repeatFrom (memberStep typeExpr) base c
          = repeatFrom (memberStep typeExpr) (base ++ (stray ++ [index])) d
        ∧ stray.map Member.shape = strayShapes modifier ∧ index.shape = .index
        ∧ d.rest = after ∧ d.expected = [] ∧ d.errors = c.errors := by
  cases modifier with
  | none =>
    obtain ⟨index, hshape, hmembers⟩ := hindex.areMembers c.lastEnd
    obtain ⟨d, hrun, hd⟩ := hmembers.run htext hrest rfl hexpected base
    exact ⟨[], index, d, hrun, rfl, hshape, hd⟩
  | some lexeme =>
    obtain ⟨opening, zs, rfl, hopening⟩ : ∃ opening zs, xs = opening :: zs ∧ opening.kind = .openBracket := by
      obtain ⟨hbrackets, -, -, -⟩ := hindex
      exact ⟨_, _, rfl, hbrackets.opening⟩
    obtain ⟨stray, m, hstep, hstray, hm, -, herrors⟩ :=
      @memberStep_of_readonly typeExpr _ _ _ _ hrest (hmodifier lexeme rfl) hopening base
    -- What was looked for behind the stray property does not count.
    have hfresh := memberLoop_of_bracket ((Cursor.kind_of_cons hm).trans hopening) [] (base ++ [stray])
    obtain ⟨index, hshape, hmembers⟩ := hindex.areMembers m.lastEnd
    obtain ⟨d, hrun, hd, hexpected', herrors'⟩ :=
      hmembers.run (c := { m with expected := [] }) htext hm rfl rfl (base ++ [stray])
    refine ⟨[stray], index, d, ?_, congrArg (fun shape => [shape]) hstray, hshape, hd, hexpected',
      herrors'.trans herrors⟩
    rw [memberStep_advances.repeats, bind_of_ok hstep]
    show repeatFrom (memberStep typeExpr) (base ++ [stray]) m = _
    rw [← hfresh, hrun, List.append_assoc]

end Inserted

section Behind

/-- What comes after results that are related. -/
theorem Related.bind {m m' : Relocation} {b b' b'' : Bool} {α β : Type} {R : α → α → Prop} {S : β → β → Prop}
    {A A' : Parse α} {B B' : α → Parse β} {c c' : Cursor} (h : Related m m' b b' R (A c) (A' c'))
    (hle : b = true → b' = true)
    (hB : ∀ value value', R value value' → Respects m m' b' b'' S (B value) (B' value')) :
    Related m m' b b'' S ((A >>= B) c) ((A' >>= B') c') := by
  show Related m m' b b'' S (EStateM.bind A B c) (EStateM.bind A' B' c')
  unfold EStateM.bind
  generalize A c = result at h ⊢
  generalize A' c' = result' at h ⊢
  cases h with
  | ok hvalue hc => exact (hB _ _ hvalue _ _ hc).after hle
  | error herror hc => exact .error herror hc

variable {m m' : Relocation} {c c' : Cursor} {base base' : List Member}

/-- The same has been added to two lists, up to where it is. -/
def AddsSame {α : Type} [Relocatable α] (m m' : Relocation) (base base' all all' : List α) : Prop :=
  ∃ more more', all = base ++ more ∧ all' = base' ++ more' ∧ Same m m' more more'

section Adds

variable {α : Type} [Relocatable α] {before before' all all' : List α}

theorem addsSame_refl (before before' : List α) : AddsSame m m' before before' before before' :=
  ⟨[], [], (List.append_nil _).symm, (List.append_nil _).symm, rfl⟩

theorem AddsSame.append (h : AddsSame m m' before before' all all') {more more' : List α}
    (hmore : Same m m' more more') : AddsSame m m' before before' (all ++ more) (all' ++ more') := by
  obtain ⟨first, first', rfl, rfl, hfirst⟩ := h
  refine ⟨first ++ more, first' ++ more', List.append_assoc _ _ _, List.append_assoc _ _ _, ?_⟩
  unfold Same at *
  rw [relocate_append, relocate_append, hfirst, hmore]

end Adds

theorem memberStep_respects {all all' : List Member} (h : AddsSame m m' base base' all all') :
    Respects m m' true true (Sum.LiftRel (AddsSame m m' base base') (AddsSame m m' base base'))
      (memberStep typeExpr all) (memberStep typeExpr all') := by
  unfold memberStep
  refine .eat (.pure (.inr h)) (.isAt fun _ => .ite (fun _ => ?_) fun _ => ?_)
  · exact (unexpected_respects (R := fun _ _ => False)).bind fun _ _ h => h.elim
  refine .attempt (member_respects typeExpr_respects) (fun member member' hmember => ?_) fun _ _ herror => ?_
  · exact .pure (.inl (h.append (Same.nil.concat hmember)))
  · refine (report_respects herror).bind fun _ _ _ => (recover_respects _).bind fun _ _ _ => ?_
    exact .pure (.inl h)

/-- Where the gap before the first lexeme is changed so that it counts. -/
theorem Alike.aligned (h : Alike .erasing .erasing false c c') : ∃ d, Alike .erasing .erasing true c d
    ∧ (d = c' ∨ c'.kind = .openBracket ∧ d.kind = .openBracket ∧ c'.next = d.next ∧ c'.start = d.start) := by
  have hrest := h.rest
  generalize hlexemes : c.rest = lexemes at hrest
  generalize hlexemes' : c'.rest = lexemes' at hrest
  cases hrest with
  | nil =>
    refine ⟨c', ⟨?_, fun _ => rfl, h.expected, h.errors⟩, .inl rfl⟩
    rw [hlexemes, hlexemes']
    exact .nil
  | @cons _ first first' rest rest' hagrees hjoins hrest =>
    obtain ⟨hkind, htext, hspan, -, -⟩ := hagrees
    by_cases hbracket : first.kind = .openBracket
    · let aligned : Lexeme := { first' with gap := first.gap }
      let d : Cursor := ⟨aligned :: rest', c'.size, by rw [c'.size_eq, hlexemes']; rfl, c'.lastEnd,
        c'.expected, c'.errors⟩
      have hbracket' : first'.kind = .openBracket := hkind.symm.trans hbracket
      refine ⟨d, ⟨?_, fun _ => rfl, h.expected, h.errors⟩,
        .inr ⟨(Cursor.kind_of_cons hlexemes').trans hbracket', hbracket', ?_, ?_⟩⟩
      · rw [hlexemes]
        exact .cons ⟨hkind, htext, hspan, fun _ => rfl, fun _ _ => rfl⟩ hjoins hrest
      · rw [Cursor.next_of_cons hlexemes', Cursor.next_of_cons (rfl : d.rest = _)]
        rfl
      · rw [Cursor.start, Cursor.peek?, hlexemes']
        rfl
    · refine ⟨c', ⟨?_, fun _ => rfl, h.expected, h.errors⟩, .inl rfl⟩
      rw [hlexemes, hlexemes']
      exact .cons ⟨hkind, htext, hspan, fun _ => rfl, fun _ h => absurd h hbracket⟩ hjoins hrest

/-- In a list of members, the gap before the next lexeme need not count. -/
theorem memberStep_alike (h : Alike .erasing .erasing false c c') (base base' : List Member) :
    Related .erasing .erasing true true
      (Sum.LiftRel (AddsSame .erasing .erasing base base') (AddsSame .erasing .erasing base base'))
      (memberStep typeExpr base c) (memberStep typeExpr base' c') := by
  obtain ⟨d, hd, rfl | ⟨hkind', hkind, hnext, hstart⟩⟩ := h.aligned
  · exact memberStep_respects (addsSame_refl base base') c d hd
  have hrun := memberStep_respects (addsSame_refl base base') c d hd
  rcases @memberStep_of_bracket typeExpr _ _ hkind hkind' hnext.symm hstart.symm base' with
    ⟨value, m, -, hstep, hstep'⟩ | hsame
  · rw [hstep] at hrun
    rw [hstep']
    generalize memberStep typeExpr base c = result at hrun ⊢
    cases hrun with
    | ok hresult hm =>
      cases hresult with
      | inl hmore =>
        obtain ⟨more, more', rfl, hmore', hsame⟩ := hmore
        obtain rfl := List.append_cancel_left hmore'
        -- Comments are left out.
        obtain ⟨shape, span, comments⟩ := value
        exact .ok (.inl ⟨more, _, rfl, rfl, hsame⟩) hm
  · rwa [← hsame]

/-- Behind what is put in, the same members are read. -/
theorem memberLoop_alike (h : Alike .erasing .erasing false c c') (base base' : List Member) :
    Related .erasing .erasing true true (AddsSame .erasing .erasing base base')
      (repeatFrom (memberStep typeExpr) base c) (repeatFrom (memberStep typeExpr) base' c') := by
  rw [memberStep_advances.repeats, memberStep_advances.repeats]
  refine (memberStep_alike h base base').bind id fun result result' hresult => ?_
  cases hresult with
  | inr hall => exact .pure hall
  | inl hall => exact repeatFrom_respects (fun _ _ => memberStep_respects) hall

end Behind

section Bodies

variable {text : List Char} {i : Insertion} {c c' d : Cursor} {base : List Member} {modifier : Option Lexeme}
  {xs : List Lexeme}

/-- The list with the member put in has the same members besides, and the same errors. -/
theorem members_inserted (h : BeforeMember c base d) (hc : i.Parallel c c') (hd : d.rest = i.behind)
    (hindex : IsIndexMember xs) (hmodifier : ∀ lexeme ∈ modifier, lexeme.kind = .keyword .readonlyKw)
    (htext : ∀ lexeme ∈ xs, lexeme ∈ lexemesOf text) (hinserted : i.inserted = modifier.toList ++ xs)
    (hbehind : Agree .erasing .erasing false i.behind i.moved) : ∃ stray index,
      stray.map Member.shape = strayShapes modifier ∧ index.shape = .index
        ∧ Related .erasing .erasing true true (AddsSame .erasing .erasing base (base ++ (stray ++ [index])))
          (members typeExpr c) (members typeExpr c') := by
  obtain ⟨d', hplace, hrest, -, hexpected', hexpected, herrors⟩ := h.overlooked hc hd
  rw [hinserted, List.append_assoc] at hrest
  obtain ⟨stray, index, e, hrun, hstray, hshape, he, hexpectede, herrorse⟩ :=
    indexMember_run hindex hmodifier htext hrest hexpected' base
  refine ⟨stray, index, hstray, hshape, ?_⟩
  rw [h.run, hplace.run, hrun]
  have hd' : Alike .erasing .erasing false d e :=
    ⟨by rwa [hd, he], fun _ => rfl, hexpected.trans hexpectede.symm, by rw [Same, herrorse, herrors]⟩
  exact memberLoop_alike hd' _ _

end Bodies

end NodeFactory
