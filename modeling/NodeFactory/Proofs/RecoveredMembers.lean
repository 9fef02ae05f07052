import NodeFactory.Proofs.ContainedTypes
import NodeFactory.Proofs.ReadingOn

/-!
# Members around an error

In a list of members, between braces, the lexemes up to a semicolon may be anything that nests. Whatever
errors are in them, the members before them and behind the semicolon are read as they are, and the list ends
with its own brace (`members_recovered`): an error stays inside groups that are open in those lexemes, and
what is skipped after it ends with the semicolon at the latest.
-/

namespace NodeFactory

open Parse Text

section Bodies

variable {text : List Char} {behind : List Lexeme} {c : Cursor}

/-- Steps over lexemes that nest lead behind the semicolon, whatever errors they report. -/
theorem crosses_of_strays (h : Strays text behind [] c) (members : List Member) :
    ∃ recovered d, repeatFrom (memberStep typeExpr) members c
        = repeatFrom (memberStep typeExpr) (members ++ recovered) d ∧ Crossed behind d := by
  generalize hn : c.size = n
  induction n using Nat.strongRecOn generalizing members c with
  | ind n ih =>
    obtain ⟨result, d, hstep, hresult⟩ := memberStep_contained typeExpr_stays .nil h members
    cases result with
    | inr members' =>
      obtain ⟨-, outer, hclosers, -⟩ := hresult
      cases hclosers
    | inl members' =>
      obtain ⟨⟨more, rfl⟩, hd⟩ := hresult
      have hlt := size_of_memberStep (fun _ => typeExpr_takes) hstep
      rw [repeatFrom_of_inl hstep hlt]
      rcases hd with hd | ⟨-, hcrossed⟩
      · obtain ⟨recovered, e, hrun, hcrossed⟩ := ih d.size (hn ▸ hlt) hd (members ++ more) rfl
        exact ⟨more ++ recovered, e, by rw [hrun, List.append_assoc], hcrossed⟩
      · exact ⟨more, d, rfl, hcrossed⟩

/-- The cursor behind a lexeme that has been read. -/
def Cursor.past (lexeme : Lexeme) (lexemes : List Lexeme) (errors : List ParseError) : Cursor :=
  { Cursor.before lexeme.span.stop lexemes with errors := errors }

variable {opening semicolon closing : Lexeme} {xs bad ys after : List Lexeme}
  {members members' : List Member}

theorem members_of_opening (hrest : c.rest = opening :: xs) (hopening : opening.kind = .openBrace) :
    Parse.members typeExpr c
      = repeatFrom (memberStep typeExpr) [] (Cursor.past opening xs c.errors) := by
  have hkind : c.kind = .openBrace := (Cursor.kind_of_cons hrest).trans hopening
  rw [members_eq, bind_of_ok (expect_of_kind hkind), Cursor.next_of_cons hrest]
  rfl

theorem memberLoop_of_closing {d : Cursor} (hrest : d.rest = closing :: after)
    (hclosing : closing.kind = .closeBrace) (members : List Member) :
    repeatFrom (memberStep typeExpr) members d = .ok members (Cursor.past closing after d.errors) := by
  have hkind : d.kind = .closeBrace := (Cursor.kind_of_cons hrest).trans hclosing
  rw [repeatFrom_of_inr (memberStep_of_closing hkind), Cursor.next_of_cons hrest]
  rfl

/-- A list of members that are each ended by a semicolon is read up to its brace. -/
theorem members_of_areMembers (htext : ∀ lexeme ∈ xs, lexeme ∈ lexemesOf text)
    (hrest : c.rest = opening :: (xs ++ closing :: after)) (hopening : opening.kind = .openBrace)
    (hclosing : closing.kind = .closeBrace) (h : AreMembers opening.span.stop xs members) :
    Parse.members typeExpr c = .ok members (Cursor.past closing after c.errors) := by
  rw [members_of_opening hrest hopening]
  obtain ⟨d, hrun, hd, -, herrors⟩ := h.run htext
    (c := Cursor.past opening (xs ++ closing :: after) c.errors) rfl rfl rfl []
  rw [hrun, List.nil_append, memberLoop_of_closing hd hclosing, herrors]
  rfl

theorem members_of_matched (htext : ∀ lexeme ∈ c.rest, lexeme ∈ lexemesOf text)
    (hrest : c.rest = opening :: (xs ++ (bad ++ semicolon :: (ys ++ closing :: after))))
    (hopening : opening.kind = .openBrace) (hsemicolon : semicolon.kind = .semicolon)
    (hclosing : closing.kind = .closeBrace) (hbad : Matched (kindsIn bad))
    (h : AreMembers opening.span.stop xs members) (h' : AreMembers semicolon.span.stop ys members') :
    ∃ recovered errors, Parse.members typeExpr c
      = .ok (members ++ recovered ++ members') (Cursor.past closing after errors) := by
  have htext' : ∀ lexeme ∈ xs ++ (bad ++ semicolon :: (ys ++ closing :: after)), lexeme ∈ lexemesOf text :=
    fun lexeme hmem => htext lexeme (hrest ▸ List.mem_cons_of_mem _ hmem)
  obtain ⟨hxs, hmore⟩ := List.forall_mem_append.1 htext'
  obtain ⟨-, hmore'⟩ := List.forall_mem_append.1 hmore
  obtain ⟨hys, -⟩ := List.forall_mem_append.1 (List.forall_mem_cons.1 hmore').2
  rw [members_of_opening hrest hopening]
  obtain ⟨d, hrun, hd, -, -⟩ := h.run (c := Cursor.past opening _ c.errors) hxs rfl rfl rfl []
  have hinside : Inside text (semicolon :: (ys ++ closing :: after)) [] d :=
    ⟨⟨bad, hd, hbad⟩, ⟨semicolon, _, rfl, hsemicolon⟩, fun lexeme hmem => hmore lexeme (hd ▸ hmem)⟩
  obtain ⟨recovered, e, hrun', semicolon', rest, heq, he, hlast, hexpected⟩ :=
    crosses_of_strays hinside.strays ([] ++ members)
  obtain ⟨rfl, rfl⟩ := List.cons.inj heq
  obtain ⟨e', hrun'', he', -, -⟩ := h'.run hys he hlast hexpected ([] ++ members ++ recovered)
  refine ⟨recovered, e'.errors, ?_⟩
  rw [hrun, hrun', hrun'', memberLoop_of_closing he' hclosing, List.nil_append]

end Bodies

section Recovery

variable {text : List Char} {c : Cursor} {opening semicolon closing : Lexeme}
  {xs bad ys after : List Lexeme} {members members' : List Member}

/-- Errors that are reported in a list of members are added to those before. -/
theorem members_adds {errors : List ParseError}
    (h : Parse.members typeExpr c = .ok members (Cursor.past closing after errors)) :
    ∃ more, errors = c.errors ++ more := by
  let fresh : Cursor := { c with errors := [] }
  have hc : c = fresh.preceded c.errors := Cursor.eq_of_fields rfl rfl rfl (List.append_nil _).symm
  have hrun := members_indifferent typeExpr_indifferent c.errors fresh
  rw [← hc, h] at hrun
  cases hfresh : Parse.members typeExpr fresh with
  | ok value d =>
    rw [hfresh] at hrun
    exact ⟨d.errors, congrArg Cursor.errors (EStateM.Result.ok.inj hrun).2⟩
  | error error d =>
    rw [hfresh] at hrun
    cases hrun

theorem Cursor.past_preceded (errors : List ParseError) :
    Cursor.past closing after errors = (Cursor.past closing after []).preceded errors :=
  Cursor.eq_of_fields rfl rfl rfl (List.append_nil errors).symm

/-- In the body of an interface or of a type literal, let anything that nests stand between members that
are each ended by a semicolon, with a semicolon behind it. The members before it and those behind it are
read unchanged. The body ends with its own brace, as one would that is read without errors, and from there
on reading goes on as behind such a one. -/
theorem members_recovered (htext : c.rest <:+ lexemesOf text)
    (hrest : c.rest = opening :: (xs ++ (bad ++ semicolon :: (ys ++ closing :: after))))
    (hopening : opening.kind = .openBrace) (hsemicolon : semicolon.kind = .semicolon)
    (hclosing : closing.kind = .closeBrace) (hbad : Matched (kindsIn bad))
    (h : AreMembers opening.span.stop xs members) (h' : AreMembers semicolon.span.stop ys members') :
    ∃ recovered errors,
      let all := members ++ recovered ++ members'
      let d := Cursor.past closing after (c.errors ++ errors)
      Parse.members typeExpr c = .ok all d
        ∧ (∀ b make, interfaceHead b = .ok make c → interfaceDecl b = .ok (make all) d)
        ∧ primaryType typeExpr (typeAt .suffixed) c
          = .ok ⟨.literal all, ⟨c.start, max closing.span.stop c.start⟩⟩ d
        ∧ ∀ (text' : List Char) (c' : Cursor) (opening' : Lexeme) (good : List Lexeme)
          (members'' : List Member), c'.rest <:+ lexemesOf text' →
            c'.rest = opening' :: (good ++ closing :: after) → opening'.kind = .openBrace →
              AreMembers opening'.span.stop good members'' →
                Parse.members typeExpr c' = .ok members'' (Cursor.past closing after c'.errors)
                  ∧ ReadsOnAlike (c.errors ++ errors) c'.errors c c' := by
  obtain ⟨recovered, errors, hmembers⟩ := members_of_matched (fun lexeme hmem => htext.mem hmem) hrest
    hopening hsemicolon hclosing hbad h h'
  obtain ⟨more, rfl⟩ := members_adds hmembers
  have hkind : c.kind = .openBrace := (Cursor.kind_of_cons hrest).trans hopening
  refine ⟨recovered, more, hmembers, fun b make hhead => interfaceDecl_of_members hhead hmembers,
    literal_of_members hkind hmembers, ?_⟩
  intro text' c' opening' good members'' htext' hrest' hopening' hgood
  have hmembers' : Parse.members typeExpr c' = .ok members'' (Cursor.past closing after c'.errors) := by
    refine members_of_areMembers (fun lexeme hmem => htext'.mem ?_) hrest' hopening' hclosing hgood
    rw [hrest']
    exact List.mem_cons_of_mem _ (List.mem_append_left _ hmem)
  have hkind' : c'.kind = .openBrace := (Cursor.kind_of_cons hrest').trans hopening'
  rw [Cursor.past_preceded] at hmembers hmembers'
  exact ⟨(Cursor.past_preceded c'.errors) ▸ hmembers', readsOnAlike hkind hkind' hmembers hmembers'⟩

/-- An error in a bracket inside a bracket, between two members. -/
def errorBetween : List Char := "interface A{a;x:[(=)];b;}".toList

theorem errorBetween_recovered :
    let lexemes := lexemesOf errorBetween
    let c := (Cursor.ofTokens (Token.tokenize errorBetween)).skip 2
    ∃ a b recovered closing errors, AreMembers 12 ((lexemes.drop 3).take 2) [a]
      ∧ AreMembers 22 ((lexemes.drop 13).take 2) [b]
      ∧ Matched (kindsIn ((lexemes.drop 5).take 7))
      ∧ Parse.members typeExpr c = .ok ([a] ++ recovered ++ [b]) (Cursor.past closing [] errors) := by
  intro lexemes c
  let opening := lexemes.get ⟨2, by decide +kernel⟩
  let semicolon := lexemes.get ⟨12, by decide +kernel⟩
  let closing := lexemes.get ⟨15, by decide +kernel⟩
  have htext : c.rest <:+ lexemes := by
    rw [Cursor.rest_skip]
    exact List.drop_suffix 2 _
  have hrest : c.rest = opening :: ((lexemes.drop 3).take 2 ++ ((lexemes.drop 5).take 7
      ++ semicolon :: ((lexemes.drop 13).take 2 ++ closing :: []))) := by
    rw [Cursor.rest_skip]
    decide +kernel
  have hopening : opening.kind = .openBrace ∧ opening.span.stop = 12 := by decide +kernel
  have hsemicolon : semicolon.kind = .semicolon ∧ semicolon.span.stop = 22 := by decide +kernel
  have hclosing : closing.kind = .closeBrace := by decide +kernel
  have hbad : Matched (kindsIn ((lexemes.drop 5).take 7)) := by decide +kernel
  have hfirst : isOneMember 12 ((lexemes.drop 3).take 2) = true := by decide +kernel
  have hsecond : isOneMember 22 ((lexemes.drop 13).take 2) = true := by decide +kernel
  obtain ⟨a, ha⟩ := areMembers_of_isOneMember hfirst
  obtain ⟨b, hb⟩ := areMembers_of_isOneMember hsecond
  obtain ⟨recovered, errors, hmembers, -⟩ := members_recovered htext hrest hopening.1 hsemicolon.1
    hclosing hbad (hopening.2 ▸ ha) (hsemicolon.2 ▸ hb)
  exact ⟨a, b, recovered, closing, _, ha, hb, hbad, hmembers⟩

end Recovery

end NodeFactory
