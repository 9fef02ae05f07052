import NodeFactory.Proofs.ParseProgress
import NodeFactory.Proofs.TypeText

/-!
# Members one after the other

A step over a list of members reads the brace that closes it, or a member, or recovers from an error. Some
lexemes are members that are each ended by a semicolon if they are read so by themselves (`AreMembers`). As
nothing is looked for behind such a semicolon, they are read alike whatever follows, and whatever errors
were reported before (`AreMembers.run`).
-/

namespace NodeFactory

open Parse Text

section Steps

variable {type : Parse TypeExpr} {members : List Member} {c d : Cursor}

theorem memberStep_of_closing (h : c.kind = .closeBrace) :
    memberStep type members c = .ok (.inr members) c.next := by
  unfold memberStep
  rw [bind_of_ok (eat_of_kind h)]
  rfl

/-- What a step does where neither the closing brace nor the end is next. -/
theorem memberStep_of_ne (hclosing : c.kind ≠ .closeBrace) (hend : c.kind ≠ .endOfFile) :
    memberStep type members c = (Parse.outcome (member type) >>= fun result =>
      match result with
      | .ok member => pure (.inl (members ++ [member]))
      | .error error => do
        report error
        recover .closeBrace
        pure (.inl members) : Parse (List Member ⊕ List Member)) (c.expect [.closeBrace]) := by
  unfold memberStep
  rw [bind_of_ok (eat_of_ne hclosing)]
  show (if (c.kind == .endOfFile) = true then _ else _ : Parse _) (c.expect [.closeBrace]) = _
  exact congrFun (if_neg (by simpa using hend)) _

theorem memberStep_of_member {value : Member} (hclosing : c.kind ≠ .closeBrace)
    (hend : c.kind ≠ .endOfFile) (h : member type (c.expect [.closeBrace]) = .ok value d) :
    memberStep type members c = .ok (.inl (members ++ [value])) d := by
  rw [memberStep_of_ne hclosing hend, bind_of_ok (outcome_of_ok h)]
  rfl

theorem memberStep_of_error {error : ParseError} (hclosing : c.kind ≠ .closeBrace)
    (hend : c.kind ≠ .endOfFile) (h : member type (c.expect [.closeBrace]) = .error error d) :
    memberStep type members c = (do report error; recover .closeBrace; return .inl members :
      Parse (List Member ⊕ List Member)) d := by
  rw [memberStep_of_ne hclosing hend, bind_of_ok (outcome_of_error h)]

end Steps

section Turns

/-- Members are read one after the other, each where the semicolon that ends the one before it was
read. -/
inductive MembersInTurn : Cursor → List Member → Cursor → Prop
  | done (c : Cursor) : MembersInTurn c [] c
  | next {c m d : Cursor} {value : Member} {members : List Member} :
      c.kind ≠ .closeBrace → c.kind ≠ .endOfFile →
        memberShape typeExpr (c.expect [.closeBrace]) = .ok value.shape m → m.kind = .semicolon →
          member typeExpr (c.expect [.closeBrace]) = .ok value m.next →
            MembersInTurn m.next members d → MembersInTurn c (value :: members) d

/-- The cursor before some lexemes and nothing else. -/
def Cursor.before (lastEnd : Nat) (lexemes : List Lexeme) : Cursor where
  rest := lexemes
  size := lexemes.length
  size_eq := rfl
  lastEnd := lastEnd
  expected := []
  errors := []

/-- By themselves the lexemes, of which the first is behind a place, are read as members that are each
ended by a semicolon. -/
def AreMembers (lastEnd : Nat) (lexemes : List Lexeme) (members : List Member) : Prop :=
  ∃ d, MembersInTurn (Cursor.before lastEnd lexemes) members d ∧ d.rest = [] ∧ d.errors = []

variable {type : Parse TypeExpr} {s : Sequel} {c d m : Cursor} {members base : List Member}

/-- Behind the separator after a member, if there is one. -/
def Cursor.behindSeparator (m : Cursor) : Cursor :=
  if m.kind = .semicolon then m.next
  else if m.kind = .comma then m.next
  else (m.expect [.semicolon]).expect [.comma]

theorem member_eq (type : Parse TypeExpr) (c : Cursor) : member type c = (memberShape type >>= fun shape => do
    unless ← eat .semicolon do discard (eat .comma)
    return (⟨shape, ← spanFrom c.start, c.comments⟩ : Member)) c := rfl

/-- A member ends behind its separator. -/
theorem member_of_memberShape {shape : MemberShape} (h : memberShape type c = .ok shape m) : member type c
    = .ok ⟨shape, ⟨c.start, max m.behindSeparator.lastEnd c.start⟩, c.comments⟩ m.behindSeparator := by
  rw [member_eq, bind_of_ok h]
  unfold Cursor.behindSeparator
  by_cases hsemicolon : m.kind = .semicolon
  · rw [bind_of_ok (eat_of_kind hsemicolon), if_pos hsemicolon]
    rfl
  rw [bind_of_ok (eat_of_ne hsemicolon), if_neg hsemicolon]
  show (discard (eat .comma) >>= _) (m.expect [.semicolon]) = _
  by_cases hcomma : m.kind = .comma
  · have hcomma' : (m.expect [.semicolon]).kind = .comma := hcomma
    rw [bind_of_ok (discard_of_ok (eat_of_kind hcomma')), if_pos hcomma, Cursor.next_expect]
    rfl
  · have hcomma' : (m.expect [.semicolon]).kind ≠ .comma := hcomma
    rw [bind_of_ok (discard_of_ok (eat_of_ne hcomma')), if_neg hcomma]
    rfl

/-- A member with the semicolon that ends it. -/
theorem member_of_shape {shape : MemberShape} (h : memberShape type c = .ok shape m)
    (hsemicolon : m.kind = .semicolon) : member type c
      = .ok ⟨shape, ⟨c.start, max m.next.lastEnd c.start⟩, c.comments⟩ m.next := by
  rw [member_of_memberShape h, Cursor.behindSeparator, if_pos hsemicolon]

theorem member_of_memberShape_error {error : ParseError} (h : memberShape type c = .error error m) :
    member type c = .error error m := by
  rw [member_eq, bind_of_error h]

/-- Such members are read in as many steps. -/
theorem MembersInTurn.run (h : MembersInTurn c members d) (base : List Member) :
    repeatFrom (memberStep typeExpr) base c = repeatFrom (memberStep typeExpr) (base ++ members) d := by
  induction h generalizing base with
  | done c => rw [List.append_nil]
  | next hclosing hend _ _ hmember _ ih =>
    rw [memberStep_advances.repeats, bind_of_ok (memberStep_of_member hclosing hend hmember)]
    exact (ih _).trans (by rw [List.append_assoc, List.singleton_append])

theorem Cursor.rest_of_semicolon (h : m.kind = .semicolon) :
    ∃ semicolon, m.rest = semicolon :: m.next.rest ∧ semicolon.kind = .semicolon := by
  have hmore : m.kind ≠ .endOfFile := by
    rw [h]
    nofun
  obtain ⟨semicolon, hrest, hkind⟩ := Cursor.rest_of_kind hmore
  exact ⟨semicolon, hrest, hkind.trans h⟩

theorem memberShape_took {shape : MemberShape} (h : memberShape typeExpr c = .ok shape m) (s : Sequel) :
    ∃ xs, Took s (fun shape xs => LedBy (outlines shape) xs) (memberShape typeExpr) c shape m xs :=
  (memberShape_takes (n := c.size) (fun _ _ => typeExpr_takes) (Nat.le_refl c.size)).ok shape m h

theorem MembersInTurn.errors (h : MembersInTurn c members d) (hclean : d.errors = []) : c.errors = [] := by
  induction h with
  | done c => exact hclean
  | @next c m _ _ _ _ _ hshape _ _ _ ih =>
    obtain ⟨xs, htook⟩ := memberShape_took hshape ⟨[], []⟩
    exact htook.errors (m.errors_next ▸ ih hclean)

/-- What is read ends with a semicolon, and what was looked for behind it does not count. -/
theorem MembersInTurn.ends (h : MembersInTurn c members d) :
    (members = [] ∧ d = c) ∨ d.expected = [] ∧ ∃ xs semicolon, c.rest = xs ++ semicolon :: d.rest
      ∧ semicolon.kind = .semicolon := by
  induction h with
  | done c => exact .inl ⟨rfl, rfl⟩
  | @next c m _ _ _ _ _ hshape hsemicolon _ _ ih =>
    right
    obtain ⟨xs, htook⟩ := memberShape_took hshape ⟨[], []⟩
    obtain ⟨semicolon, hrest, hkind⟩ := Cursor.rest_of_semicolon hsemicolon
    have hread : c.rest = xs ++ semicolon :: m.next.rest := by
      rw [← hrest]
      exact htook.reads.rest
    rcases ih with ⟨-, rfl⟩ | ⟨hexpected, ys, last, hrest', hlast⟩
    · exact ⟨m.expected_next, xs, semicolon, hread, hkind⟩
    · refine ⟨hexpected, xs ++ semicolon :: ys, last, ?_, hlast⟩
      rw [hread, hrest', List.append_assoc, List.cons_append]

/-- Members that are read in turn are so read where others follow. -/
theorem MembersInTurn.extend (h : MembersInTurn c members d) (hclean : d.errors = [])
    (hended : Ended c.rest) : MembersInTurn (c.extend s) members (d.extend s) := by
  induction h with
  | done c => exact .done _
  | @next c m _ value _ hclosing hend hshape hsemicolon hmember hmembers ih =>
    obtain ⟨xs, htook⟩ := memberShape_took hshape s
    obtain ⟨semicolon, hrest, -⟩ := Cursor.rest_of_semicolon hsemicolon
    have hm : m.rest ≠ [] := hrest ▸ List.cons_ne_nil _ _
    have hc : c.rest ≠ [] := htook.reads.rest_ne_nil hm
    have hnext : Ended ([semicolon] ++ m.next.rest) := by
      rw [List.singleton_append, ← hrest]
      exact htook.reads.ended hended
    have hclean' : m.errors = [] := m.errors_next ▸ hmembers.errors hclean
    have hshape' := htook.steady hclean' hm hended
    have hsemicolon' : (m.extend s).kind = .semicolon := (Cursor.kind_extend hm).trans hsemicolon
    -- The member is placed by where it begins and where the semicolon ends.
    have hmember' := member_of_shape hshape' hsemicolon'
    have hvalue := EStateM.Result.ok.inj (hmember.symm.trans (member_of_shape hshape hsemicolon))
    rw [Cursor.start_extend (c := c.expect _) hc, Cursor.comments_extend (c := c.expect _) hc,
      Cursor.next_extend hm, Cursor.lastEnd_extend, ← hvalue.1] at hmember'
    have hmembers' := ih hclean hnext.of_append
    rw [← Cursor.next_extend hm] at hmember' hmembers'
    refine .next ?_ ?_ hshape' hsemicolon' hmember' hmembers'
    · rwa [Cursor.kind_extend hc]
    · rwa [Cursor.kind_extend hc]

variable {text : List Char} {lastEnd : Nat} {xs after : List Lexeme}

/-- Whether lexemes are one member that is ended by a semicolon can be found by reading them. -/
def isOneMember (lastEnd : Nat) (lexemes : List Lexeme) : Bool :=
  let c := Cursor.before lastEnd lexemes
  c.kind != .closeBrace && c.kind != .endOfFile
    && match memberShape typeExpr (c.expect [.closeBrace]) with
      | .ok _ m => m.kind == .semicolon && m.next.rest.isEmpty && m.errors.isEmpty
      | .error _ _ => false

theorem areMembers_of_isOneMember (h : isOneMember lastEnd xs = true) :
    ∃ value, AreMembers lastEnd xs [value] := by
  unfold isOneMember at h
  simp only [Bool.and_eq_true, bne_iff_ne] at h
  obtain ⟨⟨hclosing, hend⟩, hread⟩ := h
  cases hshape : memberShape typeExpr ((Cursor.before lastEnd xs).expect [.closeBrace]) with
  | error error m =>
    rw [hshape] at hread
    cases hread
  | ok shape m =>
    rw [hshape] at hread
    simp only [Bool.and_eq_true, beq_iff_eq, List.isEmpty_iff] at hread
    obtain ⟨⟨hsemicolon, hrest⟩, hclean⟩ := hread
    have hmember := member_of_shape hshape hsemicolon
    exact ⟨_, m.next, .next hclosing hend hshape hsemicolon hmember (.done _), hrest,
      m.errors_next.trans hclean⟩

theorem AreMembers.ended (h : AreMembers lastEnd xs members)
    (htext : ∀ lexeme ∈ xs, lexeme ∈ lexemesOf text) : Ended xs := by
  obtain ⟨d, hmembers, hend, -⟩ := h
  refine ⟨fun lexeme hlast => ?_, fun lexeme hmem => allGenuine_lexemesOf text lexeme (htext lexeme hmem)⟩
  rcases hmembers.ends with ⟨-, rfl⟩ | ⟨-, ys, semicolon, hrest, hkind⟩
  · change xs = [] at hend
    rw [hend] at hlast
    cases hlast
  · change xs = _ at hrest
    rw [hrest, hend, List.getLast?_concat] at hlast
    obtain rfl : semicolon = lexeme := Option.some.inj hlast
    have hmem : semicolon ∈ xs := hrest ▸ List.mem_append_right _ List.mem_cons_self
    exact .inl ⟨hkind, Token.text_of_semicolon (Lexeme.token_mem (htext semicolon hmem)) hkind⟩

/-- Where the lexemes of members are next, the members are read, and nothing is reported. -/
theorem AreMembers.run (h : AreMembers lastEnd xs members)
    (htext : ∀ lexeme ∈ xs, lexeme ∈ lexemesOf text) (hrest : c.rest = xs ++ after)
    (hlast : c.lastEnd = lastEnd) (hexpected : c.expected = []) (base : List Member) :
    ∃ d, repeatFrom (memberStep typeExpr) base c = repeatFrom (memberStep typeExpr) (base ++ members) d
      ∧ d.rest = after ∧ d.expected = [] ∧ d.errors = c.errors := by
  have hended := h.ended htext
  obtain ⟨d, hmembers, hend, hclean⟩ := h
  have hc : c = (Cursor.before lastEnd xs).extend ⟨after, c.errors⟩ :=
    Cursor.eq_of_fields hrest hlast hexpected (List.append_nil _).symm
  refine ⟨d.extend ⟨after, c.errors⟩, ?_, ?_, ?_, ?_⟩
  · have hrun := (hmembers.extend (s := ⟨after, c.errors⟩) hclean hended).run base
    rwa [← hc] at hrun
  · rw [Cursor.rest_extend, hend, List.nil_append]
  · rcases hmembers.ends with ⟨-, rfl⟩ | ⟨hexpected, -⟩
    · rfl
    · exact hexpected
  · show c.errors ++ d.errors = c.errors
    rw [hclean, List.append_nil]

end Turns

end NodeFactory
