import NodeFactory.Proofs.Delimiters
import NodeFactory.Proofs.JoinedTexts
import NodeFactory.Proofs.MemberRuns

/-!
# Members in brackets

An index signature or a mapped member is a group in brackets, perhaps with a question mark and a type behind
it, up to a semicolon. By itself it is read as one member without a name (`IsIndexMember.areMembers`), and its
delimiters nest (`IsIndexMember.nests`).

The bracket hides what is before it: from where one is next, a member does not depend on what was looked for, nor
on the gap before the bracket but for the comments there (`memberStep_of_bracket`). A `readonly` before the
bracket is no modifier to the grammar, but a property without a type (`memberStep_of_readonly`).
-/

namespace NodeFactory

open Parse Text

section Groups

variable {closers' : List TokenKind}

/-- Inside a group, delimiters that nest are passed over to find where it ends. -/
theorem groupLength?_of_awaited (ys : List Lexeme) : ∀ {xs : List Lexeme} {closers : List TokenKind},
    awaited closers (kindsIn xs) = some closers' → groupLength? (closers.length + 1) (xs ++ ys)
      = (groupLength? (closers'.length + 1) ys).map (· + xs.length)
  | [], _, h => by
    rw [Option.some.inj h]
    exact Option.map_id'.symm
  | lexeme :: xs, closers, h => by
    rw [awaited_lexeme, Option.bind_eq_some_iff] at h
    obtain ⟨between, hbehind, h⟩ := h
    have hlength := length_of_awaitedBehind hbehind
    have hdepth : (if lexeme.kind.isOpen then closers.length + 2
        else if lexeme.kind.isClose then closers.length else closers.length + 1) = between.length + 1 := by
      by_cases hopen : lexeme.kind.isOpen = true
      · rw [TokenKind.depth_of_isOpen hopen] at hlength
        rw [if_pos hopen]
        omega
      by_cases hclose : lexeme.kind.isClose = true
      · rw [TokenKind.depth_of_isClose hclose] at hlength
        rw [if_neg hopen, if_pos hclose]
        omega
      · rw [TokenKind.depth_of_plain (by simpa using hopen) (by simpa using hclose)] at hlength
        rw [if_neg hopen, if_neg hclose]
        omega
    rw [List.cons_append, groupLength?, hdepth, groupLength?_of_awaited ys h, Option.map_map, List.length_cons]
    rfl

/-- A group in brackets. -/
structure IsBracketed (opening : Lexeme) (inner : List Lexeme) (closing : Lexeme) : Prop where
  opening : opening.kind = .openBracket
  closing : closing.kind = .closeBracket
  inner : Matched (kindsIn inner)

variable {opening closing : Lexeme} {inner : List Lexeme} (h : IsBracketed opening inner closing)
include h

theorem IsBracketed.groupLength? (after : List Lexeme) :
    Parse.groupLength? 1 (inner ++ closing :: after) = some (inner.length + 1) := by
  have hinner := groupLength?_of_awaited (closing :: after) h.inner
  have hlast : Parse.groupLength? 1 (closing :: after) = some 1 := by
    simp [Parse.groupLength?, h.closing, TokenKind.isOpen, TokenKind.isClose]
  rw [show 1 = ([] : List TokenKind).length + 1 from rfl, hinner]
  rw [List.length_nil, Nat.zero_add, hlast, Option.map_some, Nat.add_comm]

theorem IsBracketed.nests : Nests 0 0 (opening :: (inner ++ [closing])) := by
  have hopen : opening.kind.isOpen = true := by
    rw [h.opening]
    rfl
  obtain ⟨-, hnests⟩ := nests_of_groupLength? (h.groupLength? [])
  rw [List.take_of_length_le (by simp)] at hnests
  exact .opening hopen hnests

/-- A group in brackets is skipped as a whole. -/
theorem skipGroup_of_isBracketed {c : Cursor} {after : List Lexeme}
    (hrest : c.rest = opening :: (inner ++ closing :: after)) :
    skipGroup .openBracket c = .ok () (c.skip (inner.length + 2)) := by
  have hkind : c.kind = .openBracket := (Cursor.kind_of_cons hrest).trans h.opening
  have hnext : c.next.rest = inner ++ closing :: after := by
    rw [Cursor.rest_next, hrest, List.tail_cons]
  unfold skipGroup
  rw [bind_of_ok (expect_of_kind hkind), bind_of_ok (rfl : cursor c.next = .ok c.next c.next), hnext,
    h.groupLength? after]
  rfl

end Groups

section Brackets

variable {type : Parse TypeExpr} {c c' : Cursor}

theorem memberShape_of_bracket (h : c.kind = .openBracket) : memberShape type c = indexMember type c := by
  unfold memberShape
  rw [bind_of_ok (rfl : cursor c = .ok c c), h]

/-- The bracket hides what is before it. -/
theorem memberShape_sameFrom (h : c.kind = .openBracket) (h' : c'.kind = .openBracket)
    (hnext : c.next = c'.next) : SameFrom c c' (memberShape type) := by
  rw [SameFrom, memberShape_of_bracket h, memberShape_of_bracket h']
  unfold indexMember skipGroup
  refine SameFrom.bind (SameFrom.bind ?_)
  rw [SameFrom, expect_of_kind h, expect_of_kind h', hnext]

/-- A member in brackets has the comments that are before it, and nothing else of it depends on them. -/
theorem member_of_bracket (h : c.kind = .openBracket) (h' : c'.kind = .openBracket) (hnext : c.next = c'.next)
    (hstart : c.start = c'.start) :
    (∃ value m, value.comments = c.comments ∧ member type c = .ok value m
        ∧ member type c' = .ok { value with comments := c'.comments } m)
      ∨ ∃ error m, member type c = .error error m ∧ member type c' = .error error m := by
  have hsame : memberShape type c = memberShape type c' := memberShape_sameFrom h h' hnext
  cases hshape : memberShape type c with
  | error error m =>
    exact .inr ⟨error, m, member_of_memberShape_error hshape, member_of_memberShape_error (hsame ▸ hshape)⟩
  | ok shape m =>
    have hmember' := member_of_memberShape (hsame ▸ hshape : memberShape type c' = .ok shape m)
    rw [← hstart] at hmember'
    exact .inl ⟨_, _, rfl, member_of_memberShape hshape, hmember'⟩

/-- A step that begins with a bracket. -/
theorem memberStep_of_bracket (h : c.kind = .openBracket) (h' : c'.kind = .openBracket)
    (hnext : c.next = c'.next) (hstart : c.start = c'.start) (members : List Member) :
    (∃ value m, value.comments = c.comments ∧ memberStep type members c = .ok (.inl (members ++ [value])) m
        ∧ memberStep type members c' = .ok (.inl (members ++ [{ value with comments := c'.comments }])) m)
      ∨ memberStep type members c = memberStep type members c' := by
  have hbracket : ∀ {d : Cursor}, d.kind = .openBracket → d.kind ≠ .closeBrace ∧ d.kind ≠ .endOfFile :=
    fun hd => ⟨by rw [hd]; nofun, by rw [hd]; nofun⟩
  obtain ⟨hclosing, hend⟩ := hbracket h
  obtain ⟨hclosing', hend'⟩ := hbracket h'
  have hnext' : (c.expect [.closeBrace]).next = (c'.expect [.closeBrace]).next := by
    rw [Cursor.next_expect, Cursor.next_expect, hnext]
  rcases @member_of_bracket type (c.expect [.closeBrace]) (c'.expect [.closeBrace]) h h' hnext' hstart
    with ⟨value, m, hcomments, hrun, hrun'⟩ | ⟨error, m, hrun, hrun'⟩
  · exact .inl ⟨value, m, hcomments, memberStep_of_member hclosing hend hrun,
      memberStep_of_member hclosing' hend' hrun'⟩
  · right
    rw [memberStep_of_error hclosing hend hrun, memberStep_of_error hclosing' hend' hrun']

/-- What was looked for before a bracket does not count in the list of members. -/
theorem memberLoop_of_bracket (h : c.kind = .openBracket) (kinds : List TokenKind) (members : List Member) :
    repeatFrom (memberStep typeExpr) members { c with expected := kinds }
      = repeatFrom (memberStep typeExpr) members c := by
  have hstep : memberStep typeExpr members { c with expected := kinds } = memberStep typeExpr members c := by
    rcases @memberStep_of_bracket typeExpr { c with expected := kinds } c h h (by rw [Cursor.next, Cursor.next])
      rfl members with ⟨value, m, hcomments, hrun, hrun'⟩ | hsame
    · obtain ⟨shape, span, comments⟩ := value
      obtain rfl : comments = c.comments := hcomments
      rw [hrun, hrun']
    · exact hsame
  rw [memberStep_advances.repeats]
  show EStateM.bind _ _ _ = EStateM.bind _ _ _
  unfold EStateM.bind
  rw [hstep]

end Brackets

section Index

variable {c : Cursor} {text : List Char} {xs : List Lexeme}

/-- A type that is written between a place and a semicolon: by itself it is read up to there, and without
errors. -/
def IsTypeUpTo (lastEnd : Nat) (semicolon : Lexeme) (lexemes : List Lexeme) : Prop :=
  ∃ type d, typeExpr (Cursor.before lastEnd (lexemes ++ [semicolon])) = .ok type d ∧ d.rest = [semicolon]
    ∧ d.errors = []

/-- A question mark, or nothing. -/
def IsQuestion (lexemes : List Lexeme) : Prop :=
  lexemes = [] ∨ ∃ question, lexemes = [question] ∧ question.kind = .question

/-- A colon and a type, or nothing. -/
def IsColonType (semicolon : Lexeme) (lexemes : List Lexeme) : Prop :=
  lexemes = [] ∨ ∃ colon type, lexemes = colon :: type ∧ colon.kind = .colon
    ∧ IsTypeUpTo colon.span.stop semicolon type

/-- An index signature or a mapped member, with the semicolon that ends it. -/
inductive IsIndexMember : List Lexeme → Prop
  | mk {opening closing semicolon : Lexeme} {inner question colonType : List Lexeme} :
      IsBracketed opening inner closing → IsQuestion question → IsColonType semicolon colonType →
        semicolon.kind = .semicolon →
          IsIndexMember (opening :: (inner ++ closing :: (question ++ (colonType ++ [semicolon]))))

/-- The kinds that may be next where a question mark is not. -/
theorem kind_of_colonType {colonType : List Lexeme} {semicolon : Lexeme}
    (h : IsColonType semicolon colonType) (hsemicolon : semicolon.kind = .semicolon)
    (hrest : c.rest = colonType ++ [semicolon]) : c.kind = .colon ∨ c.kind = .semicolon := by
  rcases h with rfl | ⟨colon, type, rfl, hcolon, -⟩
  · exact .inr ((Cursor.kind_of_cons hrest).trans hsemicolon)
  · exact .inl ((Cursor.kind_of_cons hrest).trans hcolon)

theorem kind_behind_brackets {question colonType : List Lexeme} {semicolon : Lexeme}
    (hquestion : IsQuestion question) (hcolonType : IsColonType semicolon colonType)
    (hsemicolon : semicolon.kind = .semicolon)
    (hrest : c.rest = question ++ (colonType ++ [semicolon])) :
    c.kind = .question ∨ c.kind = .colon ∨ c.kind = .semicolon := by
  rcases hquestion with rfl | ⟨mark, rfl, hmark⟩
  · exact .inr (kind_of_colonType hcolonType hsemicolon hrest)
  · exact .inl ((Cursor.kind_of_cons hrest).trans hmark)

/-- A colon and a type are read up to the semicolon. -/
theorem colonType_run {semicolon : Lexeme} {colonType : List Lexeme} (h : IsColonType semicolon colonType)
    (hsemicolon : semicolon.kind = .semicolon) (hrest : c.rest = colonType ++ [semicolon])
    (hclean : c.errors = []) : ∃ d, (do
        if ← eat .colon then discard typeExpr
        return .index : Parse MemberShape) c = .ok .index d ∧ d.rest = [semicolon] ∧ d.errors = [] := by
  rcases h with rfl | ⟨colon, type, rfl, hcolon, value, d, htype, hd, herrors⟩
  · have hkind : c.kind ≠ .colon := by
      rw [Cursor.kind_of_cons hrest, hsemicolon]
      nofun
    refine ⟨c.expect [.colon], ?_, hrest, hclean⟩
    rw [bind_of_ok (eat_of_ne hkind)]
    rfl
  · have hkind : c.kind = .colon := (Cursor.kind_of_cons hrest).trans hcolon
    have hnext : c.next = Cursor.before colon.span.stop (type ++ [semicolon]) := by
      rw [Cursor.next_of_cons hrest, hclean]
      exact Cursor.eq_of_fields rfl rfl rfl rfl
    refine ⟨d, ?_, hd, herrors⟩
    rw [bind_of_ok (eat_of_kind hkind), hnext]
    show (discard typeExpr >>= fun _ => pure .index : Parse MemberShape) _ = _
    rw [bind_of_ok (discard_of_ok htype)]
    rfl

/-- What a member may have behind its brackets is read up to the semicolon. -/
theorem indexRest_run {question colonType : List Lexeme} {semicolon : Lexeme}
    (hquestion : IsQuestion question) (hcolonType : IsColonType semicolon colonType)
    (hsemicolon : semicolon.kind = .semicolon)
    (hrest : c.rest = question ++ (colonType ++ [semicolon])) (hclean : c.errors = []) :
    ∃ d, indexRest typeExpr c = .ok .index d ∧ d.rest = [semicolon] ∧ d.errors = [] := by
  obtain ⟨found, m, hrun, hm, hcleanm⟩ : ∃ found m, eat .question c = .ok found m
      ∧ m.rest = colonType ++ [semicolon] ∧ m.errors = [] := by
    rcases hquestion with rfl | ⟨mark, rfl, hmark⟩
    · have hne : c.kind ≠ .question := by
        rcases kind_of_colonType hcolonType hsemicolon hrest with h | h <;> rw [h] <;> nofun
      exact ⟨_, _, eat_of_ne hne, hrest, hclean⟩
    · refine ⟨_, _, eat_of_kind ((Cursor.kind_of_cons hrest).trans hmark), ?_, ?_⟩
      · rw [Cursor.rest_next, hrest]
        rfl
      · rw [Cursor.errors_next, hclean]
  obtain ⟨d, hrun', hd⟩ := colonType_run hcolonType hsemicolon hm hcleanm
  refine ⟨d, ?_, hd⟩
  unfold indexRest
  rw [bind_of_ok (discard_of_ok hrun)]
  exact hrun'

/-- Behind the brackets of a member without a signature. -/
theorem indexMember_of_ends {type : Parse TypeExpr} {m : Cursor}
    (hgroup : skipGroup .openBracket c = .ok () m)
    (hm : m.kind = .question ∨ m.kind = .colon ∨ m.kind = .semicolon) :
    indexMember type c = indexRest type m := by
  have hnone : (m.kind == .openParen || m.kind == .less) = false
      ∧ (m.kind == .plus || m.kind == .minus) = false := by
    rcases hm with h | h | h <;> rw [h] <;> exact ⟨rfl, rfl⟩
  have hat : ∀ kind, isAt kind m = .ok (m.kind == kind) m := fun _ => rfl
  rw [indexMember_eq, bind_of_ok hgroup, bind_of_ok (hat .openParen), bind_of_ok (hat .less), hnone.1,
    if_neg Bool.false_ne_true, bind_of_ok (hat .plus), bind_of_ok (hat .minus), hnone.2,
    if_neg Bool.false_ne_true]

/-- By itself an index signature or a mapped member is read as one member without a name. -/
theorem IsIndexMember.areMembers (h : IsIndexMember xs) (lastEnd : Nat) :
    ∃ index, index.shape = .index ∧ AreMembers lastEnd xs [index] := by
  obtain ⟨hbrackets, hquestion, hcolonType, hsemicolon⟩ := h
  rename_i opening closing semicolon inner question colonType
  let c := Cursor.before lastEnd (opening :: (inner ++ closing :: (question ++ (colonType ++ [semicolon]))))
  have hkind : c.kind = .openBracket := hbrackets.opening
  have hkind' : (c.expect [.closeBrace]).kind = .openBracket := hkind
  let m := (c.expect [.closeBrace]).skip (inner.length + 2)
  have hm : m.rest = question ++ (colonType ++ [semicolon]) := by
    rw [Cursor.rest_skip]
    show (inner ++ closing :: _).drop (inner.length + 1) = _
    rw [← List.drop_drop, List.drop_left]
    rfl
  obtain ⟨d, hrun, hd, hclean⟩ :=
    indexRest_run (c := m) hquestion hcolonType hsemicolon hm (Cursor.errors_skip _ _)
  have hshape : memberShape typeExpr (c.expect [.closeBrace]) = .ok .index d := by
    rw [memberShape_of_bracket hkind', indexMember_of_ends (skipGroup_of_isBracketed hbrackets rfl)
      (kind_behind_brackets hquestion hcolonType hsemicolon hm)]
    exact hrun
  have hend : d.kind = .semicolon := (Cursor.kind_of_cons hd).trans hsemicolon
  refine ⟨_, rfl, d.next, .next ?_ ?_ hshape hend (member_of_shape hshape hend) (.done _), ?_, ?_⟩
  · rw [hkind]
    nofun
  · rw [hkind]
    nofun
  · rw [Cursor.rest_next, hd]
    rfl
  · rw [Cursor.errors_next, hclean]

/-- A type that is read by itself nests. -/
theorem IsTypeUpTo.nests {lastEnd : Nat} {semicolon : Lexeme} {type : List Lexeme}
    (h : IsTypeUpTo lastEnd semicolon type) (hgenuine : AllGenuine (type ++ [semicolon])) : Nests 0 0 type := by
  obtain ⟨value, d, hrun, hd, herrors⟩ := h
  have hlocal : Local ⟨0, 0⟩ (atLeast 1) typeExpr typeExpr
    (Cursor.before lastEnd (type ++ [semicolon])) := typeExpr_local _
  obtain ⟨-, ⟨xs, hxs, hread⟩, -⟩ := hlocal value d hrun herrors (Nat.zero_le _) fun _ => rfl
  obtain rfl : type = xs := by
    have hrest := hxs.rest
    rw [hd] at hrest
    exact List.append_cancel_right hrest
  exact hread.nests (allGenuine_append.1 hgenuine).1

theorem nests_cons_of_isPlain {j k : Nat} {lexeme : Lexeme} (hplain : lexeme.kind.isPlain = true)
    (h : Nests j k xs) : Nests j k (lexeme :: xs) := by
  simp only [TokenKind.isPlain, Bool.and_eq_true, Bool.not_eq_true', bne_iff_ne] at hplain
  obtain ⟨⟨⟨hopen, hclose⟩, hdot⟩, -⟩ := hplain
  exact .plain hopen hclose (fun hkind => absurd hkind hdot) h

/-- Its delimiters nest. -/
theorem IsIndexMember.nests (h : IsIndexMember xs) (hgenuine : AllGenuine xs) : Nests 0 0 xs := by
  obtain ⟨hbrackets, hquestion, hcolonType, hsemicolon⟩ := h
  rename_i opening closing semicolon inner question colonType
  have hlast : Nests 0 0 [semicolon] := nests_cons_of_isPlain (by rw [hsemicolon]; rfl) .nil
  obtain ⟨-, hinner⟩ := allGenuine_cons.1 hgenuine
  obtain ⟨-, hbehind⟩ := allGenuine_cons.1 (allGenuine_append.1 hinner).2
  have hannotated : Nests 0 0 (colonType ++ [semicolon]) := by
    rcases hcolonType with rfl | ⟨colon, type, rfl, hcolon, htype⟩
    · exact hlast
    · obtain ⟨-, htyped⟩ := allGenuine_cons.1 (allGenuine_append.1 hbehind).2
      exact nests_cons_of_isPlain (by rw [hcolon]; rfl) ((htype.nests htyped).append hlast)
  have hmarked : Nests 0 0 (question ++ (colonType ++ [semicolon])) := by
    rcases hquestion with rfl | ⟨mark, rfl, hmark⟩
    · exact hannotated
    · exact nests_cons_of_isPlain (by rw [hmark]; rfl) hannotated
  have hall := hbrackets.nests.append hmarked
  rwa [List.cons_append, List.append_assoc] at hall

end Index

section Readonly

variable {type : Parse TypeExpr} {c : Cursor} {modifier opening : Lexeme} {after : List Lexeme}

theorem propertyName_of_keyword {name : Lexeme} {keyword : Keyword} (hrest : c.rest = name :: after)
    (hname : name.kind = .keyword keyword) :
    propertyName c = .ok ⟨String.ofList name.text, name.span⟩ c.next := by
  have hpeek : c.peek? 0 = some name := by
    rw [Cursor.peek?, hrest]
    rfl
  unfold propertyName
  rw [bind_of_ok (rfl : cursor c = .ok c c), hpeek]
  dsimp only
  rw [hname]
  show ident c = _
  unfold ident
  rw [bind_of_ok (rfl : cursor c = .ok c c), hpeek]
  dsimp only
  rw [hname]
  rfl

/-- A name with a bracket behind it is a property without a type. -/
theorem memberAfterName_of_bracket (name : Ident) (optional readonly : Bool) (h : c.kind = .openBracket) :
    memberAfterName type name optional readonly c
      = .ok (.property name optional readonly none) (c.expect [.colon]) := by
  have hcolon : c.kind ≠ .colon := by
    rw [h]
    nofun
  have hat : ∀ kind, isAt kind c = .ok (c.kind == kind) c := fun _ => rfl
  have hsignature : (c.kind == .openParen || c.kind == .less) = false := by
    rw [h]
    rfl
  unfold memberAfterName
  rw [bind_of_ok (hat .openParen), bind_of_ok (hat .less), hsignature, if_neg Bool.false_ne_true,
    bind_of_ok (eat_of_ne hcolon)]
  rfl

theorem memberFromName_of_bracket {name : Lexeme} {keyword : Keyword} (readonly : Bool)
    (hrest : c.rest = name :: opening :: after) (hname : name.kind = .keyword keyword)
    (hopening : opening.kind = .openBracket) : memberFromName type readonly c
      = .ok (.property ⟨String.ofList name.text, name.span⟩ false readonly none)
        (((c.next.expect [.question]).expect [.exclamation]).expect [.colon]) := by
  have hnext : c.next.kind = .openBracket := by
    rw [Cursor.next_of_cons hrest]
    exact hopening
  have hquestion : c.next.kind ≠ .question := by
    rw [hnext]
    nofun
  have hexclamation : (c.next.expect [.question]).kind ≠ .exclamation := by
    show c.next.kind ≠ _
    rw [hnext]
    nofun
  unfold memberFromName
  rw [bind_of_ok (propertyName_of_keyword hrest hname), bind_of_ok (eat_of_ne hquestion)]
  show (discard (eat .exclamation) >>= fun _ => memberAfterName type _ false readonly) _ = _
  rw [bind_of_ok (discard_of_ok (eat_of_ne hexclamation))]
  exact memberAfterName_of_bracket _ _ _ hnext

/-- A `readonly` before a bracket is a property of that name without a type. -/
theorem memberStep_of_readonly (hrest : c.rest = modifier :: opening :: after)
    (hmodifier : modifier.kind = .keyword .readonlyKw) (hopening : opening.kind = .openBracket)
    (members : List Member) : ∃ stray d, memberStep type members c = .ok (.inl (members ++ [stray])) d
      ∧ stray.shape = .property ⟨String.ofList modifier.text, modifier.span⟩ false false none
      ∧ d.rest = opening :: after ∧ d.lastEnd = modifier.span.stop ∧ d.errors = c.errors := by
  let e := c.expect [.closeBrace]
  have hkind : c.kind = .keyword .readonlyKw := (Cursor.kind_of_cons hrest).trans hmodifier
  have hkind' : e.kind = .keyword .readonlyKw := hkind
  have hsecond : e.kindAt 1 = .openBracket := by
    rw [Cursor.kindAt, Cursor.peek?]
    show ((c.rest[1]?).map Lexeme.kind).getD _ = _
    rw [hrest]
    exact hopening
  -- A bracket is no name, so that `readonly` is no modifier.
  have hshape : memberShape type e = memberFromName type false e := by
    unfold memberShape
    rw [bind_of_ok (rfl : cursor e = .ok e e), hkind']
    show namedMember type e = _
    rw [namedMember_eq, bind_of_ok (rfl : cursor e = .ok e e), hkind', hsecond]
    rfl
  let d := ((e.next.expect [.question]).expect [.exclamation]).expect [.colon]
  have hd : d.rest = opening :: after ∧ d.lastEnd = modifier.span.stop ∧ d.errors = c.errors := by
    show c.next.rest = _ ∧ c.next.lastEnd = _ ∧ c.next.errors = _
    rw [Cursor.next_of_cons hrest]
    exact ⟨rfl, rfl, rfl⟩
  have hopened : d.kind = .openBracket := (Cursor.kind_of_cons hd.1).trans hopening
  have hseparator : d.behindSeparator = (d.expect [.semicolon]).expect [.comma] := by
    rw [Cursor.behindSeparator, hopened, if_neg (by decide), if_neg (by decide)]
  have hmember := member_of_memberShape (hshape.trans
    (memberFromName_of_bracket (c := e) false hrest hmodifier hopening))
  rw [hseparator] at hmember
  have hclosing : c.kind ≠ .closeBrace := by
    rw [hkind]
    decide
  have hend : c.kind ≠ .endOfFile := by
    rw [hkind]
    decide
  exact ⟨_, _, memberStep_of_member hclosing hend hmember, rfl, hd⟩

end Readonly

end NodeFactory
