import Mathlib.Data.List.TakeWhile
import NodeFactory.Kind.Annotation

/-!
# The annotations of a text

An annotation is a tag, an opening parenthesis, the kind enum, a dot, a member and a closing
parenthesis, with white space before and inside the parentheses (`Names`). The members that are
found in a text are those of its annotations from left to right, where the text is read on behind
each (`lists_find`).
-/

namespace NodeFactory.Annotation

open Text

/-- White space, or nothing. -/
def IsSpace (cs : List Char) : Prop :=
  ∀ c ∈ cs, isWhiteSpace c = true

/-- A text is a member name and the end of an annotation. -/
inductive Ends : List Char → List Char → Prop
  | intro {member space : List Char} : member ≠ [] → (∀ c ∈ member, isWordChar c = true) →
      IsSpace space → Ends (member ++ (space ++ [')'])) member

/-- A text is an annotation that names a member. -/
inductive Names (tag enum : List Char) : List Char → List Char → Prop
  | intro {before inside rest member : List Char} : IsSpace before → IsSpace inside →
      Ends rest member →
      Names tag enum (tag ++ (before ++ '(' :: (inside ++ (enum ++ '.' :: rest)))) member

/-- The members that the annotations of a text name, from left to right. -/
inductive Lists (tag enum : List Char) : List Char → List String → Prop
  | nil : Lists tag enum [] []
  | member {text rest member : List Char} {members : List String} :
      Names tag enum text member → Lists tag enum rest members →
        Lists tag enum (text ++ rest) (String.ofList member :: members)
  | skip {c : Char} {cs : List Char} {members : List String} :
      (∀ text rest member, Names tag enum text member → c :: cs ≠ text ++ rest) →
        Lists tag enum cs members → Lists tag enum (c :: cs) members

variable {tag enum cs rest : List Char}

theorem afterLiteral?_eq_some : ∀ {literal cs : List Char},
    afterLiteral? literal cs = some rest ↔ cs = literal ++ rest
  | [], cs => by simp [afterLiteral?]
  | l :: literal, [] => by simp [afterLiteral?]
  | l :: literal, c :: cs => by
    rw [afterLiteral?, List.cons_append, List.cons.injEq]
    by_cases h : l = c
    · rw [if_pos h, afterLiteral?_eq_some, and_iff_right h.symm]
    · rw [if_neg h]
      constructor
      · intro hnone
        cases hnone
      · intro heq
        exact absurd heq.1.symm h

section Space

variable {α : Type} {next : List Char → Option α}

theorem afterSpace_some {found : α} : ∀ {cs : List Char}, afterSpace next cs = some found →
    ∃ space rest, IsSpace space ∧ cs = space ++ rest ∧ next rest = some found
  | [], h => ⟨[], [], List.forall_mem_nil _, rfl, h⟩
  | c :: cs, h => by
    rw [afterSpace] at h
    split at h
    · rename_i hc
      rcases Option.or_eq_some_iff.1 h with h | ⟨-, h⟩
      · obtain ⟨space, rest, hspace, rfl, hnext⟩ := afterSpace_some h
        exact ⟨c :: space, rest, List.forall_mem_cons.2 ⟨hc, hspace⟩, rfl, hnext⟩
      · exact ⟨[], c :: cs, List.forall_mem_nil _, rfl, h⟩
    · exact ⟨[], c :: cs, List.forall_mem_nil _, rfl, h⟩

theorem afterSpace_none : ∀ {cs : List Char}, afterSpace next cs = none →
    ∀ {space rest : List Char}, IsSpace space → cs = space ++ rest → next rest = none
  | [], h, space, rest, _, heq => by
    obtain ⟨-, rfl⟩ := List.append_eq_nil_iff.1 heq.symm
    exact h
  | c :: cs, h, [], rest, _, heq => by
    subst heq
    unfold afterSpace at h
    split at h
    · exact (Option.or_eq_none_iff.1 h).2
    · exact h
  | c :: cs, h, c' :: space, rest, hspace, heq => by
    obtain ⟨rfl, rfl⟩ := List.cons.inj heq
    obtain ⟨hc, hspace⟩ := List.forall_mem_cons.1 hspace
    unfold afterSpace at h
    rw [if_pos hc] at h
    exact afterSpace_none (Option.or_eq_none_iff.1 h).1 hspace rfl

end Space

theorem dropWhile_space {space : List Char} {c : Char} (hspace : IsSpace space)
    (hc : isWhiteSpace c = false) :
    (space ++ c :: rest).dropWhile isWhiteSpace = c :: rest := by
  rw [List.dropWhile_append_of_pos hspace, List.dropWhile_cons_of_neg (by simp [hc])]

/-- White space is skipped up to a given character in one way. -/
theorem afterSpace_literal {space : List Char} {c : Char} (hspace : IsSpace space)
    (hc : isWhiteSpace c = false) :
    afterSpace (afterLiteral? [c]) (space ++ c :: rest) = some rest := by
  have hrest : afterLiteral? [c] (c :: rest) = some rest := afterLiteral?_eq_some.2 rfl
  cases h : afterSpace (afterLiteral? [c]) (space ++ c :: rest) with
  | none =>
    rw [afterSpace_none h hspace rfl] at hrest
    cases hrest
  | some rest' =>
    obtain ⟨space', rest'', hspace', heq, hfound⟩ := afterSpace_some h
    obtain rfl := afterLiteral?_eq_some.1 hfound
    have hdrop := congrArg (List.dropWhile isWhiteSpace) heq
    rw [List.singleton_append, dropWhile_space hspace hc, dropWhile_space hspace' hc] at hdrop
    rw [(List.cons.inj hdrop).2]

theorem isWordChar_of_isWhiteSpace {c : Char} (h : isWhiteSpace c = true) :
    isWordChar c = false := by
  have hle : ∀ d : Char, d ≤ c ↔ d.toNat ≤ c.toNat := fun _ => Iff.rfl
  have hge : ∀ d : Char, c ≤ d ↔ c.toNat ≤ d.toNat := fun _ => Iff.rfl
  have hne : c ≠ '_' := by
    rintro rfl
    cases h
  simp only [isWhiteSpace, isWordChar, isDecimalDigit, hle, hge, Bool.or_eq_true,
    Bool.and_eq_true, decide_eq_true_eq, beq_iff_eq, Bool.or_eq_false_iff, Bool.and_eq_false_iff,
    decide_eq_false_iff_not, beq_eq_false_iff_ne, Char.reduceToNat] at h ⊢
  refine ⟨?_, hne⟩
  omega

theorem memberAndEnd?_some {member : List Char} (h : memberAndEnd? cs = some (member, rest)) :
    ∃ text, Ends text member ∧ cs = text ++ rest := by
  unfold memberAndEnd? at h
  simp only [] at h
  split at h
  · cases h
  · rename_i hne
    obtain ⟨space, rest', hspace, heq, hfound⟩ := afterSpace_some h
    obtain ⟨rest'', hrest, hpair⟩ := Option.map_eq_some_iff.1 hfound
    obtain ⟨rfl, rfl⟩ := Prod.mk.inj hpair
    obtain rfl := afterLiteral?_eq_some.1 hrest
    refine ⟨_, .intro (by simpa using hne) (fun c => List.mem_takeWhile_imp) hspace, ?_⟩
    have hsplit := List.takeWhile_append_dropWhile (p := isWordChar) (l := cs)
    rw [heq] at hsplit
    simpa using hsplit.symm

/-- A member name ends where white space or the closing parenthesis stands. -/
theorem takeWhile_word {space : List Char} (hspace : IsSpace space) (rest : List Char) :
    (space ++ ')' :: rest).takeWhile isWordChar = []
      ∧ (space ++ ')' :: rest).dropWhile isWordChar = space ++ ')' :: rest := by
  cases space with
  | nil => exact ⟨rfl, rfl⟩
  | cons c space =>
    have hc := isWordChar_of_isWhiteSpace (hspace c List.mem_cons_self)
    rw [List.cons_append, List.takeWhile_cons_of_neg (by simp [hc]),
      List.dropWhile_cons_of_neg (by simp [hc])]
    exact ⟨rfl, rfl⟩

theorem memberAndEnd?_of_ends {text member : List Char} (h : Ends text member) :
    memberAndEnd? (text ++ rest) ≠ none := by
  obtain @⟨_, space, hne, hword, hspace⟩ := h
  obtain ⟨htake, hdrop⟩ := takeWhile_word hspace rest
  intro hnone
  unfold memberAndEnd? at hnone
  simp only [List.append_assoc, List.singleton_append, List.takeWhile_append_of_pos hword,
    List.dropWhile_append_of_pos hword, htake, hdrop, List.append_nil, List.isEmpty_iff,
    if_neg hne] at hnone
  have hend := afterSpace_none hnone hspace rfl
  simp [afterLiteral?] at hend

theorem here?_some {member : List Char} (h : here? tag enum cs = some (member, rest)) :
    ∃ text, Names tag enum text member ∧ cs = text ++ rest := by
  obtain ⟨_, htag, h⟩ := Option.bind_eq_some_iff.1 h
  obtain ⟨_, hopen, hfrom⟩ := Option.bind_eq_some_iff.1 h
  obtain ⟨before, _, hbefore, rfl, hparen⟩ := afterSpace_some hopen
  obtain ⟨inside, _, hinside, rfl, hnext⟩ := afterSpace_some hfrom
  obtain ⟨_, henum, hmember⟩ := Option.bind_eq_some_iff.1 hnext
  obtain ⟨text, hends, rfl⟩ := memberAndEnd?_some hmember
  obtain rfl := afterLiteral?_eq_some.1 htag
  obtain rfl := afterLiteral?_eq_some.1 hparen
  obtain rfl := afterLiteral?_eq_some.1 henum
  exact ⟨_, .intro hbefore hinside hends, by simp⟩

theorem here?_of_names {text member : List Char} (h : Names tag enum text member) :
    here? tag enum (text ++ rest) ≠ none := by
  obtain @⟨before, inside, tail, _, hbefore, hinside, hends⟩ := h
  intro hnone
  have htag : afterLiteral? tag
      (tag ++ (before ++ '(' :: (inside ++ (enum ++ '.' :: tail))) ++ rest)
      = some (before ++ '(' :: (inside ++ (enum ++ '.' :: (tail ++ rest)))) :=
    afterLiteral?_eq_some.2 (by simp)
  have henum : afterLiteral? (enum ++ ['.']) (enum ++ '.' :: (tail ++ rest))
      = some (tail ++ rest) :=
    afterLiteral?_eq_some.2 (by simp)
  unfold here? at hnone
  rw [htag] at hnone
  simp only [Option.bind_eq_bind, Option.bind_some] at hnone
  rw [afterSpace_literal hbefore (by decide), Option.bind_some] at hnone
  have hmember := afterSpace_none hnone hinside rfl
  rw [henum] at hmember
  exact memberAndEnd?_of_ends hends hmember

theorem Names.length_pos {text member : List Char} (h : Names tag enum text member) :
    0 < text.length := by
  obtain ⟨-, -, -⟩ := h
  simp only [List.length_append, List.length_cons]
  omega

theorem lists_findFrom (tag enum : List Char) : ∀ (start : Nat) (cs : List Char),
    Lists tag enum cs ((findFrom tag enum start cs).map Prod.fst)
  | _, [] => by
    rw [findFrom]
    exact .nil
  | start, c :: cs => by
    rw [findFrom]
    split
    · rename_i member rest h
      obtain ⟨text, hnames, heq⟩ := here?_some h
      have hlt : rest.length < (c :: cs).length := by
        have := hnames.length_pos
        rw [heq, List.length_append]
        omega
      rw [dif_pos hlt, List.map_cons, heq]
      exact .member hnames (lists_findFrom tag enum _ rest)
    · rename_i h
      refine .skip ?_ (lists_findFrom tag enum _ cs)
      intro text rest member hnames heq
      rw [heq] at h
      exact here?_of_names hnames h
termination_by _ cs => cs.length
decreasing_by
  · exact hlt
  · exact Nat.lt_succ_self _

/-- The members that are found in a text are those that its annotations name. -/
theorem lists_find (tag enum text : List Char) :
    Lists tag enum text ((find tag enum text).map Prod.fst) :=
  lists_findFrom tag enum 0 text

end NodeFactory.Annotation
