import NodeFactory.Token.Extent

/-!
# Comments and literals

A block comment ends with the first `*/` behind its opening (`commentEnd?_eq_some_iff`), and a literal with
the first quote that is not escaped (`quotedExtent_eq_closed_iff`). Where there is none, the comment goes on
to the end of the text (`commentEnd?_eq_none_iff`), and the literal to its end or to the first character that
breaks it and is not escaped (`quotedExtent_eq_open_iff`).
-/

namespace NodeFactory.Token

open Text

section Comments

/-- Nowhere in the text does a comment end. -/
def HasNoEnd (cs : List Char) : Prop :=
  ∀ before after, cs ≠ before ++ '*' :: '/' :: after

theorem hasNoEnd_nil : HasNoEnd [] := by
  intro before after
  simp

theorem hasNoEnd_cons {c : Char} {cs : List Char} :
    HasNoEnd (c :: cs) ↔ ¬ (c = '*' ∧ cs.head? = some '/') ∧ HasNoEnd cs := by
  constructor
  · refine fun h => ⟨?_, fun before after hcs => h (c :: before) after (by rw [hcs, List.cons_append])⟩
    rintro ⟨rfl, hhead⟩
    obtain ⟨cs, rfl⟩ := List.head?_eq_some_iff.1 hhead
    exact h [] cs rfl
  · rintro ⟨hfirst, hrest⟩ before after hcs
    cases before with
    | nil =>
      obtain ⟨rfl, rfl⟩ := List.cons.inj hcs
      exact hfirst ⟨rfl, rfl⟩
    | cons b before => exact hrest before after (List.cons.inj hcs).2

theorem commentEnd?_of_ne {c : Char} {cs : List Char} (h : ¬ (c = '*' ∧ cs.head? = some '/')) :
    commentEnd? (c :: cs) = (commentEnd? cs).map (· + 1) := by
  cases cs with
  | nil => simp [commentEnd?]
  | cons d cs =>
    rw [commentEnd?]
    rintro cs rfl ⟨⟩
    exact h ⟨rfl, rfl⟩

theorem commentEnd?_of_first (rest : List Char) : ∀ {body : List Char}, HasNoEnd (body ++ ['*']) →
    commentEnd? (body ++ '*' :: '/' :: rest) = some (body.length + 2)
  | [], _ => rfl
  | c :: body, h => by
    obtain ⟨hfirst, hrest⟩ := hasNoEnd_cons.1 h
    rw [List.cons_append, commentEnd?_of_ne, commentEnd?_of_first rest hrest]
    · rfl
    · cases body with
      | nil => simp
      | cons d body => exact hfirst

theorem commentEnd?_of_hasNoEnd : ∀ {cs : List Char}, HasNoEnd cs → commentEnd? cs = none
  | [], _ => rfl
  | _ :: _, h => by
    obtain ⟨hfirst, hrest⟩ := hasNoEnd_cons.1 h
    rw [commentEnd?_of_ne hfirst, commentEnd?_of_hasNoEnd hrest]
    rfl

/-- Either a comment ends nowhere, or somewhere first. -/
theorem commentEnd?_cases : ∀ cs : List Char, commentEnd? cs = none ∧ HasNoEnd cs
    ∨ ∃ body rest, cs = body ++ '*' :: '/' :: rest ∧ commentEnd? cs = some (body.length + 2)
      ∧ HasNoEnd (body ++ ['*'])
  | [] => .inl ⟨rfl, hasNoEnd_nil⟩
  | c :: cs => by
    by_cases hend : c = '*' ∧ cs.head? = some '/'
    · obtain ⟨rfl, hhead⟩ := hend
      obtain ⟨rest, rfl⟩ := List.head?_eq_some_iff.1 hhead
      exact .inr ⟨[], rest, rfl, rfl, hasNoEnd_cons.2 ⟨by simp, hasNoEnd_nil⟩⟩
    rw [commentEnd?_of_ne hend]
    obtain ⟨hnone, hcs⟩ | ⟨body, rest, rfl, hsome, hbody⟩ := commentEnd?_cases cs
    · exact .inl ⟨by rw [hnone]; rfl, hasNoEnd_cons.2 ⟨hend, hcs⟩⟩
    · refine .inr ⟨c :: body, rest, rfl, by rw [hsome]; rfl, hasNoEnd_cons.2 ⟨?_, hbody⟩⟩
      cases body with
      | nil => simp
      | cons d body => exact hend

theorem commentEnd?_eq_none_iff {cs : List Char} : commentEnd? cs = none ↔ HasNoEnd cs := by
  refine ⟨fun h => ?_, commentEnd?_of_hasNoEnd⟩
  obtain ⟨-, hcs⟩ | ⟨_, _, _, hsome, -⟩ := commentEnd?_cases cs
  · exact hcs
  · rw [h] at hsome
    cases hsome

/-- A comment ends with the first end behind its opening, whatever follows. -/
theorem commentEnd?_eq_some_iff {xs ys : List Char} : commentEnd? (xs ++ ys) = some xs.length
    ↔ ∃ body, xs = body ++ ['*', '/'] ∧ HasNoEnd (body ++ ['*']) := by
  constructor
  · intro h
    obtain ⟨hnone, -⟩ | ⟨body, rest, hcs, hsome, hbody⟩ := commentEnd?_cases (xs ++ ys)
    · rw [h] at hnone
      cases hnone
    · have hlength := Option.some.inj (h.symm.trans hsome)
      rw [show '*' :: '/' :: rest = ['*', '/'] ++ rest from rfl, ← List.append_assoc] at hcs
      obtain ⟨rfl, -⟩ := List.append_inj hcs (by simp [hlength])
      exact ⟨body, rfl, hbody⟩
  · rintro ⟨body, rfl, hbody⟩
    rw [List.append_assoc, List.length_append]
    exact commentEnd?_of_first ys hbody

theorem commentEnd?_le {cs : List Char} {n : Nat} (h : commentEnd? cs = some n) : n ≤ cs.length := by
  obtain ⟨hnone, -⟩ | ⟨body, rest, rfl, hsome, -⟩ := commentEnd?_cases cs
  · rw [h] at hnone
    cases hnone
  · obtain rfl := Option.some.inj (h.symm.trans hsome)
    simp

end Comments

/-- Whether what comes directly after these characters is escaped: it is after a backslash that is not
escaped itself. -/
def escapes (before : List Char) : Bool :=
  before.foldl (fun escaped c => !escaped && c == '\\') false

/-- Every quote of the kind and every character at which the literal breaks is escaped. -/
def IsInside (quote : Char) (breaks : Char → Bool) (inside : List Char) : Prop :=
  ∀ before c after, inside = before ++ c :: after → escapes before = false → c ≠ quote ∧ breaks c = false

/-- A literal from one quote to the next that is not escaped. -/
inductive IsClosed (quote : Char) (breaks : Char → Bool) : List Char → Prop
  | mk {inside : List Char} : IsInside quote breaks inside → escapes inside = false →
      IsClosed quote breaks (quote :: (inside ++ [quote]))

/-- A literal that ends with the first character that breaks it and is not escaped, or with the text. -/
inductive IsLeftOpen (quote : Char) (breaks : Char → Bool) : List Char → List Char → Prop
  | broken {inside behind : List Char} {c : Char} : IsInside quote breaks inside → escapes inside = false →
      c ≠ quote → breaks c = true → IsLeftOpen quote breaks (quote :: (inside ++ [c])) behind
  | ended {inside : List Char} : IsInside quote breaks inside →
      IsLeftOpen quote breaks (quote :: inside) []

section Scanning

variable {quote : Char} {breaks : Char → Bool}

theorem quotedExtent_quote (cs : List Char) :
    quotedExtent quote breaks (quote :: cs) = (true, 1) := by
  unfold quotedExtent
  exact if_pos rfl

theorem quotedExtent_breaks {c : Char} (hquote : c ≠ quote) (hbreaks : breaks c = true)
    (cs : List Char) : quotedExtent quote breaks (c :: cs) = (false, 1) := by
  unfold quotedExtent
  rw [if_neg hquote, if_pos hbreaks]

/-- A literal goes on after a character that does not end it. -/
theorem quotedExtent_cons {c : Char} (hquote : c ≠ quote) (hbreaks : breaks c = false)
    (hescape : c ≠ '\\') (cs : List Char) : quotedExtent quote breaks (c :: cs)
      = ((quotedExtent quote breaks cs).1, (quotedExtent quote breaks cs).2 + 1) := by
  rw [quotedExtent.eq_def]
  dsimp only
  rw [if_neg hquote, if_neg (by simp [hbreaks]), if_neg hescape]

theorem quotedExtent_escape (hquote : '\\' ≠ quote) (hbreaks : breaks '\\' = false) (c : Char)
    (cs : List Char) : quotedExtent quote breaks ('\\' :: c :: cs)
      = ((quotedExtent quote breaks cs).1, (quotedExtent quote breaks cs).2 + 2) := by
  rw [quotedExtent, if_neg hquote, if_neg (by simp [hbreaks]), if_pos rfl]

theorem quotedExtent_le (quote : Char) (breaks : Char → Bool) (cs : List Char) :
    (quotedExtent quote breaks cs).2 ≤ cs.length := by
  fun_induction quotedExtent quote breaks cs <;> simp_all

end Scanning

section Literals

variable {quote : Char} {breaks : Char → Bool} {inside : List Char} {c : Char}

theorem escapes_cons (hc : c ≠ '\\') (before : List Char) : escapes (c :: before) = escapes before := by
  have hbeq : (c == '\\') = false := by simpa using hc
  simp [escapes, hbeq]

theorem escapes_backslash (c : Char) (before : List Char) :
    escapes ('\\' :: c :: before) = escapes before := by
  simp [escapes]

theorem isInside_nil : IsInside quote breaks [] := by
  intro before c after h
  simp at h

/-- A character that escapes nothing adds itself. -/
theorem isInside_cons (hc : c ≠ '\\') :
    IsInside quote breaks (c :: inside) ↔ (c ≠ quote ∧ breaks c = false) ∧ IsInside quote breaks inside := by
  constructor
  · intro h
    refine ⟨h [] c inside rfl rfl, fun before d after hinside hescapes => ?_⟩
    exact h (c :: before) d after (by rw [hinside, List.cons_append]) (by rwa [escapes_cons hc])
  · rintro ⟨hfirst, hrest⟩ before d after hinside hescapes
    cases before with
    | nil =>
      obtain ⟨rfl, -⟩ := List.cons.inj hinside
      exact hfirst
    | cons b before =>
      obtain ⟨rfl, hinside'⟩ := List.cons.inj hinside
      exact hrest before d after hinside' (by rwa [escapes_cons hc] at hescapes)

variable (hquote : '\\' ≠ quote) (hbreaks : breaks '\\' = false)
include hquote hbreaks

theorem isInside_backslash : IsInside quote breaks ['\\'] := by
  intro before c after h _
  obtain ⟨rfl, hnil⟩ | ⟨before, rfl, hnil⟩ := List.cons_eq_append_iff.1 h
  · obtain ⟨rfl, -⟩ := List.cons.inj hnil
    exact ⟨hquote, hbreaks⟩
  · simp at hnil

/-- What is escaped may be any character. -/
theorem isInside_escape (c : Char) :
    IsInside quote breaks ('\\' :: c :: inside) ↔ IsInside quote breaks inside := by
  constructor
  · intro h before d after hinside hescapes
    exact h ('\\' :: c :: before) d after (by rw [hinside, List.cons_append, List.cons_append])
      (by rwa [escapes_backslash])
  · intro h before d after hinside hescapes
    match before with
    | [] =>
      obtain ⟨rfl, -⟩ := List.cons.inj hinside
      exact ⟨hquote, hbreaks⟩
    | [b] =>
      obtain ⟨rfl, -⟩ := List.cons.inj hinside
      cases hescapes
    | b :: b' :: before =>
      obtain ⟨hb, hinside'⟩ := List.cons.inj hinside
      obtain ⟨rfl, hinside''⟩ := List.cons.inj hinside'
      exact h before d after hinside'' (by rwa [← hb, escapes_backslash] at hescapes)

/-- Behind what leaves a literal open, and escapes nothing, it goes on. -/
theorem quotedExtent_inside (rest : List Char) : ∀ {inside : List Char}, IsInside quote breaks inside →
    escapes inside = false → quotedExtent quote breaks (inside ++ rest)
      = ((quotedExtent quote breaks rest).1, (quotedExtent quote breaks rest).2 + inside.length)
  | [], _, _ => rfl
  | c :: inside, hinside, hescapes => by
    by_cases hc : c = '\\'
    case neg =>
      obtain ⟨⟨hclose, hbreak⟩, hrest⟩ := (isInside_cons hc).1 hinside
      rw [escapes_cons hc] at hescapes
      rw [List.cons_append, quotedExtent_cons hclose hbreak hc, quotedExtent_inside rest hrest hescapes]
      rfl
    subst hc
    cases inside with
    | nil => cases hescapes
    | cons d inside =>
      have hrest := (isInside_escape hquote hbreaks d).1 hinside
      rw [escapes_backslash] at hescapes
      rw [List.cons_append, List.cons_append, quotedExtent_escape hquote hbreaks,
        quotedExtent_inside rest hrest hescapes]
      rfl

/-- What leaves a literal open up to the end of the text. -/
theorem quotedExtent_ended : ∀ {inside : List Char}, IsInside quote breaks inside →
    quotedExtent quote breaks inside = (false, inside.length)
  | [], _ => rfl
  | c :: inside, hinside => by
    by_cases hc : c = '\\'
    case neg =>
      obtain ⟨⟨hclose, hbreak⟩, hrest⟩ := (isInside_cons hc).1 hinside
      rw [quotedExtent_cons hclose hbreak hc, quotedExtent_ended hrest, List.length_cons]
    subst hc
    cases inside with
    | nil => rw [quotedExtent, if_neg hquote, if_neg (by simp [hbreaks]), if_pos rfl, List.length_singleton]
    | cons d inside =>
      have hrest := (isInside_escape hquote hbreaks d).1 hinside
      rw [quotedExtent_escape hquote hbreaks, quotedExtent_ended hrest, List.length_cons, List.length_cons]

end Literals

section Quoted

/-- What leaves a literal open inside a text does so whatever stands behind it. -/
theorem IsLeftOpen.congr_behind {quote : Char} {breaks : Char → Bool} {literal behind behind' : List Char}
    (h : IsLeftOpen quote breaks literal behind) (hend : behind = [] → behind' = []) :
    IsLeftOpen quote breaks literal behind' := by
  cases h with
  | broken hinside hescapes hclose hbreak => exact .broken hinside hescapes hclose hbreak
  | ended hinside =>
    rw [hend rfl]
    exact .ended hinside

/-- Where a literal ends: with a quote, at a character that breaks it, or with the text. -/
inductive Ends (quote : Char) (breaks : Char → Bool) : List Char → Bool × Nat → Prop
  | closed {inside rest : List Char} : IsInside quote breaks inside → escapes inside = false →
      Ends quote breaks (inside ++ quote :: rest) (true, inside.length + 1)
  | broken {inside rest : List Char} {c : Char} : IsInside quote breaks inside → escapes inside = false →
      c ≠ quote → breaks c = true → Ends quote breaks (inside ++ c :: rest) (false, inside.length + 1)
  | ended {inside : List Char} : IsInside quote breaks inside →
      Ends quote breaks inside (false, inside.length)

variable {quote : Char} {breaks : Char → Bool} {cs : List Char} {closed : Bool} {n : Nat} {c : Char}

theorem Ends.cons (hclose : c ≠ quote) (hbreak : breaks c = false) (hc : c ≠ '\\')
    (h : Ends quote breaks cs (closed, n)) : Ends quote breaks (c :: cs) (closed, n + 1) := by
  cases h with
  | closed hinside hescapes =>
    exact .closed ((isInside_cons hc).2 ⟨⟨hclose, hbreak⟩, hinside⟩) (by rwa [escapes_cons hc])
  | broken hinside hescapes hclose' hbreak' =>
    exact .broken ((isInside_cons hc).2 ⟨⟨hclose, hbreak⟩, hinside⟩) (by rwa [escapes_cons hc])
      hclose' hbreak'
  | ended hinside => exact .ended ((isInside_cons hc).2 ⟨⟨hclose, hbreak⟩, hinside⟩)

variable (hquote : '\\' ≠ quote) (hbreaks : breaks '\\' = false)
include hquote hbreaks

theorem Ends.escape (c : Char) (h : Ends quote breaks cs (closed, n)) :
    Ends quote breaks ('\\' :: c :: cs) (closed, n + 2) := by
  cases h with
  | closed hinside hescapes =>
    exact .closed ((isInside_escape hquote hbreaks c).2 hinside) (by rwa [escapes_backslash])
  | broken hinside hescapes hclose hbreak =>
    exact .broken ((isInside_escape hquote hbreaks c).2 hinside) (by rwa [escapes_backslash]) hclose hbreak
  | ended hinside => exact .ended ((isInside_escape hquote hbreaks c).2 hinside)

/-- Where a literal ends is found. -/
theorem quotedExtent_ends (cs : List Char) : Ends quote breaks cs (quotedExtent quote breaks cs) := by
  fun_induction quotedExtent quote breaks cs with
  | case1 => exact .ended isInside_nil
  | case2 cs => exact .closed isInside_nil rfl
  | case3 c cs hclose hbreak => exact .broken isInside_nil rfl hclose hbreak
  | case4 => exact .ended (isInside_backslash hquote hbreaks)
  | case5 c rest closed n hrun _ _ ih =>
    rw [hrun] at ih
    exact ih.escape hquote hbreaks c
  | case6 c cs hclose hbreak hescape closed n hrun ih =>
    rw [hrun] at ih
    exact ih.cons hclose (eq_false_of_ne_true hbreak) hescape

theorem Ends.quotedExtent_eq {result : Bool × Nat} (h : Ends quote breaks cs result) :
    quotedExtent quote breaks cs = result := by
  cases h with
  | closed hinside hescapes =>
    rw [quotedExtent_inside hquote hbreaks _ hinside hescapes, quotedExtent_quote, Nat.add_comm]
  | broken hinside hescapes hclose hbreak =>
    rw [quotedExtent_inside hquote hbreaks _ hinside hescapes, quotedExtent_breaks hclose hbreak,
      Nat.add_comm]
  | ended hinside => exact quotedExtent_ended hquote hbreaks hinside

variable {xs ys : List Char}

theorem quotedExtent_eq_closed_iff :
    quotedExtent quote breaks (xs ++ ys) = (true, xs.length) ↔ IsClosed quote breaks (quote :: xs) := by
  constructor
  · intro h
    have hends := quotedExtent_ends hquote hbreaks (xs ++ ys)
    rw [h] at hends
    generalize hcs : xs ++ ys = cs at hends
    generalize hn : xs.length = n at hends
    cases hends with
    | @closed inside rest hinside hescapes =>
      rw [← List.singleton_append, ← List.append_assoc] at hcs
      obtain ⟨rfl, -⟩ := List.append_inj hcs (by simp [hn])
      exact .mk hinside hescapes
  · generalize hliteral : quote :: xs = literal
    rintro ⟨hinside, hescapes⟩
    obtain rfl := (List.cons.inj hliteral).2
    rw [List.append_assoc, List.length_append]
    exact (Ends.closed hinside hescapes).quotedExtent_eq hquote hbreaks

theorem quotedExtent_eq_open_iff :
    quotedExtent quote breaks (xs ++ ys) = (false, xs.length) ↔ IsLeftOpen quote breaks (quote :: xs) ys := by
  constructor
  · intro h
    have hends := quotedExtent_ends hquote hbreaks (xs ++ ys)
    rw [h] at hends
    generalize hcs : xs ++ ys = cs at hends
    generalize hn : xs.length = n at hends
    cases hends with
    | @broken inside rest c hinside hescapes hclose hbreak =>
      rw [← List.singleton_append, ← List.append_assoc] at hcs
      obtain ⟨rfl, -⟩ := List.append_inj hcs (by simp [hn])
      exact .broken hinside hescapes hclose hbreak
    | ended hinside =>
      have hlength := congrArg List.length hcs
      rw [List.length_append] at hlength
      obtain rfl := List.eq_nil_of_length_eq_zero (l := ys) (by omega)
      rw [List.append_nil] at hcs
      exact .ended (hcs ▸ hinside)
  · generalize hliteral : quote :: xs = literal
    intro h
    cases h with
    | broken hinside hescapes hclose hbreak =>
      obtain rfl := (List.cons.inj hliteral).2
      rw [List.append_assoc, List.length_append]
      exact (Ends.broken hinside hescapes hclose hbreak).quotedExtent_eq hquote hbreaks
    | ended hinside =>
      obtain rfl := (List.cons.inj hliteral).2
      rw [List.append_nil]
      exact (Ends.ended hinside).quotedExtent_eq hquote hbreaks

end Quoted

end NodeFactory.Token
