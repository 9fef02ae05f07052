import NodeFactory.Proofs.AnnotationText

/-!
# Where annotations stand

At a position of a text there is at most one annotation, even where the kind enum begins with white space and
the blanks before it can be shared out in several ways (`names_unique`). So the first annotation of a text is a
matter of its position alone, and the annotations that are found are the first one, the first one behind it,
and so on (`find_places`). Annotations that are joined by texts without an opening parenthesis are found again,
each once.
-/

namespace NodeFactory.Annotation

open Text

/-- The annotations of a text that begins at byte `start`: the first one, and those of the text behind it. -/
inductive Places (tag enum : List Char) : Nat → List Char → List (String × Span) → Prop
  | none {start : Nat} {cs : List Char} :
      (∀ before text rest member, Names tag enum text member → cs ≠ before ++ (text ++ rest)) →
        Places tag enum start cs []
  | first {start : Nat} {before text rest member : List Char} {found : List (String × Span)} :
      Names tag enum text member →
      (∀ before' text' rest' member', Names tag enum text' member' →
        before ++ (text ++ rest) = before' ++ (text' ++ rest') → before.length ≤ before'.length) →
      Places tag enum (start + byteLength before + byteLength text) rest found →
        Places tag enum start (before ++ (text ++ rest))
          ((String.ofList member,
            ⟨start + byteLength before, start + byteLength before + byteLength text⟩) :: found)

/-- A text is made of annotations and of separators before, between and behind them, in which no parenthesis
is opened. -/
inductive Joined (tag enum : List Char) : List Char → List String → Prop
  | last {separator : List Char} : '(' ∉ separator → Joined tag enum separator []
  | more {separator text rest member : List Char} {members : List String} :
      '(' ∉ separator → Names tag enum text member → Joined tag enum rest members →
        Joined tag enum (separator ++ (text ++ rest)) (String.ofList member :: members)

variable {tag enum : List Char}

section Unique

variable {member member' rest rest' text text' : List Char}

/-- White space is cut off up to a given text in one way, whatever that text begins with. -/
theorem space_unique {inside inside' : List Char} {c : Char} (hc : isWhiteSpace c = false)
    (hinside : IsSpace inside) (hinside' : IsSpace inside') (literal : List Char)
    (h : inside ++ (literal ++ c :: rest) = inside' ++ (literal ++ c :: rest')) : rest = rest' := by
  have htake : ∀ (literal rest : List Char),
      (literal ++ c :: rest).takeWhile isWhiteSpace = literal.takeWhile isWhiteSpace := by
    intro literal rest
    induction literal with
    | nil => exact List.takeWhile_cons_of_neg (by simp [hc])
    | cons l literal ih => rw [List.cons_append, List.takeWhile_cons, List.takeWhile_cons, ih]
  -- The blanks before the text and those it begins with are as many together.
  have hlength := congrArg (fun cs => (cs.takeWhile isWhiteSpace).length) h
  simp only [List.takeWhile_append_of_pos hinside, List.takeWhile_append_of_pos hinside', htake,
    List.length_append] at hlength
  obtain ⟨-, htail⟩ := List.append_inj h (by omega)
  exact (List.cons.inj (List.append_cancel_left htail)).2

theorem ends_unique (h : Ends text member) (h' : Ends text' member')
    (heq : text ++ rest = text' ++ rest') : member = member' ∧ rest = rest' := by
  obtain @⟨_, space, -, hword, hspace⟩ := h
  obtain @⟨_, space', -, hword', hspace'⟩ := h'
  simp only [List.append_assoc, List.singleton_append] at heq
  have hmember := congrArg (List.takeWhile isWordChar) heq
  rw [List.takeWhile_append_of_pos hword, List.takeWhile_append_of_pos hword', (takeWhile_word hspace _).1,
    (takeWhile_word hspace' _).1, List.append_nil, List.append_nil] at hmember
  obtain rfl := hmember
  exact ⟨rfl, space_unique (by decide) hspace hspace' [] (List.append_cancel_left heq)⟩

/-- What follows the opening parenthesis names one member, and ends at one place. -/
theorem inside_unique {inside inside' : List Char} (hinside : IsSpace inside) (hinside' : IsSpace inside')
    (h : Ends text member) (h' : Ends text' member')
    (heq : inside ++ (enum ++ '.' :: (text ++ rest)) = inside' ++ (enum ++ '.' :: (text' ++ rest'))) :
    member = member' ∧ rest = rest' :=
  ends_unique h h' (space_unique (by decide) hinside hinside' enum heq)

theorem names_unique (h : Names tag enum text member) (h' : Names tag enum text' member')
    (heq : text ++ rest = text' ++ rest') : member = member' ∧ text = text' ∧ rest = rest' := by
  suffices member = member' ∧ rest = rest' by
    obtain ⟨rfl, rfl⟩ := this
    exact ⟨rfl, List.append_cancel_right heq, rfl⟩
  obtain @⟨before, inside, tail, _, hbefore, hinside, hends⟩ := h
  obtain @⟨before', inside', tail', _, hbefore', hinside', hends'⟩ := h'
  simp only [List.append_assoc, List.cons_append] at heq
  have hopened := space_unique (by decide) hbefore hbefore' [] (List.append_cancel_left heq)
  exact inside_unique hinside hinside' hends hends' hopened

end Unique

section Found

variable {start : Nat} {cs : List Char} {found found' : List (String × Span)}

/-- A character where no annotation stands is passed over. -/
theorem Places.skip {c : Char}
    (hnone : ∀ text rest member, Names tag enum text member → c :: cs ≠ text ++ rest)
    (h : Places tag enum (start + c.utf8Size) cs found) : Places tag enum start (c :: cs) found := by
  cases h with
  | none hall =>
    refine .none fun before text rest member hnames heq => ?_
    cases before with
    | nil => exact hnone text rest member hnames heq
    | cons d before => exact hall before text rest member hnames (List.cons.inj heq).2
  | @first _ before text rest member found hnames hfirst hrest =>
    have hstart : start + c.utf8Size + byteLength before = start + byteLength (c :: before) :=
      Nat.add_assoc _ _ _
    rw [hstart] at hrest ⊢
    refine @Places.first _ _ _ (c :: before) _ _ _ _ hnames (fun before' text' rest' member' hnames' heq => ?_) hrest
    cases before' with
    | nil => exact absurd heq (hnone text' rest' member' hnames')
    | cons d before' =>
      exact Nat.succ_le_succ (hfirst before' text' rest' member' hnames' (List.cons.inj heq).2)

theorem places_findFrom (tag enum : List Char) : ∀ (start : Nat) (cs : List Char),
    Places tag enum start cs (findFrom tag enum start cs)
  | start, [] => by
    rw [findFrom]
    refine .none fun before text rest member hnames heq => ?_
    have hlength := congrArg List.length heq
    have := hnames.length_pos
    simp only [List.length_append, List.length_nil] at hlength
    omega
  | start, c :: cs => by
    rw [findFrom]
    split
    · rename_i member rest h
      obtain ⟨text, hnames, heq⟩ := here?_some h
      have hlt : rest.length < (c :: cs).length := by
        have := hnames.length_pos
        rw [heq, List.length_append]
        omega
      have hstop : start + (byteLength (c :: cs) - byteLength rest) = start + byteLength text := by
        rw [heq, byteLength_append, Nat.add_sub_cancel]
      rw [dif_pos hlt, hstop, heq]
      exact @Places.first _ _ _ [] _ _ _ _ hnames (fun _ _ _ _ _ _ => Nat.zero_le _) (places_findFrom tag enum _ rest)
    · rename_i h
      refine .skip ?_ (places_findFrom tag enum _ cs)
      intro text rest member hnames heq
      rw [heq] at h
      exact here?_of_names hnames h
termination_by _ cs => cs.length
decreasing_by
  · exact hlt
  · exact Nat.lt_succ_self _

theorem Places.unique (h : Places tag enum start cs found) (h' : Places tag enum start cs found') :
    found = found' := by
  induction h generalizing found' with
  | @none start cs hall =>
    generalize hcs : cs = cs' at h'
    cases h' with
    | none => rfl
    | first hnames => exact absurd hcs (hall _ _ _ _ hnames)
  | @first start before text rest member found hnames hfirst _ ih =>
    generalize hcs : before ++ (text ++ rest) = cs' at h'
    cases h' with
    | none hall => exact absurd hcs.symm (hall _ _ _ _ hnames)
    | @first _ before' text' rest' member' _ hnames' hfirst' hrest' =>
      have hlength := Nat.le_antisymm (hfirst _ _ _ _ hnames' hcs) (hfirst' _ _ _ _ hnames hcs.symm)
      obtain ⟨rfl, htail⟩ := List.append_inj hcs hlength
      obtain ⟨rfl, rfl, rfl⟩ := names_unique hnames hnames' htail
      rw [ih hrest']

end Found

section Listed

theorem dropWhile_opening {ahead : List Char} (hahead : '(' ∉ ahead) (cs : List Char) :
    (ahead ++ '(' :: cs).dropWhile (· != '(') = '(' :: cs := by
  rw [List.dropWhile_append_of_pos, List.dropWhile_cons_of_neg (by decide)]
  intro c hmem
  exact bne_iff_ne.2 (ne_of_mem_of_not_mem hmem hahead)

/-- Before the parenthesis that an annotation opens there is no other one. -/
theorem Names.opens {text member : List Char} (htag : '(' ∉ tag) (h : Names tag enum text member) :
    ∃ ahead inside tail, '(' ∉ ahead ∧ IsSpace inside ∧ Ends tail member
      ∧ text = ahead ++ '(' :: (inside ++ (enum ++ '.' :: tail)) := by
  obtain @⟨before, inside, tail, _, hbefore, hinside, hends⟩ := h
  refine ⟨tag ++ before, inside, tail, fun hmem => ?_, hinside, hends, (List.append_assoc _ _ _).symm⟩
  rcases List.mem_append.1 hmem with hmem | hmem
  · exact htag hmem
  · exact absurd (hbefore _ hmem) (by decide)

theorem Names.opens_mem {text member : List Char} (h : Names tag enum text member) : '(' ∈ text := by
  obtain ⟨-, -, -⟩ := h
  simp

/-- The first annotation names what the annotation behind a separator names, and ends where that one ends. It
may begin earlier, if the tag ends with white space. -/
theorem Places.separated {start : Nat} {separator text rest member : List Char} {found : List (String × Span)}
    (htag : '(' ∉ tag) (hseparator : '(' ∉ separator) (hnames : Names tag enum text member)
    (h : Places tag enum start (separator ++ (text ++ rest)) found) : ∃ start' span found',
      found = (String.ofList member, span) :: found' ∧ Places tag enum start' rest found' := by
  generalize hcs : separator ++ (text ++ rest) = cs at h
  cases h with
  | none hall => exact absurd hcs.symm (hall _ _ _ _ hnames)
  | @first _ before text' rest' member' found' hnames' hfirst hrest =>
    have hle := hfirst _ _ _ _ hnames hcs.symm
    obtain ⟨ahead, inside, tail, hahead, hinside, hends, rfl⟩ := hnames.opens htag
    obtain ⟨ahead', inside', tail', hahead', hinside', hends', rfl⟩ := hnames'.opens htag
    have hbefore : '(' ∉ before := by
      have hbegins : before <+: separator :=
        List.prefix_of_prefix_length_le (List.prefix_append _ _) (hcs ▸ List.prefix_append _ _) hle
      exact fun hmem => hseparator (hbegins.subset hmem)
    have hdrop := congrArg (List.dropWhile (· != '(')) hcs
    simp only [List.append_assoc, List.cons_append] at hdrop
    rw [← List.append_assoc, ← List.append_assoc before, dropWhile_opening (by simp [hseparator, hahead]),
      dropWhile_opening (by simp [hbefore, hahead'])] at hdrop
    obtain ⟨rfl, rfl⟩ := inside_unique hinside hinside' hends hends' (List.cons.inj hdrop).2
    exact ⟨_, _, found', rfl, hrest⟩

theorem Joined.places {text : List Char} {members : List String} (htag : '(' ∉ tag)
    (h : Joined tag enum text members) : ∀ {start : Nat} {found : List (String × Span)},
      Places tag enum start text found → found.map Prod.fst = members := by
  induction h with
  | last hseparator =>
    intro start found hfound
    cases hfound with
    | none => rfl
    | first hnames => exact absurd (by simp [hnames.opens_mem]) hseparator
  | more hseparator hnames _ ih =>
    intro start found hfound
    obtain ⟨start', span, found', rfl, hrest⟩ := hfound.separated htag hseparator hnames
    rw [List.map_cons, ih hrest]

end Listed

end NodeFactory.Annotation
