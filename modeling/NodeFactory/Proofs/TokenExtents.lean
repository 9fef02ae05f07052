import NodeFactory.Proofs.CommentsAndLiterals

/-!
# What stands behind a token

How far a token reaches is seen from the characters up to its end and from the one or two after it. So a
token stays the same if something else stands behind it that begins in the same way, or that goes on with no
token: nothing, or a character that separates tokens (`Follows`, `extent_of_follows`). There are two exceptions.
Trivia may take such a character in; and a dot before another dot would become part of the number before it.

The first character decides how the end of a token is found (`extent_rule`), and no character is a line break,
a blank and the beginning of a name at once.
-/

namespace NodeFactory.Token

open Text

/-- Characters that no token goes on with but trivia, and none but trivia and quotes inside. -/
def separators : List Char := [';', ',', ' ', '\n', '\r', '\u2028', '\u2029']

theorem eq_false_of_any {p : Char → Bool} {cs : List Char} (h : cs.any p = false) : ∀ c ∈ cs, p c = false :=
  fun c hmem => eq_false_of_ne_true (List.any_eq_false.1 h c hmem)

theorem isNameContinue_separators : ∀ c ∈ separators, isNameContinue c = false :=
  eq_false_of_any (by decide +kernel)

/-- Whether trivia of a kind goes on with a character. -/
def takesIn : TokenKind → Char → Bool
  | .lineComment, c => !isLineBreak c
  | .endOfLine, c => isLineBreak c
  | .blank, c => isBlank c
  | _, _ => false

theorem takesIn_of_not_trivia {kind : TokenKind} (h : kind.isTrivia = false) (c : Char) :
    takesIn kind c = false := by
  cases kind <;> first | rfl | cases h

theorem takesIn_semicolon {kind : TokenKind} (h : kind ≠ .lineComment) : takesIn kind ';' = false := by
  cases kind <;> first | rfl | exact absurd rfl h

/-- What may stand behind a token instead. A dot is seen together with a dot after it. -/
inductive Follows (kind : TokenKind) (ys : List Char) : List Char → Prop
  | nothing : Follows kind ys []
  | separator {d : Char} (more : List Char) : d ∈ separators → takesIn kind d = false → Follows kind ys (d :: more)
  | same {ys' : List Char} : ys'.head? = ys.head? →
      (ys.head? = some '.' → (ys'.tail.head? = some '.' ↔ ys.tail.head? = some '.')) →
      Follows kind ys ys'

section Behind

variable {kind : TokenKind} {xs ys ys' : List Char}

/-- A class whose characters did not go on does not go on with what stands behind instead. -/
theorem Follows.fails {p : Char → Bool} (h : Follows kind ys ys')
    (hp : ∀ d ∈ separators, takesIn kind d = false → p d = false) (hys : ∀ c ∈ ys.head?, p c = false) :
    ∀ c ∈ ys'.head?, p c = false := by
  cases h with
  | nothing => exact nofun
  | separator more hd htakes =>
    rintro _ ⟨⟩
    exact hp _ hd htakes
  | same hhead _ => rwa [hhead]

theorem Follows.head_ne {d : Char} (h : Follows kind ys ys') (hd : d ∉ separators)
    (hys : ys.head? ≠ some d) : ys'.head? ≠ some d := by
  cases h with
  | nothing => exact nofun
  | separator more hmem _ =>
    rintro ⟨⟩
    exact hd hmem
  | same hhead _ => rwa [hhead]

/-- Behind more of the text anything may stand instead, but for a dot that is seen with the next
character. -/
theorem follows_append (hxs : xs ≠ []) (hdot : xs = ['.'] → (ys'.head? = some '.' ↔ ys.head? = some '.')) :
    Follows kind (xs ++ ys) (xs ++ ys') :=
  match xs with
  | [] => absurd rfl hxs
  | [_] => .same rfl fun hc => hdot (congrArg (· :: []) (Option.some.inj hc))
  | _ :: _ :: _ => .same rfl fun _ => Iff.rfl

end Behind

/-- A length stays the same if something else stands behind. -/
def Resumes (length : List Char → Nat) : Prop :=
  ∀ xs ys ys', length (xs ++ ys) = xs.length → Follows .number ys ys' → length (xs ++ ys') = xs.length

section Lengths

/-- A run is as long as a text that begins with it if it ends there. -/
theorem runLength_append_eq_iff {p : Char → Bool} : ∀ {xs ys : List Char},
    runLength p (xs ++ ys) = xs.length ↔ (∀ c ∈ xs, p c = true) ∧ ∀ c ∈ ys.head?, p c = false
  | [], [] => by simp [runLength]
  | [], c :: ys => by cases hc : p c <;> simp [runLength, hc]
  | c :: xs, ys => by
    have ih : runLength p (xs ++ ys) = xs.length ↔ (∀ c ∈ xs, p c = true) ∧ ∀ c ∈ ys.head?, p c = false :=
      runLength_append_eq_iff
    unfold runLength at ih ⊢
    rw [List.cons_append, List.takeWhile_cons, List.forall_mem_cons, and_assoc, ← ih]
    cases p c <;> simp

theorem runLength_le (p : Char → Bool) (cs : List Char) : runLength p cs ≤ cs.length :=
  (List.takeWhile_sublist p).length_le

theorem Resumes.run {p : Char → Bool} (hp : separators.any p = false) : Resumes (runLength p) := by
  intro xs ys ys' h hfollows
  obtain ⟨hall, hys⟩ := runLength_append_eq_iff.1 h
  exact runLength_append_eq_iff.2 ⟨hall, hfollows.fails (fun d hd _ => eq_false_of_any hp d hd) hys⟩

/-- A length after another. Where the second is a dot alone, no dot may follow. -/
theorem Resumes.seq {f g : List Char → Nat} (hf : Resumes f) (hg : Resumes g)
    (hdot : ∀ cs, g ('.' :: cs) = 1 → cs.head? ≠ some '.') : Resumes fun cs => f cs + g (cs.drop (f cs)) := by
  intro xs ys ys' h hfollows
  dsimp only at h ⊢
  obtain ⟨first, second, rfl, hfirst⟩ : ∃ first second, xs = first ++ second
      ∧ f (xs ++ ys) = first.length :=
    ⟨_, _, (List.take_append_drop (f (xs ++ ys)) xs).symm, (List.length_take_of_le (by omega)).symm⟩
  rw [List.append_assoc] at h hfirst ⊢
  rw [hfirst, List.drop_left, List.length_append] at h
  have hsecond : g (second ++ ys) = second.length := by omega
  have hbehind : Follows .number (second ++ ys) (second ++ ys') := by
    by_cases hnil : second = []
    · rwa [hnil]
    refine follows_append hnil ?_
    rintro rfl
    have hys := hdot ys hsecond
    exact iff_of_false (hfollows.head_ne (by decide) hys) hys
  rw [hf _ _ _ hfirst hbehind, List.drop_left, hg _ _ _ hsecond hfollows, List.length_append]

theorem resumes_digitsLength : Resumes digitsLength := .run (by decide)

theorem resumes_hexDigitsLength : Resumes hexDigitsLength := .run (by decide)

theorem digitsLength_le (cs : List Char) : digitsLength cs ≤ cs.length := runLength_le _ cs

theorem hexDigitsLength_le (cs : List Char) : hexDigitsLength cs ≤ cs.length := runLength_le _ cs

theorem signLength_cons (c : Char) (cs : List Char) :
    signLength (c :: cs) = if c = '+' ∨ c = '-' then 1 else 0 := rfl

theorem signLength_eq_zero_iff {cs : List Char} :
    signLength cs = 0 ↔ cs.head? ≠ some '+' ∧ cs.head? ≠ some '-' := by
  cases cs with
  | nil => simp [signLength]
  | cons c cs => simp [signLength_cons]

theorem signLength_le (cs : List Char) : signLength cs ≤ cs.length := by
  cases cs with
  | nil => exact Nat.le_refl 0
  | cons c cs =>
    rw [signLength_cons, List.length_cons]
    split <;> omega

theorem resumes_signLength : Resumes signLength
  | [], ys, ys', h, hfollows => by
    obtain ⟨hplus, hminus⟩ := signLength_eq_zero_iff.1 h
    exact signLength_eq_zero_iff.2 ⟨hfollows.head_ne (by decide) hplus, hfollows.head_ne (by decide) hminus⟩
  | _ :: _, _, _, h, _ => h

/-- A sign that may be missing, and digits. -/
def signedLength (cs : List Char) : Nat :=
  signLength cs + digitsLength (cs.drop (signLength cs))

theorem digitsLength_dot (cs : List Char) : digitsLength ('.' :: cs) = 0 := rfl

theorem resumes_signedLength : Resumes signedLength :=
  resumes_signLength.seq resumes_digitsLength fun cs h => by
    rw [digitsLength_dot] at h
    cases h

theorem signedLength_le (cs : List Char) : signedLength cs ≤ cs.length := by
  have hsign := signLength_le cs
  have hdigits := digitsLength_le (cs.drop (signLength cs))
  rw [List.length_drop] at hdigits
  unfold signedLength
  omega

theorem exponentLength_cons (c : Char) (cs : List Char) :
    exponentLength (c :: cs) = if c = 'e' ∨ c = 'E' then 1 + signedLength cs else 0 := by
  rw [exponentLength]
  simp only [signedLength, Nat.add_assoc]

theorem exponentLength_eq_zero_iff {cs : List Char} :
    exponentLength cs = 0 ↔ cs.head? ≠ some 'e' ∧ cs.head? ≠ some 'E' := by
  cases cs with
  | nil => simp [exponentLength]
  | cons c cs => simp [exponentLength_cons]

theorem exponentLength_le (cs : List Char) : exponentLength cs ≤ cs.length := by
  cases cs with
  | nil => exact Nat.le_refl 0
  | cons c cs =>
    have hle := signedLength_le cs
    rw [exponentLength_cons, List.length_cons]
    split <;> omega

theorem resumes_exponentLength : Resumes exponentLength
  | [], ys, ys', h, hfollows => by
    obtain ⟨hlower, hupper⟩ := exponentLength_eq_zero_iff.1 h
    exact exponentLength_eq_zero_iff.2
      ⟨hfollows.head_ne (by decide) hlower, hfollows.head_ne (by decide) hupper⟩
  | c :: xs, ys, ys', h, hfollows => by
    rw [List.cons_append, exponentLength_cons, List.length_cons] at h
    rw [List.cons_append, exponentLength_cons, List.length_cons]
    split
    · rename_i hc
      rw [if_pos hc] at h
      rw [resumes_signedLength xs ys ys' (by omega) hfollows, Nat.add_comm]
    · rename_i hc
      rw [if_neg hc] at h
      cases h

theorem fractionLength_of_ne {cs : List Char} (h : cs.head? ≠ some '.') : fractionLength cs = 0 := by
  unfold fractionLength
  split <;> simp_all

theorem fractionLength_of_head {cs : List Char} (h : cs.head? ≠ some '.') :
    fractionLength ('.' :: cs) = 1 + digitsLength cs := by
  unfold fractionLength
  split <;> simp_all

theorem fractionLength_of_dots {cs : List Char} (h : cs.head? = some '.') :
    fractionLength ('.' :: cs) = 0 := by
  obtain ⟨cs, rfl⟩ := List.head?_eq_some_iff.1 h
  rfl

theorem fractionLength_le (cs : List Char) : fractionLength cs ≤ cs.length := by
  unfold fractionLength
  split
  · exact Nat.zero_le _
  · rename_i cs _
    have := digitsLength_le cs
    rw [List.length_cons]
    omega
  · exact Nat.zero_le _

/-- A dot is the beginning of a fraction unless another follows. -/
theorem fractionLength_eq_zero_iff {cs : List Char} :
    fractionLength cs = 0 ↔ (cs.head? = some '.' → cs.tail.head? = some '.') := by
  by_cases hc : cs.head? = some '.'
  · obtain ⟨cs, rfl⟩ := List.head?_eq_some_iff.1 hc
    by_cases hhead : cs.head? = some '.'
    · simp [fractionLength_of_dots hhead, hhead]
    · simp [fractionLength_of_head hhead, hhead]
  · simp [fractionLength_of_ne hc, hc]

theorem resumes_fractionLength : Resumes fractionLength
  | [], ys, ys', h, hfollows => by
    have hdots := fractionLength_eq_zero_iff.1 h
    refine fractionLength_eq_zero_iff.2 ?_
    show ys'.head? = some '.' → ys'.tail.head? = some '.'
    cases hfollows with
    | nothing => exact nofun
    | separator more hd _ =>
      rintro ⟨⟩
      exact absurd hd (by decide)
    | same hhead hsecond =>
      rw [hhead]
      exact fun hdot => (hsecond hdot).2 (hdots hdot)
  | c :: xs, ys, ys', h, hfollows => by
    by_cases hc : c = '.'
    case neg =>
      rw [fractionLength_of_ne (by simpa using hc)] at h
      cases h
    subst hc
    rw [List.cons_append] at h ⊢
    by_cases hhead : (xs ++ ys).head? = some '.'
    · rw [fractionLength_of_dots hhead] at h
      cases h
    have hhead' : (xs ++ ys').head? ≠ some '.' := by
      cases xs with
      | nil => exact hfollows.head_ne (by decide) hhead
      | cons d xs => exact hhead
    rw [fractionLength_of_head hhead, List.length_cons] at h
    rw [fractionLength_of_head hhead', resumes_digitsLength xs ys ys' (by omega) hfollows,
      List.length_cons, Nat.add_comm]

/-- The part of a number after its whole digits. -/
def tailLength (cs : List Char) : Nat :=
  fractionLength cs + exponentLength (cs.drop (fractionLength cs))

theorem resumes_tailLength : Resumes tailLength :=
  resumes_fractionLength.seq resumes_exponentLength fun cs h => by
    rw [exponentLength_cons, if_neg (by decide)] at h
    cases h

/-- No dot follows a fraction that is a dot alone. -/
theorem head_ne_of_tailLength {cs : List Char} (h : tailLength ('.' :: cs) = 1) :
    cs.head? ≠ some '.' := by
  intro hhead
  rw [tailLength, fractionLength_of_dots hhead, List.drop_zero, exponentLength_cons,
    if_neg (by decide)] at h
  cases h

theorem decimalLength_eq (cs : List Char) :
    decimalLength cs = digitsLength cs + tailLength (cs.drop (digitsLength cs)) := by
  unfold decimalLength tailLength
  simp only [List.drop_drop, Nat.add_assoc]

theorem decimalLength_le (cs : List Char) : decimalLength cs ≤ cs.length := by
  have hwhole := digitsLength_le cs
  have hfraction := fractionLength_le (cs.drop (digitsLength cs))
  have hexponent := exponentLength_le
    ((cs.drop (digitsLength cs)).drop (fractionLength (cs.drop (digitsLength cs))))
  rw [decimalLength_eq, tailLength]
  simp only [List.length_drop] at hfraction hexponent
  omega

theorem resumes_decimalLength : Resumes decimalLength := by
  intro xs ys ys' h hfollows
  rw [decimalLength_eq] at h ⊢
  exact resumes_digitsLength.seq resumes_tailLength (fun _ => head_ne_of_tailLength) xs ys ys' h hfollows

theorem numberLength_cons (first c : Char) (cs : List Char) : numberLength first (c :: cs)
    = if first = '0' ∧ c ∈ ['b', 'B', 'o', 'O'] then 1 + digitsLength cs
      else if first = '0' ∧ c ∈ ['x', 'X'] then 1 + hexDigitsLength cs
      else decimalLength (c :: cs) := rfl

theorem numberLength_le (first : Char) (cs : List Char) : numberLength first cs ≤ cs.length := by
  cases cs with
  | nil => exact Nat.le_refl 0
  | cons c cs =>
    have hdigits := digitsLength_le cs
    have hhexDigits := hexDigitsLength_le cs
    have hdecimal := decimalLength_le (c :: cs)
    rw [numberLength_cons]
    rw [List.length_cons] at hdecimal ⊢
    split
    · omega
    · split
      · omega
      · exact hdecimal

/-- A number that is a digit alone. -/
theorem numberLength_eq_zero_iff {first : Char} {cs : List Char} : numberLength first cs = 0
    ↔ decimalLength cs = 0 ∧ (first = '0' → ∀ c ∈ cs.head?, c ∉ ['b', 'B', 'o', 'O', 'x', 'X']) := by
  cases cs with
  | nil => simp [numberLength, decimalLength, digitsLength, runLength, fractionLength, exponentLength]
  | cons c cs =>
    rw [numberLength_cons]
    by_cases hfirst : first = '0'
    case neg => simp [hfirst]
    by_cases hbase : c ∈ ['b', 'B', 'o', 'O']
    · rw [if_pos ⟨hfirst, hbase⟩]
      refine iff_of_false (by omega) fun h => h.2 hfirst c rfl ?_
      exact List.mem_append_left ['x', 'X'] hbase
    by_cases hbase' : c ∈ ['x', 'X']
    · rw [if_neg (by simp [hbase]), if_pos ⟨hfirst, hbase'⟩]
      refine iff_of_false (by omega) fun h => h.2 hfirst c rfl ?_
      exact List.mem_append_right ['b', 'B', 'o', 'O'] hbase'
    · rw [if_neg (by simp [hbase]), if_neg (by simp [hbase'])]
      simp_all

theorem resumes_numberLength (first : Char) : Resumes (numberLength first)
  | [], ys, ys', h, hfollows => by
    obtain ⟨hdecimal, hbase⟩ := numberLength_eq_zero_iff.1 h
    refine numberLength_eq_zero_iff.2
      ⟨resumes_decimalLength [] ys ys' hdecimal hfollows, fun hfirst => ?_⟩
    have hseparators : separators.any (fun c => decide (c ∈ ['b', 'B', 'o', 'O', 'x', 'X'])) = false := by decide
    have hfails := hfollows.fails (fun d hd _ => eq_false_of_any hseparators d hd) fun c hc => decide_eq_false (hbase hfirst c hc)
    exact fun c hc => of_decide_eq_false (hfails c hc)
  | c :: xs, ys, ys', h, hfollows => by
    rw [List.cons_append, numberLength_cons, List.length_cons] at h
    rw [List.cons_append, numberLength_cons, List.length_cons]
    split
    · rename_i hbase
      rw [if_pos hbase] at h
      rw [resumes_digitsLength xs ys ys' (by omega) hfollows, Nat.add_comm]
    · rename_i hbase
      rw [if_neg hbase] at h
      split
      · rename_i hbase'
        rw [if_pos hbase'] at h
        rw [resumes_hexDigitsLength xs ys ys' (by omega) hfollows, Nat.add_comm]
      · rename_i hbase'
        rw [if_neg hbase'] at h
        exact resumes_decimalLength (c :: xs) ys ys' h hfollows

end Lengths

section Extents

variable {xs ys ys' : List Char} {kind : TokenKind} {n : Nat}

theorem slashExtent_line (cs : List Char) :
    slashExtent ('/' :: cs) = (.lineComment, 1 + runLength (fun c => !isLineBreak c) cs) := rfl

theorem slashExtent_block (cs : List Char) : slashExtent ('*' :: cs)
    = match commentEnd? cs with
      | some n => (.blockComment, 1 + n)
      | none => (.unterminatedComment, 1 + cs.length) := rfl

theorem slashExtent_of_head {cs : List Char} (hline : cs.head? ≠ some '/')
    (hblock : cs.head? ≠ some '*') : slashExtent cs = (.slash, 0) := by
  unfold slashExtent
  split <;> simp_all

theorem slashExtent_le (cs : List Char) : (slashExtent cs).2 ≤ cs.length := by
  unfold slashExtent
  split
  · have := runLength_le (fun c => !isLineBreak c) ‹_›
    simp only [List.length_cons]
    omega
  · split
    · rename_i hend
      have := commentEnd?_le hend
      simp only [List.length_cons]
      omega
    · simp only [List.length_cons]
      omega
  · exact Nat.zero_le _

/-- What begins with a slash is a slash alone only where no comment begins. -/
theorem head_of_slashExtent {cs : List Char} (h : slashExtent cs = (kind, 0)) :
    kind = .slash ∧ cs.head? ≠ some '/' ∧ cs.head? ≠ some '*' := by
  by_cases hline : cs.head? = some '/'
  · obtain ⟨cs, rfl⟩ := List.head?_eq_some_iff.1 hline
    have hlength : 1 + _ = 0 := (Prod.mk.inj h).2
    omega
  by_cases hblock : cs.head? = some '*'
  · obtain ⟨cs, rfl⟩ := List.head?_eq_some_iff.1 hblock
    rw [slashExtent_block] at h
    split at h
    · have hlength := (Prod.mk.inj h).2
      omega
    · have hlength := (Prod.mk.inj h).2
      omega
  · rw [slashExtent_of_head hline hblock] at h
    exact ⟨(Prod.mk.inj h).1.symm, hline, hblock⟩

theorem slashExtent_follows (h : slashExtent (xs ++ ys) = (kind, xs.length))
    (hmalformed : kind.isMalformed = true → ys = [] → ys' = []) (hfollows : Follows kind ys ys') :
    slashExtent (xs ++ ys') = (kind, xs.length) := by
  cases xs with
  | nil =>
    obtain ⟨rfl, hline, hblock⟩ := head_of_slashExtent h
    exact slashExtent_of_head (hfollows.head_ne (by decide) hline) (hfollows.head_ne (by decide) hblock)
  | cons c xs =>
    rw [List.cons_append, List.length_cons] at h
    rw [List.cons_append, List.length_cons]
    by_cases hline : c = '/'
    · subst hline
      obtain ⟨rfl, hlength⟩ := Prod.mk.inj h
      obtain ⟨hall, hys⟩ := runLength_append_eq_iff.1 (Nat.add_left_cancel (hlength.trans (Nat.add_comm _ 1)))
      have hrun := runLength_append_eq_iff.2
        ⟨hall, hfollows.fails (fun _ _ htakes => htakes) hys⟩
      rw [slashExtent_line, hrun, Nat.add_comm]
    by_cases hblock : c = '*'
    · subst hblock
      rw [slashExtent_block] at h ⊢
      cases hend : commentEnd? (xs ++ ys) with
      | none =>
        rw [hend] at h
        obtain ⟨rfl, hlength⟩ := Prod.mk.inj h
        rw [List.length_append] at hlength
        obtain rfl := List.eq_nil_of_length_eq_zero (l := ys) (by omega)
        rw [hmalformed rfl rfl, hend, List.append_nil, Nat.add_comm]
      | some m =>
        rw [hend] at h
        obtain ⟨rfl, hlength⟩ := Prod.mk.inj h
        obtain rfl : m = xs.length := by omega
        rw [commentEnd?_eq_some_iff.2 (commentEnd?_eq_some_iff.1 hend)]
        exact Prod.ext rfl hlength
    · rw [slashExtent_of_head (by simpa using hline) (by simpa using hblock)] at h
      cases h

theorem equalsExtent_of_head {cs : List Char} (h : cs.head? ≠ some '>') :
    equalsExtent cs = (.assign, 0) := by
  unfold equalsExtent
  split <;> simp_all

theorem equalsExtent_kind (cs : List Char) :
    (equalsExtent cs).1 = .fatArrow ∨ (equalsExtent cs).1 = .assign := by
  unfold equalsExtent
  split
  · exact .inl rfl
  · exact .inr rfl

theorem equalsExtent_le (cs : List Char) : (equalsExtent cs).2 ≤ cs.length := by
  unfold equalsExtent
  split <;> simp

theorem equalsExtent_follows (h : equalsExtent (xs ++ ys) = (kind, xs.length))
    (hfollows : Follows kind ys ys') : equalsExtent (xs ++ ys') = (kind, xs.length) := by
  by_cases hhead : (xs ++ ys).head? = some '>'
  · obtain ⟨cs, hcs⟩ := List.head?_eq_some_iff.1 hhead
    rw [hcs] at h
    obtain ⟨rfl, hlength⟩ := Prod.mk.inj h
    obtain ⟨c, rfl⟩ := List.length_eq_one_iff.1 hlength.symm
    obtain ⟨rfl, -⟩ := List.cons.inj hcs
    rfl
  · rw [equalsExtent_of_head hhead] at h
    obtain ⟨rfl, hlength⟩ := Prod.mk.inj h
    obtain rfl := List.eq_nil_of_length_eq_zero hlength.symm
    exact equalsExtent_of_head (hfollows.head_ne (by decide) hhead)

theorem dotExtent_cons {c : Char} {cs : List Char} (h : ¬ (c = '.' ∧ cs.head? = some '.')) :
    dotExtent (c :: cs) = if isDecimalDigit c then
        (.number, digitsLength (c :: cs)
          + exponentLength ((c :: cs).drop (digitsLength (c :: cs))))
      else (.dot, 0) := by
  unfold dotExtent
  split
  · simp_all
  · rename_i heq
    obtain ⟨rfl, rfl⟩ := List.cons.inj heq
    rfl
  · simp_all

theorem dotExtent_kind (cs : List Char) :
    (dotExtent cs).1 = .ellipsis ∨ (dotExtent cs).1 = .number ∨ (dotExtent cs).1 = .dot := by
  unfold dotExtent
  split
  · exact .inl rfl
  · split
    · exact .inr (.inl rfl)
    · exact .inr (.inr rfl)
  · exact .inr (.inr rfl)

theorem dotExtent_le (cs : List Char) : (dotExtent cs).2 ≤ cs.length := by
  unfold dotExtent
  split
  · simp
  · split
    · rename_i c cs _ _
      have hdigits := digitsLength_le (c :: cs)
      have hexponent := exponentLength_le ((c :: cs).drop (digitsLength (c :: cs)))
      rw [List.length_drop] at hexponent
      show digitsLength (c :: cs) + exponentLength _ ≤ _
      omega
    · exact Nat.zero_le _
  · exact Nat.zero_le _

theorem digitsLength_pos {c : Char} (hc : isDecimalDigit c = true) (cs : List Char) :
    0 < digitsLength (c :: cs) := by
  unfold digitsLength runLength
  rw [List.takeWhile_cons_of_pos (by simp [hc]), List.length_cons]
  exact Nat.succ_pos _

/-- A dot alone, behind which neither two dots nor a digit come. -/
theorem dotExtent_eq_zero_iff {cs : List Char} : dotExtent cs = (kind, 0) ↔ kind = .dot
    ∧ (cs.head? = some '.' → cs.tail.head? ≠ some '.') ∧ ∀ c ∈ cs.head?, isDecimalDigit c = false := by
  cases cs with
  | nil => exact ⟨fun h => ⟨(Prod.mk.inj h).1.symm, nofun, nofun⟩, fun h => by rw [h.1]; rfl⟩
  | cons c cs =>
    by_cases hdots : c = '.' ∧ cs.head? = some '.'
    · obtain ⟨rfl, hhead⟩ := hdots
      obtain ⟨cs, rfl⟩ := List.head?_eq_some_iff.1 hhead
      exact iff_of_false nofun fun h => h.2.1 rfl rfl
    · rw [dotExtent_cons hdots]
      split
      · rename_i hc
        have hpos := digitsLength_pos hc cs
        refine iff_of_false (fun h => ?_) fun h => ?_
        · have hzero := (Prod.mk.inj h).2
          omega
        · have hfalse := h.2.2 c rfl
          rw [hc] at hfalse
          cases hfalse
      · rename_i hc
        refine ⟨fun h => ⟨(Prod.mk.inj h).1.symm, fun hdot hhead => ?_, ?_⟩, fun h => by rw [h.1]⟩
        · exact hdots ⟨Option.some.inj hdot, hhead⟩
        · rintro _ ⟨⟩
          exact eq_false_of_ne_true hc

theorem dotExtent_of_zero {cs : List Char} (h : dotExtent cs = (kind, 0)) : kind = .dot :=
  (dotExtent_eq_zero_iff.1 h).1

theorem dotExtent_follows (h : dotExtent (xs ++ ys) = (kind, xs.length)) (hfollows : Follows kind ys ys') :
    dotExtent (xs ++ ys') = (kind, xs.length) := by
  cases xs with
  | nil =>
    obtain ⟨rfl, hdots, hdigit⟩ := dotExtent_eq_zero_iff.1 h
    refine dotExtent_eq_zero_iff.2 ⟨rfl, ?_, hfollows.fails (fun d hd _ => eq_false_of_any (by decide) d hd) hdigit⟩
    show ys'.head? = some '.' → ys'.tail.head? ≠ some '.'
    cases hfollows with
    | nothing => exact nofun
    | separator more hd _ =>
      rintro ⟨⟩
      exact absurd hd (by decide)
    | same hhead hsecond =>
      rw [hhead]
      exact fun hdot hnext => hdots hdot ((hsecond hdot).1 hnext)
  | cons c xs =>
    rw [List.cons_append] at h ⊢
    by_cases hdots : c = '.' ∧ (xs ++ ys).head? = some '.'
    · obtain ⟨rfl, hhead⟩ := hdots
      obtain ⟨cs, hcs⟩ := List.head?_eq_some_iff.1 hhead
      rw [hcs] at h
      obtain ⟨rfl, hlength⟩ := Prod.mk.inj h
      obtain ⟨d, rfl⟩ := List.length_eq_one_iff.1 (Nat.succ.inj hlength).symm
      obtain ⟨rfl, -⟩ := List.cons.inj hcs
      rfl
    rw [dotExtent_cons hdots] at h
    split at h
    · rename_i hc
      obtain ⟨rfl, hlength⟩ := Prod.mk.inj h
      have hdots' : ¬ (c = '.' ∧ (xs ++ ys').head? = some '.') := by
        rintro ⟨rfl, -⟩
        cases hc
      have hresumes := resumes_digitsLength.seq resumes_exponentLength (fun cs h => by
        rw [exponentLength_cons, if_neg (by decide)] at h
        cases h) (c :: xs) ys ys' hlength hfollows
      rw [dotExtent_cons hdots', if_pos hc]
      exact Prod.ext rfl hresumes
    · cases h

section Beginnings

variable {c : Char}

/-- A character of a class is none outside of it. -/
theorem ne_of_class {p : Char → Bool} {d : Char} (hc : p c = true) (hd : p d = false) : c ≠ d := by
  rintro rfl
  rw [hc] at hd
  cases hd

theorem not_isLineBreak (h : isBlank c = true ∨ isNameStart c = true) : isLineBreak c = false := by
  refine eq_false_of_ne_true fun hbreak => ?_
  simp only [isLineBreak, Bool.or_eq_true, beq_iff_eq] at hbreak
  rcases hbreak with ((rfl | rfl) | rfl) | rfl <;> revert h <;> decide +kernel

theorem not_isBlank (h : isNameStart c = true) : isBlank c = false := by
  refine eq_false_of_ne_true fun hblank => ?_
  have hcode : c.toNat ∈ [0x09, 0x0B, 0x0C, 0x20, 0x85, 0xA0, 0x1680, 0x202F, 0x205F, 0x3000, 0xFEFF]
      ++ List.range' 0x2000 12 := by
    simp [isBlank, List.mem_range'_1] at hblank ⊢
    omega
  have hranges : inRanges c.toNat nameStartRanges = false := by
    revert hcode
    generalize c.toNat = code
    revert code
    decide +kernel
  rw [isNameStart, hranges, Bool.or_false, Bool.or_eq_true, beq_iff_eq, beq_iff_eq] at h
  rcases h with rfl | rfl <;> cases hblank

theorem extent_of_isLineBreak (h : isLineBreak c = true) (cs : List Char) :
    extent c cs = (.endOfLine, runLength isLineBreak cs) := by
  unfold extent
  rw [if_neg (ne_of_class h rfl), if_neg (ne_of_class h rfl), if_neg (ne_of_class h rfl), if_pos h]

theorem extent_of_isBlank (h : isBlank c = true) (cs : List Char) :
    extent c cs = (.blank, runLength isBlank cs) := by
  unfold extent
  rw [if_neg (ne_of_class h rfl), if_neg (ne_of_class h rfl), if_neg (ne_of_class h rfl),
    not_isLineBreak (.inl h), if_neg Bool.false_ne_true, if_pos h]

theorem extent_of_isNameStart (h : isNameStart c = true) (cs : List Char) : extent c cs
    = (nameKind (c :: cs.take (runLength isNameContinue cs)), runLength isNameContinue cs) := by
  unfold extent
  rw [if_neg (ne_of_class h (by decide)), if_neg (ne_of_class h (by decide)),
    if_neg (ne_of_class h (by decide)), not_isLineBreak (.inr h), if_neg Bool.false_ne_true, not_isBlank h,
    if_neg Bool.false_ne_true, if_pos h]

theorem extent_of_isQuote (h : c = '"' ∨ c = '\x27') (cs : List Char) :
    extent c cs = quotedToken .string (quotedExtent c isLineBreak cs) := by
  rcases h with rfl | rfl <;> rfl

end Beginnings

/-- What a token that begins with a character takes of the characters after it, and of which kind it is. -/
inductive Rule (c : Char) : (List Char → TokenKind × Nat) → Prop
  | slash : c = '/' → Rule c slashExtent
  | equals : c = '=' → Rule c equalsExtent
  | dot : c = '.' → Rule c dotExtent
  | endOfLine : isLineBreak c = true → Rule c fun cs => (.endOfLine, runLength isLineBreak cs)
  | blank : isBlank c = true → Rule c fun cs => (.blank, runLength isBlank cs)
  | name : isNameStart c = true → Rule c fun cs =>
      (nameKind (c :: cs.take (runLength isNameContinue cs)), runLength isNameContinue cs)
  | number : isDecimalDigit c = true → Rule c fun cs => (.number, numberLength c cs)
  | string : c = '"' ∨ c = '\x27' → Rule c fun cs => quotedToken .string (quotedExtent c isLineBreak cs)
  | template : c = '\x60' → Rule c fun cs => quotedToken .template (quotedExtent c (fun _ => false) cs)
  | mark : Rule c fun _ => (punctuation c, 0)

/-- The first character of a token decides on the rule. -/
theorem extent_rule (c : Char) : Rule c (extent c) := by
  show Rule c fun cs => extent c cs
  simp only [extent]
  by_cases hslash : c = '/'
  · simp only [if_pos hslash]
    exact .slash hslash
  by_cases hequals : c = '='
  · simp only [if_neg hslash, if_pos hequals]
    exact .equals hequals
  by_cases hdot : c = '.'
  · simp only [if_neg hslash, if_neg hequals, if_pos hdot]
    exact .dot hdot
  simp only [if_neg hslash, if_neg hequals, if_neg hdot]
  by_cases hbreak : isLineBreak c = true
  · simp only [if_pos hbreak]
    exact .endOfLine hbreak
  by_cases hblank : isBlank c = true
  · simp only [if_neg hbreak, if_pos hblank]
    exact .blank hblank
  by_cases hname : isNameStart c = true
  · simp only [if_neg hbreak, if_neg hblank, if_pos hname]
    exact .name hname
  simp only [if_neg hbreak, if_neg hblank, if_neg hname]
  by_cases hdigit : isDecimalDigit c = true
  · simp only [if_pos hdigit]
    exact .number hdigit
  by_cases hquote : c = '"' ∨ c = '\x27'
  · simp only [if_neg hdigit, if_pos hquote]
    exact .string hquote
  by_cases hback : c = '\x60'
  · simp only [if_neg hdigit, if_neg hquote, if_pos hback]
    exact .template hback
  · simp only [if_neg hdigit, if_neg hquote, if_neg hback]
    exact .mark

/-- A token without its first character lies in the text after that. -/
theorem extent_le (c : Char) (cs : List Char) : (extent c cs).2 ≤ cs.length := by
  have hquoted : ∀ kind breaks, (quotedToken kind (quotedExtent c breaks cs)).2 ≤ cs.length := by
    intro kind breaks
    have := quotedExtent_le c breaks cs
    generalize quotedExtent c breaks cs = result at this
    obtain ⟨closed, n⟩ := result
    cases closed <;> exact this
  have hrule := extent_rule c
  generalize extent c = rule at hrule ⊢
  cases hrule with
  | slash => exact slashExtent_le cs
  | equals => exact equalsExtent_le cs
  | dot => exact dotExtent_le cs
  | endOfLine | blank | name => exact runLength_le _ cs
  | number => exact numberLength_le c cs
  | string | template => exact hquoted _ _
  | mark => exact Nat.zero_le _

theorem backslash_ne_quote {c : Char} (hc : c = '"' ∨ c = '\x27') : '\\' ≠ c := by
  rcases hc with rfl | rfl <;> decide

section Quoted

variable {literal : TokenKind} {quote : Char} {breaks : Char → Bool} (hquote : '\\' ≠ quote)
  (hbreaks : breaks '\\' = false)
include hquote hbreaks

/-- A piece of text that begins with a quote is a literal, or is left open. -/
theorem quotedToken_iff : quotedToken literal (quotedExtent quote breaks (xs ++ ys)) = (kind, xs.length)
    ↔ kind = literal ∧ IsClosed quote breaks (quote :: xs)
      ∨ kind = .unterminatedString ∧ IsLeftOpen quote breaks (quote :: xs) ys := by
  rw [← quotedExtent_eq_closed_iff hquote hbreaks, ← quotedExtent_eq_open_iff hquote hbreaks]
  rcases quotedExtent quote breaks (xs ++ ys) with ⟨_ | _, n⟩ <;> simp [quotedToken, eq_comm]

theorem quotedToken_follows
    (h : quotedToken literal (quotedExtent quote breaks (xs ++ ys)) = (kind, xs.length))
    (hmalformed : kind.isMalformed = true → ys = [] → ys' = []) :
    quotedToken literal (quotedExtent quote breaks (xs ++ ys')) = (kind, xs.length) := by
  rw [quotedToken_iff hquote hbreaks] at h ⊢
  rcases h with ⟨rfl, hclosed⟩ | ⟨rfl, hopen⟩
  · exact .inl ⟨rfl, hclosed⟩
  · exact .inr ⟨rfl, hopen.congr_behind (hmalformed rfl)⟩

end Quoted

/-- A token is the same if something else may stand behind it. What is left open at the end of a text is the same
only where nothing stands behind. -/
theorem extent_of_follows {c : Char} (h : extent c (xs ++ ys) = (kind, xs.length))
    (hmalformed : kind.isMalformed = true → ys = [] → ys' = []) (hfollows : Follows kind ys ys') :
    extent c (xs ++ ys') = (kind, xs.length) := by
  have hrun : ∀ p : Char → Bool, (∀ d ∈ separators, takesIn kind d = false → p d = false) →
      runLength p (xs ++ ys) = xs.length → runLength p (xs ++ ys') = xs.length := by
    intro p hp hlength
    obtain ⟨hall, hys⟩ := runLength_append_eq_iff.1 hlength
    exact runLength_append_eq_iff.2 ⟨hall, hfollows.fails hp hys⟩
  have hrule := extent_rule c
  generalize extent c = rule at hrule h ⊢
  cases hrule with
  | slash => exact slashExtent_follows h hmalformed hfollows
  | equals => exact equalsExtent_follows h hfollows
  | dot => exact dotExtent_follows h hfollows
  | endOfLine =>
    obtain ⟨rfl, hlength⟩ := Prod.mk.inj h
    exact Prod.ext rfl (hrun isLineBreak (fun _ _ htakes => htakes) hlength)
  | blank =>
    obtain ⟨rfl, hlength⟩ := Prod.mk.inj h
    exact Prod.ext rfl (hrun isBlank (fun _ _ htakes => htakes) hlength)
  | name =>
    obtain ⟨hword, hlength⟩ := Prod.mk.inj h
    rw [hlength, List.take_left] at hword
    have hlength' := hrun isNameContinue (fun d hd _ => isNameContinue_separators d hd) hlength
    refine Prod.ext ?_ hlength'
    dsimp only
    rw [hlength', List.take_left, hword]
  | number =>
    obtain ⟨rfl, hlength⟩ := Prod.mk.inj h
    exact Prod.ext rfl (resumes_numberLength c xs ys ys' hlength hfollows)
  | string hc => exact quotedToken_follows (backslash_ne_quote hc) rfl h hmalformed
  | template hc =>
    subst hc
    exact quotedToken_follows (by decide) rfl h hmalformed
  | mark => exact h

/-- A token is the same if the text is changed behind its end. -/
theorem extent_congr_behind {c : Char} {behind behind' : List Char} (h : extent c (xs ++ behind) = (kind, n))
    (hle : n ≤ xs.length) (hmalformed : kind.isMalformed = false)
    (hfollows : Follows kind (xs.drop n ++ behind) (xs.drop n ++ behind')) :
    extent c (xs ++ behind') = (kind, n) := by
  have hlength : (xs.take n).length = n := List.length_take_of_le hle
  rw [← List.take_append_drop n xs, List.append_assoc] at h ⊢
  generalize xs.take n = first at h hlength ⊢
  subst hlength
  exact extent_of_follows h (by simp [hmalformed]) hfollows

/-- A token is the same if its text stands alone. -/
theorem extent_alone {c : Char} {cs : List Char} (h : extent c cs = (kind, n)) :
    extent c (cs.take n) = (kind, n) := by
  have hle := extent_le c cs
  rw [h] at hle
  have hlength : (cs.take n).length = n := List.length_take_of_le hle
  rw [← List.take_append_drop n cs] at h
  generalize cs.take n = xs at h hlength ⊢
  subst hlength
  have halone := extent_of_follows h (fun _ _ => rfl) .nothing
  rwa [List.append_nil] at halone

/-- A token is the same if the text is cut behind it. -/
theorem extent_cut {c : Char} {behind : List Char} (more : List Char)
    (h : extent c (xs ++ behind) = (kind, n)) (hkind : kind.isMalformed = false) (hle : n ≤ xs.length)
    (hcomment : kind = .lineComment → n < xs.length) (hdot : xs.drop n ≠ ['.']) :
    extent c (xs ++ ';' :: more) = (kind, n) := by
  refine extent_congr_behind h hle hkind ?_
  by_cases hend : xs.drop n = []
  · rw [hend]
    refine .separator more (by decide) (takesIn_semicolon fun hkind => ?_)
    have hlt := hcomment hkind
    rw [List.drop_eq_nil_iff] at hend
    omega
  · exact follows_append hend fun hdot' => absurd hdot' hdot

end Extents

end NodeFactory.Token
