import NodeFactory.Grammar.Parse

/-!
# Nesting of delimiters

A run of lexemes leads from one depth of nesting to another if each delimiter in it that closes a
group finds one open (`Nests`). A group is found alike whatever follows the run that closes it
(`Nests.groupLength?`), which is what lets the grammar look past a group before it is read.
-/

namespace NodeFactory

open Parse

/-- Lexemes lead from a depth to another. A dot is not the last of them. -/
inductive Nests : Nat → Nat → List Lexeme → Prop
  | nil {i : Nat} : Nests i i []
  | plain {i j : Nat} {lexeme : Lexeme} {lexemes : List Lexeme} :
      lexeme.kind.isOpen = false → lexeme.kind.isClose = false →
        (lexeme.kind = .dot → lexemes ≠ []) → Nests i j lexemes → Nests i j (lexeme :: lexemes)
  | opening {i j : Nat} {lexeme : Lexeme} {lexemes : List Lexeme} :
      lexeme.kind.isOpen = true → Nests (i + 1) j lexemes → Nests i j (lexeme :: lexemes)
  | closing {i j : Nat} {lexeme : Lexeme} {lexemes : List Lexeme} :
      lexeme.kind.isClose = true → Nests i j lexemes → Nests (i + 1) j (lexeme :: lexemes)

theorem TokenKind.isOpen_eq_false_of_isClose {kind : TokenKind} (h : kind.isClose = true) :
    kind.isOpen = false := by
  cases kind <;> simp_all [isClose, isOpen]

namespace Nests

variable {i j k : Nat} {xs ys : List Lexeme}

theorem append (h : Nests i j xs) (h' : Nests j k ys) : Nests i k (xs ++ ys) := by
  induction h with
  | nil => exact h'
  | plain hopen hclose hdot _ ih =>
    refine .plain hopen hclose (fun hkind => ?_) (ih h')
    simp [hdot hkind]
  | opening hopen _ ih => exact .opening hopen (ih h')
  | closing hclose _ ih => exact .closing hclose (ih h')

/-- Inside another group everything lies one level deeper. -/
theorem inside (h : Nests i j xs) : Nests (i + 1) (j + 1) xs := by
  induction h with
  | nil => exact .nil
  | plain hopen hclose hdot _ ih => exact .plain hopen hclose hdot ih
  | opening hopen _ ih => exact .opening hopen ih
  | closing hclose _ ih => exact .closing hclose ih

theorem kind_getLast (h : Nests i j xs) {lexeme : Lexeme} (hlast : xs.getLast? = some lexeme) :
    lexeme.kind ≠ .dot := by
  induction h with
  | nil => simp at hlast
  | @plain _ _ first rest hopen hclose hdot _ ih =>
    cases rest with
    | nil =>
      obtain rfl : first = lexeme := by simpa using hlast
      exact fun hkind => hdot hkind rfl
    | cons second rest => exact ih (by simpa using hlast)
  | @opening _ _ first rest hopen _ ih =>
    cases rest with
    | nil =>
      obtain rfl : first = lexeme := by simpa using hlast
      intro hkind
      simp [hkind, TokenKind.isOpen] at hopen
    | cons second rest => exact ih (by simpa using hlast)
  | @closing _ _ first rest hclose _ ih =>
    cases rest with
    | nil =>
      obtain rfl : first = lexeme := by simpa using hlast
      intro hkind
      simp [hkind, TokenKind.isClose] at hclose
    | cons second rest => exact ih (by simpa using hlast)

/-- The group ends within lexemes that lead out of it, whatever follows them. -/
theorem groupLength? (h : Nests i 0 xs) :
    ∃ n ≤ xs.length, ∀ rest, groupLength? i (xs ++ rest) = some n := by
  generalize hj : 0 = j at h
  induction h with
  | @nil i =>
    subst hj
    exact ⟨0, Nat.le_refl 0, fun rest => by simp [Parse.groupLength?]⟩
  | @plain i _ lexeme lexemes hopen hclose _ _ ih =>
    obtain ⟨n, hn, hlength⟩ := ih hj
    cases i with
    | zero => exact ⟨0, Nat.zero_le _, fun rest => by simp [Parse.groupLength?]⟩
    | succ i =>
      refine ⟨n + 1, by simpa using hn, fun rest => ?_⟩
      simp [Parse.groupLength?, hopen, hclose, hlength]
  | @opening i _ lexeme lexemes hopen _ ih =>
    obtain ⟨n, hn, hlength⟩ := ih hj
    cases i with
    | zero => exact ⟨0, Nat.zero_le _, fun rest => by simp [Parse.groupLength?]⟩
    | succ i =>
      refine ⟨n + 1, by simpa using hn, fun rest => ?_⟩
      simp [Parse.groupLength?, hopen, hlength]
  | @closing i _ lexeme lexemes hclose _ ih =>
    obtain ⟨n, hn, hlength⟩ := ih hj
    refine ⟨n + 1, by simpa using hn, fun rest => ?_⟩
    simp [Parse.groupLength?, TokenKind.isOpen_eq_false_of_isClose hclose, hclose, hlength]

end Nests

/-- The lexemes of a group that was found lead out of it. -/
theorem nests_of_groupLength? : ∀ {i n : Nat} {xs : List Lexeme}, groupLength? i xs = some n →
    n ≤ xs.length ∧ Nests i 0 (xs.take n)
  | 0, n, xs, h => by
    obtain rfl : n = 0 := by simpa [groupLength?, eq_comm] using h
    exact ⟨Nat.zero_le _, by simpa using Nests.nil⟩
  | _ + 1, _, [], h => by simp [groupLength?] at h
  | i + 1, n, lexeme :: lexemes, h => by
    simp only [groupLength?, Option.map_eq_some_iff] at h
    obtain ⟨m, h, rfl⟩ := h
    obtain ⟨hle, hnests⟩ := nests_of_groupLength? h
    refine ⟨by simpa using hle, ?_⟩
    rw [List.take_succ_cons]
    by_cases hopen : lexeme.kind.isOpen = true
    · rw [if_pos hopen] at hnests
      exact .opening hopen hnests
    · rw [if_neg hopen] at hnests
      by_cases hclose : lexeme.kind.isClose = true
      · rw [if_pos hclose] at hnests
        exact .closing hclose hnests
      · rw [if_neg hclose] at hnests
        refine .plain (by simpa using hopen) (by simpa using hclose) (fun _ => ?_) hnests
        -- A group that is still open goes on.
        intro hnil
        rw [hnil] at hnests
        cases hnests

/-- A group is found alike if what follows it is replaced. -/
theorem groupLength?_take {i n m : Nat} {xs : List Lexeme} (h : groupLength? i xs = some n)
    (hle : n ≤ m) (rest : List Lexeme) : groupLength? i (xs.take m ++ rest) = some n := by
  obtain ⟨hn, hnests⟩ := nests_of_groupLength? h
  obtain ⟨n', _, hlength⟩ := hnests.groupLength?
  obtain rfl : n' = n := by
    have := hlength (xs.drop n)
    rw [List.take_append_drop, h] at this
    exact (Option.some.inj this).symm
  have htake : xs.take m = xs.take n' ++ (xs.take m).drop n' := by
    have h := List.take_append_drop n' (xs.take m)
    rw [List.take_take, Nat.min_eq_left hle] at h
    exact h.symm
  rw [htake, List.append_assoc]
  exact hlength _

end NodeFactory
