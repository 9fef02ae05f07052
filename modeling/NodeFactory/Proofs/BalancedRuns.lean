import NodeFactory.Proofs.Nesting

/-!
# Balanced runs

Lexemes open groups and close them, and lead from one depth to another (`depthOf`). What is skipped is a
balanced run: each lexeme ends it or leads to the depth at which it goes on (`balancedLength_cases`). So it
ends where it does whatever follows (`balancedLength_append_of_lt`), and outside all groups
(`depthOf_take_balancedLength`).
-/

namespace NodeFactory

open Parse

def TokenKind.depth (kind : TokenKind) : Int :=
  if kind.isOpen then 1 else if kind.isClose then -1 else 0

/-- How much deeper it is behind lexemes than before them. -/
def depthOf : List Lexeme → Int
  | [] => 0
  | lexeme :: lexemes => lexeme.kind.depth + depthOf lexemes

section Depths

theorem depthOf_cons (lexeme : Lexeme) (lexemes : List Lexeme) :
    depthOf (lexeme :: lexemes) = lexeme.kind.depth + depthOf lexemes := rfl

theorem depthOf_append (xs ys : List Lexeme) : depthOf (xs ++ ys) = depthOf xs + depthOf ys := by
  induction xs with
  | nil => simp [depthOf]
  | cons lexeme xs ih => rw [List.cons_append, depthOf_cons, ih, depthOf_cons, Int.add_assoc]

theorem TokenKind.depth_of_isOpen {kind : TokenKind} (h : kind.isOpen = true) : kind.depth = 1 :=
  if_pos h

theorem TokenKind.depth_of_isClose {kind : TokenKind} (h : kind.isClose = true) :
    kind.depth = -1 := by
  rw [depth, isOpen_eq_false_of_isClose h, if_neg Bool.false_ne_true, if_pos h]

theorem TokenKind.depth_of_plain {kind : TokenKind} (hopen : kind.isOpen = false)
    (hclose : kind.isClose = false) : kind.depth = 0 := by
  rw [depth, hopen, hclose, if_neg Bool.false_ne_true, if_neg Bool.false_ne_true]

/-- Lexemes that open as many groups as they close lead nowhere. -/
theorem depthOf_eq_countP (xs : List Lexeme) : depthOf xs
    = (xs.countP fun lexeme => lexeme.kind.isOpen) - (xs.countP fun lexeme => lexeme.kind.isClose) := by
  induction xs with
  | nil => rfl
  | cons lexeme xs ih =>
    rw [depthOf_cons, ih, List.countP_cons, List.countP_cons]
    by_cases hopen : lexeme.kind.isOpen = true
    · have hclose : lexeme.kind.isClose = false := by
        refine eq_false_of_ne_true fun hclose => ?_
        rw [TokenKind.isOpen_eq_false_of_isClose hclose] at hopen
        cases hopen
      rw [TokenKind.depth_of_isOpen hopen, if_pos hopen, hclose, if_neg Bool.false_ne_true]
      omega
    rw [if_neg hopen]
    by_cases hclose : lexeme.kind.isClose = true
    · rw [TokenKind.depth_of_isClose hclose, if_pos hclose]
      omega
    · rw [TokenKind.depth_of_plain (by simpa using hopen) (by simpa using hclose), if_neg hclose]
      omega

theorem Nests.depthOf_eq {i j : Nat} {xs : List Lexeme} (h : Nests i j xs) :
    (i : Int) + depthOf xs = j := by
  induction h with
  | nil => exact Int.add_zero _
  | plain hopen hclose _ _ ih =>
    rw [depthOf_cons, TokenKind.depth_of_plain hopen hclose]
    omega
  | opening hopen _ ih =>
    rw [depthOf_cons, TokenKind.depth_of_isOpen hopen]
    omega
  | closing hclose _ ih =>
    rw [depthOf_cons, TokenKind.depth_of_isClose hclose]
    omega

end Depths

section Runs

variable (depth : Nat) (lexeme : Lexeme)

/-- A lexeme closes a group that is not open and is not part of a balanced run, or ends the run outside
all groups, or the run goes on at the depth to which the lexeme leads. -/
theorem balancedLength_cases :
    (depth = 0 ∧ lexeme.kind.isClose = true ∧ ∀ ys, balancedLength depth (lexeme :: ys) = 0)
      ∨ (depth + lexeme.kind.depth = 0 ∧ ∀ ys, balancedLength depth (lexeme :: ys) = 1)
      ∨ ∃ depth' : Nat, (depth' : Int) = depth + lexeme.kind.depth
        ∧ ∀ ys, balancedLength depth (lexeme :: ys) = balancedLength depth' ys + 1 := by
  by_cases hclose : lexeme.kind.isClose = true
  · cases depth with
    | zero => exact .inl ⟨rfl, hclose, fun ys => if_pos hclose⟩
    | succ depth =>
      have hdepth := TokenKind.depth_of_isClose hclose
      by_cases hlast : depth = 0 ∧ lexeme.kind = .closeBrace
      · exact .inr (.inl ⟨by omega, fun ys => (if_pos hclose).trans (if_pos hlast)⟩)
      · exact .inr (.inr ⟨depth, by omega, fun ys => (if_pos hclose).trans (if_neg hlast)⟩)
  by_cases hopen : lexeme.kind.isOpen = true
  · have hdepth := TokenKind.depth_of_isOpen hopen
    exact .inr (.inr ⟨depth + 1, by omega, fun ys => (if_neg hclose).trans (if_pos hopen)⟩)
  have hdepth := TokenKind.depth_of_plain (eq_false_of_ne_true hopen) (eq_false_of_ne_true hclose)
  by_cases hlast : lexeme.kind = .semicolon ∧ depth = 0
  · exact .inr (.inl ⟨by omega, fun ys =>
      (if_neg hclose).trans ((if_neg hopen).trans (if_pos hlast))⟩)
  · exact .inr (.inr ⟨depth, by omega, fun ys =>
      (if_neg hclose).trans ((if_neg hopen).trans (if_neg hlast))⟩)

theorem balancedLength_le : ∀ (depth : Nat) (lexemes : List Lexeme),
    balancedLength depth lexemes ≤ lexemes.length
  | _, [] => Nat.le_refl 0
  | depth, lexeme :: lexemes => by
    rw [List.length_cons]
    rcases balancedLength_cases depth lexeme with ⟨-, -, hrun⟩ | ⟨-, hrun⟩ | ⟨depth', -, hrun⟩
    · rw [hrun]
      exact Nat.zero_le _
    · rw [hrun]
      exact Nat.le_add_left _ _
    · rw [hrun]
      exact Nat.succ_le_succ (balancedLength_le depth' lexemes)

variable {lexeme} in
/-- A balanced run goes on over everything but a closing delimiter that closes nothing. -/
theorem balancedLength_pos (lexemes : List Lexeme) (h : lexeme.kind.isClose = false) :
    0 < balancedLength depth (lexeme :: lexemes) := by
  rcases balancedLength_cases depth lexeme with ⟨-, hclose, -⟩ | ⟨-, hrun⟩ | ⟨depth', -, hrun⟩
  · rw [h] at hclose
    cases hclose
  · rw [hrun]
    exact Nat.one_pos
  · rw [hrun]
    exact Nat.succ_pos _

/-- A balanced run that ends before all lexemes do ends there whatever follows them. -/
theorem balancedLength_append_of_lt : ∀ {depth : Nat} {xs : List Lexeme},
    balancedLength depth xs < xs.length → ∀ ys, balancedLength depth (xs ++ ys) = balancedLength depth xs
  | _, [], h, _ => absurd h (Nat.not_lt_zero _)
  | depth, lexeme :: lexemes, h, ys => by
    rw [List.cons_append]
    rcases balancedLength_cases depth lexeme with ⟨-, -, hrun⟩ | ⟨-, hrun⟩ | ⟨depth', -, hrun⟩
    · rw [hrun, hrun]
    · rw [hrun, hrun]
    · rw [hrun] at h
      rw [hrun, hrun, balancedLength_append_of_lt (Nat.lt_of_succ_lt_succ h)]

/-- A balanced run that ends before all lexemes do leads out of the groups that were open. -/
theorem depthOf_take_balancedLength : ∀ {depth : Nat} {xs : List Lexeme},
    balancedLength depth xs < xs.length → depth + depthOf (xs.take (balancedLength depth xs)) = 0
  | _, [], h => absurd h (Nat.not_lt_zero _)
  | depth, lexeme :: lexemes, h => by
    rcases balancedLength_cases depth lexeme with ⟨rfl, -, hrun⟩ | ⟨hdepth, hrun⟩ | ⟨depth', hdepth, hrun⟩
    · rw [hrun]
      rfl
    · rw [hrun, List.take_succ_cons, List.take_zero, depthOf_cons, depthOf, Int.add_zero, hdepth]
    · rw [hrun] at h ⊢
      have ih := depthOf_take_balancedLength (Nat.lt_of_succ_lt_succ h)
      rw [List.take_succ_cons, depthOf_cons]
      omega

end Runs

end NodeFactory
