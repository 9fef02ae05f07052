import NodeFactory.Kind.Basic
import NodeFactory.Proofs.StableSort

/-!
# The order of kinds

Constants are compared in the total order of numbers, in which minus infinity stands first, minus
zero before plus zero, and what is no number last (`Binary64.TotalLe`). An absent constant comes
after every number. Sorting kinds by their constants neither loses nor adds any, and kinds whose
constants compare equal stay as they were (`isStablySorted_mergeSort`).
-/

namespace NodeFactory

namespace Binary64

/-- A number does not come after another in the total order. -/
inductive TotalLe : Binary64 → Binary64 → Prop
  | minusInfinity (b : Binary64) : TotalLe (.infinite true) b
  | negatives {u v : Nat} {hu : IsRepresentable u} {hv : IsRepresentable v} :
      v ≤ u → TotalLe (.finite true u hu) (.finite true v hv)
  | signs {u v : Nat} {hu : IsRepresentable u} {hv : IsRepresentable v} :
      TotalLe (.finite true u hu) (.finite false v hv)
  | positives {u v : Nat} {hu : IsRepresentable u} {hv : IsRepresentable v} :
      u ≤ v → TotalLe (.finite false u hu) (.finite false v hv)
  | infinity {negative : Bool} {u : Nat} {hu : IsRepresentable u} :
      TotalLe (.finite negative u hu) (.infinite false)
  | infinities : TotalLe (.infinite false) (.infinite false)
  | nan (a : Binary64) : TotalLe a .nan

theorem minusInfinity_rank_le (b : Binary64) : rank (.infinite true) ≤ b.rank := by
  rcases b with _ | ⟨_ | _⟩ | ⟨_ | _, u, hu⟩
  case finite.true =>
    have := hu.1
    simp only [rank]
    omega
  all_goals
    simp only [rank]
    omega

theorem rank_le_nan (a : Binary64) : a.rank ≤ rank .nan := by
  rcases a with _ | ⟨_ | _⟩ | ⟨_ | _, u, hu⟩
  case finite.false =>
    have := hu.1
    simp only [rank]
    omega
  all_goals
    simp only [rank]
    omega

theorem rank_lt_infinity {negative : Bool} {u : Nat} (hu : IsRepresentable u) :
    rank (.finite negative u hu) < rank (.infinite false) := by
  have := hu.1
  cases negative <;> simp only [rank] <;> omega

theorem minusInfinity_rank_lt {negative : Bool} {u : Nat} (hu : IsRepresentable u) :
    rank (.infinite true) < rank (.finite negative u hu) := by
  have := hu.1
  cases negative <;> simp only [rank] <;> omega

theorem rank_le_of_totalLe {a b : Binary64} (h : TotalLe a b) : a.rank ≤ b.rank := by
  cases h with
  | minusInfinity => exact minusInfinity_rank_le b
  | negatives h | positives h | signs =>
    simp only [rank]
    omega
  | infinity => exact Int.le_of_lt (rank_lt_infinity _)
  | infinities => exact Int.le_refl _
  | nan => exact rank_le_nan a

theorem totalLe_of_rank_le : ∀ {a b : Binary64}, a.rank ≤ b.rank → TotalLe a b
  | .infinite true, b, _ => .minusInfinity b
  | a, .nan, _ => .nan a
  | .finite true _ _, .finite true _ _, h => .negatives (by simp only [rank] at h; omega)
  | .finite true _ _, .finite false _ _, _ => .signs
  | .finite false _ _, .finite false _ _, h => .positives (by simp only [rank] at h; omega)
  | .finite _ _ _, .infinite false, _ => .infinity
  | .infinite false, .infinite false, _ => .infinities
  | .finite false _ _, .finite true _ _, h => by simp only [rank] at h; omega
  | .finite _ _ hu, .infinite true, h => absurd (minusInfinity_rank_lt hu) (Int.not_lt.2 h)
  | .infinite false, .finite _ _ hv, h => absurd (rank_lt_infinity hv) (Int.not_lt.2 h)
  | .infinite false, .infinite true, h => by simp only [rank] at h; omega
  | .nan, .infinite negative, h => by cases negative <;> simp only [rank] at h <;> omega
  | .nan, .finite _ _ hv, h =>
    absurd (Int.lt_of_lt_of_le (rank_lt_infinity hv) (rank_le_nan _)) (Int.not_lt.2 h)

theorem totalLe_iff {a b : Binary64} : TotalLe a b ↔ a.rank ≤ b.rank :=
  ⟨rank_le_of_totalLe, totalLe_of_rank_le⟩

theorem TotalLe.antisymm {a b : Binary64} (h : TotalLe a b) (h' : TotalLe b a) : a = b := by
  cases h with
  | minusInfinity | nan =>
    cases h'
    rfl
  | negatives h =>
    cases h' with
    | negatives h' =>
      obtain rfl := Nat.le_antisymm h h'
      rfl
  | positives h =>
    cases h' with
    | positives h' =>
      obtain rfl := Nat.le_antisymm h h'
      rfl
  | signs | infinity => nomatch h'
  | infinities => rfl

end Binary64

namespace NodeKind

/-- A constant does not come after another; an absent one comes last. -/
inductive ValueLe : Option Binary64 → Option Binary64 → Prop
  | numbers {a b : Binary64} : a.TotalLe b → ValueLe (some a) (some b)
  | absent (a : Option Binary64) : ValueLe a none

theorem valueLe_iff {a b : Option Binary64} : valueLe a b = true ↔ ValueLe a b := by
  constructor
  · intro h
    cases b with
    | none => exact .absent a
    | some b =>
      cases a with
      | none => cases h
      | some a => exact .numbers (Binary64.totalLe_iff.2 (of_decide_eq_true h))
  · intro h
    cases h with
    | numbers h => exact decide_eq_true (Binary64.totalLe_iff.1 h)
    | absent => cases a <;> rfl

instance (a b : Option Binary64) : Decidable (ValueLe a b) :=
  decidable_of_iff _ valueLe_iff

theorem ValueLe.antisymm {a b : Option Binary64} (h : ValueLe a b) (h' : ValueLe b a) : a = b := by
  cases h with
  | numbers h =>
    cases h' with
    | numbers h' => rw [h.antisymm h']
  | absent =>
    cases h'
    rfl

theorem valueLe_trans {a b c : Option Binary64} (hab : valueLe a b = true)
    (hbc : valueLe b c = true) : valueLe a c = true := by
  cases c with
  | none => cases a <;> rfl
  | some c =>
    cases b with
    | none => cases hbc
    | some b =>
      cases a with
      | none => cases hab
      | some a =>
        have hranks := Int.le_trans (of_decide_eq_true hab) (of_decide_eq_true hbc)
        exact decide_eq_true hranks

theorem valueLe_total (a b : Option Binary64) : (valueLe a b || valueLe b a) = true := by
  cases a <;> cases b <;> simp only [valueLe, Bool.or_eq_true, decide_eq_true_eq]
  · simp
  · simp
  · simp
  · exact Int.le_total _ _

/-- The constants of two kinds compare equal. -/
def Ties (a b : NodeKind) : Prop :=
  ValueLe a.value b.value ∧ ValueLe b.value a.value

instance (a b : NodeKind) : Decidable (Ties a b) :=
  inferInstanceAs (Decidable (_ ∧ _))

/-- Kinds in the order of their constants, where those that compare equal are left as they were. -/
structure IsStablySorted (kinds sorted : List NodeKind) : Prop where
  perm : sorted.Perm kinds
  ordered : sorted.Pairwise fun a b => ValueLe a.value b.value
  stable : ∀ kind, sorted.filter (fun other => Ties kind other)
    = kinds.filter fun other => Ties kind other

theorem isStablySorted_mergeSort (kinds : List NodeKind) :
    IsStablySorted kinds (kinds.mergeSort fun a b => valueLe a.value b.value) where
  perm := List.mergeSort_perm kinds _
  ordered := by
    refine (List.pairwise_mergeSort ?_ ?_ kinds).imp valueLe_iff.1
    · exact fun _ _ _ => valueLe_trans
    · exact fun a b => valueLe_total a.value b.value
  stable := by
    intro kind
    refine filter_mergeSort ?_ ?_ ?_ kinds
    · exact fun _ _ _ => valueLe_trans
    · exact fun a b => valueLe_total a.value b.value
    · intro a b ha hb
      have ha : Ties kind a := of_decide_eq_true ha
      have hb : Ties kind b := of_decide_eq_true hb
      exact valueLe_trans (valueLe_iff.2 ha.2) (valueLe_iff.2 hb.1)

end NodeKind

end NodeFactory
