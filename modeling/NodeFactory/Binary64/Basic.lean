/-!
# Binary64 numbers

Constants are IEEE 754 binary64 numbers. A finite one is held as a sign and a whole number of units
of 2⁻¹⁰⁷⁴, the least positive number, so that sums, products and comparisons are arithmetic on whole
numbers. `round` is the only way to make one from a quotient: it takes the nearest number of 53
significant bits, the even one of two equally near, and what it takes is representable
(`isRepresentable_nearest`).
-/

namespace NodeFactory

namespace Binary64

/-- The bits that the units of a finite number may occupy. -/
def unitBits : Nat := 2098

/-- The least number of units that is too large for a finite number. -/
def unitLimit : Nat := 1 <<< unitBits

/-- The distance between neighbours of 53 significant bits around a number of units. -/
def spacing (units : Nat) : Nat := 1 <<< (units.log2 - 52)

/-- A number of units is representable if it has at most 53 significant bits and stays below the
limit. -/
def IsRepresentable (units : Nat) : Prop :=
  units < unitLimit ∧ spacing units ∣ units

instance (units : Nat) : Decidable (IsRepresentable units) :=
  inferInstanceAs (Decidable (_ ∧ _))

end Binary64

inductive Binary64 where
  | nan
  | infinite (negative : Bool)
  | finite (negative : Bool) (units : Nat) (representable : Binary64.IsRepresentable units)
deriving DecidableEq

namespace Binary64

/-- The units in one. -/
def one : Nat := 1 <<< 1074

/-- The quotient rounded to the nearest whole number, a half to the even one. -/
def divHalfEven (num den : Nat) : Nat :=
  let quotient := num / den
  let rest := num % den
  if 2 * rest < den ∨ (2 * rest = den ∧ quotient % 2 = 0) then quotient else quotient + 1

/-- The number of units nearest to a quotient that has at most 53 significant bits. -/
def nearest (num den : Nat) : Nat :=
  let step := spacing (num / den)
  divHalfEven num (den * step) * step

theorem divHalfEven_le (num den : Nat) : divHalfEven num den ≤ num / den + 1 := by
  simp only [divHalfEven]
  split <;> omega

theorem div_spacing_lt (units : Nat) : units / spacing units < 1 <<< 53 := by
  simp only [spacing, Nat.one_shiftLeft]
  rcases Nat.eq_zero_or_pos units with rfl | h
  · simp
  · rw [Nat.div_lt_iff_lt_mul (Nat.two_pow_pos _), ← Nat.pow_add]
    refine Nat.lt_of_lt_of_le Nat.lt_log2_self ?_
    exact Nat.pow_le_pow_right (by omega) (by omega)

theorem divHalfEven_spacing_le (num den : Nat) :
    divHalfEven num (den * spacing (num / den)) ≤ 1 <<< 53 := by
  have h := divHalfEven_le num (den * spacing (num / den))
  rw [← Nat.div_div_eq_div_mul] at h
  have := div_spacing_lt (num / den)
  omega

theorem spacing_dvd_mul (r k : Nat) (h : r ≤ 1 <<< 53) :
    spacing (r * (1 <<< k)) ∣ r * (1 <<< k) := by
  simp only [spacing, Nat.one_shiftLeft] at *
  rcases Nat.eq_zero_or_pos r with rfl | hr
  · simp
  rcases Nat.lt_or_eq_of_le h with hlt | rfl
  · refine Nat.dvd_trans (Nat.pow_dvd_pow 2 ?_) (Nat.dvd_mul_left _ _)
    have hpos : r * 2 ^ k ≠ 0 := Nat.ne_of_gt (Nat.mul_pos hr (Nat.two_pow_pos k))
    have : (r * 2 ^ k).log2 < 53 + k := by
      rw [Nat.log2_lt hpos, Nat.pow_add]
      exact Nat.mul_lt_mul_of_pos_right hlt (Nat.two_pow_pos k)
    omega
  · rw [← Nat.pow_add, Nat.log2_two_pow]
    exact Nat.pow_dvd_pow 2 (by omega)

theorem isRepresentable_nearest {num den : Nat} (h : nearest num den < unitLimit) :
    IsRepresentable (nearest num den) :=
  ⟨h, spacing_dvd_mul _ _ (divHalfEven_spacing_le num den)⟩

/-- The number nearest to a quotient of units; what is too large becomes infinite. -/
def round (negative : Bool) (num den : Nat) : Binary64 :=
  if h : nearest num den < unitLimit then
    .finite negative (nearest num den) (isRepresentable_nearest h)
  else .infinite negative

theorem unitLimit_pos : 0 < unitLimit := by
  simp only [unitLimit, Nat.one_shiftLeft]
  exact Nat.two_pow_pos unitBits

theorem isRepresentable_zero : IsRepresentable 0 :=
  ⟨unitLimit_pos, Nat.dvd_zero _⟩

def zero (negative : Bool) : Binary64 :=
  .finite negative 0 isRepresentable_zero

/-- The number nearest to an integer. -/
def ofInt (i : Int) : Binary64 :=
  round (i < 0) (i.natAbs * one) 1

instance : OfNat Binary64 n := ⟨ofInt n⟩

/-- The units of a finite number with their sign. -/
def signedUnits (negative : Bool) (units : Nat) : Int :=
  if negative then -units else units

/-- The integer that remains when the fraction is cut off; numbers that are not finite have none. -/
def truncate? : Binary64 → Option Int
  | .finite negative units _ => some (signedUnits negative (units / one))
  | _ => none

/-- The place of a number in the total order: minus zero stands before plus zero, and what is no
number stands last. -/
def rank : Binary64 → Int
  | .infinite true => -unitLimit - 1
  | .finite true units _ => -units - 1
  | .finite false units _ => units
  | .infinite false => unitLimit
  | .nan => unitLimit + 1

/-- The encoding in 64 bits: the sign, the exponent and the fraction. -/
def toBits : Binary64 → UInt64
  | .nan => 0x7FF8000000000000
  | .infinite negative => sign negative + 0x7FF0000000000000
  | .finite negative units _ =>
    let exponent := units.log2 - 52
    sign negative + UInt64.ofNat exponent <<< 52 + UInt64.ofNat (units >>> exponent)
where
  sign (negative : Bool) : UInt64 := if negative then 0x8000000000000000 else 0

/-- The number that 64 bits encode. -/
def ofBits (bits : UInt64) : Binary64 :=
  let negative := bits >>> 63 = 1
  let exponent := (bits >>> 52).toNat % 2048
  let fraction := (bits &&& 0xFFFFFFFFFFFFF).toNat
  if exponent = 2047 then
    if fraction = 0 then .infinite negative else .nan
  else if exponent = 0 then round negative fraction 1
  else round negative ((0x10000000000000 + fraction) <<< (exponent - 1)) 1

end Binary64

end NodeFactory
