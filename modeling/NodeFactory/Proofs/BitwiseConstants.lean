import Mathlib.Data.Int.Bitwise
import NodeFactory.Symbol.ConstantValue

/-!
# Constants made of bits

Constants are binary64 numbers, while the operators on bits work on words of 32 bits. An expression of
integer literals below 2³², signs and operators on bits is computed without rounding nonetheless: its value
is that over the integers, where an operator on bits takes its operands modulo 2³² first
(`BitExpr.evaluate_exact`).

Signed words are integers in two's complement, of which all bits from the last on are the sign
(`testBit_toInt`).
-/

namespace NodeFactory

section Words

theorem testBit_of_le {n k : Nat} (h : n ≤ k) : n.testBit k = false :=
  Nat.testBit_lt_two_pow (Nat.lt_of_le_of_lt h Nat.lt_two_pow_self)

/-- An integer is its bits: from some bit on they are the sign. -/
theorem int_eq_of_testBit : ∀ {i j : Int}, (∀ k, i.testBit k = j.testBit k) → i = j
  | .ofNat m, .ofNat n, h => congrArg Int.ofNat (Nat.eq_of_testBit_eq h)
  | .negSucc m, .negSucc n, h =>
    congrArg Int.negSucc (Nat.eq_of_testBit_eq fun k => Bool.not_inj (h k))
  | .ofNat m, .negSucc n, h => by
    have hbit : m.testBit (m + n) = !n.testBit (m + n) := h (m + n)
    rw [testBit_of_le (Nat.le_add_right m n), testBit_of_le (Nat.le_add_left n m)] at hbit
    cases hbit
  | .negSucc m, .ofNat n, h => by
    have hbit : (!m.testBit (m + n)) = n.testBit (m + n) := h (m + n)
    rw [testBit_of_le (Nat.le_add_right m n), testBit_of_le (Nat.le_add_left n m)] at hbit
    cases hbit

variable {w : Nat}

/-- A word as an integer has the bits of the word, and its sign from there on. -/
theorem testBit_toInt (x : BitVec w) (k : Nat) :
    x.toInt.testBit k = if k < w then x.getLsbD k else x.msb := by
  cases hsign : x.msb with
  | false =>
    have hvalue : x.toInt = Int.ofNat x.toNat := by
      rw [BitVec.toInt_eq_msb_cond, hsign]
      rfl
    rw [hvalue]
    show x.toNat.testBit k = _
    rw [BitVec.testBit_toNat]
    split
    · rfl
    · exact BitVec.getLsbD_of_ge x k (by omega)
  | true =>
    have hvalue : x.toInt = Int.negSucc (~~~x).toNat := by
      have hlt := x.isLt
      rw [BitVec.toInt_eq_msb_cond, hsign, if_pos rfl, BitVec.toNat_not, Int.negSucc_eq]
      omega
    rw [hvalue]
    show (!(~~~x).toNat.testBit k) = _
    rw [BitVec.testBit_toNat, BitVec.getLsbD_not]
    split <;> simp_all

theorem toInt_or (x y : BitVec w) : (x ||| y).toInt = x.toInt.lor y.toInt := by
  refine int_eq_of_testBit fun k => ?_
  rw [Int.testBit_lor, testBit_toInt, testBit_toInt, testBit_toInt, BitVec.getLsbD_or, BitVec.msb_or]
  split <;> rfl

theorem toInt_xor (x y : BitVec w) : (x ^^^ y).toInt = x.toInt.xor y.toInt := by
  refine int_eq_of_testBit fun k => ?_
  rw [Int.testBit_lxor, testBit_toInt, testBit_toInt, testBit_toInt, BitVec.getLsbD_xor, BitVec.msb_xor]
  split <;> rfl

theorem toInt_and (x y : BitVec w) : (x &&& y).toInt = x.toInt.land y.toInt := by
  refine int_eq_of_testBit fun k => ?_
  rw [Int.testBit_land, testBit_toInt, testBit_toInt, testBit_toInt, BitVec.getLsbD_and, BitVec.msb_and]
  split <;> rfl

theorem toInt_not (hw : 0 < w) (x : BitVec w) : (~~~x).toInt = x.toInt.lnot := by
  refine int_eq_of_testBit fun k => ?_
  rw [Int.testBit_lnot, testBit_toInt, testBit_toInt, BitVec.getLsbD_not, BitVec.msb_not]
  split <;> simp_all

theorem toInt_shiftLeft (x : BitVec w) (n : Nat) : (x <<< n).toInt = (x.toInt * 2 ^ n).bmod (2 ^ w) := by
  rw [BitVec.toInt_shiftLeft, BitVec.toInt_eq_toNat_bmod, Int.bmod_mul_bmod, Nat.shiftLeft_eq]
  push_cast
  rfl

end Words

/-- The integer from −2³¹ to 2³¹ − 1 that is the same modulo 2³². -/
def toSigned (i : Int) : Int := i.bmod (2 ^ 32)

/-- The integer from 0 to 2³² − 1 that is the same modulo 2³². -/
def toUnsigned (i : Int) : Int := i % 2 ^ 32

/-- An operator over the integers. -/
def UnaryOp.exact : UnaryOp → Int → Int
  | plus, i => i
  | neg, i => -i
  | bitNot, i => (toSigned i).lnot

/-- The operators on the bits of two numbers. -/
inductive BitOp where
  | or
  | xor
  | and
  | shiftLeft
  | shiftRight
  | shiftRightUnsigned
deriving DecidableEq, Repr

namespace BitOp

def toBinaryOp : BitOp → BinaryOp
  | or => .bitOr
  | xor => .bitXor
  | and => .bitAnd
  | shiftLeft => .shiftLeft
  | shiftRight => .shiftRight
  | shiftRightUnsigned => .shiftRightUnsigned

/-- An operator over the integers, which are cut to 32 bits first. A shift moves by the count modulo 32. -/
def exact : BitOp → Int → Int → Int
  | or, i, j => (toSigned i).lor (toSigned j)
  | xor, i, j => (toSigned i).xor (toSigned j)
  | and, i, j => (toSigned i).land (toSigned j)
  | shiftLeft, i, j => toSigned (toSigned i * 2 ^ (j % 32).toNat)
  | shiftRight, i, j => toSigned i / 2 ^ (j % 32).toNat
  | shiftRightUnsigned, i, j => toUnsigned i / 2 ^ (j % 32).toNat

end BitOp

/-- Expressions of integer literals, signs and operators on bits. -/
inductive BitExpr where
  | literal (value : Nat) (fits : value < 2 ^ 32)
  | unary (op : UnaryOp) (operand : BitExpr)
  | binary (op : BitOp) (left right : BitExpr)

namespace BitExpr

def toConst : BitExpr → ConstExpr
  | literal value _ => .number (.ofInt value)
  | unary op operand => .unary op operand.toConst
  | binary op left right => .binary op.toBinaryOp left.toConst right.toConst

/-- The value over the integers. -/
def exact : BitExpr → Int
  | literal value _ => value
  | unary op operand => op.exact operand.exact
  | binary op left right => op.exact left.exact right.exact

end BitExpr

namespace Binary64

/-- The number is an integer, of which zero has either sign. -/
def IsInteger (i : Int) : Binary64 → Prop
  | .finite negative units _ => signedUnits negative units = i * one
  | _ => False

variable {a b : Binary64} {i j : Int}

theorem nearest_of_dvd {units : Nat} (h : spacing units ∣ units) : nearest units 1 = units := by
  have hpos : 0 < spacing units := by
    rw [spacing, Nat.one_shiftLeft]
    exact Nat.two_pow_pos _
  unfold nearest divHalfEven
  dsimp only
  rw [Nat.div_one, Nat.one_mul, Nat.mod_eq_zero_of_dvd h, if_pos (.inl hpos), Nat.div_mul_cancel h]

theorem signedUnits_natAbs (i : Int) (units : Nat) : signedUnits (i < 0) (i.natAbs * units) = i * units := by
  unfold signedUnits
  split
  · rename_i hneg
    have habs : -(i.natAbs : Int) = i := by
      have := of_decide_eq_true hneg
      omega
    rw [Nat.cast_mul, ← Int.neg_mul, habs]
  · rename_i hneg
    have habs : (i.natAbs : Int) = i := by
      have : ¬ i < 0 := fun h => hneg (decide_eq_true h)
      omega
    rw [Nat.cast_mul, habs]

/-- An integer of 53 bits is held as it is. -/
theorem isInteger_ofInt (h : i.natAbs < 2 ^ 53) : (ofInt i).IsInteger i := by
  have hspacing : spacing (i.natAbs * one) ∣ i.natAbs * one :=
    spacing_dvd_mul i.natAbs 1074 (by rw [Nat.one_shiftLeft]; exact Nat.le_of_lt h)
  have hlimit : i.natAbs * one < unitLimit := by
    refine Nat.lt_trans (Nat.mul_lt_mul_of_pos_right h (by decide +kernel)) ?_
    decide +kernel
  have hnearest := nearest_of_dvd hspacing
  unfold ofInt round
  rw [dif_pos (by rwa [hnearest])]
  show signedUnits (i < 0) (nearest (i.natAbs * one) 1) = _
  rw [hnearest, signedUnits_natAbs]

theorem IsInteger.neg (h : a.IsInteger i) : a.neg.IsInteger (-i) := by
  cases a with
  | nan | infinite => exact h
  | finite negative units =>
    have hunits : signedUnits negative units = i * one := h
    show signedUnits (!negative) units = -i * one
    rw [Int.neg_mul, ← hunits]
    cases negative <;> simp [signedUnits]

theorem IsInteger.truncate? (h : a.IsInteger i) : a.truncate? = some i := by
  cases a with
  | nan | infinite => cases h
  | finite negative units =>
    have hunits : signedUnits negative units = i * one := h
    have hone : (one : Int) ≠ 0 := by decide +kernel
    refine congrArg some ?_
    cases negative with
    | false =>
      show ((units / one : Nat) : Int) = i
      rw [Int.natCast_ediv, show (units : Int) = i * one from hunits, Int.mul_ediv_cancel _ hone]
    | true =>
      show -((units / one : Nat) : Int) = i
      have hunits' : (units : Int) = -i * one := by
        rw [Int.neg_mul, ← hunits]
        exact (Int.neg_neg _).symm
      rw [Int.natCast_ediv, hunits', Int.mul_ediv_cancel _ hone, Int.neg_neg]

theorem IsInteger.toWord_eq (h : a.IsInteger i) : a.toWord = BitVec.ofInt 32 i := by
  rw [toWord, h.truncate?]
  rfl

theorem IsInteger.toInt_toWord (h : a.IsInteger i) : a.toWord.toInt = toSigned i := by
  rw [h.toWord_eq, BitVec.toInt_ofInt]
  rfl

theorem IsInteger.toNat_toWord (h : a.IsInteger i) : (a.toWord.toNat : Int) = toUnsigned i := by
  rw [h.toWord_eq, BitVec.toNat_ofInt]
  exact Int.toNat_of_nonneg (Int.emod_nonneg _ (by decide))

theorem IsInteger.shiftCount_eq (h : a.IsInteger i) : a.shiftCount = (i % 32).toNat := by
  have hword := h.toNat_toWord
  rw [toUnsigned] at hword
  rw [shiftCount]
  omega

/-- What an operator makes of words is held as it is. -/
theorem isInteger_toInt {x : BitVec 32} (h : x.toInt = i) :
    (ofInt x.toInt).IsInteger i ∧ i.natAbs < 2 ^ 32 := by
  subst h
  have hlow := x.le_toInt
  have hhigh := x.toInt_lt
  have hbound : x.toInt.natAbs < 2 ^ 32 := by omega
  exact ⟨isInteger_ofInt (by omega), hbound⟩

theorem isInteger_toNat {x : BitVec 32} (h : (x.toNat : Int) = i) :
    (ofInt x.toNat).IsInteger i ∧ i.natAbs < 2 ^ 32 := by
  subst h
  have hbound : (x.toNat : Int).natAbs < 2 ^ 32 := x.isLt
  exact ⟨isInteger_ofInt (by omega), hbound⟩

end Binary64

open Binary64

section Operators

variable {a b : Binary64} {i j : Int}

theorem UnaryOp.isInteger_apply (op : UnaryOp) (ha : a.IsInteger i) (hi : i.natAbs < 2 ^ 32) :
    (op.apply a).IsInteger (op.exact i) ∧ (op.exact i).natAbs < 2 ^ 32 := by
  cases op with
  | plus => exact ⟨ha, hi⟩
  | neg => exact ⟨ha.neg, by rwa [UnaryOp.exact, Int.natAbs_neg]⟩
  | bitNot => exact isInteger_toInt (by rw [toInt_not (by decide), ha.toInt_toWord]; rfl)

theorem BitOp.isInteger_apply (op : BitOp) (ha : a.IsInteger i) (hb : b.IsInteger j) :
    (op.toBinaryOp.apply a b).IsInteger (op.exact i j) ∧ (op.exact i j).natAbs < 2 ^ 32 := by
  cases op with
  | or => exact isInteger_toInt (by rw [toInt_or, ha.toInt_toWord, hb.toInt_toWord]; rfl)
  | xor => exact isInteger_toInt (by rw [toInt_xor, ha.toInt_toWord, hb.toInt_toWord]; rfl)
  | and => exact isInteger_toInt (by rw [toInt_and, ha.toInt_toWord, hb.toInt_toWord]; rfl)
  | shiftLeft =>
    exact isInteger_toInt (by rw [toInt_shiftLeft, ha.toInt_toWord, hb.shiftCount_eq]; rfl)
  | shiftRight =>
    refine isInteger_toInt ?_
    rw [BitVec.toInt_sshiftRight, Int.shiftRight_eq_div_pow, ha.toInt_toWord, hb.shiftCount_eq]
    rfl
  | shiftRightUnsigned =>
    refine isInteger_toNat ?_
    rw [BitVec.toNat_ushiftRight, Nat.shiftRight_eq_div_pow, Int.natCast_ediv, ha.toNat_toWord,
      hb.shiftCount_eq]
    rfl

end Operators

namespace BitExpr

variable (table : SymbolTable) (scope : Option SymbolId)

theorem exists_value (e : BitExpr) : ∃ value, table.evaluate scope e.toConst = some value
    ∧ value.IsInteger e.exact ∧ e.exact.natAbs < 2 ^ 32 := by
  induction e with
  | literal n fits => exact ⟨.ofInt n, rfl, isInteger_ofInt (Nat.lt_trans fits (by decide)), fits⟩
  | unary op operand ih =>
    obtain ⟨a, heval, ha, hbound⟩ := ih
    refine ⟨op.apply a, ?_, op.isInteger_apply ha hbound⟩
    rw [toConst, SymbolTable.evaluate, heval]
    rfl
  | binary op left right ihLeft ihRight =>
    obtain ⟨a, hleft, ha, -⟩ := ihLeft
    obtain ⟨b, hright, hb, -⟩ := ihRight
    refine ⟨op.toBinaryOp.apply a b, ?_, op.isInteger_apply ha hb⟩
    rw [toConst, SymbolTable.evaluate, hleft, hright]
    rfl

/-- An expression has a value, which is that over the integers. Each part of it is such an expression too:
nothing that comes up in between needs more than 32 bits and a sign, and no shift moves by 32 or more. -/
theorem evaluate_exact (e : BitExpr) : ∃ value, table.evaluate scope e.toConst = some value
    ∧ value.IsInteger e.exact ∧ e.exact.natAbs ≤ 2 ^ 32 - 1
    ∧ value.shiftCount = (e.exact % 32).toNat ∧ value.shiftCount < 32 := by
  obtain ⟨value, heval, hvalue, hbound⟩ := exists_value table scope e
  exact ⟨value, heval, hvalue, Nat.le_sub_one_of_lt hbound, hvalue.shiftCount_eq, Nat.mod_lt _ (by decide)⟩

/-- An unsigned result is signed again for the next operator. -/
example : exact (.binary .or (.binary .shiftRightUnsigned (.unary .neg (.literal 1 (by decide)))
    (.literal 32 (by decide))) (.literal 0 (by decide))) = -1 := by
  decide +kernel

end BitExpr

end NodeFactory
