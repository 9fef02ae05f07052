import NodeFactory.Binary64.Basic

/-!
# Arithmetic on constants

Sums, products, quotients and remainders are exact results rounded once. The operators on bits work
on words of 32 bits: an operand is cut to an integer and taken modulo 2³², and what is not finite
counts as zero.
-/

namespace NodeFactory.Binary64

def neg : Binary64 → Binary64
  | .nan => .nan
  | .infinite negative => .infinite (!negative)
  | .finite negative units h => .finite (!negative) units h

/-- A sum of zero is negative only if both terms are. -/
def add : Binary64 → Binary64 → Binary64
  | .nan, _ | _, .nan => .nan
  | .infinite a, .infinite b => if a = b then .infinite a else .nan
  | .infinite a, .finite .. | .finite .., .infinite a => .infinite a
  | .finite a x _, .finite b y _ =>
    let sum := signedUnits a x + signedUnits b y
    if sum = 0 then zero (a && b) else round (sum < 0) sum.natAbs 1

def sub (a b : Binary64) : Binary64 := add a (neg b)

def mul : Binary64 → Binary64 → Binary64
  | .nan, _ | _, .nan => .nan
  | .infinite a, .infinite b => .infinite (a != b)
  | .infinite a, .finite b x _ | .finite a x _, .infinite b =>
    if x = 0 then .nan else .infinite (a != b)
  | .finite a x _, .finite b y _ => round (a != b) (x * y) one

def div : Binary64 → Binary64 → Binary64
  | .nan, _ | _, .nan | .infinite _, .infinite _ => .nan
  | .infinite a, .finite b .. => .infinite (a != b)
  | .finite a .., .infinite b => zero (a != b)
  | .finite a x _, .finite b y _ =>
    if y = 0 then if x = 0 then .nan else .infinite (a != b)
    else round (a != b) (x * one) y

/-- The remainder of a division whose quotient is cut to an integer; it has the sign of the
dividend. -/
def rem : Binary64 → Binary64 → Binary64
  | .nan, _ | _, .nan | .infinite _, _ => .nan
  | x, .infinite _ => x
  | .finite a x _, .finite _ y _ => if y = 0 then .nan else round a (x % y) 1

/-- The low 32 bits of the integer part. -/
def toWord (a : Binary64) : BitVec 32 :=
  BitVec.ofInt 32 (a.truncate?.getD 0)

/-- Shifts move by the low five bits of the count. -/
def shiftCount (a : Binary64) : Nat :=
  a.toWord.toNat % 32

def bitNot (a : Binary64) : Binary64 := ofInt (~~~a.toWord).toInt

def bitOr (a b : Binary64) : Binary64 := ofInt (a.toWord ||| b.toWord).toInt

def bitXor (a b : Binary64) : Binary64 := ofInt (a.toWord ^^^ b.toWord).toInt

def bitAnd (a b : Binary64) : Binary64 := ofInt (a.toWord &&& b.toWord).toInt

def shiftLeft (a b : Binary64) : Binary64 := ofInt (a.toWord <<< b.shiftCount).toInt

/-- Keeps the sign. -/
def shiftRight (a b : Binary64) : Binary64 := ofInt (a.toWord.sshiftRight b.shiftCount).toInt

/-- Fills with zeros; the result counts as unsigned. -/
def shiftRightUnsigned (a b : Binary64) : Binary64 := ofInt (a.toWord >>> b.shiftCount).toNat

end NodeFactory.Binary64
