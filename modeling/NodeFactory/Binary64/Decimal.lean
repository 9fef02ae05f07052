import NodeFactory.Binary64.Basic
import NodeFactory.Text.CharClass

/-!
# Decimal text of numbers

A number literal is read exactly and rounded once. A number is written with the fewest digits that
read back as the same number, of these the digits nearest to it, and always positionally.
-/

namespace NodeFactory

open Text

/-- The value `digits · 10 ^ exponent`. -/
structure Decimal where
  digits : Nat
  exponent : Int
deriving DecidableEq, Repr

namespace Decimal

/-- Ten to an exponent, and 1 for a negative one. A power of ten is the quotient of this for its
exponent and this for the opposite one. -/
def tenTo (exponent : Int) : Nat := Nat.pow 10 exponent.toNat

/-- The number nearest to a decimal. Exponents so large that the result is certain are not
expanded. -/
def toBinary64 (d : Decimal) : Binary64 :=
  if d.digits = 0 then .zero false
  else if 400 < d.exponent then .infinite false
  else if d.exponent < -(400 + d.digits.log2 : Int) then .zero false
  else .round false (d.digits * tenTo d.exponent * Binary64.one) (tenTo (-d.exponent))

/-- The value of a run of digits of a base. -/
def ofDigits (base : Nat) (digits : List Nat) : Nat :=
  digits.foldl (fun value digit => value * base + digit) 0

def digitValue (c : Char) : Nat :=
  if isDecimalDigit c then c.toNat - '0'.toNat
  else if 'a' ≤ c ∧ c ≤ 'z' then c.toNat - 'a'.toNat + 10
  else if 'A' ≤ c ∧ c ≤ 'Z' then c.toNat - 'A'.toNat + 10
  else 36

/-- An exponent, which has at least one digit; nothing at all is the exponent zero. -/
def readExponent? : List Char → Option Int
  | [] => some 0
  | mark :: cs =>
    if mark = 'e' ∨ mark = 'E' then
      let (negative, digits) :=
        match cs with
        | '-' :: rest => (true, rest)
        | '+' :: rest => (false, rest)
        | _ => (false, cs)
      if digits.isEmpty ∨ ¬digits.all isDecimalDigit then none
      else
        let value : Int := ofDigits 10 (digits.map digitValue)
        some (if negative then -value else value)
    else none

/-- Reads whole digits, a fraction and an exponent. At least one digit stands before the
exponent. -/
def read? (cs : List Char) : Option Decimal := do
  let whole := cs.takeWhile isDecimalDigit
  let afterWhole := cs.dropWhile isDecimalDigit
  let (fraction, afterFraction) :=
    match afterWhole with
    | '.' :: rest => (rest.takeWhile isDecimalDigit, rest.dropWhile isDecimalDigit)
    | _ => ([], afterWhole)
  let digits := whole ++ fraction
  if digits.isEmpty then none
  else
    let exponent ← readExponent? afterFraction
    some ⟨ofDigits 10 (digits.map digitValue), exponent - fraction.length⟩

end Decimal

namespace Binary64

/-- A whole number in a base, below 2⁶⁴. -/
def readWhole? (base : Nat) (digits : List Char) : Option Binary64 :=
  let values := digits.map Decimal.digitValue
  if digits.isEmpty ∨ ¬values.all (· < base) then none
  else
    let value := Decimal.ofDigits base values
    if value < UInt64.size then some (ofInt value) else none

/-- The value of a number literal; underscores group digits and count for nothing. -/
def ofLiteral? (text : List Char) : Option Binary64 :=
  match text.filter (· != '_') with
  | '0' :: mark :: digits =>
    if mark = 'x' ∨ mark = 'X' then readWhole? 16 digits
    else if mark = 'o' ∨ mark = 'O' then readWhole? 8 digits
    else if mark = 'b' ∨ mark = 'B' then readWhole? 2 digits
    else (Decimal.read? ('0' :: mark :: digits)).map Decimal.toBinary64
  | digits => (Decimal.read? digits).map Decimal.toBinary64

/-- Whether `digits · 10 ^ exponent` reads back as a positive number of units: whether it lies
between the midpoints to the neighbours, these included if the significand is even. Distances are
counted in quarters of a unit. -/
def readsBack (units : Nat) (d : Decimal) : Bool :=
  let step := spacing units
  let below := if units = 1 <<< units.log2 ∧ 1 < step then step / 2 else step
  let scale := Decimal.tenTo (-d.exponent)
  let value := 4 * (d.digits * Decimal.tenTo d.exponent * one)
  let low := (4 * units - 2 * below) * scale
  let high := (4 * units + 2 * step) * scale
  if units / step % 2 = 0 then low ≤ value && value ≤ high
  else low < value && value < high

/-- The exponent of the first decimal digit of a positive number of units. -/
def leadingExponent (units : Nat) : Int :=
  ((Nat.toDigits 10 (units * Decimal.tenTo 350 / one)).length : Int) - 351

/-- The neighbour on the grid of multiples of `10 ^ exponent` that reads back, the nearer of two,
and the upper of two equally near. -/
def onGrid? (units : Nat) (exponent : Int) : Option Decimal :=
  let num := units * Decimal.tenTo (-exponent)
  let den := one * Decimal.tenTo exponent
  let lower : Decimal := ⟨num / den, exponent⟩
  let upper : Decimal := ⟨num / den + 1, exponent⟩
  match readsBack units lower, readsBack units upper with
  | true, true => some (if 2 * (num % den) < den then lower else upper)
  | true, false => some lower
  | false, true => some upper
  | false, false => none

/-- Tries grids from `exponent` on, each ten times as fine as the one before. -/
def firstOnGrid (units : Nat) (exponent : Int) : Nat → Decimal
  | 0 => ⟨0, 0⟩
  | grids + 1 => (onGrid? units exponent).getD (firstOnGrid units (exponent - 1) grids)

/-- The shortest decimal that reads back; seventeen digits always suffice. -/
def shortest (units : Nat) : Decimal :=
  firstOnGrid units (leadingExponent units) 17

/-- Writes a decimal without an exponent, and without zeros at the end of its fraction. -/
def positional (d : Decimal) : String :=
  let digits := Nat.toDigits 10 d.digits
  if 0 ≤ d.exponent then String.ofList (digits ++ List.replicate d.exponent.toNat '0')
  else
    let places := (-d.exponent).toNat
    let padded := List.replicate (places + 1 - digits.length) '0' ++ digits
    let whole := padded.take (padded.length - places)
    let fraction := (padded.drop (padded.length - places)).reverse.dropWhile (· == '0')
    if fraction.isEmpty then String.ofList whole
    else String.ofList (whole ++ '.' :: fraction.reverse)

/-- The text of a number; minus zero keeps its sign. -/
def toText : Binary64 → String
  | .nan => "NaN"
  | .infinite negative => if negative then "-inf" else "inf"
  | .finite negative units _ =>
    let magnitude := if units = 0 then "0" else positional (shortest units)
    if negative then "-" ++ magnitude else magnitude

end Binary64

end NodeFactory
