import MixedProgram.Number.Value

/-! The shortest decimal numeral that reads back as a given binary number.
The reals that round to `m · 2 ^ e` form an interval around it. Of the numerals inside, those with
the fewest digits are taken, and of these the one nearest to the value. -/
namespace MixedProgram.Number

/-- The positive number `coefficient · 10 ^ exponent`. -/
structure Decimal where
  coefficient : Nat
  exponent : Int
  deriving DecidableEq, Repr

namespace Decimal

def digits (d : Decimal) : List Char := Nat.toDigits 10 d.coefficient

/-- Moves trailing zeros of the coefficient into the exponent. -/
def trim (coefficient : Nat) (exponent : Int) : Decimal :=
  if coefficient ≠ 0 ∧ coefficient % 10 = 0 then trim (coefficient / 10) (exponent + 1)
  else ⟨coefficient, exponent⟩
termination_by coefficient
decreasing_by omega

/-- Every digit of `m · 2 ^ e`. -/
def exact (m : Nat) (e : Int) : Decimal :=
  trim (m * Nat.pow 2 e.toNat * Nat.pow 5 (-e).toNat) (min e 0)

end Decimal

/-- The reals that round to a positive number, as numerators over one denominator. -/
structure Interval where
  low : Nat
  mid : Nat
  high : Nat
  den : Nat
  closed : Bool
  deriving DecidableEq, Repr

namespace Interval

/-- Half a unit above; below a power of two the spacing halves, except at the least exponent.
The ends round to the even mantissa. -/
def around (m : Nat) (e : Int) : Interval :=
  let gap := if m = leadingBit ∧ e ≠ -1074 then 1 else 2
  let (scale, den) := ratio 1 (e - 2)
  ⟨(4 * m - gap) * scale, 4 * m * scale, (4 * m + 2) * scale, den, m % 2 = 0⟩

/-- The interval measured in units of `10 ^ k`. -/
def inUnits (i : Interval) (k : Int) : Interval :=
  let f := Nat.pow 10 (-k).toNat
  ⟨i.low * f, i.mid * f, i.high * f, i.den * Nat.pow 10 k.toNat, i.closed⟩

/-- Whether the whole number `n` lies inside. -/
def contains (i : Interval) (n : Nat) : Bool :=
  if i.closed then i.low ≤ n * i.den && n * i.den ≤ i.high
  else i.low < n * i.den && n * i.den < i.high

/-- The whole number inside that is nearest to the middle, if one of its two neighbours is. -/
def nearest? (tie : Tie) (i : Interval) : Option Nat :=
  let below := i.mid / i.den
  match i.contains below, i.contains (below + 1) with
  | true, true => some (roundQuotient tie i.mid i.den)
  | true, false => some below
  | false, true => some (below + 1)
  | false, false => none

end Interval

/-- The number of digits before the decimal point of `n/d`, zero or less below one tenth. -/
def pointPosition (n d : Nat) : Int :=
  if d ≤ n then (Nat.toDigits 10 (n / d)).length
  else 1 - ((Nat.toDigits 10 ((d - 1) / n)).length : Int)

/-- Tries one digit, two digits and so on. Seventeen always suffice for 53 bits; the exact digits
close the definition. -/
def shortest (tie : Tie) (m : Nat) (e : Int) : Decimal :=
  let interval := Interval.around m e
  let point := pointPosition interval.mid interval.den
  let attempt? (places : Nat) : Option Decimal :=
    let k := point - places
    ((interval.inUnits k).nearest? tie).map (Decimal.trim · k)
  ((List.range' 1 17).findSome? attempt?).getD (Decimal.exact m e)

end MixedProgram.Number
