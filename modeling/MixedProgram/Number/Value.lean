import MixedProgram.Number.Rounding

/-! What a binary floating-point number stands for, read off its bits. -/
namespace MixedProgram.Number

/-- A finite value is `± mantissa · 2 ^ exponent`; zero has mantissa zero and keeps its sign. -/
inductive Value
  | nan
  | infinite (negative : Bool)
  | finite (negative : Bool) (mantissa : Nat) (exponent : Int)
  deriving DecidableEq, Repr

/-- The bit above a fraction of 52 bits; a number with the full precision has it set. -/
def leadingBit : Nat := 0x10000000000000

namespace Value

/-- The bits hold a sign, a biased exponent of 11 bits and a fraction of 52 bits. -/
def ofBits (bits : Nat) : Value :=
  let negative := bits / 0x8000000000000000 % 2 == 1
  let biased : Nat := bits / leadingBit % 0x800
  let fraction : Nat := bits % leadingBit
  if biased = 2047 then
    if fraction = 0 then infinite negative else nan
  else if biased = 0 then finite negative fraction (-1074)
  else finite negative (leadingBit + fraction) (biased - 1075)

def ofFloat (x : Float) : Value := ofBits x.toBits.toNat

def isFinite : Value → Bool
  | finite .. => true
  | _ => false

example : ofBits 0x3ff0000000000000 = finite false leadingBit (-52) := by decide
example : ofBits 0x8000000000000000 = finite true 0 (-1074) := by decide
example : ofBits 0x7ff0000000000000 = infinite false := by decide

end Value

/-- `m · 2 ^ e` as a numerator over a positive denominator. -/
def ratio (m : Nat) (e : Int) : Nat × Nat := (m * Nat.pow 2 e.toNat, Nat.pow 2 (-e).toNat)

/-- The nearest whole number, a half going away from zero, kept within `0 … most`;
NaN counts as zero. -/
def nearestNat (most : Nat) (x : Float) : Nat :=
  match Value.ofFloat x with
  | .nan => 0
  | .infinite negative => if negative then 0 else most
  | .finite true _ _ => 0
  | .finite false m e => min most (roundQuotient .up (ratio m e).1 (ratio m e).2)

end MixedProgram.Number
