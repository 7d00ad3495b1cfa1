import MixedProgram.Number.Shortest

/-! Writing a decimal numeral: with or without an exponent, with or without a fraction. -/
namespace MixedProgram.Number

/-- The choices a number format makes. `positional` is asked about the number of digits before the
decimal point. -/
structure Layout where
  tie : Tie
  positional : Int → Bool
  wholeEnding : List Char

def zeros (n : Nat) : List Char := List.replicate n '0'

namespace Decimal

/-- The number of digits before the decimal point. -/
def point (d : Decimal) : Int := d.digits.length + d.exponent

/-- All places written out; a whole number gets the given ending. -/
def positional (wholeEnding : List Char) (d : Decimal) : List Char :=
  if 0 ≤ d.exponent then d.digits ++ zeros d.exponent.toNat ++ wholeEnding
  else if 0 < d.point then d.digits.take d.point.toNat ++ '.' :: d.digits.drop d.point.toNat
  else '0' :: '.' :: zeros (-d.point).toNat ++ d.digits

/-- One digit before the point and a signed power of ten. -/
def scientific (d : Decimal) : List Char :=
  let power := d.point - 1
  let fraction := if d.digits.length = 1 then [] else '.' :: d.digits.drop 1
  let sign := if power < 0 then '-' else '+'
  d.digits.take 1 ++ fraction ++ 'e' :: sign :: Nat.toDigits 10 power.natAbs

end Decimal

def signed (negative : Bool) (body : List Char) : List Char :=
  if negative then '-' :: body else body

/-- The text of the finite number `± m · 2 ^ e`. -/
def Layout.finite (l : Layout) (negative : Bool) (m : Nat) (e : Int) : List Char :=
  let d := if m = 0 then ⟨0, 0⟩ else shortest l.tie m e
  signed negative (if l.positional d.point then d.positional l.wholeEnding else d.scientific)

/-- Plain numbers are always positional and leave out the fraction of a whole number. -/
def plainLayout : Layout := ⟨.up, fun _ => true, []⟩

def plainChars (x : Float) : List Char :=
  match Value.ofFloat x with
  | .nan => "NaN".toList
  | .infinite negative => signed negative "inf".toList
  | .finite negative m e => plainLayout.finite negative m e

/-- The plain text of a number: the fewest digits that read back, never an exponent. -/
def plain (x : Float) : String := String.ofList (plainChars x)

/-- A fixed number of decimal places, the exact value rounded half to even. A negative number that
rounds to zero keeps its sign. -/
def fixed (places : Nat) (x : Float) : String :=
  match Value.ofFloat x with
  | .nan => "NaN"
  | .infinite negative => String.ofList (signed negative "inf".toList)
  | .finite negative m e =>
    let (n, d) := ratio m e
    let unit := Nat.pow 10 places
    let scaled := roundQuotient .toEven (n * unit) d
    let fraction := Nat.toDigits 10 (scaled % unit)
    String.ofList <| signed negative <|
      Nat.toDigits 10 (scaled / unit) ++ '.' :: zeros (places - fraction.length) ++ fraction

end MixedProgram.Number
