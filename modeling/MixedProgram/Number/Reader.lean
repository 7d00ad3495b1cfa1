/-! Reading numbers from text. Every reader takes the whole text or nothing. -/
namespace MixedProgram.Number

def digitsValue (ds : List Char) : Nat := Nat.ofDigitChars 10 ds 0

/-- At least one digit and nothing else. -/
def readDigits? (cs : List Char) : Option Nat :=
  if !cs.isEmpty && cs.all Char.isDigit then some (digitsValue cs) else none

/-- The value of a hexadecimal digit. -/
def hexValue? (c : Char) : Option Nat :=
  if c.isDigit then some (c.toNat - '0'.toNat)
  else if 'a' ≤ c ∧ c ≤ 'f' then some (c.toNat - 'a'.toNat + 10)
  else if 'A' ≤ c ∧ c ≤ 'F' then some (c.toNat - 'A'.toNat + 10)
  else none

/-- A sign, if there is one, and the rest. -/
def splitSign : List Char → Bool × List Char
  | '-' :: cs => (true, cs)
  | '+' :: cs => (false, cs)
  | cs => (false, cs)

/-- An unsigned number; a leading plus and leading zeros are allowed. -/
def readNat? (s : String) : Option Nat :=
  match s.toList with
  | '+' :: cs => readDigits? cs
  | cs => readDigits? cs

/-- A number with an optional sign. -/
def readInt? (s : String) : Option Int :=
  let (negative, cs) := splitSign s.toList
  (readDigits? cs).map fun n => if negative then -(n : Int) else n

/-- `mantissa · 10 ^ exponent`, rounded once. The position of the leading digit decides far outside
the range of binary numbers, so that no power is ever larger than the digits and the range ask for. -/
def ofScientific (mantissa : Nat) (exponent : Int) : Float :=
  let leading := (Nat.toDigits 10 mantissa).length + exponent
  if mantissa = 0 ∨ leading < -330 then 0.0
  else if 310 < leading then 1.0 / 0.0
  else Float.ofScientific mantissa (exponent < 0) exponent.natAbs

def negateIf (negative : Bool) (x : Float) : Float := if negative then -x else x

/-- A decimal exponent with an optional sign. -/
def readExponent? (cs : List Char) : Option Int :=
  let (negative, ds) := splitSign cs
  (readDigits? ds).map fun n => if negative then -(n : Int) else n

/-- Digits with at most one point among them, then perhaps an exponent. -/
def readUnsignedFloat? (cs : List Char) : Option Float :=
  let whole := cs.takeWhile Char.isDigit
  let rest := cs.dropWhile Char.isDigit
  let (fraction, rest) := match rest with
    | '.' :: r => (r.takeWhile Char.isDigit, r.dropWhile Char.isDigit)
    | r => ([], r)
  if whole.isEmpty && fraction.isEmpty then none
  else
    let scaled (e : Int) := ofScientific (digitsValue (whole ++ fraction)) (e - fraction.length)
    match rest with
    | [] => some (scaled 0)
    | c :: r => if c = 'e' ∨ c = 'E' then (readExponent? r).map scaled else none

/-- A decimal number or one of the words `inf`, `infinity` and `nan` in any case. -/
def readFloat? (s : String) : Option Float :=
  let (negative, cs) := splitSign s.toList
  let word := String.ofList (cs.map Char.toLower)
  if word = "inf" ∨ word = "infinity" then some (negateIf negative (1.0 / 0.0))
  else if word = "nan" then some (0.0 / 0.0)
  else (readUnsignedFloat? cs).map (negateIf negative)

end MixedProgram.Number
