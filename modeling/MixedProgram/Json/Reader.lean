import MixedProgram.Json.Value
import MixedProgram.Number.Reader

/-! Reading JSON text. Fields end up sorted by name, the last of equal names kept. -/
namespace MixedProgram.Json

def skipBlanks (cs : List Char) : List Char :=
  cs.dropWhile fun c => c = ' ' || c = '\n' || c = '\r' || c = '\t'

def hexUnit? (a b c d : Char) : Option Nat := do
  let high := (← Number.hexValue? a) * 16 + (← Number.hexValue? b)
  return high * 256 + (← Number.hexValue? c) * 16 + (← Number.hexValue? d)

def isHighHalf (n : Nat) : Bool := 0xd800 ≤ n && n < 0xdc00
def isLowHalf (n : Nat) : Bool := 0xdc00 ≤ n && n < 0xe000

def shortEscape? : Char → Option Char
  | '"' => some '"'
  | '\\' => some '\\'
  | '/' => some '/'
  | 'b' => some '\x08'
  | 'f' => some '\x0c'
  | 'n' => some '\n'
  | 'r' => some '\r'
  | 't' => some '\t'
  | _ => none

/-- The rest of a string behind its opening quote; `acc` holds the characters read, last one first.
Two escaped surrogate halves make one character, a single half is refused. -/
def readQuoted (acc : List Char) : List Char → Option (String × List Char)
  | [] => none
  | '"' :: rest => some (String.ofList acc.reverse, rest)
  | '\\' :: 'u' :: a :: b :: c :: d :: rest =>
    match hexUnit? a b c d with
    | none => none
    | some high =>
      if isHighHalf high then
        match rest with
        | '\\' :: 'u' :: e :: f :: g :: h :: rest =>
          match hexUnit? e f g h with
          | none => none
          | some low =>
            if isLowHalf low then
              readQuoted (Char.ofNat (0x10000 + (high - 0xd800) * 0x400 + (low - 0xdc00)) :: acc) rest
            else none
        | _ => none
      else if isLowHalf high then none
      else readQuoted (Char.ofNat high :: acc) rest
  | '\\' :: c :: rest =>
    match shortEscape? c with
    | some c => readQuoted (c :: acc) rest
    | none => none
  | c :: rest => if c.toNat < 32 then none else readQuoted (c :: acc) rest

/-- Appends digits to a significand as long as it fits 64 bits; returns the digits left over. -/
def absorb (n : Nat) : List Char → Nat × List Char
  | [] => (n, [])
  | d :: ds =>
    let next := 10 * n + (d.toNat - '0'.toNat)
    if next < UInt64.size then absorb next ds else (n, d :: ds)

/-- Scales by a power of ten, in steps that stay within the range of one rounded power. A number
that grows beyond all finite ones is refused. -/
def scaleByTen? (x : Float) (e : Int) : Option Float :=
  if x == 0.0 then some x
  else if 308 < e then none
  else if 0 ≤ e then
    let y := x * Number.ofScientific 1 e
    if y.isInf then none else some y
  else
    let steps := (e.natAbs - 1) / 308
    let reduced := Nat.repeat (· / Number.ofScientific 1 308) (min steps 3) x
    some (reduced / Number.ofScientific 1 (e.natAbs - 308 * steps : Nat))

/-- A whole number of 64 bits stays whole, but `-0` is binary. Any other number keeps the leading
digits that fit 64 bits; these are rounded and scaled by a rounded power of ten. -/
def numberOf? (negative : Bool) (whole : List Char) (fraction : Option (List Char))
    (exponent : Option Int) : Option Json :=
  let (n, excess) := absorb 0 whole
  let binary (n : Nat) (e : Int) : Option Json :=
    (scaleByTen? (Float.ofNat n) e).map fun x => float (Number.negateIf negative x)
  match fraction, exponent, excess with
  | none, none, [] =>
    if negative then
      if n = 0 ∨ 0x8000000000000000 < n then binary n 0 else some (int (-(n : Int)))
    else some (int n)
  | _, _, _ =>
    let (n, dropped) := absorb n (fraction.getD [])
    let places := (fraction.getD []).length - dropped.length
    binary n (exponent.getD 0 + excess.length - places)

/-- A number without a leading zero, with digits on both sides of a point. -/
def readNumber (cs : List Char) : Option (Json × List Char) :=
  let (negative, cs) := match cs with
    | '-' :: r => (true, r)
    | r => (false, r)
  let whole := cs.takeWhile Char.isDigit
  let rest := cs.dropWhile Char.isDigit
  let (fraction, rest) := match rest with
    | '.' :: r => (some (r.takeWhile Char.isDigit), r.dropWhile Char.isDigit)
    | r => (none, r)
  if whole = [] ∨ fraction = some [] ∨ (whole.length > 1 ∧ whole.head? = some '0') then none
  else
    let finish (exponent : Option Int) (rest : List Char) :=
      (numberOf? negative whole fraction exponent).map (·, rest)
    match rest with
    | c :: r =>
      if c = 'e' ∨ c = 'E' then
        let (below, r) := Number.splitSign r
        (Number.readDigits? (r.takeWhile Char.isDigit)).bind fun n =>
          finish (some (if below then -(n : Int) else n)) (r.dropWhile Char.isDigit)
      else finish none rest
    | [] => finish none []

mutual

/-- One value and the text behind it. The fuel bounds the nesting and the number of parts. -/
def readValue : Nat → List Char → Option (Json × List Char)
  | 0, _ => none
  | fuel + 1, cs =>
    match skipBlanks cs with
    | 'n' :: 'u' :: 'l' :: 'l' :: rest => some (null, rest)
    | 't' :: 'r' :: 'u' :: 'e' :: rest => some (bool true, rest)
    | 'f' :: 'a' :: 'l' :: 's' :: 'e' :: rest => some (bool false, rest)
    | '"' :: rest => (readQuoted [] rest).map fun (s, rest) => (string s, rest)
    | '[' :: rest =>
      match skipBlanks rest with
      | ']' :: rest => some (array [], rest)
      | rest => (readItems fuel [] rest).map fun (items, rest) => (array items, rest)
    | '\x7b' :: rest =>
      match skipBlanks rest with
      | '\x7d' :: rest => some (object [], rest)
      | rest => (readFields fuel [] rest).map fun (fields, rest) => (sortedObject fields, rest)
    | rest => readNumber rest

/-- Items up to the closing bracket, after those read already, last one first. -/
def readItems : Nat → List Json → List Char → Option (List Json × List Char)
  | 0, _, _ => none
  | fuel + 1, acc, cs =>
    (readValue fuel cs).bind fun (j, rest) =>
      match skipBlanks rest with
      | ',' :: rest => readItems fuel (j :: acc) rest
      | ']' :: rest => some ((j :: acc).reverse, rest)
      | _ => none

/-- Fields up to the closing brace, after those read already, last one first. -/
def readFields : Nat → List (String × Json) → List Char → Option (List (String × Json) × List Char)
  | 0, _, _ => none
  | fuel + 1, acc, cs =>
    match skipBlanks cs with
    | '"' :: rest =>
      (readQuoted [] rest).bind fun (name, rest) =>
        match skipBlanks rest with
        | ':' :: rest =>
          (readValue fuel rest).bind fun (j, rest) =>
            match skipBlanks rest with
            | ',' :: rest => readFields fuel ((name, j) :: acc) rest
            | '\x7d' :: rest => some (((name, j) :: acc).reverse, rest)
            | _ => none
        | _ => none
    | _ => none

end

/-- The whole text as one value. -/
def read? (s : String) : Option Json :=
  match readValue (s.length + 1) s.toList with
  | some (j, rest) => if (skipBlanks rest).isEmpty then some j else none
  | none => none

end MixedProgram.Json
