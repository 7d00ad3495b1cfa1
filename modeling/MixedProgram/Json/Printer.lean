import MixedProgram.Json.Value
import MixedProgram.Number.Layout

/-! JSON text, on one line or indented by two spaces a level. -/
namespace MixedProgram.Json

/-- Numbers are positional from `0.00001` up to sixteen digits before the point and always show a
fraction there. -/
def numberLayout : Number.Layout := ⟨.toEven, fun p => -5 < p && p ≤ 16, ".0".toList⟩

/-- A number that is not finite has no JSON form and is written as null. -/
def floatChars (x : Float) : List Char :=
  match Number.Value.ofFloat x with
  | .finite negative m e => numberLayout.finite negative m e
  | _ => "null".toList

def intChars (n : Int) : List Char := Number.signed (n < 0) (Nat.toDigits 10 n.natAbs)

/-- Quotes, backslashes and the characters below the blank are escaped, all else stands as it is. -/
def escapeChar (c : Char) : List Char :=
  match c with
  | '"' => ['\\', '"']
  | '\\' => ['\\', '\\']
  | '\n' => ['\\', 'n']
  | '\r' => ['\\', 'r']
  | '\t' => ['\\', 't']
  | c =>
    if c.toNat = 8 then ['\\', 'b']
    else if c.toNat = 12 then ['\\', 'f']
    else if c.toNat < 32 then
      ['\\', 'u', '0', '0', Nat.digitChar (c.toNat / 16), Nat.digitChar (c.toNat % 16)]
    else [c]

def quoted (s : String) : List Char := '"' :: s.toList.flatMap escapeChar ++ ['"']

mutual

/-- The compact form has no blanks at all. -/
def compactChars : Json → List Char
  | null => "null".toList
  | bool b => (if b then "true" else "false").toList
  | int n => intChars n
  | float x => floatChars x
  | string s => quoted s
  | array items => '[' :: compactItems items ++ [']']
  | object fields => '\x7b' :: compactFields fields ++ ['\x7d']

def compactItems : List Json → List Char
  | [] => []
  | [j] => compactChars j
  | j :: rest => compactChars j ++ ',' :: compactItems rest

def compactFields : List (String × Json) → List Char
  | [] => []
  | [(name, j)] => quoted name ++ ':' :: compactChars j
  | (name, j) :: rest => quoted name ++ ':' :: compactChars j ++ ',' :: compactFields rest

end

def newline (depth : Nat) : List Char := '\n' :: List.replicate (2 * depth) ' '

mutual

/-- The indented form of a value that starts at the given depth. -/
def prettyChars (depth : Nat) : Json → List Char
  | null => "null".toList
  | bool b => (if b then "true" else "false").toList
  | int n => intChars n
  | float x => floatChars x
  | string s => quoted s
  | array [] => ['[', ']']
  | array items => '[' :: prettyItems (depth + 1) items ++ newline depth ++ [']']
  | object [] => ['\x7b', '\x7d']
  | object fields => '\x7b' :: prettyFields (depth + 1) fields ++ newline depth ++ ['\x7d']

def prettyItems (depth : Nat) : List Json → List Char
  | [] => []
  | [j] => newline depth ++ prettyChars depth j
  | j :: rest => newline depth ++ prettyChars depth j ++ ',' :: prettyItems depth rest

def prettyFields (depth : Nat) : List (String × Json) → List Char
  | [] => []
  | [(name, j)] => newline depth ++ quoted name ++ ':' :: ' ' :: prettyChars depth j
  | (name, j) :: rest =>
    newline depth ++ quoted name ++ ':' :: ' ' :: prettyChars depth j ++ ',' :: prettyFields depth rest

end

def compact (j : Json) : String := String.ofList (compactChars j)
def pretty (j : Json) : String := String.ofList (prettyChars 0 j)

end MixedProgram.Json
