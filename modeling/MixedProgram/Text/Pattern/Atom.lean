import MixedProgram.Number.Reader
import MixedProgram.Text.Blank

/-! The smallest parts of regular expressions: single characters and what a backslash stands before.
Classes of characters beyond ASCII and pairs of cases are not known here, so that shorthand classes and
caseless matching are possible only where bytes are matched. -/
namespace MixedProgram.Text.Pattern

/-- How the rest of a group is read. -/
structure Flags where
  spaced : Bool := false
  caseless : Bool := false
  unicode : Bool := true
  deriving DecidableEq, Repr

/-- Whether characters are matched in every case of theirs. For want of the pairs of cases nothing can be
matched then. -/
def Flags.folds (fl : Flags) : Bool := fl.unicode && fl.caseless

/-- Without blanks and comments; a comment lasts from a number sign to the end of the line. -/
def skipComments : Bool → List Char → List Char
  | _, [] => []
  | true, c :: cs => skipComments (c ≠ '\n') cs
  | false, c :: cs =>
    if isBlank c then skipComments false cs
    else if c = '#' then skipComments true cs
    else c :: cs

/-- Blanks and comments are passed over only where the flags say so. -/
def skip (fl : Flags) (cs : List Char) : List Char :=
  if fl.spaced then skipComments false cs else cs

inductive Atom
  /-- A character; `byte` when it is written as two digits. -/
  | char (c : Char) (byte : Bool)
  /-- A class of digits, blanks or word characters, or the rest of the characters. -/
  | shorthand (negated : Bool)
  /-- The start or the end of the text. -/
  | edge
  /-- The edge of a word, or a place where there is none. -/
  | wordEdge
  deriving DecidableEq, Repr

/-- A number of the given count of hexadecimal digits. -/
def readHex (fl : Flags) : Nat → Nat → List Char → Option (Nat × List Char)
  | 0, n, cs => some (n, cs)
  | _ + 1, _, [] => none
  | k + 1, n, c :: cs => (Number.hexValue? c).bind fun d => readHex fl k (16 * n + d) (skip fl cs)

/-- The character with a code point of the given count of digits. -/
def readCode (fl : Flags) (digits : Nat) (cs : List Char) : Option (Atom × List Char) :=
  (readHex fl digits 0 (skip fl cs)).bind fun (n, rest) =>
    if n.isValidChar then some (.char (Char.ofNat n) (digits == 2), rest) else none

/-- What the characters behind a backslash mean. Signs stand for themselves. -/
def readEscape (fl : Flags) : List Char → Option (Atom × List Char)
  | [] => none
  | c :: cs =>
    match c with
    | 'x' => readCode fl 2 cs
    | 'u' => readCode fl 4 cs
    | 'U' => readCode fl 8 cs
    | 'd' | 's' | 'w' => some (.shorthand false, cs)
    | 'D' | 'S' | 'W' => some (.shorthand true, cs)
    | 'a' => some (.char '\x07' false, cs)
    | 'f' => some (.char '\x0c' false, cs)
    | 't' => some (.char '\t' false, cs)
    | 'n' => some (.char '\n' false, cs)
    | 'r' => some (.char '\r' false, cs)
    | 'v' => some (.char '\x0b' false, cs)
    | 'A' | 'z' => some (.edge, cs)
    | 'b' | 'B' | '<' | '>' => some (.wordEdge, cs)
    | c => if c.toNat < 128 && !c.isAlphanum then some (.char c false, cs) else none

/-- Whether an atom can be matched. Where bytes are matched, the text matched must stay UTF-8. -/
def Atom.allowed (fl : Flags) : Atom → Bool
  | char c byte =>
    if fl.unicode then !fl.folds else c.toNat < 128 || !byte
  | shorthand negated => !fl.unicode && !negated
  | edge => true
  | wordEdge => true

/-- Whether an atom can be a member of a class. -/
def Atom.member (fl : Flags) : Atom → Bool
  | char c _ => if fl.unicode then !fl.folds else c.toNat < 128
  | shorthand negated => !fl.unicode && !negated
  | edge => false
  | wordEdge => false

/-- Whether the characters from one atom to another make a range. -/
def Atom.range (fl : Flags) : Atom → Atom → Bool
  | char c x, char d y => c ≤ d && (char c x).member fl && (char d y).member fl
  | _, _ => false

/-- How deep parts are nested that stand side by side. -/
structure Nesting where
  count : Nat := 0
  deepest : Nat := 0
  last : Nat := 0
  deriving DecidableEq, Repr

/-- Several parts make a level of their own, and a single part does not. -/
def Nesting.depth (n : Nesting) : Nat := if n.count ≤ 1 then n.deepest else n.deepest + 1

def Nesting.add (n : Nesting) (depth : Nat) : Nesting :=
  ⟨n.count + 1, max n.deepest depth, depth⟩

/-- The last part is put into a part of its own. -/
def Nesting.wrap (n : Nesting) : Nesting :=
  { n with deepest := max n.deepest (n.last + 1), last := n.last + 1 }

end MixedProgram.Text.Pattern
