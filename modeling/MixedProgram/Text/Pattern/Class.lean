import MixedProgram.Text.Pattern.Atom

/-! Classes of characters in brackets. -/
namespace MixedProgram.Text.Pattern

def classNames : List String :=
  ["alnum", "alpha", "ascii", "blank", "cntrl", "digit", "graph", "lower", "print", "punct", "space",
    "upper", "word", "xdigit"]

/-- A class given by a name between colons, from behind its opening bracket: whether it is negated, and
the rest. -/
def readNamed? (cs : List Char) : Option (Bool × List Char) :=
  match cs with
  | ':' :: cs =>
    let (negated, cs) := match cs with
      | '^' :: cs => (true, cs)
      | cs => (false, cs)
    let name := cs.takeWhile (· ≠ ':')
    match cs.drop name.length with
    | ':' :: ']' :: rest =>
      if classNames.contains (String.ofList name) then some (negated, rest) else none
    | _ => none
  | _ => none

/-- Behind an opening bracket: a negation, which where bytes are matched would leave UTF-8. -/
def openClass (fl : Flags) (cs : List Char) : Option (List Char) :=
  match skip fl cs with
  | '^' :: cs => if fl.unicode then some cs else none
  | cs => some cs

/-- A member, which may be escaped. -/
def readMember (fl : Flags) : List Char → Option (Atom × List Char)
  | [] => none
  | '\\' :: cs => readEscape fl cs
  | c :: cs => some (.char c false, cs)

/-- A single member or a range, and the rest. A dash before a dash or before the closing bracket makes
no range. -/
def readRange (fl : Flags) (cs : List Char) : Option (List Char) := do
  let (first, rest) ← readMember fl cs
  match skip fl rest with
  | [] => none
  | '-' :: next =>
    match skip fl next with
    | ']' :: _ | '-' :: _ => if first.member fl then some ('-' :: next) else none
    | next =>
      let (last, rest) ← readMember fl next
      if first.range fl last then some rest else none
  | rest => if first.member fl then some rest else none

/-- Where in a class a member stands: dashes at the start are members, and so is a closing bracket that
comes first of all. -/
inductive Stage
  | start
  | dashes
  | later
  deriving DecidableEq, Repr

/-- An open class: how deep the classes are that have been joined, and the members since then. -/
structure Bracket where
  joined : Option Nat := none
  members : Nesting := {}

def Bracket.depth (b : Bracket) : Nat :=
  match b.joined with
  | none => b.members.depth
  | some left => max left b.members.depth + 1

/-- What has been read so far is joined with what follows. -/
def Bracket.join (b : Bracket) : Bracket := { joined := some b.depth }

def Bracket.add (b : Bracket) (depth : Nat) : Bracket := { b with members := b.members.add depth }

/-- The members of a class up to its closing bracket: how deep the class is, and the rest. Classes may
be nested, and joined by doubled signs. -/
def readMembers (fl : Flags) :
    Nat → Bracket → List Bracket → Stage → List Char → Option (Nat × List Char)
  | 0, _, _, _, _ => none
  | fuel + 1, b, outer, stage, cs =>
    match stage, skip fl cs with
    | _, [] => none
    | .start, ']' :: cs =>
      if fl.folds then none else readMembers fl fuel (b.add 0) outer .later cs
    | .start, '-' :: cs | .dashes, '-' :: cs =>
      if fl.folds then none else readMembers fl fuel (b.add 0) outer .dashes cs
    | _, '[' :: cs =>
      match readNamed? cs with
      | some (negated, rest) =>
        if fl.folds || (negated && !fl.unicode) then none
        else readMembers fl fuel (b.add 0) outer .later rest
      | none => (openClass fl cs).bind (readMembers fl fuel {} (b :: outer) .start)
    | _, ']' :: cs =>
      match outer with
      | [] => some (b.depth + 1, cs)
      | around :: outer => readMembers fl fuel (around.add (b.depth + 1)) outer .later cs
    | _, '&' :: '&' :: cs => readMembers fl fuel b.join outer .later cs
    | _, '-' :: '-' :: cs => readMembers fl fuel b.join outer .later cs
    | _, '~' :: '~' :: cs => readMembers fl fuel b.join outer .later cs
    | _, cs => (readRange fl cs).bind (readMembers fl fuel (b.add 0) outer .later)

/-- A class from behind its opening bracket: how deep it is, and the rest. -/
def readClass (fl : Flags) (cs : List Char) : Option (Nat × List Char) :=
  (openClass fl cs).bind fun rest => readMembers fl (rest.length + 1) {} [] .start rest

end MixedProgram.Text.Pattern
