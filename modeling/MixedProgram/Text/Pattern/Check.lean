import MixedProgram.Text.Alphanumeric
import MixedProgram.Text.Pattern.Class

/-! Regular expressions: which texts can be matched by a table of states.
Only texts without closing braces are taken, so that counted repetitions and classes named in braces,
which need one, are refused. -/
namespace MixedProgram.Text

inductive PatternError
  | malformed
  | wordEdge
  deriving DecidableEq, Repr

def PatternError.message : PatternError → String
  | malformed => "error building NFA"
  | wordEdge =>
    "unsupported regex feature for DFAs: cannot build DFAs for regexes with Unicode word boundaries; "
      ++ "switch to ASCII word boundaries, or heuristically enable Unicode word boundaries or use a "
      ++ "different regex engine"

namespace Pattern

/-- Letters that switch flags; behind the dash they switch them off. -/
def isFlagLetter (c : Char) : Bool := "imsUuRx-".toList.contains c

def applyFlags : Flags → Bool → List Char → Flags
  | fl, _, [] => fl
  | fl, on, c :: cs =>
    match c with
    | '-' => applyFlags fl false cs
    | 'i' => applyFlags { fl with caseless := on } on cs
    | 'u' => applyFlags { fl with unicode := on } on cs
    | 'x' => applyFlags { fl with spaced := on } on cs
    | _ => applyFlags fl on cs

/-- No letter comes twice, and the dash is not the last. -/
def validFlags (letters : List Char) : Bool :=
  letters.all isFlagLetter && decide letters.Nodup && letters.getLast? != some '-'

def isNameStart (c : Char) : Bool := c == '_' || isAlphabetic c

def isNamePart (c : Char) : Bool :=
  c == '_' || c == '.' || c == '[' || c == ']' || isAlphanumeric c

/-- The name of a group, up to its closing angle. -/
def readName (cs : List Char) : Option (List Char × List Char) :=
  let name := cs.takeWhile (· ≠ '>')
  match name, cs.drop name.length with
  | c :: more, _ :: rest =>
    if isNameStart c && more.all isNamePart then some (name, rest) else none
  | _, _ => none

/-- How deep parts may be nested. -/
def deepest : Nat := 250

/-- The parts of an open group, or of the whole pattern: how deep the earlier alternatives are, and the
parts since then. -/
structure Branch where
  alternatives : Option Nat := none
  parts : Nesting := {}

def Branch.depth (b : Branch) : Nat :=
  match b.alternatives with
  | none => b.parts.depth
  | some depth => max depth b.parts.depth + 1

def Branch.alternate (b : Branch) : Branch :=
  { alternatives := some (max (b.alternatives.getD 0) b.parts.depth) }

/-- What is known in the middle of a pattern. -/
structure State where
  flags : Flags := {}
  branch : Branch := {}
  /-- The flags and the parts around each open group, the innermost group first. -/
  groups : List (Flags × Branch) := []
  names : List (List Char) := []
  /-- Whether something stands just before that can be repeated. -/
  repeatable : Bool := false
  /-- Whether edges of words are asked for that depend on more than ASCII. -/
  wordEdge : Bool := false

/-- Takes in a part of the given depth. -/
def State.add (st : State) (depth : Nat) : State :=
  { st with branch.parts := st.branch.parts.add depth, repeatable := true }

/-- Enters a group, in which other flags may hold. -/
def State.enter (st : State) (flags : Flags) : State :=
  { st with flags, branch := {}, groups := (st.flags, st.branch) :: st.groups, repeatable := false }

/-- Leaves the innermost group. -/
def State.leave (st : State) : Option State :=
  match st.groups with
  | [] => none
  | (flags, branch) :: groups => some ({ st with flags, branch, groups }.add (st.branch.depth + 1))

/-- Repeats the part just before. -/
def State.repeatLast (st : State) : Option State :=
  if st.repeatable then some { st with branch.parts := st.branch.parts.wrap } else none

/-- What follows an opening parenthesis. -/
def openGroup (st : State) (cs : List Char) : Option (State × List Char) :=
  let named (cs : List Char) := do
    let (name, rest) ← readName cs
    if st.names.contains name then none
    else some ({ st with names := name :: st.names }.enter st.flags, rest)
  match skip st.flags cs with
  | '?' :: 'P' :: '<' :: cs => named cs
  | '?' :: '<' :: cs => named cs
  | '?' :: cs =>
    let letters := cs.takeWhile fun c => c ≠ ':' && c ≠ ')'
    if !validFlags letters then none
    else
      let flags := applyFlags st.flags true letters
      match cs.drop letters.length with
      | ':' :: rest => some (st.enter flags, rest)
      | ')' :: rest =>
        if letters.isEmpty then none
        else some ({ st.add 0 with flags, repeatable := false }, rest)
      | _ => none
  | cs => some (st.enter st.flags, cs)

/-- A single character, escaped or not. -/
def readAtom (st : State) (atom : Atom) : Option State :=
  if atom.allowed st.flags then
    some { st.add 0 with wordEdge := st.wordEdge || (atom == .wordEdge && st.flags.unicode) }
  else none

/-- Takes in the next part of a pattern. -/
def step (st : State) : List Char → Option (State × List Char)
  | [] => none
  | c :: cs =>
    match c with
    | '(' => openGroup st cs
    | ')' => st.leave.map (·, cs)
    | '|' => some ({ st with branch := st.branch.alternate, repeatable := false }, cs)
    | '[' => (readClass st.flags cs).map fun (depth, rest) => (st.add depth, rest)
    | '?' | '*' | '+' =>
      match cs with
      | '?' :: rest => st.repeatLast.map (·, rest)
      | rest => st.repeatLast.map (·, rest)
    | '\x7b' => none
    | '.' => if st.flags.unicode then some (st.add 0, cs) else none
    | '^' | '$' => some (st.add 0, cs)
    | '\\' => do
      let (atom, rest) ← readEscape st.flags cs
      return (← readAtom st atom, rest)
    | c => (readAtom st (.char c false)).map (·, cs)

def scan : Nat → State → List Char → Option State
  | 0, _, _ => none
  | fuel + 1, st, cs =>
    match skip st.flags cs with
    | [] => if st.groups.isEmpty && st.branch.depth ≤ deepest then some st else none
    | cs => (step st cs).bind fun (st, rest) => scan fuel st rest

/-- Whether a text is a pattern that can be matched. -/
def check (cs : List Char) : Except PatternError Unit :=
  match scan (cs.length + 1) {} cs with
  | none => .error .malformed
  | some st => if st.wordEdge then .error .wordEdge else .ok ()

end Pattern
end MixedProgram.Text
