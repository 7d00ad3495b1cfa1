import MixedProgram.Program.Basic
import MixedProgram.Text.Column

/-! A program as lines of text for people to read. -/
namespace MixedProgram

/-- How many constraints and variables are listed; no limit lists them all. -/
structure ListingLimits where
  constraints : Option Nat := none
  vars : Option Nat := none
  deriving DecidableEq

namespace ListingLimits

def full : ListingLimits := {}
def preview : ListingLimits := ⟨some 20, some 20⟩

end ListingLimits

namespace Program

/-- The label of a variable; one that does not exist shows its number. -/
def labelText (p : Program) (id : VarId) : String :=
  match p.label id with
  | .ok label => label
  | .error _ => "x[" ++ toString id.index ++ "]"

def linearTermText (p : Program) (t : LinearTerm) : String :=
  Number.plain t.coefficient ++ " " ++ p.labelText t.key

/-- A product of a variable with itself is written as a square. -/
def quadraticTermText (p : Program) (t : QuadraticTerm) : String :=
  Number.plain t.coefficient ++ " " ++
    if t.key.isSquare then p.labelText t.key.first ++ "^2"
    else p.labelText t.key.first ++ "*" ++ p.labelText t.key.second

/-- The canonical terms joined by plus signs, then the relation and the number. -/
def constraintText (p : Program) (c : Constraint) : String :=
  "+ ".intercalate (c.form.canonical.map fun t => p.linearTermText t ++ " ")
    ++ c.relation.symbol ++ " " ++ Number.plain c.rhs

def listConstraint (p : Program) (id : ConId) : Except ProgramError String :=
  (p.getConstraint id).map p.constraintText

/-- Behind the direction a blank stands where each further term has a plus sign. -/
def listObjective (p : Program) : String :=
  let o := p.objective
  let bodies := o.linear.canonical.map p.linearTermText
    ++ o.quadratic.canonical.map p.quadraticTermText
  match bodies with
  | [] => o.direction.name
  | body :: rest => o.direction.name ++ "   " ++ body ++ String.join (rest.map (" + " ++ ·))

def numbered (index : Nat) (text : String) : String :=
  Text.padLeft 7 (toString index) ++ ": " ++ text

/-- The line of a constraint; there is none when the constraint cannot be listed. -/
def constraintLine? (p : Program) (c : Constraint) : Option String :=
  match p.listConstraint c.id with
  | .error _ => none
  | .ok body =>
    let name := p.constraintName c.id
    some <| numbered c.id.index (if name.isEmpty then body else name ++ ": " ++ body)

def variableLine (p : Program) (v : Variable) : String :=
  numbered v.index (p.labelText v.id ++ " [" ++ Number.plain v.lower ++ ", "
    ++ Number.plain v.upper ++ "]")

/-- Says how many lines a limit has left out. -/
def omission (what : String) (limit total : Nat) : List String :=
  if limit < total then ["    ... (" ++ toString (total - limit) ++ " more " ++ what ++ ")"] else []

/-- The objective, the constraints and the variables, each list up to its limit. -/
def lines (p : Program) (limits : ListingLimits) : List String :=
  let constraintLimit := min (limits.constraints.getD p.constraints.size) p.constraints.size
  let variableLimit := min (limits.vars.getD p.vars.size) p.vars.size
  p.listObjective
    :: (p.constraints.toList.take constraintLimit).filterMap p.constraintLine?
    ++ omission "constraints" constraintLimit p.constraints.size
    ++ (p.vars.toList.take variableLimit).map p.variableLine
    ++ omission "variables" variableLimit p.vars.size

def listing (p : Program) (limits : ListingLimits) : String := "\n".intercalate (p.lines limits)

end Program

/-- The full listing stands for the program. -/
instance : ToString Program := ⟨fun p => p.listing .full⟩

end MixedProgram
