import MixedProgram.Constraint
import MixedProgram.Objective
import MixedProgram.Program.Annotations
import MixedProgram.Program.Error
import MixedProgram.Variable

/-! Programs and how their parts are read. -/
namespace MixedProgram

/-- Variables and constraints in order of creation, one objective, and the tables of names and
notes. Nothing is ever removed. -/
structure Program where
  vars : Array Variable := #[]
  constraints : Array Constraint := #[]
  objective : Objective := {}
  variableNotes : Annotations .var := {}
  constraintNotes : Annotations .con := {}

namespace Program

def hasVariable (p : Program) (id : VarId) : Bool := id.index < p.vars.size
def hasConstraint (p : Program) (id : ConId) : Bool := id.index < p.constraints.size

def getVariable (p : Program) (id : VarId) : Except ProgramError Variable :=
  match p.vars[id.index]? with
  | some v => .ok v
  | none => .error (.unknownVariable id)

def getConstraint (p : Program) (id : ConId) : Except ProgramError Constraint :=
  match p.constraints[id.index]? with
  | some c => .ok c
  | none => .error (.unknownConstraint id)

/-- The explicit name, which may be empty. -/
def variableName? (p : Program) (id : VarId) : Option String := p.variableNotes.name? id

/-- The name of a constraint, empty when it has none. -/
def constraintName (p : Program) (id : ConId) : String := (p.constraintNotes.name? id).getD ""

def variableNote? (p : Program) (id : VarId) : Option Json := p.variableNotes.note? id
def constraintNote? (p : Program) (id : ConId) : Option Json := p.constraintNotes.note? id

def findVariable? (p : Program) (name : String) : Option VarId := p.variableNotes.find? name
def findConstraint? (p : Program) (name : String) : Option ConId := p.constraintNotes.find? name

/-- The explicit name of a variable, or its default label when that is missing or empty. -/
def label (p : Program) (id : VarId) : Except ProgramError String :=
  (p.getVariable id).map fun v =>
    match p.variableName? id with
    | some name => if name.isEmpty then v.defaultLabel else name
    | none => v.defaultLabel

/-- All terms of all forms, as added. -/
def rawTermCount (p : Program) : Nat :=
  p.objective.linear.size + p.objective.quadratic.size
    + p.constraints.foldl (fun n c => n + c.form.size) 0

/-- All terms of all forms, merged. -/
def canonicalTermCount (p : Program) : Nat :=
  p.objective.linear.canonical.length + p.objective.quadratic.canonical.length
    + p.constraints.foldl (fun n c => n + c.form.canonical.length) 0

end Program
end MixedProgram
