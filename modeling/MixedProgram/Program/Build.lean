import MixedProgram.Program.Basic

/-! Operations that extend a program. Each one either returns the program that results or says why it
is refused; the arguments are checked in the order in which a reader meets them in the text below. -/
namespace MixedProgram.Program

def requireVariable (p : Program) (id : VarId) : Except ProgramError Unit :=
  if p.hasVariable id then .ok () else .error (.unknownVariable id)

def requireConstraint (p : Program) (id : ConId) : Except ProgramError Unit :=
  if p.hasConstraint id then .ok () else .error (.unknownConstraint id)

def makeTerm {κ : Type} (coefficient : Float) (key : κ) : Except ProgramError (Term κ) :=
  (Term.make coefficient key).mapError .term

/-- The next variable; its identity is the number of variables before it. -/
def addVariable (p : Program) (domain : Domain) : VarId × Program :=
  let id := .ofIndex p.vars.size
  (id, { p with vars := p.vars.push ⟨id, domain⟩ })

/-- Bounds may come in any order and may be infinite. -/
def addFloat (p : Program) (lower upper : Float) : Except ProgramError (VarId × Program) :=
  if lower.isNaN || upper.isNaN then .error (.nanBound lower upper)
  else .ok (p.addVariable (.float lower upper))

def addInt (p : Program) (lower upper : Int64) : VarId × Program :=
  p.addVariable (.int lower upper)

def addBool (p : Program) : VarId × Program := p.addVariable .bool

/-- The next constraint, still without terms. -/
def addConstraint (p : Program) (relation : Relation) (rhs : Float) :
    Except ProgramError (ConId × Program) :=
  if rhs.isNaN then .error .nanRightHandSide
  else
    let id := .ofIndex p.constraints.size
    .ok (id, { p with constraints := p.constraints.push ⟨id, relation, rhs, {}⟩ })

def addConstraintTerm (p : Program) (con : ConId) (coefficient : Float) (var : VarId) :
    Except ProgramError (LinearTerm × Program) := do
  p.requireVariable var
  p.requireConstraint con
  let t ← makeTerm coefficient var
  return (t, { p with constraints := p.constraints.modify con.index (·.append t) })

def addObjectiveTerm (p : Program) (coefficient : Float) (var : VarId) :
    Except ProgramError (LinearTerm × Program) := do
  p.requireVariable var
  let t ← makeTerm coefficient var
  return (t, { p with objective := p.objective.appendLinear t })

def addQuadraticTerm (p : Program) (coefficient : Float) (a b : VarId) :
    Except ProgramError (QuadraticTerm × Program) := do
  p.requireVariable a
  p.requireVariable b
  let t ← makeTerm coefficient (VarPair.of a b)
  return (t, { p with objective := p.objective.appendQuadratic t })

def setDirection (p : Program) (direction : Direction) : Program :=
  { p with objective := { p.objective with direction } }

def nameVariable (p : Program) (id : VarId) (name : String) : Except ProgramError Program := do
  p.requireVariable id
  return { p with variableNotes := p.variableNotes.rename id name }

def noteVariable (p : Program) (id : VarId) (note : Json) : Except ProgramError Program := do
  p.requireVariable id
  return { p with variableNotes := p.variableNotes.annotate id note }

def nameConstraint (p : Program) (id : ConId) (name : String) : Except ProgramError Program := do
  p.requireConstraint id
  return { p with constraintNotes := p.constraintNotes.rename id name }

def noteConstraint (p : Program) (id : ConId) (note : Json) : Except ProgramError Program := do
  p.requireConstraint id
  return { p with constraintNotes := p.constraintNotes.annotate id note }

/-- Creates the variables of a program again, in their order, in a program that has nothing else. -/
def recreateVariables (p : Program) : Program :=
  p.vars.foldl (fun (q : Program) v => (q.addVariable v.domain).2) {}

/-- An independent program of the same shape: the variables are created again, names and notes are
kept, and every form is replaced by its canonical terms. -/
def copy (p : Program) : Program :=
  { p.recreateVariables with
    constraints := p.constraints.map (·.canonicalized)
    objective := p.objective.canonicalized
    variableNotes := p.variableNotes
    constraintNotes := p.constraintNotes }

end MixedProgram.Program
