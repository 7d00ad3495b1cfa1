import MixedProgram.Event
import MixedProgram.Program.Build
import MixedProgram.Program.Listing
import MixedProgram.Program.Snapshot

/-! Sessions: several programs, changed and read by commands that are answered one by one.
Commands, answers and events are data, so that a run is a list of commands and a list of replies. -/
namespace MixedProgram

/-- A change of one program. -/
inductive Edit
  | addFloat (lower upper : Float)
  | addInt (lower upper : Int64)
  | addBool
  | addConstraint (relation : Relation) (rhs : Float)
  | addConstraintTerm (con : ConId) (coefficient : Float) (var : VarId)
  | addObjectiveTerm (coefficient : Float) (var : VarId)
  | addQuadraticTerm (coefficient : Float) (a b : VarId)
  | setDirection (direction : Direction)
  | nameVariable (id : VarId) (name : String)
  | noteVariable (id : VarId) (note : Json)
  | nameConstraint (id : ConId) (name : String)
  | noteConstraint (id : ConId) (note : Json)

/-- A question about one program. -/
inductive Query
  | counts
  | getVariable (id : VarId)
  | vars
  | getConstraint (id : ConId)
  | constraints
  | objective
  | constraintTotal (con : ConId) (var : VarId)
  | objectiveTotal (var : VarId)
  | quadraticTotal (a b : VarId)
  | variableName (id : VarId)
  | label (id : VarId)
  | findVariable (name : String)
  | variableNote (id : VarId)
  | constraintName (id : ConId)
  | findConstraint (name : String)
  | constraintNote (id : ConId)
  | listConstraint (id : ConId)
  | listObjective
  | listing (limits : ListingLimits)

inductive Answer
  | done
  | variableId (id : VarId)
  | constraintId (id : ConId)
  | linearTerm (t : LinearTerm)
  | quadraticTerm (t : QuadraticTerm)
  | counts (vars constraints : Nat)
  | oneVariable (v : Variable)
  | vars (vs : List Variable)
  | oneConstraint (c : Constraint)
  | constraints (cs : List Constraint)
  | objective (o : Objective)
  | linearAggregate (a : Aggregate VarId)
  | quadraticAggregate (a : Aggregate VarPair)
  | name (name : Option String)
  | text (text : String)
  | foundVariable (id : Option VarId)
  | foundConstraint (id : Option ConId)
  | note (note : Option Json)
  | snapshot (s : Snapshot)
  | program (number : Nat)

abbrev Result := Except ProgramError Answer

namespace Edit

/-- The answer and the changed program. A refused edit changes nothing. -/
def apply (p : Program) : Edit → Except ProgramError (Answer × Program)
  | addFloat lower upper => (p.addFloat lower upper).map fun (id, p) => (.variableId id, p)
  | addInt lower upper => let (id, p) := p.addInt lower upper; .ok (.variableId id, p)
  | addBool => let (id, p) := p.addBool; .ok (.variableId id, p)
  | addConstraint relation rhs =>
    (p.addConstraint relation rhs).map fun (id, p) => (.constraintId id, p)
  | addConstraintTerm con coefficient var =>
    (p.addConstraintTerm con coefficient var).map fun (t, p) => (.linearTerm t, p)
  | addObjectiveTerm coefficient var =>
    (p.addObjectiveTerm coefficient var).map fun (t, p) => (.linearTerm t, p)
  | addQuadraticTerm coefficient a b =>
    (p.addQuadraticTerm coefficient a b).map fun (t, p) => (.quadraticTerm t, p)
  | setDirection direction => .ok (.done, p.setDirection direction)
  | nameVariable id name => (p.nameVariable id name).map fun p => (.done, p)
  | noteVariable id note => (p.noteVariable id note).map fun p => (.done, p)
  | nameConstraint id name => (p.nameConstraint id name).map fun p => (.done, p)
  | noteConstraint id note => (p.noteConstraint id note).map fun p => (.done, p)

/-- The operation under which a refusal is logged; names and notes are refused silently. -/
def loggedAs : Edit → Option String
  | addFloat .. => some "new_float"
  | addConstraint .. => some "new_constraint"
  | addConstraintTerm .. => some "add_constraint_term"
  | addObjectiveTerm .. => some "add_objective_term"
  | addQuadraticTerm .. => some "add_objective_quadratic_term"
  | _ => none

end Edit

namespace Query

def answer (p : Program) : Query → Result
  | counts => .ok (.counts p.vars.size p.constraints.size)
  | getVariable id => (p.getVariable id).map .oneVariable
  | vars => .ok (.vars p.vars.toList)
  | getConstraint id => (p.getConstraint id).map .oneConstraint
  | constraints => .ok (.constraints p.constraints.toList)
  | objective => .ok (.objective p.objective)
  | constraintTotal con var =>
    (p.getConstraint con).map fun c => .linearAggregate (c.form.aggregate var)
  | objectiveTotal var => .ok (.linearAggregate (p.objective.linear.aggregate var))
  | quadraticTotal a b =>
    .ok (.quadraticAggregate (p.objective.quadratic.aggregate (VarPair.of a b)))
  | variableName id => .ok (.name (p.variableName? id))
  | label id => (p.label id).map .text
  | findVariable name => .ok (.foundVariable (p.findVariable? name))
  | variableNote id => .ok (.note (p.variableNote? id))
  | constraintName id => .ok (.text (p.constraintName id))
  | findConstraint name => .ok (.foundConstraint (p.findConstraint? name))
  | constraintNote id => .ok (.note (p.constraintNote? id))
  | listConstraint id => (p.listConstraint id).map .text
  | listObjective => .ok (.text p.listObjective)
  | listing limits => .ok (.text (p.listing limits))

end Query

namespace Event

/-- A refused operation is logged with the code and the text of its error. -/
def refused (operation : String) (e : ProgramError) : Event where
  level := .debug
  component := "model"
  operation := operation
  status := .error
  details := [("code", .string e.code)]
  message := e.message

def directionSet (direction : Direction) : Event where
  level := .debug
  component := "model"
  operation := "set_objective_sense"
  status := .success
  details := [("sense", .string direction.name)]
  message := "Updated objective sense"

/-- Counts the views of the snapshot, so what a filter drops is not counted. -/
def inspected (s : Snapshot) : Event where
  level := .debug
  component := "model"
  operation := "inspect"
  status := .success
  details := [("variables", .int s.vars.length), ("constraints", .int s.constraints.length)]
  message := "Built model snapshot"

def copied (copy : Program) : Event where
  level := .debug
  component := "model"
  operation := "copy"
  status := .success
  details :=
    [("variables", .int copy.vars.size), ("constraints", .int copy.constraints.size),
      ("objective_terms", .int copy.objective.linear.size),
      ("objective_quadratic_terms", .int copy.objective.quadratic.size)]
  message := "Copied model"

end Event

/-- Programs are addressed by number; there is one program at the start. -/
structure Session where
  programs : Array Program := #[{}]

inductive Command
  | create
  | edit (number : Nat) (edit : Edit)
  | ask (number : Nat) (query : Query)
  | inspect (number : Nat) (options : InspectOptions)
  | copy (number : Nat)

/-- What a command brings about. There is no result when the program does not exist. -/
structure Reply where
  result : Option Result
  events : List Event := []

namespace Edit

/-- Events of an edit: its refusal, or the change of direction. -/
def events (e : Edit) : Except ProgramError (Answer × Program) → List Event
  | .error cause => (e.loggedAs.map fun operation => Event.refused operation cause).toList
  | .ok (_, p) =>
    match e with
    | setDirection _ => [Event.directionSet p.objective.direction]
    | _ => []

/-- The answer, the events and the program afterwards. -/
def run (p : Program) (e : Edit) : Reply × Program :=
  let outcome := e.apply p
  (⟨some (outcome.map (·.1)), e.events outcome⟩,
    match outcome with
    | .ok (_, p') => p'
    | .error _ => p)

end Edit

namespace Session

def push (s : Session) (p : Program) : Session := ⟨s.programs.push p⟩

/-- Answers with what a program yields, if it exists. -/
def withProgram (s : Session) (number : Nat) (act : Program → Reply × Session) : Reply × Session :=
  match s.programs[number]? with
  | some p => act p
  | none => (⟨none, []⟩, s)

def step (s : Session) : Command → Reply × Session
  | .create => (⟨some (.ok (.program s.programs.size)), []⟩, s.push {})
  | .edit number e => s.withProgram number fun p =>
    let (reply, p') := e.run p
    (reply, ⟨s.programs.setIfInBounds number p'⟩)
  | .ask number q => s.withProgram number fun p => (⟨some (q.answer p), []⟩, s)
  | .inspect number options => s.withProgram number fun p =>
    let snapshot := p.inspect options
    (⟨some (.ok (.snapshot snapshot)), [Event.inspected snapshot]⟩, s)
  | .copy number => s.withProgram number fun p =>
    let copy := p.copy
    (⟨some (.ok (.program s.programs.size)), [Event.copied copy]⟩, s.push copy)

/-- Commands in order, with all replies. -/
def run (s : Session) : List Command → List Reply × Session
  | [] => ([], s)
  | c :: cs =>
    let (reply, s) := s.step c
    let (replies, s) := s.run cs
    (reply :: replies, s)

@[simp] theorem run_nil (s : Session) : s.run [] = ([], s) := rfl

theorem run_cons (s : Session) (c : Command) (cs : List Command) :
    s.run (c :: cs) = ((s.step c).1 :: ((s.step c).2.run cs).1, ((s.step c).2.run cs).2) := rfl

theorem run_append (s : Session) (cs ds : List Command) :
    s.run (cs ++ ds) =
      ((s.run cs).1 ++ ((s.run cs).2.run ds).1, ((s.run cs).2.run ds).2) := by
  induction cs generalizing s with
  | nil => rfl
  | cons c cs ih => simp [run_cons, ih]

end Session
end MixedProgram
