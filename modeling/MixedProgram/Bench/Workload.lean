import MixedProgram.Bench.Request
import MixedProgram.Session
import MixedProgram.Timing.Recorder

/-! The synthetic program of a case, built in measured steps.
Variable `i` stands in row `i` modulo the number of rows and in the objective; every term is added as
often as the request says. -/
namespace MixedProgram.Bench

open Timing

/-- What the steps have produced so far. -/
structure Draft where
  program : Program := {}
  canonicalTerms : Nat := 0
  copy : Program := {}
  events : List Event := []

abbrev Step := Draft → Except ProgramError Draft

namespace Workload

/-- Continuous, integer and bool variables take turns. -/
def addVariable (p : Program) (i : Nat) : Except ProgramError Program :=
  match i % 3 with
  | 0 => (p.addFloat 0.0 1000.0).map (·.2)
  | 1 => .ok (p.addInt 0 100).2
  | _ => .ok p.addBool.2

def addRow (p : Program) (_ : Nat) : Except ProgramError Program :=
  (p.addConstraint .lessEqual 10000.0).map (·.2)

def addRowTerm (rows : Nat) (p : Program) (i : Nat) : Except ProgramError Program :=
  (p.addConstraintTerm (.ofIndex (i % rows)) 1.0 (.ofIndex i)).map (·.2)

/-- A cost between one and seven, and perhaps a square. -/
def addCost (quadratic : Bool) (p : Program) (i : Nat) : Except ProgramError Program := do
  let (_, p) ← p.addObjectiveTerm (Float.ofNat (i % 7 + 1)) (.ofIndex i)
  if quadratic then
    (p.addQuadraticTerm 0.5 (.ofIndex i) (.ofIndex i)).map (·.2)
  else return p

/-- One action for each index below `n`. -/
def each (n : Nat) (act : Program → Nat → Except ProgramError Program) (p : Program) :
    Except ProgramError Program :=
  (List.range n).foldlM act p

/-- A pass over all variables, several times. -/
def passes (times n : Nat) (act : Program → Nat → Except ProgramError Program) (p : Program) :
    Except ProgramError Program :=
  each times (fun p _ => each n act p) p

def onProgram (act : Program → Except ProgramError Program) : Step :=
  fun d => (act d.program).map fun p => { d with program := p }

def canonicalize : Step :=
  fun d => .ok { d with canonicalTerms := d.program.canonicalTermCount }

def duplicate : Step := fun d =>
  let copy := d.program.copy
  .ok { d with copy, events := d.events ++ [Event.copied copy] }

/-- The steps of a case under the names by which they are measured. -/
def steps (r : Request) (c : Case) : List (String × Step) :=
  let n := c.vars
  let rows := c.constraintCount r.ratio
  [("variables", onProgram (each n addVariable)),
    ("constraints", onProgram (each rows addRow)),
    ("constraint_terms", onProgram (passes r.duplicates n (addRowTerm rows))),
    ("objective_terms", onProgram (passes r.duplicates n (addCost r.quadratic))),
    ("canonicalize", canonicalize),
    ("copy", duplicate)]

end Workload

/-- The outcome of one repetition of a case. -/
structure Execution where
  vars : Nat
  constraints : Nat
  rawTerms : Nat
  canonicalTerms : Nat
  stages : List Measurement
  program : Program
  events : List Event

section Measured
variable {m : Type → Type} [Monad m]

/-- Runs the steps in order, with a reading before and after each. A step that fails ends the run. -/
def runSteps (probe : m Reading) (recorder : Recorder) (d : Draft) :
    List (String × Step) → m (Except ProgramError (Recorder × Draft))
  | [] => pure (.ok (recorder, d))
  | (stage, step) :: rest => do
    let start := recorder.begin stage (← probe)
    match step d with
    | .error e => pure (.error e)
    | .ok d =>
      let measured := recorder.measure start (← probe)
      runSteps probe (recorder.record measured)
        { d with events := d.events ++ [finishedEvent stage] } rest

/-- Builds the program of a case. The stage `total` spans all others. -/
def execute (probe : m Reading) (r : Request) (c : Case) : m (Except ProgramError Execution) := do
  let before ← probe
  match ← runSteps probe { trackMemory := !r.noMemory } {} (Workload.steps r c) with
  | .error e => pure (.error e)
  | .ok (recorder, d) =>
    let total := Measurement.between recorder.trackMemory "total" before (← probe)
    pure <| .ok
      { vars := d.copy.vars.size
        constraints := d.copy.constraints.size
        rawTerms := d.program.rawTermCount
        canonicalTerms := d.canonicalTerms
        stages := recorder.stages.toList ++ [total]
        program := d.program
        events := d.events }

end Measured

/-- Readings that never change, for runs that are not timed. -/
def still : Id Reading := pure ⟨0, none⟩

end MixedProgram.Bench
