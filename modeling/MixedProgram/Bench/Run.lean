import MixedProgram.Bench.Report

/-! A whole benchmark run: all cases, all repetitions, and what is printed about them. -/
namespace MixedProgram.Bench

open Timing

/-- Why a run ends early. -/
inductive RunError
  | refused (cause : Refusal)
  | failed (cause : ProgramError)
  deriving DecidableEq

def RunError.message : RunError → String
  | refused cause => cause.message
  | failed cause => cause.message

/-- The records so far and the program built last. -/
structure Progress where
  records : Array Record := #[]
  program : Option Program := none
  events : Array Event := #[]

section Measured
variable {m : Type → Type} [Monad m]

def runJobs (probe : m Reading) (runId : String) (r : Request) (done : Progress) :
    List (Case × Nat) → m (Except ProgramError Progress)
  | [] => pure (.ok done)
  | (c, repetition) :: rest => do
    match ← execute probe r c with
    | .error e => pure (.error e)
    | .ok e =>
      runJobs probe runId r
        { records := done.records ++ Record.ofExecution runId c.name repetition e
          program := some e.program
          events := done.events ++ e.events } rest

/-- A request that makes no sense is refused before anything is built. -/
def run (probe : m Reading) (runId : String) (r : Request) : m (Except RunError Progress) :=
  match r.check with
  | .error cause => pure (.error (.refused cause))
  | .ok () => do return (← runJobs probe runId r {} r.jobs).mapError .failed

end Measured

/-- The report, then the name of the artifact, then a preview of the last program. -/
structure Output where
  report : List String
  notes : List String
  artifact : Option String
  deriving DecidableEq

namespace Progress

def output (p : Progress) (r : Request) : Output where
  report := reportLines r.format p.records.toList
  notes :=
    (r.output.map ("artifact: " ++ ·)).toList
      ++ (if r.showModel then (p.program.map (·.listing .preview)).toList else [])
  artifact := r.output.map fun _ => artifact p.records.toList

end Progress

def Output.text (o : Output) : String := unlines (o.report ++ o.notes)

end MixedProgram.Bench
