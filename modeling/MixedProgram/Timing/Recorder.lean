import MixedProgram.Event
import MixedProgram.Memory

/-! Measured stages. Clock and memory readings come from outside, so that recording is a function. -/
namespace MixedProgram.Timing

/-- A time in nanoseconds, and the resident memory where it can be read. -/
structure Reading where
  clock : Nat
  rss : Option UInt64
  deriving DecidableEq, Repr

structure Measurement where
  stage : String
  nanoseconds : Nat
  rssBefore : Option UInt64
  rssAfter : Option UInt64
  rssGrowth : Option Int64
  deriving DecidableEq, Repr

/-- The sum of whole seconds and a fraction, in milliseconds. -/
def milliseconds (nanoseconds : Nat) : Float :=
  let perSecond := 1000000000
  (Float.ofNat (nanoseconds / perSecond) + Float.ofNat (nanoseconds % perSecond) / 1000000000.0)
    * 1000.0

/-- A stage that has begun. -/
structure StageStart where
  stage : String
  clock : Nat
  rssBefore : Option UInt64
  deriving DecidableEq, Repr

/-- Stages in the order in which they end. Without memory tracking no size is kept. -/
structure Recorder where
  trackMemory : Bool
  stages : Array Measurement := #[]
  deriving DecidableEq

/-- The measurement of what lies between two readings. -/
def Measurement.between (trackMemory : Bool) (stage : String) (before after : Reading) :
    Measurement :=
  let rssBefore := if trackMemory then before.rss else none
  let rssAfter := if trackMemory then after.rss else none
  ⟨stage, after.clock - before.clock, rssBefore, rssAfter, Memory.growth? rssBefore rssAfter⟩

namespace Recorder

def begin (r : Recorder) (stage : String) (now : Reading) : StageStart :=
  ⟨stage, now.clock, if r.trackMemory then now.rss else none⟩

/-- The entry of a stage that ends now. -/
def measure (r : Recorder) (start : StageStart) (now : Reading) : Measurement :=
  .between r.trackMemory start.stage ⟨start.clock, start.rssBefore⟩ now

def record (r : Recorder) (m : Measurement) : Recorder := { r with stages := r.stages.push m }

def totalNanoseconds (r : Recorder) : Nat := r.stages.foldl (fun n m => n + m.nanoseconds) 0

end Recorder

def finishedEvent (stage : String) : Event where
  level := .trace
  component := "measure"
  operation := "end_stage"
  status := .success
  details := [("stage", .string stage)]
  message := "Stage finished"

/-- Beginnings are numbered; each one can be ended once. -/
inductive Mark
  | begin (stage : String)
  | finish (handle : Nat)
  deriving DecidableEq, Repr

/-- A recorder with the stages begun so far; an ended stage leaves an empty place. -/
structure Recording where
  recorder : Recorder
  starts : Array (Option StageStart) := #[]

inductive MarkReply
  | opened (handle : Nat)
  | finished (m : Measurement) (event : Event)
  | noHandle

namespace Recording

def step (r : Recording) (now : Reading) : Mark → MarkReply × Recording
  | .begin stage =>
    (.opened r.starts.size, { r with starts := r.starts.push (some (r.recorder.begin stage now)) })
  | .finish handle =>
    match r.starts[handle]? with
    | some (some start) =>
      let m := r.recorder.measure start now
      (.finished m (finishedEvent start.stage),
        ⟨r.recorder.record m, r.starts.setIfInBounds handle none⟩)
    | _ => (.noHandle, r)

end Recording
end MixedProgram.Timing
