import MixedProgram.Bench.Case

/-! What a benchmark run is asked to do. -/
namespace MixedProgram.Bench

inductive OutputFormat
  | table
  | json
  | ndjson
  deriving DecidableEq, Repr

def OutputFormat.name : OutputFormat → String
  | table => "table"
  | json => "json"
  | ndjson => "ndjson"

structure Request where
  cases : Option (List Nat) := none
  vars : Option Nat := none
  constraints : Option Nat := none
  ratio : Float := 0.01
  duplicates : Nat := 1
  quadratic : Bool := false
  repetitions : Nat := 1
  noMemory : Bool := false
  output : Option String := none
  format : OutputFormat := .table
  showModel : Bool := false
  deriving DecidableEq

/-- Why a request makes no sense. -/
inductive Refusal
  | noRepetitions
  | noDuplicates
  | ratioNotPositive
  deriving DecidableEq, Repr

def Refusal.message : Refusal → String
  | noRepetitions => "repetitions must be greater than zero"
  | noDuplicates => "duplicates must be greater than zero"
  | ratioNotPositive => "constraint-ratio must be greater than zero"

namespace Request

def check (r : Request) : Except Refusal Unit :=
  if r.repetitions = 0 then .error .noRepetitions
  else if r.duplicates = 0 then .error .noDuplicates
  else if r.ratio ≤ 0.0 then .error .ratioNotPositive
  else .ok ()

/-- One case of the given size, or else the listed sizes, or else the default ones. -/
def resolved (r : Request) : List Case :=
  match r.vars with
  | some n => [{ Case.ofSize n with constraints := r.constraints }]
  | none => (r.cases.getD Case.defaultSizes).map Case.ofSize

/-- Every case with its repetitions, counted from one. -/
def jobs (r : Request) : List (Case × Nat) :=
  r.resolved.flatMap fun c => (List.range' 1 r.repetitions).map fun i => (c, i)

end Request
end MixedProgram.Bench
