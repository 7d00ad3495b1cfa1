import MixedProgram.Bench.Workload

/-! Benchmark records: one line of data for each measured stage. -/
namespace MixedProgram.Bench

structure Record where
  runId : String
  caseName : String
  repetition : Nat
  vars : Nat
  constraints : Nat
  rawTerms : Nat
  canonicalTerms : Nat
  stage : String
  milliseconds : Float
  rssBefore : Option UInt64
  rssAfter : Option UInt64
  rssGrowth : Option Int64
  deriving DecidableEq

namespace Record

/-- The version of the fields below. -/
def schemaVersion : Nat := 1

def toJson (r : Record) : Json :=
  .object
    [("schema_version", .int schemaVersion), ("run_id", .string r.runId),
      ("case_name", .string r.caseName), ("repetition", .int r.repetition),
      ("variables", .int r.vars), ("constraints", .int r.constraints),
      ("raw_terms", .int r.rawTerms), ("canonical_terms", .int r.canonicalTerms),
      ("stage", .string r.stage), ("duration_ms", .float r.milliseconds),
      ("rss_before_bytes", r.rssBefore.elim .null fun n => .int n.toNat),
      ("rss_after_bytes", r.rssAfter.elim .null fun n => .int n.toNat),
      ("rss_delta_bytes", r.rssGrowth.elim .null fun n => .int n.toInt)]

/-- The stage records of one execution, all with its case and its counts. -/
def ofExecution (runId caseName : String) (repetition : Nat) (e : Execution) : List Record :=
  e.stages.map fun m =>
    { runId, caseName, repetition
      vars := e.vars
      constraints := e.constraints
      rawTerms := e.rawTerms
      canonicalTerms := e.canonicalTerms
      stage := m.stage
      milliseconds := Timing.milliseconds m.nanoseconds
      rssBefore := m.rssBefore
      rssAfter := m.rssAfter
      rssGrowth := m.rssGrowth }

end Record
end MixedProgram.Bench
