import Std.Data.TreeMap.Lemmas
import MixedProgram.Bench.Record

/-! Records summarised by case and stage. -/
namespace MixedProgram.Bench

/-- Rows are ordered by case name and then by stage, character by character. -/
structure SummaryKey where
  caseName : String
  stage : String
  deriving DecidableEq, Repr

namespace SummaryKey

def compare (a b : SummaryKey) : Ordering := compareLex (compareOn caseName) (compareOn stage) a b

instance : Ord SummaryKey := ⟨compare⟩

instance : Std.TransOrd SummaryKey :=
  inferInstanceAs (Std.TransCmp (compareLex (compareOn caseName) (compareOn stage)))

instance : Std.LawfulEqOrd SummaryKey where
  eq_of_compare {a b} h := by
    obtain ⟨h₁, h₂⟩ := compareLex_eq_eq.mp h
    cases a
    cases b
    cases Std.LawfulEqOrd.eq_of_compare h₁
    cases Std.LawfulEqOrd.eq_of_compare h₂
    rfl

end SummaryKey

def Record.key (r : Record) : SummaryKey := ⟨r.caseName, r.stage⟩

/-- What is counted and summed over the records of one key. -/
structure Tally where
  samples : Nat := 0
  durationSum : Float := 0.0
  durationMax : Float := 0.0
  growthSum : Float := 0.0
  growthCount : Nat := 0
  rssMax : Option UInt64 := none
  deriving DecidableEq

/-- The larger of two sizes; a missing one is the least. -/
def largerSize : Option UInt64 → Option UInt64 → Option UInt64
  | none, b => b
  | a, none => a
  | some a, some b => some (if a < b then b else a)

/-- The larger number, and of equal ones the second. NaN leaves the first as it is. -/
def larger (a b : Float) : Float := if a ≤ b then b else a

namespace Tally

def add (t : Tally) (r : Record) : Tally :=
  { samples := t.samples + 1
    durationSum := t.durationSum + r.milliseconds
    durationMax := larger t.durationMax r.milliseconds
    growthSum := r.rssGrowth.elim t.growthSum fun n => t.growthSum + Float.ofInt n.toInt
    growthCount := t.growthCount + (if r.rssGrowth.isSome then 1 else 0)
    rssMax := largerSize t.rssMax r.rssAfter }

end Tally

structure SummaryRow where
  caseName : String
  stage : String
  samples : Nat
  meanMilliseconds : Float
  maxMilliseconds : Float
  meanGrowth : Option Float
  maxRss : Option UInt64
  deriving DecidableEq

/-- Durations are averaged over all samples, growth over those that have one. -/
def SummaryRow.ofTally (key : SummaryKey) (t : Tally) : SummaryRow :=
  { caseName := key.caseName
    stage := key.stage
    samples := t.samples
    meanMilliseconds :=
      if t.samples = 0 then 0.0 else t.durationSum / Float.ofNat t.samples
    maxMilliseconds := t.durationMax
    meanGrowth :=
      if t.growthCount = 0 then none else some (t.growthSum / Float.ofNat t.growthCount)
    maxRss := t.rssMax }

def tallies (records : List Record) : Std.TreeMap SummaryKey Tally :=
  records.foldl (fun ts r => ts.alter r.key fun t => some ((t.getD {}).add r)) ∅

/-- One row for each case and stage, keys ascending. -/
def summarize (records : List Record) : List SummaryRow :=
  (tallies records).toList.map fun (key, t) => .ofTally key t

end MixedProgram.Bench
