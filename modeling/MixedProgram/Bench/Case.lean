import MixedProgram.Number.Value

/-! Benchmark cases: how large a program is built. -/
namespace MixedProgram.Bench

structure Case where
  name : String
  vars : Nat
  constraints : Option Nat
  deriving DecidableEq, Repr

namespace Case

def ofSize (vars : Nat) : Case := ⟨"vars_" ++ toString vars, vars, none⟩

def defaultSizes : List Nat := [100, 1000, 10000, 100000]

/-- The given number of constraints, or else the given share of the number of variables, rounded;
in any case at least one. -/
def constraintCount (c : Case) (ratio : Float) : Nat :=
  max 1 (c.constraints.getD (Number.nearestNat (UInt64.size - 1) (Float.ofNat c.vars * ratio)))

theorem one_le_constraintCount (c : Case) (ratio : Float) : 1 ≤ c.constraintCount ratio :=
  Nat.le_max_left ..

end Case
end MixedProgram.Bench
