/-! Rounding of an exact quotient to a whole number. -/
namespace MixedProgram.Number

/-- Where a quotient halfway between two whole numbers goes. -/
inductive Tie
  | up
  | toEven
  deriving DecidableEq, Repr

/-- The whole number nearest to `n/d`. -/
def roundQuotient (tie : Tie) (n d : Nat) : Nat :=
  let below := n / d
  match compare (2 * (n % d)) d, tie with
  | .lt, _ => below
  | .gt, _ => below + 1
  | .eq, .up => below + 1
  | .eq, .toEven => below + below % 2

theorem roundQuotient_one (tie : Tie) (n : Nat) : roundQuotient tie n 1 = n := by
  simp [roundQuotient, Nat.mod_one, compare, compareOfLessAndEq]

example : roundQuotient .up 5 2 = 3 ∧ roundQuotient .toEven 5 2 = 2 := by decide
example : roundQuotient .up 7 3 = 2 ∧ roundQuotient .toEven 8 3 = 3 := by decide

end MixedProgram.Number
