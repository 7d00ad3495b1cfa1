import MixedProgram.Form.Basic

/-! The objective: a direction, a linear form and a quadratic form. -/
namespace MixedProgram

inductive Direction
  | minimize
  | maximize
  deriving DecidableEq, Repr

def Direction.name : Direction → String
  | minimize => "minimize"
  | maximize => "maximize"

structure Objective where
  direction : Direction := .minimize
  linear : LinearForm := {}
  quadratic : QuadraticForm := {}
  deriving DecidableEq

namespace Objective

/-- Products whose coefficients cancel do not count. -/
def isQuadratic (o : Objective) : Bool := !o.quadratic.canonical.isEmpty
def isLinear (o : Objective) : Bool := !o.isQuadratic

def appendLinear (o : Objective) (t : LinearTerm) : Objective :=
  { o with linear := o.linear.append t }

def appendQuadratic (o : Objective) (t : QuadraticTerm) : Objective :=
  { o with quadratic := o.quadratic.append t }

def canonicalized (o : Objective) : Objective :=
  { o with linear := o.linear.canonicalized, quadratic := o.quadratic.canonicalized }

end Objective
end MixedProgram
