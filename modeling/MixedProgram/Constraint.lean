import MixedProgram.Form.Basic

/-! Constraints: a linear form compared with a number. -/
namespace MixedProgram

inductive Relation
  | lessEqual
  | equal
  | greaterEqual
  deriving DecidableEq, Repr

namespace Relation

def code : Relation → String
  | lessEqual => "le"
  | equal => "eq"
  | greaterEqual => "ge"

def name : Relation → String
  | lessEqual => "less_equal"
  | equal => "equal"
  | greaterEqual => "greater_equal"

def symbol : Relation → String
  | lessEqual => "<="
  | equal => "="
  | greaterEqual => ">="

end Relation

structure Constraint where
  id : ConId
  relation : Relation
  rhs : Float
  form : LinearForm := {}
  deriving DecidableEq

namespace Constraint

def append (c : Constraint) (t : LinearTerm) : Constraint := { c with form := c.form.append t }
def canonicalized (c : Constraint) : Constraint := { c with form := c.form.canonicalized }

end Constraint
end MixedProgram
