import MixedProgram.Form.Term
import MixedProgram.Number.Layout

/-! Why an operation on a program is refused. -/
namespace MixedProgram

inductive ProgramError
  | unknownVariable (id : VarId)
  | unknownConstraint (id : ConId)
  | nanBound (lower upper : Float)
  | nanRightHandSide
  | term (cause : TermError)
  deriving DecidableEq

namespace ProgramError

def code : ProgramError → String
  | unknownVariable _ => "VARIABLE_INVALID_ID"
  | unknownConstraint _ => "CONSTRAINT_INVALID_ID"
  | nanBound .. => "VARIABLE_NAN_BOUND"
  | nanRightHandSide => "CONSTRAINT_NAN_RHS"
  | term cause => cause.code

def detail : ProgramError → String
  | unknownVariable id => "Variable ID " ++ toString id.index ++ " does not exist"
  | unknownConstraint id => "Constraint ID " ++ toString id.index ++ " does not exist"
  | nanBound lower upper =>
    "Variable bounds must not be NaN (lower " ++ Number.plain lower ++ ", upper "
      ++ Number.plain upper ++ ")"
  | nanRightHandSide => "Constraint right-hand side is NaN"
  | term cause => cause.detail

def message (e : ProgramError) : String := diagnostic e.code e.detail

/-- Equality with bounds compared as numbers, so that a NaN bound differs from itself. -/
def agrees : ProgramError → ProgramError → Bool
  | nanBound l u, nanBound l' u' => l == l' && u == u'
  | e, e' => e = e'

end ProgramError
end MixedProgram
