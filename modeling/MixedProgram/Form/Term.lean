import MixedProgram.Diagnostic
import MixedProgram.Identity

/-! Terms of linear and quadratic forms. -/
namespace MixedProgram

/-- Two variables in no order, kept with the earlier one first. -/
structure VarPair where
  first : VarId
  second : VarId
  first_le : first ≤ second
  deriving DecidableEq

namespace VarPair

/-- The pair of two variables, whichever comes first. -/
def of (a b : VarId) : VarPair :=
  if h : a ≤ b then ⟨a, b, h⟩
  else ⟨b, a, UInt32.le_of_lt (UInt32.not_le.mp h)⟩

def isSquare (p : VarPair) : Bool := p.first == p.second

def compare (p q : VarPair) : Ordering :=
  compareLex (compareOn first) (compareOn second) p q

instance : Ord VarPair := ⟨compare⟩

instance : Std.TransOrd VarPair :=
  inferInstanceAs (Std.TransCmp (compareLex (compareOn first) (compareOn second)))

instance : Std.LawfulEqOrd VarPair where
  eq_of_compare {p q} h := by
    obtain ⟨h₁, h₂⟩ := compareLex_eq_eq.mp h
    cases p
    cases q
    cases Std.LawfulEqOrd.eq_of_compare h₁
    cases Std.LawfulEqOrd.eq_of_compare h₂
    rfl

theorem of_comm (a b : VarId) : of a b = of b a := by
  unfold of
  by_cases h : a ≤ b <;> by_cases h' : b ≤ a
  · have : a = b := by cases a; cases b; exact congrArg _ (UInt32.le_antisymm h h')
    subst this
    rfl
  · simp [h, h']
  · simp [h, h']
  · exact absurd (UInt32.le_of_lt (UInt32.not_le.mp h)) h'

theorem of_first_second (p : VarPair) : of p.first p.second = p := by
  simp [of, p.first_le]

end VarPair

/-- A coefficient attached to a key: a variable in a linear form, a pair in a quadratic form. -/
structure Term (κ : Type) where
  key : κ
  coefficient : Float
  deriving DecidableEq

abbrev LinearTerm := Term VarId
abbrev QuadraticTerm := Term VarPair

inductive TermError
  | nanCoefficient
  deriving DecidableEq, Repr

namespace TermError

def code : TermError → String
  | nanCoefficient => "TERM_NAN_COEFFICIENT"

def detail : TermError → String
  | nanCoefficient => "term coefficient is NaN"

def message (e : TermError) : String := diagnostic e.code e.detail

end TermError

namespace Term
variable {κ : Type}

/-- Any coefficient but NaN makes a term. -/
def make (coefficient : Float) (key : κ) : Except TermError (Term κ) :=
  if coefficient.isNaN then .error .nanCoefficient else .ok ⟨key, coefficient⟩

/-- Equality of the numbers denoted: NaN differs from itself, zero equals negative zero. -/
def agrees [DecidableEq κ] (s t : Term κ) : Bool :=
  s.key = t.key && s.coefficient == t.coefficient

end Term
end MixedProgram
