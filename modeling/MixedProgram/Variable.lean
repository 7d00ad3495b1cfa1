import MixedProgram.Identity
import MixedProgram.Number.Layout

/-! Decision variables and the values they range over. -/
namespace MixedProgram

/-- Bounds are kept as given; an integer range is exact. -/
inductive Domain
  | float (lower upper : Float)
  | int (lower upper : Int64)
  | bool
  deriving DecidableEq

namespace Domain

def name : Domain → String
  | float .. => "float"
  | int .. => "int"
  | bool => "bool"

def letter : Domain → Char
  | float .. => 'F'
  | int .. => 'I'
  | bool => 'B'

def isFloat : Domain → Bool
  | float .. => true
  | _ => false

/-- A bool variable is an integer between zero and one. -/
def isInt : Domain → Bool
  | float .. => false
  | _ => true

def isBool : Domain → Bool
  | bool => true
  | _ => false

/-- The lower bound as a binary number, the nearest one for a large integer. -/
def lower : Domain → Float
  | float l _ => l
  | int l _ => Float.ofInt l.toInt
  | bool => 0.0

/-- The upper bound as a binary number, the nearest one for a large integer. -/
def upper : Domain → Float
  | float _ u => u
  | int _ u => Float.ofInt u.toInt
  | bool => 1.0

end Domain

structure Variable where
  id : VarId
  domain : Domain
  deriving DecidableEq

namespace Variable

def index (v : Variable) : Nat := v.id.index
def lower (v : Variable) : Float := v.domain.lower
def upper (v : Variable) : Float := v.domain.upper

/-- The letter of the domain and the number, such as `F0` or `B7`. -/
def defaultLabel (v : Variable) : String :=
  String.ofList (v.domain.letter :: Nat.toDigits 10 v.index)

end Variable
end MixedProgram
