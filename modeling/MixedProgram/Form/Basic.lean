import Std.Data.TreeMap.Lemmas
import MixedProgram.Form.Term

/-! Linear and quadratic forms as lists of added terms.
Nothing is merged when a term is added. Two ways of reading agree: `total` scans the terms of one key
and `canonical` merges the terms of all keys. -/
namespace MixedProgram

/-- A sum of terms, kept as they were added. -/
structure Form (κ : Type) where
  terms : Array (Term κ) := #[]
  deriving DecidableEq

abbrev LinearForm := Form VarId
abbrev QuadraticForm := Form VarPair

/-- What the terms of one key amount to. -/
structure Aggregate (κ : Type) where
  term : Term κ
  definitions : Nat
  deriving DecidableEq

namespace Form
variable {κ : Type}

def size (f : Form κ) : Nat := f.terms.size
def isEmpty (f : Form κ) : Bool := f.terms.isEmpty

def append (f : Form κ) (t : Term κ) : Form κ := ⟨f.terms.push t⟩

/-- Adds a term, or reports why it is none. -/
def add (f : Form κ) (coefficient : Float) (key : κ) : Except TermError (Term κ × Form κ) :=
  (Term.make coefficient key).map fun t => (t, f.append t)

section Scan
variable [DecidableEq κ]

/-- The coefficients of one key, summed from zero in the order of addition. -/
def total (f : Form κ) (key : κ) : Float :=
  f.terms.foldl (fun sum t => if t.key = key then sum + t.coefficient else sum) 0.0

/-- How many terms have the key. -/
def definitions (f : Form κ) (key : κ) : Nat := f.terms.countP (·.key = key)

def aggregate (f : Form κ) (key : κ) : Aggregate κ := ⟨⟨key, f.total key⟩, f.definitions key⟩

end Scan

section Merge
variable [Ord κ]

/-- One step of merging. A zero coefficient opens no entry. -/
def mergeTerm (sums : Std.TreeMap κ Float) (t : Term κ) : Std.TreeMap κ Float :=
  if t.coefficient == 0.0 then sums
  else sums.alter t.key fun sum => some (sum.getD 0.0 + t.coefficient)

/-- The sum of every key that occurs with a coefficient other than zero. -/
def sums (f : Form κ) : Std.TreeMap κ Float := f.terms.foldl mergeTerm ∅

/-- One term for every key whose sum is not zero, keys ascending. -/
def canonical (f : Form κ) : List (Term κ) :=
  f.sums.toList.filterMap fun (key, sum) => if sum == 0.0 then none else some ⟨key, sum⟩

/-- The form that has just the canonical terms. -/
def canonicalized (f : Form κ) : Form κ := ⟨f.canonical.toArray⟩

end Merge

@[simp] theorem terms_append (f : Form κ) (t : Term κ) : (f.append t).terms = f.terms.push t := rfl
@[simp] theorem size_append (f : Form κ) (t : Term κ) : (f.append t).size = f.size + 1 := by
  simp [size]

end Form
end MixedProgram
