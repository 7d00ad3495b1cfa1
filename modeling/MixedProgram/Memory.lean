import MixedProgram.Diagnostic

/-! Resident memory in bytes, and how it grows. -/
namespace MixedProgram

namespace Memory

/-- Growth as a signed word; sizes beyond its range wrap around. -/
def growth (earlier later : UInt64) : Int64 := later.toInt64 - earlier.toInt64

/-- There is no growth unless both sizes are known. -/
def growth? (earlier later : Option UInt64) : Option Int64 :=
  match earlier, later with
  | some e, some l => some (growth e l)
  | _, _ => none

end Memory

inductive MemoryError
  | processNotFound (pid : UInt32)
  deriving DecidableEq, Repr

namespace MemoryError

def code : MemoryError → String
  | processNotFound _ => "MEMORY_PROCESS_NOT_FOUND"

def message : MemoryError → String
  | e@(processNotFound pid) => diagnostic e.code ("failed to locate process " ++ toString pid.toNat)

end MemoryError
end MixedProgram
