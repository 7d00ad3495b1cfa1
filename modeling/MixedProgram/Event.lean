import MixedProgram.Json.Printer

/-! Structured log events. -/
namespace MixedProgram

/-- From the most to the least urgent. -/
inductive Level
  | error
  | warn
  | info
  | debug
  | trace
  deriving DecidableEq, Repr

namespace Level

def name : Level → String
  | error => "ERROR"
  | warn => "WARN"
  | info => "INFO"
  | debug => "DEBUG"
  | trace => "TRACE"

/-- The verbosity at which a level is shown, from one to five. -/
def verbosity : Level → Nat
  | error => 1
  | warn => 2
  | info => 3
  | debug => 4
  | trace => 5

end Level

inductive Status
  | success
  | error
  deriving DecidableEq, Repr

def Status.name : Status → String
  | success => "success"
  | error => "error"

structure Event where
  level : Level
  component : String
  operation : String
  status : Status
  details : List (String × Json) := []
  message : String

namespace Event

def fields (e : Event) : List (String × Json) :=
  [("component", .string e.component), ("operation", .string e.operation),
    ("status", .string e.status.name)] ++ e.details ++ [("message", .string e.message)]

def fieldNames (e : Event) : List String := e.fields.map (·.1)

/-- The level and all fields as one object. -/
def toJson (e : Event) : Json := .object (("level", .string e.level.name) :: e.fields)

end Event
end MixedProgram
