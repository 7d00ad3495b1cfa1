import MixedProgram.Logging.Install

/-! The lines an installed logger writes. -/
namespace MixedProgram.Logging

/-- Where an event comes from, as filters see it. -/
def target (e : Event) : String :=
  match e.component, e.operation with
  | "logging", _ => ownTarget
  | "measure", _ => "mipmodel_tools::measure"
  | "model", "copy" => "mipmodel_core::model::copy"
  | "model", "inspect" => "mipmodel_core::model::inspect"
  | "model", "set_objective_sense" => "mipmodel_core::model::builder"
  | component, _ => "mipmodel_core::" ++ component

namespace Logger

def shows (l : Logger) (e : Event) : Bool := l.filter.enables e.level (target e) e.fieldNames

/-- One event on one line: an object, or the level, the target and the fields in words. -/
def line (l : Logger) (e : Event) : String :=
  match l.format with
  | .json =>
    (Json.object [("level", .string e.level.name), ("fields", .object e.fields),
      ("target", .string (target e))]).compact
  | .pretty =>
    let fields := (Json.object e.details).compact
    e.level.name ++ " " ++ target e ++ ": " ++ e.message ++ ", " ++ e.component ++ " "
      ++ e.operation ++ " " ++ e.status.name ++ " " ++ fields

def lines (l : Logger) (es : List Event) : List String := (es.filter l.shows).map l.line

end Logger
end MixedProgram.Logging
