import MixedProgram.Logging.Config

/-! The logger of a process: installed at most once, by the first call that can. -/
namespace MixedProgram.Logging

/-- An installed logger shows what its filter enables. -/
structure Logger where
  filter : Filter
  format : Format
  logFile : Option String
  deriving DecidableEq, Repr

/-- The target under which the logger reports its own installation. -/
def ownTarget : String := "mipmodel_tools::logging"

def enabledEvent (format : Format) : Event where
  level := .debug
  component := "logging"
  operation := "init"
  status := .success
  details := [("format", .string format.title)]
  message := "Logging enabled"

/-- What an attempt to install answers, what it logs and the logger afterwards. -/
structure Attempt where
  result : Except LoggingError Bool
  events : List Event := []
  logger : Option Logger

/-- Whether a log file can be opened; the error is a text of the operating system. -/
abbrev FileAccess := String → Except String Unit

namespace Config

/-- The filter comes first and the log file second. -/
def prepare (c : Config) (access : FileAccess) : Except LoggingError Logger := do
  let filter ← c.filter
  match c.logFile with
  | none => return ⟨filter, c.format, none⟩
  | some path =>
    match access path with
    | .ok () => return ⟨filter, c.format, some path⟩
    | .error cause => throw (.logFile path cause)

/-- Where a logger is installed nothing is prepared. -/
def install (c : Config) (access : FileAccess) (installed : Option Logger) : Attempt :=
  match installed with
  | some logger => ⟨.ok false, [], some logger⟩
  | none =>
    match c.prepare access with
    | .error e => ⟨.error e, [], none⟩
    | .ok logger =>
      let event := enabledEvent c.format
      ⟨.ok true,
        if logger.filter.enables event.level ownTarget event.fieldNames then [event] else [],
        some logger⟩

end Config

/-- Reads the environment, which must be in order even where a logger is installed. -/
def enable (e : Environment) (access : FileAccess) (installed : Option Logger)
    (level : Option String) : Attempt :=
  match Config.ofEnvironment e with
  | .error cause => ⟨.error cause, [], installed⟩
  | .ok c => (c.withLevel level).install access installed

/-- Calls in order, with every attempt. -/
def enableAll (e : Environment) (access : FileAccess) (installed : Option Logger) :
    List (Option String) → List Attempt
  | [] => []
  | level :: levels =>
    let attempt := enable e access installed level
    attempt :: enableAll e access attempt.logger levels

end MixedProgram.Logging
