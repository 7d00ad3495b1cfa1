import MixedProgram.Logging.Error
import MixedProgram.Logging.Filter

/-! Logging configuration, read from named settings of the environment. -/
namespace MixedProgram.Logging

inductive Format
  | pretty
  | json
  deriving DecidableEq, Repr

namespace Format

def name : Format → String
  | pretty => "pretty"
  | json => "json"

def title : Format → String
  | pretty => "Pretty"
  | json => "Json"

def parse (text : String) : Except LoggingError Format :=
  if Text.sameWord text "pretty" then .ok pretty
  else if Text.sameWord text "json" then .ok json
  else .error (.invalidFormat text)

end Format

/-- The three settings; one that is not set has no value. -/
structure Environment where
  level : Option String := none
  format : Option String := none
  logFile : Option String := none
  deriving DecidableEq, Repr

namespace Environment

def levelKey : String := "MIPMODEL_TRACE"
def formatKey : String := "MIPMODEL_LOG_FORMAT"
def logFileKey : String := "MIPMODEL_LOG_FILE"

def ofLookup (lookup : String → Option String) : Environment :=
  ⟨lookup levelKey, lookup formatKey, lookup logFileKey⟩

end Environment

/-- Without a level nothing is logged. -/
structure Config where
  level : Option String := none
  format : Format := .pretty
  logFile : Option String := none
  deriving DecidableEq, Repr

namespace Config

def ofEnvironment (e : Environment) : Except LoggingError Config :=
  match e.format with
  | none => .ok ⟨e.level, .pretty, e.logFile⟩
  | some text => (Format.parse text).map fun format => ⟨e.level, format, e.logFile⟩

/-- A given level replaces the configured one. -/
def withLevel (c : Config) (level : Option String) : Config := { c with level := level.or c.level }
def withFormat (c : Config) (format : Format) : Config := { c with format }
def withLogFile (c : Config) (path : String) : Config := { c with logFile := some path }

/-- The word `off` and a missing level both show nothing. -/
def filter (c : Config) : Except LoggingError Filter :=
  match c.level with
  | none => .ok .nothing
  | some text =>
    if Text.sameWord text "off" then .ok .nothing
    else (Filter.parse text).mapError fun e => .invalidFilter text e.message

end Config
end MixedProgram.Logging
