import MixedProgram.Diagnostic

/-! Why logging cannot be set up. -/
namespace MixedProgram.Logging

inductive LoggingError
  | invalidFilter (filter reason : String)
  | invalidFormat (text : String)
  | logFile (path cause : String)
  | install (cause : String)
  deriving DecidableEq, Repr

namespace LoggingError

def code : LoggingError → String
  | invalidFilter .. => "LOG_INVALID_FILTER"
  | invalidFormat _ => "LOG_INVALID_FORMAT"
  | logFile .. => "LOG_FILE"
  | install _ => "LOG_INIT"

def detail : LoggingError → String
  | invalidFilter filter reason => "invalid log filter '" ++ filter ++ "': " ++ reason
  | invalidFormat text =>
    "invalid MIPMODEL_LOG_FORMAT '" ++ text ++ "' (expected 'json' or 'pretty')"
  | logFile path cause => "failed to open log file " ++ path ++ ": " ++ cause
  | install cause => "failed to initialize logging: " ++ cause

def message (e : LoggingError) : String := diagnostic e.code e.detail

end LoggingError
end MixedProgram.Logging
