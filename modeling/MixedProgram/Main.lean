import Std.Time.DateTime.Timestamp
import MixedProgram.Bench.Arguments
import MixedProgram.Bench.Run
import MixedProgram.Logging.Line
import MixedProgram.Logging.Sink

/-! The benchmark program: reads its arguments and settings, runs, prints and writes. -/
namespace MixedProgram.Main

/-- Resident pages of this process, where the system lists them. -/
def residentBytes : IO (Option UInt64) := do
  try
    let text ← IO.FS.readFile "/proc/self/statm"
    return (((Text.split ' ' text)[1]?).bind String.toNat?).map fun pages => (pages * 4096).toUInt64
  catch _ => return none

def reading : IO Timing.Reading :=
  return ⟨← IO.monoNanosNow, ← residentBytes⟩

def runId : IO String := do
  let now ← Std.Time.Timestamp.now
  return "bench_" ++ toString now.toMillisecondsSinceUnixEpoch.toInt

def openErrorText (e : IO.Error) : String :=
  match e with
  | .noFileOrDirectory .. => Logging.OpenError.message .noSuchFile
  | e => toString e

/-- Opens the file that a logger would write to. -/
def openLogFile (logger : Option Logging.Logger) : IO (Except String (Option IO.FS.Handle)) := do
  match logger.bind (·.logFile) with
  | none => return .ok none
  | some path =>
    try return .ok (some (← IO.FS.Handle.mk path .append))
    catch e => return .error (openErrorText e)

def writeLines (logger : Option Logging.Logger) (file : Option IO.FS.Handle) (es : List Event) :
    IO Unit := do
  match logger with
  | none => return
  | some l =>
    for line in l.lines es do
      IO.eprintln line
      if let some h := file then h.putStrLn line

def writeArtifact (path text : String) : IO Unit := do
  let dir := Logging.Path.parent path
  unless dir.isEmpty do IO.FS.createDirAll dir
  IO.FS.writeFile path text

def usage : String :=
  "Usage: mipmodel-bench [--log-level FILTER] run [--cases N,N...] [--variables N]\n"
    ++ "  [--constraints N] [--constraint-ratio X] [--duplicates N] [--quadratic]\n"
    ++ "  [--repetitions N] [--no-memory] [--output PATH] [--format table|json|ndjson]\n"
    ++ "  [--show-model]"

def refuseUsage (e : Bench.UsageError) : IO UInt32 := do
  match e with
  | .displayHelp => IO.println usage; return 0
  | .displayVersion => IO.println "mipmodel-bench 0.1.0"; return 0
  | e => IO.eprintln ("error: " ++ e.kind ++ "\n\n" ++ usage); return 2

def execute (i : Bench.Invocation) (logger : Option Logging.Logger) (file : Option IO.FS.Handle) :
    IO UInt32 := do
  match ← Bench.run reading (← runId) i.request with
  | .error e =>
    IO.eprintln e.message
    return 1
  | .ok done =>
    writeLines logger file done.events.toList
    let out := done.output i.request
    match i.request.output, out.artifact with
    | some path, some text => writeArtifact path text
    | _, _ => pure ()
    IO.print out.text
    return 0

def perform (i : Bench.Invocation) : IO UInt32 := do
  let env : Logging.Environment :=
    { level := ← IO.getEnv Logging.Environment.levelKey
      format := ← IO.getEnv Logging.Environment.formatKey
      logFile := ← IO.getEnv Logging.Environment.logFileKey }
  let wanted := (Logging.enable env (fun _ => .ok ()) none i.logLevel).logger
  let opened ← openLogFile wanted
  let attempt := Logging.enable env (fun _ => opened.map fun _ => ()) none i.logLevel
  let file := opened.toOption.join
  match attempt.result with
  | .error e =>
    IO.eprintln e.message
    return 1
  | .ok _ =>
    writeLines attempt.logger file attempt.events
    try execute i attempt.logger file
    catch e =>
      IO.eprintln (toString e)
      return 1

end MixedProgram.Main

def main (words : List String) : IO UInt32 := do
  match MixedProgram.Bench.Arguments.parse words with
  | .error e => MixedProgram.Main.refuseUsage e
  | .ok i => MixedProgram.Main.perform i
