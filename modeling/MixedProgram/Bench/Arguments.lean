import MixedProgram.Bench.Request
import MixedProgram.Number.Reader
import MixedProgram.Text.Split

/-! The command line of the benchmark.
Words are read from left to right. An option waits for its value, and a value that has been taken is
read when the next known flag appears or the words end; a word that fits nowhere comes first. The value
that is taken last before the subcommand is read when the subcommand has been read to its end. -/
namespace MixedProgram.Bench

inductive UsageError
  | displayHelp
  | displayVersion
  | helpOnMissing
  | missingSubcommand
  | invalidSubcommand
  | unknownArgument
  | argumentConflict
  | missingRequired
  | invalidValue
  | valueValidation
  | tooManyValues
  deriving DecidableEq, Repr

/-- The name of the error's kind. -/
def UsageError.kind : UsageError → String
  | displayHelp => "DisplayHelp"
  | displayVersion => "DisplayVersion"
  | helpOnMissing => "DisplayHelpOnMissingArgumentOrSubcommand"
  | missingSubcommand => "MissingSubcommand"
  | invalidSubcommand => "InvalidSubcommand"
  | unknownArgument => "UnknownArgument"
  | argumentConflict => "ArgumentConflict"
  | missingRequired => "MissingRequiredArgument"
  | invalidValue => "InvalidValue"
  | valueValidation => "ValueValidation"
  | tooManyValues => "TooManyValues"

/-- A log level and what to run. -/
structure Invocation where
  logLevel : Option String
  request : Request
  deriving DecidableEq

namespace Arguments

/-- Flags that take a value. -/
inductive Setting
  | logLevel
  | cases
  | vars
  | constraints
  | ratio
  | duplicates
  | repetitions
  | output
  | format
  deriving DecidableEq, Repr

/-- Flags that take none. -/
inductive Switch
  | quadratic
  | noMemory
  | showModel
  deriving DecidableEq, Repr

inductive Flag
  | setting (s : Setting)
  | switch (s : Switch)
  | help
  | version
  deriving DecidableEq, Repr

/-- Where on the command line a word stands: before the subcommand or behind it. -/
inductive Scope
  | top
  | run
  deriving DecidableEq, Repr

/-- The log level and the help are known everywhere, the version only at the top. -/
def flag? : Scope → String → Option Flag
  | _, "log-level" => some (.setting .logLevel)
  | _, "help" => some .help
  | .top, "version" => some .version
  | .top, _ => none
  | .run, "cases" => some (.setting .cases)
  | .run, "variables" => some (.setting .vars)
  | .run, "constraints" => some (.setting .constraints)
  | .run, "constraint-ratio" => some (.setting .ratio)
  | .run, "duplicates" => some (.setting .duplicates)
  | .run, "repetitions" => some (.setting .repetitions)
  | .run, "output" => some (.setting .output)
  | .run, "format" => some (.setting .format)
  | .run, "quadratic" => some (.switch .quadratic)
  | .run, "no-memory" => some (.switch .noMemory)
  | .run, "show-model" => some (.switch .showModel)
  | .run, _ => none

def letter? : Scope → Char → Option Flag
  | _, 'h' => some .help
  | .top, 'V' => some .version
  | _, _ => none

/-- What has been given so far; nothing is filled in by default. -/
structure Given where
  logLevel : Option String := none
  cases : Option (List Nat) := none
  vars : Option Nat := none
  constraints : Option Nat := none
  ratio : Option Float := none
  duplicates : Option Nat := none
  repetitions : Option Nat := none
  output : Option String := none
  format : Option OutputFormat := none
  quadratic : Bool := false
  noMemory : Bool := false
  showModel : Bool := false

/-- A value that must read as a number. -/
def validated {α : Type} (value : Option α) : Except UsageError α :=
  match value with
  | some a => .ok a
  | none => .error .valueValidation

/-- An unsigned number of 64 bits. -/
def readSize (text : String) : Except UsageError Nat :=
  validated ((Number.readNat? text).filter (· < UInt64.size))

/-- Read as a signed number of 64 bits and then limited to an unsigned one of 32 bits. -/
def readCount (text : String) : Except UsageError Nat :=
  validated <| (Number.readInt? text).bind fun n =>
    if 0 ≤ n ∧ n < UInt32.size then some n.toNat else none

def readFormat : String → Except UsageError OutputFormat
  | "table" => .ok .table
  | "json" => .ok .json
  | "ndjson" => .ok .ndjson
  | _ => .error .invalidValue

def readPath (text : String) : Except UsageError String :=
  if text.isEmpty then .error .invalidValue else .ok text

/-- A single value given twice is a conflict, whatever the second value is. -/
def single {α : Type} (before : Option α) (read : Except UsageError α) :
    Except UsageError (Option α) :=
  if before.isSome then .error .argumentConflict else read.map some

namespace Given

/-- Enters the value of a setting. Cases may be given several times and add up. -/
def set (g : Given) (s : Setting) (text : String) : Except UsageError Given := do
  match s with
  | .logLevel => return { g with logLevel := ← single g.logLevel (.ok text) }
  | .cases =>
    let more ← (Text.split ',' text).mapM readSize
    return { g with cases := some (g.cases.getD [] ++ more) }
  | .vars => return { g with vars := ← single g.vars (readSize text) }
  | .constraints => return { g with constraints := ← single g.constraints (readSize text) }
  | .ratio => return { g with ratio := ← single g.ratio (validated (Number.readFloat? text)) }
  | .duplicates => return { g with duplicates := ← single g.duplicates (readSize text) }
  | .repetitions => return { g with repetitions := ← single g.repetitions (readCount text) }
  | .output => return { g with output := ← single g.output (readPath text) }
  | .format => return { g with format := ← single g.format (readFormat text) }

def turnOn (g : Given) : Switch → Except UsageError Given
  | .quadratic =>
    if g.quadratic then .error .argumentConflict else .ok { g with quadratic := true }
  | .noMemory => if g.noMemory then .error .argumentConflict else .ok { g with noMemory := true }
  | .showModel => if g.showModel then .error .argumentConflict else .ok { g with showModel := true }

/-- A number of constraints makes sense only for a single case. -/
def check (g : Given) : Except UsageError Unit :=
  if g.constraints.isSome && g.vars.isNone then .error .missingRequired else .ok ()

/-- The request with its defaults. A log level behind the subcommand replaces the one before it. -/
def invocation (g : Given) (topLevel : Option String) : Invocation where
  logLevel := g.logLevel.or topLevel
  request :=
    { cases := g.cases
      vars := g.vars
      constraints := g.constraints
      ratio := g.ratio.getD 0.01
      duplicates := g.duplicates.getD 1
      quadratic := g.quadratic
      repetitions := g.repetitions.getD 1
      noMemory := g.noMemory
      output := g.output
      format := g.format.getD .table
      showModel := g.showModel }

end Given

/-- The last option, without its value or with a value that has not been read yet. -/
inductive Pending
  | none
  | awaiting (s : Setting)
  | holding (s : Setting) (text : String)
  deriving DecidableEq, Repr

/-- Behind two dashes no word is a flag. -/
structure State where
  given : Given := {}
  pending : Pending := .none
  trailing : Bool := false

namespace State

/-- Reads the pending value. -/
def settle (st : State) : Except UsageError Given :=
  match st.pending with
  | .none => .ok st.given
  | .awaiting _ => .error .invalidValue
  | .holding s text => st.given.set s text

/-- A word that is no flag and no value. In trailing position even a subcommand is out of place. -/
def stray (st : State) (scope : Scope) (word : String) : UsageError :=
  match scope with
  | .run => .unknownArgument
  | .top =>
    if st.trailing && (word = "run" || word = "help") then .unknownArgument else .invalidSubcommand

/-- A flag without a value attached to it. -/
def meet (st : State) (f : Flag) : Except UsageError State := do
  let given ← st.settle
  match f with
  | .setting s => return { st with given, pending := .awaiting s }
  | .switch s => return { st with given := ← given.turnOn s, pending := .none }
  | .help => throw .displayHelp
  | .version => throw .displayVersion

/-- A flag with a value behind an equals sign. -/
def meetWith (st : State) (f : Flag) (text : String) : Except UsageError State := do
  match f with
  | .setting s =>
    let given ← st.settle
    return { st with given := ← given.set s text, pending := .none }
  | _ => throw .tooManyValues

/-- The part before the first equals sign, and the part behind it if there is one. -/
def splitValue (cs : List Char) : String × Option String :=
  let name := cs.takeWhile (· ≠ '=')
  match cs.dropWhile (· ≠ '=') with
  | _ :: value => (String.ofList name, some (String.ofList value))
  | [] => (String.ofList name, none)

/-- Takes in one word. -/
def word (scope : Scope) (st : State) (w : String) : Except UsageError State :=
  if st.trailing then .error (st.stray scope w)
  else
    match w.toList with
    | ['-', '-'] => .ok { st with trailing := true }
    | '-' :: '-' :: cs =>
      let (name, value) := splitValue cs
      match flag? scope name, value with
      | none, _ => .error .unknownArgument
      | some f, none => st.meet f
      | some f, some text => st.meetWith f text
    | '-' :: c :: _ =>
      match letter? scope c with
      | some f => st.meet f
      | none => .error .unknownArgument
    | _ =>
      match st.pending with
      | .awaiting s => .ok { st with pending := .holding s w }
      | _ => .error (st.stray scope w)

/-- Whether a subcommand may stand here. -/
def atCommand (st : State) : Bool :=
  !st.trailing && match st.pending with
    | .awaiting _ => false
    | _ => true

end State

/-- Help on a subcommand that does not exist is refused. -/
def helpOn : List String → UsageError
  | [] => .displayHelp
  | w :: rest => if (w = "run" || w = "help") && rest.isEmpty then .displayHelp else .invalidSubcommand

/-- The state before the subcommand `run`, and the words behind it. -/
def scanTop (st : State) : List String → Except UsageError (State × Option (List String))
  | [] => .ok (st, none)
  | w :: ws =>
    if st.atCommand && w = "run" then .ok (st, some ws)
    else if st.atCommand && w = "help" then .error (helpOn ws)
    else (st.word .top w).bind (scanTop · ws)

/-- What is given behind the subcommand. -/
def readRun (words : List String) : Except UsageError Given := do
  let given ← (← words.foldlM (State.word .run) {}).settle
  given.check
  return given

/-- Reads the words behind the name of the command. -/
def parse (words : List String) : Except UsageError Invocation := do
  let (top, rest) ← scanTop {} words
  match rest with
  | none =>
    throw (if (← top.settle).logLevel.isSome then .missingSubcommand else .helpOnMissing)
  | some ws =>
    let given ← readRun ws
    return given.invocation (← top.settle).logLevel

end Arguments
end MixedProgram.Bench
