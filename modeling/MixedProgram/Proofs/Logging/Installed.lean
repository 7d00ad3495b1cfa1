import Mathlib
import MixedProgram.Logging.Sink

/-! A logger is installed at most once.
Of several calls in one environment the first that has a readable filter and a log file that can be opened
installs the logger. The calls before it fail, each for a reason of its own, and those after it find the
logger and look no further. -/
namespace MixedProgram.Logging

/-- The format of an environment: letter case does not matter, and one that is not set is pretty. -/
inductive Environment.Formatted (e : Environment) : Format → Prop
  | unset (h : e.format = none) : e.Formatted .pretty
  | pretty {text : String} (h : e.format = some text) (htext : text.toLower = "pretty") : e.Formatted .pretty
  | json {text : String} (h : e.format = some text) (htext : text.toLower = "json") : e.Formatted .json

theorem sameWord_iff {text word : String} (h : word.toLower = word) :
    Text.sameWord text word = true ↔ text.toLower = word := by
  rw [Text.sameWord, h, beq_iff_eq]

theorem toLower_pretty : "pretty".toLower = "pretty" := by decide +kernel
theorem toLower_json : "json".toLower = "json" := by decide +kernel

theorem Environment.Formatted.config {e : Environment} {format : Format} (h : e.Formatted format) :
    Config.ofEnvironment e = .ok ⟨e.level, format, e.logFile⟩ := by
  cases h with
  | unset h => simp [Config.ofEnvironment, h]
  | pretty h htext =>
    simp [Config.ofEnvironment, h, Format.parse, sameWord_iff toLower_pretty, htext, Except.map]
  | json h htext =>
    have hne : "json" ≠ "pretty" := by decide
    simp [Config.ofEnvironment, h, Format.parse, sameWord_iff toLower_pretty,
      sameWord_iff toLower_json, htext, Except.map]

theorem ofEnvironment_of_unknown {e : Environment} {text : String} (h : e.format = some text)
    (hpretty : text.toLower ≠ "pretty") (hjson : text.toLower ≠ "json") :
    Config.ofEnvironment e = .error (.invalidFormat text) := by
  simp [Config.ofEnvironment, h, Format.parse, sameWord_iff toLower_pretty,
    sameWord_iff toLower_json, hpretty, hjson, Except.map]

/-! ### One call -/

/-- A call: the level it asks for, and which log files can be opened at that time. -/
structure Call where
  level : Option String
  access : FileAccess

/-- The configuration of a call: its own level, or else the one of the environment. -/
def Environment.configOf (e : Environment) (format : Format) (call : Call) : Config :=
  ⟨call.level.or e.level, format, e.logFile⟩

/-- A configuration with a readable filter, and with a log file that can be opened if it names one. -/
def Config.Ready (c : Config) (access : FileAccess) (filter : Filter) : Prop :=
  c.filter = .ok filter ∧ ∀ path, c.logFile = some path → access path = .ok ()

/-- How an installation is logged. -/
def Format.announcement (format : Format) : Event where
  level := .debug
  component := "logging"
  operation := "init"
  status := .success
  details := [("format", .string format.title)]
  message := "Logging enabled"

/-- What the call that installs the logger answers. The installation is logged if the filter shows its level
to the target and the fields of the event. -/
def Config.granted (c : Config) (filter : Filter) : Attempt where
  result := .ok true
  events :=
    if filter.enables .debug "mipmodel_tools::logging"
        ["component", "operation", "status", "format", "message"] then
      [c.format.announcement]
    else []
  logger := some ⟨filter, c.format, c.logFile⟩

/-- What a call answers to its preparations where no logger is installed. -/
def Config.concluded (c : Config) : Except LoggingError Logger → Attempt
  | .error cause => ⟨.error cause, [], none⟩
  | .ok l =>
    ⟨.ok true,
      if l.filter.enables .debug ownTarget (enabledEvent c.format).fieldNames then
        [enabledEvent c.format]
      else [],
      some l⟩

theorem Config.install_none (c : Config) (access : FileAccess) :
    c.install access none = c.concluded (c.prepare access) := by
  rw [Config.install]
  cases c.prepare access <;> rfl

/-- What a call answers where a logger is installed. -/
def Logger.idle (l : Logger) : Attempt := ⟨.ok false, [], some l⟩

/-- The failures that install nothing: of the filter, and of the log file where the filter is readable. -/
inductive Config.Refused (c : Config) (access : FileAccess) : Attempt → Prop
  | filter {cause : LoggingError} (h : c.filter = .error cause) (hcode : cause.code = "LOG_INVALID_FILTER") :
      c.Refused access ⟨.error cause, [], none⟩
  | file {filter : Filter} {path reason : String} (h : c.filter = .ok filter) (hfile : c.logFile = some path)
      (haccess : access path = .error reason) : c.Refused access ⟨.error (.logFile path reason), [], none⟩

theorem Config.code_of_filter_eq_error {c : Config} {cause : LoggingError} (h : c.filter = .error cause) :
    cause.code = "LOG_INVALID_FILTER" := by
  rw [Config.filter] at h
  cases hlevel : c.level with
  | none => rw [hlevel] at h; cases h
  | some text =>
    simp only [hlevel] at h
    split_ifs at h
    cases hparse : Filter.parse text with
    | ok f => rw [hparse] at h; cases h
    | error reason => rw [hparse] at h; cases h; rfl

theorem Config.Ready.install {c : Config} {access : FileAccess} {filter : Filter}
    (h : c.Ready access filter) :
    c.install access none = c.granted filter := by
  obtain ⟨hfilter, hfile⟩ := h
  have hprepare : c.prepare access = .ok ⟨filter, c.format, c.logFile⟩ := by
    rw [Config.prepare, hfilter]
    cases hpath : c.logFile with
    | none => rfl
    | some path => simp [bind, Except.bind, pure, Except.pure, hfile path hpath]
  rw [Config.install_none, hprepare]
  rfl

theorem Config.refused_install {c : Config} {access : FileAccess} (h : ∀ filter, ¬c.Ready access filter) :
    c.Refused access (c.install access none) := by
  cases hfilter : c.filter with
  | error cause =>
    rw [Config.install_none, Config.prepare, hfilter]
    exact .filter hfilter (code_of_filter_eq_error hfilter)
  | ok filter =>
    cases hpath : c.logFile with
    | none =>
      refine absurd ⟨hfilter, fun path h => ?_⟩ (h filter)
      rw [hpath] at h
      cases h
    | some path =>
      cases haccess : access path with
      | ok =>
        refine absurd ⟨hfilter, fun other h => ?_⟩ (h filter)
        obtain rfl : path = other := by simpa [hpath] using h
        exact haccess
      | error reason =>
        have hinstall : c.install access none = ⟨.error (.logFile path reason), [], none⟩ := by
          simp [Config.install_none, Config.concluded, Config.prepare, hfilter, hpath, haccess, bind,
            Except.bind, throw, throwThe, MonadExceptOf.throw]
        rw [hinstall]
        exact .file hfilter hpath haccess

/-- An attempt that installs nothing and logs nothing. -/
def Attempt.Quiet (a : Attempt) : Prop := a.result ≠ .ok true ∧ a.events = []

theorem Config.Refused.quiet {c : Config} {access : FileAccess} {attempt : Attempt}
    (h : c.Refused access attempt) : attempt.Quiet := by
  cases h <;> exact ⟨nofun, rfl⟩

theorem Config.Refused.logger {c : Config} {access : FileAccess} {attempt : Attempt}
    (h : c.Refused access attempt) : attempt.logger = none := by
  cases h <;> rfl

theorem Environment.Formatted.enable {e : Environment} {format : Format} (h : e.Formatted format)
    (installed : Option Logger) (call : Call) :
    enable e call.access installed call.level = (e.configOf format call).install call.access installed := by
  rw [Logging.enable, h.config]
  rfl

/-! ### A sequence of calls -/

/-- Calls in order, each with the log files of its own time. -/
def enableEach (e : Environment) (installed : Option Logger) : List Call → List Attempt
  | [] => []
  | call :: calls =>
    let attempt := enable e call.access installed call.level
    attempt :: enableEach e attempt.logger calls

namespace AtMostOnce
variable {a : Attempt} {attempts : List Attempt}

end AtMostOnce

theorem quiet_of_mem_map {a b : Attempt} (ha : a.Quiet) {calls : List Call} (hb : b ∈ calls.map fun _ => a) :
    b.Quiet := by
  obtain ⟨-, -, rfl⟩ := List.mem_map.mp hb
  exact ha

theorem enableEach_of_unknown {e : Environment} {cause : LoggingError}
    (h : Config.ofEnvironment e = .error cause) (installed : Option Logger) (calls : List Call) :
    enableEach e installed calls = calls.map fun _ => ⟨.error cause, [], installed⟩ := by
  induction calls with
  | nil => rfl
  | cons call calls ih => simp only [enableEach, Logging.enable, h, List.map_cons, ih]

theorem quiet_of_unknown {e : Environment} {text : String} (h : e.format = some text)
    (hpretty : text.toLower ≠ "pretty") (hjson : text.toLower ≠ "json") (calls : List Call) :
    ∀ a ∈ enableEach e none calls, a.Quiet := by
  have hquiet : Attempt.Quiet ⟨.error (.invalidFormat text), [], none⟩ := ⟨nofun, rfl⟩
  rw [enableEach_of_unknown (ofEnvironment_of_unknown h hpretty hjson)]
  exact fun _ => quiet_of_mem_map hquiet

namespace Environment.Formatted
variable {e : Environment} {format : Format}

theorem enableEach_installed (h : e.Formatted format) (l : Logger) (calls : List Call) :
    enableEach e (some l) calls = calls.map fun _ => l.idle := by
  induction calls with
  | nil => rfl
  | cons call calls ih =>
    rw [enableEach, h.enable, List.map_cons]
    exact congrArg (l.idle :: ·) ih

/-- The calls up to the first that is ready all fail, and leave the next ones as they were. -/
theorem enableEach_refused (h : e.Formatted format) {before : List Call}
    (hbefore : ∀ call ∈ before, ∀ filter, ¬(e.configOf format call).Ready call.access filter)
    (after : List Call) :
    ∃ refusals, List.Forall₂ (fun call => (e.configOf format call).Refused call.access) before refusals ∧
      enableEach e none (before ++ after) = refusals ++ enableEach e none after := by
  induction before with
  | nil => exact ⟨[], .nil, rfl⟩
  | cons call before ih =>
    obtain ⟨refusals, hrefused, hrun⟩ := ih fun c hc => hbefore c (List.mem_cons_of_mem _ hc)
    have hcall := Config.refused_install (hbefore call List.mem_cons_self)
    refine ⟨_ :: refusals, .cons hcall hrefused, ?_⟩
    rw [List.cons_append, enableEach, h.enable, hcall.logger, hrun, List.cons_append]

theorem enableEach_ready (h : e.Formatted format) {call : Call} {filter : Filter}
    (hcall : (e.configOf format call).Ready call.access filter) (after : List Call) :
    enableEach e none (call :: after) =
      (e.configOf format call).granted filter ::
        after.map fun _ => Logger.idle ⟨filter, format, e.logFile⟩ := by
  rw [enableEach, h.enable, hcall.install]
  exact congrArg (_ :: ·) (h.enableEach_installed _ after)

end Environment.Formatted

/-! ### What a call does on its way -/

/-- What a call may have to do: read its filter, and open its log file. -/
structure Effects (m : Type → Type) where
  readFilter : Config → m (Except LoggingError Filter)
  openFile : String → m (Except String Unit)

section Acting
variable {m : Type → Type} [Monad m]

def Config.prepareIn (w : Effects m) (c : Config) : m (Except LoggingError Logger) := do
  match ← w.readFilter c with
  | .error cause => return .error cause
  | .ok filter =>
    match c.logFile with
    | none => return .ok ⟨filter, c.format, none⟩
    | some path =>
      match ← w.openFile path with
      | .ok () => return .ok ⟨filter, c.format, some path⟩
      | .error cause => return .error (.logFile path cause)

def Config.installIn (w : Effects m) (c : Config) (installed : Option Logger) : m Attempt :=
  match installed with
  | some l => return l.idle
  | none => c.concluded <$> c.prepareIn w

/-- A call that acts only where it has to. -/
def enableIn (w : Effects m) (e : Environment) (installed : Option Logger)
    (level : Option String) : m Attempt :=
  match Config.ofEnvironment e with
  | .error cause => return ⟨.error cause, [], installed⟩
  | .ok c => (c.withLevel level).installIn w installed

theorem Environment.Formatted.enableIn_installed {e : Environment} {format : Format} (h : e.Formatted format)
    (w : Effects m) (l : Logger) (level : Option String) : enableIn w e (some l) level = pure l.idle := by
  rw [enableIn, h.config]
  rfl

end Acting

theorem Environment.formatted_or_unknown (e : Environment) :
    (∃ format, e.Formatted format) ∨
      ∃ text, e.format = some text ∧ text.toLower ≠ "pretty" ∧ text.toLower ≠ "json" := by
  cases h : e.format with
  | none => exact .inl ⟨_, .unset h⟩
  | some text =>
    by_cases hpretty : text.toLower = "pretty"
    · exact .inl ⟨_, .pretty h hpretty⟩
    by_cases hjson : text.toLower = "json"
    · exact .inl ⟨_, .json h hjson⟩
    exact .inr ⟨text, rfl, hpretty, hjson⟩

/-- The course of calls under a known format: they are refused as long as none is ready, the first that is
installs the logger, and those behind it neither read a filter nor open a file. -/
structure Environment.Course (e : Environment) (format : Format) (calls : List Call) : Prop where
  refused : (∀ call ∈ calls, ∀ filter, ¬(e.configOf format call).Ready call.access filter) →
    List.Forall₂ (fun call => (e.configOf format call).Refused call.access) calls (enableEach e none calls)
  installed : ∀ before call after filter, calls = before ++ call :: after →
    (∀ c ∈ before, ∀ f, ¬(e.configOf format c).Ready c.access f) →
    (e.configOf format call).Ready call.access filter →
    ∃ refusals, List.Forall₂ (fun c => (e.configOf format c).Refused c.access) before refusals ∧
      enableEach e none calls = refusals ++ (e.configOf format call).granted filter ::
        after.map fun _ => Logger.idle ⟨filter, format, e.logFile⟩
  idle : ∀ (m : Type → Type) [Monad m] (w : Effects m) (l : Logger) level,
    enableIn w e (some l) level = pure l.idle

theorem Environment.Formatted.course {e : Environment} {format : Format} (h : e.Formatted format)
    (calls : List Call) : e.Course format calls where
  refused hnone := by
    obtain ⟨refusals, hrefused, hrun⟩ := h.enableEach_refused hnone []
    rw [List.append_nil, enableEach, List.append_nil] at hrun
    rwa [hrun]
  installed := by
    rintro before call after filter rfl hbefore hcall
    obtain ⟨refusals, hrefused, hrun⟩ := h.enableEach_refused hbefore (call :: after)
    exact ⟨refusals, hrefused, hrun.trans (by rw [h.enableEach_ready hcall])⟩
  idle _ _ w l level := h.enableIn_installed w l level

/-- A directory that has the name of the log file. -/
def FileView.occupied : FileView := { directories := [["run.log"]] }

/-- A broken filter, a log file that is a directory, a call that is ready and another broken filter. -/
def Call.mixed : List Call :=
  [⟨some "[", FileView.access {}⟩, ⟨none, FileView.occupied.access⟩, ⟨none, FileView.access {}⟩,
    ⟨some "[", FileView.occupied.access⟩]

end MixedProgram.Logging
