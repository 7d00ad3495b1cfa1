import MixedProgram.Proofs.Session.Refused

/-! The log of a run.
Operations write their events where they happen: a refusal where its cause is found, on its way out. Read
afterwards, the log has one entry for each refused construction, change of direction, inspection and copy,
and none for anything else. -/
namespace MixedProgram

/-- An operation whose refusals are not logged writes nothing, unless it changes the direction. -/
theorem Edit.events_run_of_silent {e : Edit} (h : e.loggedAs = none) (hdirection : ∀ d, e ≠ .setDirection d)
    (p : Program) : (e.run p).1.events = [] := by
  simp only [Edit.run, Edit.events]
  cases e.apply p with
  | error cause => rw [h]; rfl
  | ok r =>
    cases e with
    | setDirection d => exact absurd rfl (hdirection d)
    | _ => rfl

/-- Changes of a program that write to a log. -/
abbrev Reporting (α : Type) := ExceptT ProgramError (StateM (Program × List Event)) α

namespace Reporting
variable {α β : Type}

/-- A change that writes nothing. -/
def silently (act : InPlace α) : Reporting α := fun s => ((act s.1).1, (act s.1).2, s.2)

def tell (e : Event) : Reporting Unit := modify fun s => (s.1, s.2 ++ [e])

/-- Whatever makes the step fail is written to the log before it is passed on. -/
def rejecting (operation : String) (act : Reporting α) : Reporting α :=
  tryCatch act fun cause => do
    tell (.refused operation cause)
    throw cause

/-- Each operation with the steps that can fail, each of which reports its own failure. -/
def perform : Edit → Reporting Answer
  | .addFloat lower upper =>
    rejecting "new_float" (silently (InPlace.perform (.addFloat lower upper)))
  | .addConstraint relation rhs =>
    rejecting "new_constraint" (silently (InPlace.perform (.addConstraint relation rhs)))
  | .addConstraintTerm con x var => do
    rejecting "add_constraint_term" (silently (InPlace.check (·.requireVariable var)))
    rejecting "add_constraint_term" (silently (InPlace.check (·.requireConstraint con)))
    rejecting "add_constraint_term" (silently do
      let t ← InPlace.check fun _ => Program.makeTerm x var
      modify (·.appendToConstraint con t)
      return .linearTerm t)
  | .addObjectiveTerm x var => do
    rejecting "add_objective_term" (silently (InPlace.check (·.requireVariable var)))
    rejecting "add_objective_term" (silently do
      let t ← InPlace.check fun _ => Program.makeTerm x var
      modify (·.appendLinear t)
      return .linearTerm t)
  | .addQuadraticTerm x a b => do
    rejecting "add_objective_quadratic_term" (silently do
      InPlace.check (·.requireVariable a)
      InPlace.check (·.requireVariable b))
    rejecting "add_objective_quadratic_term" (silently do
      let t ← InPlace.check fun _ => Program.makeTerm x (VarPair.of a b)
      modify (·.appendQuadratic t)
      return .quadraticTerm t)
  | .setDirection direction => do
    silently (modify (·.setDirection direction))
    tell (.directionSet direction)
    return .done
  | e => silently (InPlace.perform e)

theorem bind_apply (act : Reporting α) (g : α → Reporting β) (s : Program × List Event) :
    (act >>= g : Reporting β) s =
      match act s with
      | (.ok a, t) => g a t
      | (.error cause, t) => (.error cause, t) := by
  change (ExceptT.bindCont g (act s).1 : StateM (Program × List Event) (Except ProgramError β)) (act s).2 = _
  rcases act s with ⟨_ | _, _⟩ <;> rfl

theorem rejecting_silently (operation : String) (act : InPlace α) (p : Program) (log : List Event) :
    rejecting operation (silently act) (p, log) =
      match act p with
      | (.ok a, q) => (.ok a, q, log)
      | (.error cause, q) => (.error cause, q, log ++ [.refused operation cause]) := by
  change (ExceptT.tryCatch (silently act) fun cause => do
    tell (.refused operation cause)
    throw cause : StateM (Program × List Event) (Except ProgramError α)) (p, log) = _
  simp only [ExceptT.tryCatch, ExceptT.mk, bind, StateT.bind, silently]
  rcases act p with ⟨_ | _, _⟩ <;> rfl

/-- A check that fails is the last step, and the only one to report. -/
theorem rejecting_check_bind (operation : String) (f : Program → Except ProgramError α) (g : α → Reporting β)
    (p : Program) (log : List Event) :
    (rejecting operation (silently (InPlace.check f)) >>= g : Reporting β) (p, log) =
      match f p with
      | .ok a => g a (p, log)
      | .error cause => (.error cause, p, log ++ [.refused operation cause]) := by
  rw [bind_apply, rejecting_silently, InPlace.check]
  cases f p <;> rfl

theorem silently_perform {p : Program} {e : Edit} (log : List Event) (h : (e.run p).1.events = []) :
    silently (InPlace.perform e) (p, log) =
      ((e.apply p).map (·.1), (e.run p).2, log ++ (e.run p).1.events) := by
  rw [silently, InPlace.perform_eq, h, List.append_nil]

/-- The log of an operation is told by its outcome. -/
theorem perform_eq (p : Program) (log : List Event) (e : Edit) :
    perform e (p, log) = ((e.apply p).map (·.1), (e.run p).2, log ++ (e.run p).1.events) := by
  cases e with
  | addFloat lower upper =>
    simp only [perform, rejecting_silently, InPlace.perform_eq, Edit.run, Edit.events]
    cases Edit.apply p (.addFloat lower upper) <;> simp [Except.map, Edit.loggedAs]
  | addConstraint relation rhs =>
    simp only [perform, rejecting_silently, InPlace.perform_eq, Edit.run, Edit.events]
    cases Edit.apply p (.addConstraint relation rhs) <;> simp [Except.map, Edit.loggedAs]
  | addConstraintTerm con x var =>
    simp only [perform, rejecting_check_bind, rejecting_silently, InPlace.check_bind, Edit.run, Edit.apply,
      Program.addConstraintTerm]
    cases p.requireVariable var with
    | error _ => rfl
    | ok =>
      cases p.requireConstraint con with
      | error _ => rfl
      | ok =>
        cases Program.makeTerm x var with
        | error _ => rfl
        | ok t => exact congrArg (fun es => (Except.ok _, _, es)) (List.append_nil log).symm
  | addObjectiveTerm x var =>
    simp only [perform, rejecting_check_bind, rejecting_silently, InPlace.check_bind, Edit.run, Edit.apply,
      Program.addObjectiveTerm]
    cases p.requireVariable var with
    | error _ => rfl
    | ok =>
      cases Program.makeTerm x var with
      | error _ => rfl
      | ok t => exact congrArg (fun es => (Except.ok _, _, es)) (List.append_nil log).symm
  | addQuadraticTerm x a b =>
    simp only [perform, bind_apply, rejecting_silently, InPlace.check_bind, Edit.run, Edit.apply,
      Program.addQuadraticTerm]
    cases p.requireVariable a with
    | error _ => rfl
    | ok =>
      cases hb : p.requireVariable b with
      | error _ => simp only [InPlace.check, hb]; rfl
      | ok =>
        simp only [InPlace.check, hb]
        cases Program.makeTerm x (VarPair.of a b) with
        | error _ => rfl
        | ok t => exact congrArg (fun es => (Except.ok _, _, es)) (List.append_nil log).symm
  | setDirection direction => rfl
  | addInt | addBool | nameVariable | noteVariable | nameConstraint | noteConstraint =>
    exact silently_perform log (Edit.events_run_of_silent rfl (by simp) p)

end Reporting

namespace Session

/-- A command where edits write to the log themselves. All others write at most one event, at their end. -/
def report (s : Session) (log : List Event) : Command → Option Result × Session × List Event
  | .edit n e =>
    match s.programs[n]? with
    | some p =>
      let (result, q, log) := Reporting.perform e (p, log)
      (some result, ⟨s.programs.setIfInBounds n q⟩, log)
    | none => (none, s, log)
  | c => ((s.step c).1.result, (s.step c).2, log ++ (s.step c).1.events)

/-- The results of commands in order, with the session and the log they leave. -/
def reportAll (s : Session) (log : List Event) :
    List Command → List (Option Result) × Session × List Event
  | [] => ([], s, log)
  | c :: cs =>
    let (result, s, log) := s.report log c
    let (results, s, log) := s.reportAll log cs
    (result :: results, s, log)

theorem report_eq (s : Session) (log : List Event) (c : Command) :
    s.report log c = ((s.step c).1.result, (s.step c).2, log ++ (s.step c).1.events) := by
  cases c with
  | edit n e =>
    rw [report, step]
    cases h : s.programs[n]? with
    | some p => simp only [Reporting.perform_eq, withProgram, h]; rfl
    | none => simp [withProgram, h]
  | _ => rfl

/-- Both ways of running give the same log. -/
theorem reportAll_eq (s : Session) (log : List Event) (cs : List Command) :
    s.reportAll log cs = ((s.run cs).1.map (·.result), (s.run cs).2,
      log ++ (s.run cs).1.flatMap (·.events)) := by
  induction cs generalizing s log with
  | nil => simp [reportAll]
  | cons c cs ih => simp [reportAll, report_eq, ih, run_cons]

end Session

/-- One command of a run, with the sessions around it. -/
structure Turn where
  before : Session
  command : Command
  result : Option Result
  after : Session

namespace Turn

/-- What a log should tell of a command, judging by its result. -/
def entries (t : Turn) : List Event :=
  match t.command with
  | .edit n e =>
    match t.result with
    | some (.error cause) =>
      e.loggedAs.toList.map fun operation =>
        { level := .debug
          component := "model"
          operation
          status := .error
          details := [("code", .string cause.code)]
          message := cause.message }
    | some (.ok _) =>
      match e with
      | .setDirection _ =>
        t.after.programs[n]?.toList.map fun p =>
          { level := .debug
            component := "model"
            operation := "set_objective_sense"
            status := .success
            details := [("sense", .string p.objective.direction.name)]
            message := "Updated objective sense" }
      | _ => []
    | none => []
  | .inspect _ _ =>
    match t.result with
    | some (.ok (.snapshot view)) =>
      [{ level := .debug
         component := "model"
         operation := "inspect"
         status := .success
         details := [("variables", .int view.vars.length), ("constraints", .int view.constraints.length)]
         message := "Built model snapshot" }]
    | _ => []
  | .copy n =>
    match t.result with
    | some (.ok (.program k)) =>
      (t.before.programs[n]?.toList.zip t.after.programs[k]?.toList).map fun (source, copy) =>
        { level := .debug
          component := "model"
          operation := "copy"
          status := .success
          details :=
            [("variables", .int copy.vars.size), ("constraints", .int copy.constraints.size),
              ("objective_terms", .int source.objective.linear.canonical.length),
              ("objective_quadratic_terms", .int source.objective.quadratic.canonical.length)]
          message := "Copied model" }
    | _ => []
  | .create | .ask .. => []

end Turn

namespace Session

def turn (s : Session) (c : Command) : Turn := ⟨s, c, (s.step c).1.result, (s.step c).2⟩

/-- The commands of a run with their results. -/
def turns (s : Session) : List Command → List Turn
  | [] => []
  | c :: cs => s.turn c :: (s.step c).2.turns cs

theorem entries_turn (s : Session) (c : Command) : (s.turn c).entries = (s.step c).1.events := by
  cases c with
  | create => rfl
  | edit n e =>
    rw [turn, step]
    cases h : s.programs[n]? with
    | none => simp [withProgram, h, Turn.entries]
    | some p =>
      simp only [withProgram, h, Edit.run, Edit.events, Turn.entries]
      cases he : e.apply p with
      | error cause => cases e.loggedAs <;> rfl
      | ok r =>
        cases e with
        | setDirection direction =>
          obtain ⟨hn, -⟩ := Array.getElem?_eq_some_iff.mp h
          simp [Except.map, hn, Event.directionSet]
        | _ => rfl
  | ask n q =>
    rw [turn, step]
    cases h : s.programs[n]? <;> simp [withProgram, h, Turn.entries]
  | inspect n options =>
    rw [turn, step]
    cases h : s.programs[n]? <;> simp [withProgram, h, Turn.entries, Event.inspected]
  | copy n =>
    rw [turn, step]
    cases h : s.programs[n]? <;>
      simp [withProgram, h, Turn.entries, Event.copied, push, Form.size, Form.canonicalized]

theorem flatMap_entries_turns (s : Session) (cs : List Command) :
    (s.turns cs).flatMap Turn.entries = (s.run cs).1.flatMap (·.events) := by
  induction cs generalizing s with
  | nil => rfl
  | cons c cs ih => rw [turns, List.flatMap_cons, entries_turn, ih, run_cons, List.flatMap_cons]

theorem exists_of_mem_turns {s : Session} {cs : List Command} {t : Turn} (h : t ∈ s.turns cs) :
    ∃ before c, t = (s.run before).2.turn c := by
  induction cs generalizing s with
  | nil => cases h
  | cons c cs ih =>
    rcases List.mem_cons.mp h with rfl | h
    · exact ⟨[], c, rfl⟩
    · obtain ⟨before, d, rfl⟩ := ih h
      exact ⟨c :: before, d, rfl⟩

/-- A construction is logged for the first of its faults, however many there are, and not at all when there
is none. -/
theorem entries_turn_edit {s : Session} {n : Nat} {p : Program} (hn : s.programs[n]? = some p)
    (hp : p.Consistent) {e : Edit} {operation : String} (he : e.loggedAs = some operation) :
    (s.turn (.edit n e)).entries = (e.faults p).head?.toList.map (Event.refused operation) := by
  rw [entries_turn, step_edit hn]
  simp only [Edit.run, Edit.events]
  cases happly : e.apply p with
  | error cause => simp [(Edit.apply_eq_error_iff hp e cause).mp happly, he]
  | ok r =>
    have hnone := (Edit.accepted_run_iff_faults hp e).mp (Edit.accepted_run_iff.mpr ⟨r, happly⟩)
    rw [hnone]
    cases e with
    | setDirection => cases he
    | _ => rfl

end Session

/-- The log of a run tells of its commands one after another, whether it is written by each failing step or
gathered from the replies. -/
theorem log_tells_run (s : Session) (log : List Event) (cs : List Command) :
    s.reportAll log cs =
      ((s.run cs).1.map (·.result), (s.run cs).2, log ++ (s.turns cs).flatMap Turn.entries) ∧
    (s.run cs).1.flatMap (·.events) = (s.turns cs).flatMap Turn.entries ∧
    ∀ t ∈ Session.turns {} cs, ∀ n e p operation, t.command = .edit n e → t.before.programs[n]? = some p →
      e.loggedAs = some operation →
      t.entries = (e.faults p).head?.toList.map (Event.refused operation) := by
  refine ⟨?_, (s.flatMap_entries_turns cs).symm, ?_⟩
  · rw [Session.reportAll_eq, Session.flatMap_entries_turns]
  · rintro t ht n e p operation hcommand hn he
    obtain ⟨before, c, rfl⟩ := Session.exists_of_mem_turns ht
    obtain rfl : c = .edit n e := hcommand
    have hreach : p.Reachable := ⟨before, Array.mem_of_getElem? hn⟩
    exact Session.entries_turn_edit hn hreach.consistent he

/-- A term whose variable and row do not exist and whose coefficient is NaN. -/
def Edit.threefold : Edit := .addConstraintTerm (.ofIndex 4) (0.0 / 0.0) (.ofIndex 9)

theorem threefold_fault_logged_once :
    (Edit.threefold.faults {} = [.unknownVariable (.ofIndex 9), .unknownConstraint (.ofIndex 4),
      .term .nanCoefficient]) ∧
    ∀ t ∈ Session.turns {} [.edit 0 .threefold],
      t.entries = [.refused "add_constraint_term" (.unknownVariable (.ofIndex 9))] := by
  have hfaults : Edit.threefold.faults {} = [.unknownVariable (.ofIndex 9), .unknownConstraint (.ofIndex 4),
      .term .nanCoefficient] := by decide +kernel
  refine ⟨hfaults, fun t ht => ?_⟩
  have hturn := (log_tells_run {} [] [.edit 0 .threefold]).2.2 t ht
  obtain rfl := List.mem_singleton.mp ht
  rw [hturn 0 .threefold {} "add_constraint_term" rfl rfl rfl, hfaults]
  rfl

end MixedProgram
