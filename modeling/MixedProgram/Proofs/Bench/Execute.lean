import MixedProgram.Proofs.Bench.Workload
import MixedProgram.Proofs.Timing.Recorded

/-! What executing a case gives.
Readings decide what the measurements say and never what is built, so that a case ends in one program
whatever the readings are. -/
namespace MixedProgram.Bench
open Timing

/-- The stages of an execution in their order. -/
def stageNames : List String :=
  ["variables", "constraints", "constraint_terms", "objective_terms", "canonicalize", "copy", "total"]

/-- The outcome of a case: the counts of the program it asks for, and all stages. -/
structure Execution.Counted (e : Execution) (r : Request) (c : Case) : Prop where
  program : e.program = Workload.built r.quadratic r.duplicates c.vars (c.constraintCount r.ratio)
  vars : e.vars = c.vars
  constraints : e.constraints = c.constraintCount r.ratio
  raw_terms : e.rawTerms = e.program.objective.linear.size + e.program.objective.quadratic.size
    + (e.program.constraints.toList.map (·.form.size)).sum
  canonical_terms : e.canonicalTerms = e.program.objective.linear.canonical.length
    + e.program.objective.quadratic.canonical.length
    + (e.program.constraints.toList.map (·.form.canonical.length)).sum
  stages : e.stages.map (·.stage) = stageNames
  unmeasured : r.noMemory = true → ∀ m ∈ e.stages, m.Unmeasured

/-- The outcome of a case with the given numbers of variables, rows and passes: variable `i` occurs in row
`i` modulo the number of rows, in the linear objective, and perhaps as a square. -/
structure Execution.Balanced (e : Execution) (n rows times : Nat) (quadratic : Bool) : Prop where
  vars : e.vars = n
  constraints : e.constraints = rows
  raw_terms : e.rawTerms = times * n * (2 + quadratic.toNat)
  canonical_terms : e.canonicalTerms = n * (2 + quadratic.toNat)
  size_vars : e.program.vars.size = n
  size_constraints : e.program.constraints.size = rows
  row : ∀ place (c : Constraint), e.program.constraints[place]? = some c →
    c.form.Occurring (fun var => var.index < n ∧ var.index % rows = place) times
  linear : e.program.objective.linear.Occurring (·.index < n) times
  quadratic : e.program.objective.quadratic.Occurring
    (fun pair => quadratic = true ∧ pair.isSquare = true ∧ pair.first.index < n) times
  stages : e.stages.map (·.stage) =
    ["variables", "constraints", "constraint_terms", "objective_terms", "canonicalize", "copy", "total"]

section Steps

/-- The steps in order, without readings. -/
def finish (d : Draft) (steps : List (String × Step)) : Except ProgramError Draft :=
  steps.foldlM (fun d s => (s.2 d).map fun d => { d with events := d.events ++ [finishedEvent s.1] }) d

theorem finish_cons {stage : String} {step : Step} {steps : List (String × Step)} {d next : Draft}
    (h : step d = .ok next) :
    finish d ((stage, step) :: steps) =
      finish { next with events := next.events ++ [finishedEvent stage] } steps := by
  simp [finish, h, Except.map, bind, Except.bind]

/-- What a recorder holds once the stages of the given names are over. -/
structure Request.Recorded (r : Request) (names : List String) (recorder : Recorder) : Prop where
  stages : recorder.stages.toList.map (·.stage) = names
  untracked : r.noMemory = true → recorder.Untracked

theorem Request.recorded_nil (r : Request) : r.Recorded [] { trackMemory := !r.noMemory } :=
  ⟨rfl, fun hno => ⟨by rw [hno]; rfl, nofun⟩⟩

theorem Request.Recorded.record {r : Request} {names : List String} {recorder : Recorder}
    (h : r.Recorded names recorder) (stage : String) (before after : Reading) :
    r.Recorded (names ++ [stage])
      (recorder.record (recorder.measure (recorder.begin stage before) after)) where
  stages := by simp [Recorder.record, Recorder.measure, Recorder.begin, Measurement.between, h.stages]
  untracked hno := (h.untracked hno).record stage before after

variable {m : Type → Type} [Monad m] [LawfulMonad m] (probe : m Reading)

/-- Under any readings the steps give what they give without, and every one of them is recorded. -/
theorem runSteps_recorded {steps : List (String × Step)} {d out : Draft} (h : finish d steps = .ok out)
    {r : Request} {names : List String} {recorder : Recorder} (hrecorded : r.Recorded names recorder) :
    ∃ run : m {x : Recorder // r.Recorded (names ++ steps.map (·.1)) x},
      runSteps probe recorder d steps = (fun x => .ok (x.val, out)) <$> run := by
  induction steps generalizing d names recorder with
  | nil =>
    cases h
    exact ⟨pure ⟨recorder, by simpa using hrecorded⟩, by simp [runSteps]⟩
  | cons s steps ih =>
    obtain ⟨stage, step⟩ := s
    cases hstep : step d with
    | error e => simp [finish, hstep, Except.map, bind, Except.bind] at h
    | ok next =>
      rw [finish_cons hstep] at h
      choose run hrun using fun before after : Reading => ih h (hrecorded.record stage before after)
      refine ⟨do
        let before ← probe
        let after ← probe
        (fun x => ⟨x.val, by simpa using x.property⟩) <$> run before after, ?_⟩
      simp [runSteps, hstep, hrun]

end Steps

namespace Workload

theorem onProgram_eq_ok {act : Program → Except ProgramError Program} {d : Draft} {p : Program}
    (h : act d.program = .ok p) : onProgram act d = .ok { d with program := p } := by
  rw [onProgram, h]
  rfl

variable {r : Request} {c : Case}

variable (r c) in
/-- Every case can be built. -/
theorem finish_steps :
    ∃ out, finish {} (steps r c) = .ok out ∧
      out.program = built r.quadratic r.duplicates c.vars (c.constraintCount r.ratio) ∧
      out.canonicalTerms = out.program.canonicalTermCount ∧ out.copy = out.program.copy := by
  obtain ⟨p, hterms, hcosts⟩ := bind_eq_ok.mp (passes_eq_built r.quadratic r.duplicates
    (c.one_le_constraintCount r.ratio) (n := c.vars))
  rw [steps, finish_cons (onProgram_eq_ok (each_addVariable c.vars)),
    finish_cons (onProgram_eq_ok (each_addRow c.vars _)), finish_cons (onProgram_eq_ok hterms),
    finish_cons (onProgram_eq_ok hcosts), finish_cons (show canonicalize _ = _ from rfl),
    finish_cons (show duplicate _ = _ from rfl)]
  exact ⟨_, rfl, rfl, rfl, rfl⟩

end Workload

section Measured
variable {m : Type → Type} [Monad m] [LawfulMonad m] (probe : m Reading) {r : Request} {c : Case}

/-- What is returned once all steps are taken. -/
def Draft.outcome (d : Draft) (stages : List Measurement) : Execution where
  vars := d.copy.vars.size
  constraints := d.copy.constraints.size
  rawTerms := d.program.rawTermCount
  canonicalTerms := d.canonicalTerms
  stages
  program := d.program
  events := d.events

/-- The counts of the program that is built, once all steps are recorded. -/
theorem Draft.counted_outcome {d : Draft}
    (hprogram : d.program = Workload.built r.quadratic r.duplicates c.vars (c.constraintCount r.ratio))
    (hmerged : d.canonicalTerms = d.program.canonicalTermCount) (hcopy : d.copy = d.program.copy)
    {recorder : Recorder} (h : r.Recorded ((Workload.steps r c).map (·.1)) recorder)
    (before after : Reading) :
    (d.outcome
      (recorder.stages.toList ++ [.between recorder.trackMemory "total" before after])).Counted r c where
  program := hprogram
  vars := by
    simpa [outcome, hcopy, hprogram] using
      Workload.size_vars_built r.quadratic r.duplicates (c.one_le_constraintCount r.ratio)
  constraints := by
    simpa [outcome, hcopy, hprogram] using
      Workload.size_constraints_built r.quadratic r.duplicates (c.one_le_constraintCount r.ratio)
  raw_terms := Program.rawTermCount_eq _
  canonical_terms := hmerged.trans (Program.canonicalTermCount_eq _)
  stages := by simp [outcome, h.stages, Workload.steps, Measurement.between, stageNames]
  unmeasured := by
    intro hno x hx
    obtain ⟨htrack, hall⟩ := h.untracked hno
    rcases List.mem_append.mp hx with hx | hx
    · exact hall x hx
    · obtain rfl := List.mem_singleton.mp hx
      rw [htrack]
      exact (Measurement.spans_between ..).unmeasured

/-- Within the range of identifiers the program of a counted outcome is balanced. -/
theorem Execution.Counted.balanced {e : Execution} (h : e.Counted r c)
    (hsizes : Workload.Buildable c.vars (c.constraintCount r.ratio)) (htimes : 0 < r.duplicates) :
    e.Balanced c.vars (c.constraintCount r.ratio) r.duplicates r.quadratic where
  vars := h.vars
  constraints := h.constraints
  raw_terms := by
    rw [h.raw_terms, ← Program.rawTermCount_eq, h.program]
    exact Workload.rawTermCount_built r.quadratic r.duplicates hsizes.rows_pos
  canonical_terms := by
    rw [h.canonical_terms, ← Program.canonicalTermCount_eq, h.program]
    exact Workload.canonicalTermCount_built r.quadratic r.duplicates hsizes htimes
  size_vars := by
    rw [h.program]
    exact Workload.size_vars_built r.quadratic r.duplicates hsizes.rows_pos
  size_constraints := by
    rw [h.program]
    exact Workload.size_constraints_built r.quadratic r.duplicates hsizes.rows_pos
  row := by
    intro place c hc
    rw [h.program] at hc
    exact Workload.occurring_row r.quadratic r.duplicates hsizes htimes hc
  linear := by
    rw [h.program]
    exact Workload.occurring_linear r.quadratic r.duplicates hsizes htimes
  quadratic := by
    rw [h.program]
    exact Workload.occurring_quadratic r.quadratic r.duplicates hsizes htimes
  stages := h.stages

variable (r c) in
/-- A case of any size is executed, and under all readings its outcome has the counts of its program. -/
theorem execute_counted :
    ∃ run : m {e : Execution // e.Counted r c}, execute probe r c = (fun e => .ok e.val) <$> run := by
  obtain ⟨out, hout, hprogram, hmerged, hcopy⟩ := Workload.finish_steps r c
  obtain ⟨run, hrun⟩ := runSteps_recorded probe hout r.recorded_nil
  refine ⟨do
    let before ← probe
    let recorder ← run
    let after ← probe
    pure ⟨_, Draft.counted_outcome hprogram hmerged hcopy recorder.property before after⟩, ?_⟩
  simp [execute, hrun, Draft.outcome]

/-- A case can always be executed, and under all readings its outcome is balanced. -/
theorem execute_balanced (hn : c.vars ≤ UInt32.size) (hrows : c.constraintCount r.ratio ≤ UInt32.size)
    (htimes : 1 ≤ r.duplicates) :
    1 ≤ c.constraintCount r.ratio ∧
      ∃ run : m {e : Execution //
          e.Balanced c.vars (c.constraintCount r.ratio) r.duplicates r.quadratic},
        execute probe r c = (fun e => .ok e.val) <$> run := by
  have hpos : 1 ≤ c.constraintCount r.ratio := c.one_le_constraintCount r.ratio
  have hsizes : Workload.Buildable c.vars (c.constraintCount r.ratio) := ⟨hn, hpos, hrows⟩
  obtain ⟨run, hrun⟩ := execute_counted probe r c
  refine ⟨hpos, (fun e => ⟨e.val, e.property.balanced hsizes htimes⟩) <$> run, ?_⟩
  rw [hrun]
  simp

/-- Thirty variables in four rows, every term three times. -/
theorem thirty_in_four_balanced :
    Case.constraintCount ⟨"thirty", 30, some 4⟩ 0.01 = 4 ∧ 30 ≤ UInt32.size ∧ 4 ≤ UInt32.size ∧ 1 ≤ 3 ∧
      ∃ run : Id {e : Execution // e.Balanced 30 4 3 true},
        execute still { duplicates := 3, quadratic := true } ⟨"thirty", 30, some 4⟩ =
          (fun e => .ok e.val) <$> run := by
  have hcount : Case.constraintCount ⟨"thirty", 30, some 4⟩ 0.01 = 4 := rfl
  refine ⟨hcount, by decide, by decide, by decide, ?_⟩
  exact (execute_balanced (r := { duplicates := 3, quadratic := true }) (c := ⟨"thirty", 30, some 4⟩) still
    (by decide) (by rw [hcount]; decide) (by decide)).2

end Measured
end MixedProgram.Bench
