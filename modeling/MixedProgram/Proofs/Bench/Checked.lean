import MixedProgram.Proofs.Bench.Reported
import MixedProgram.Proofs.Number.Whole

/-! Which benchmark requests are refused, and how many rows the others ask for.
The first thing that speaks against a request is the one reported, before anything is built. NaN is not a
number up to zero, and so it passes for a share; it comes to one row. -/
namespace MixedProgram.Bench
open Timing

section Checks
variable {r : Request}

/-- What speaks against a request, in the order in which it is looked at. -/
def Request.complaints (r : Request) : List String :=
  (if r.repetitions = 0 then ["repetitions must be greater than zero"] else []) ++
    (if r.duplicates = 0 then ["duplicates must be greater than zero"] else []) ++
    if r.ratio.isNaN = false ∧ ¬0.0 < r.ratio then ["constraint-ratio must be greater than zero"] else []

theorem check_eq_error_iff {text : String} :
    (∃ cause, r.check = .error cause ∧ cause.message = text) ↔ r.complaints.head? = some text := by
  simp only [Request.check, Request.complaints, Number.le_zero_iff]
  split_ifs <;> simp [Refusal.message]

end Checks

section Rows
variable {r : Request} {c : Case}

/-- A number of rows that is a share of the number of variables: at least one, and above one the product with
a positive share, rounded. -/
structure Proportioned (share : Float) (vars rows : Nat) : Prop where
  one_le : 1 ≤ rows
  rounded : 1 < rows → 0.0 < share ∧ Number.RoundsTo (UInt64.size - 1) (Float.ofNat vars * share) rows

/-- A share that is not refused is positive or NaN, and with NaN the product counts as zero. -/
theorem proportioned_constraintCount (hcheck : r.check = .ok ()) (hc : c.constraints = none) :
    Proportioned r.ratio c.vars (c.constraintCount r.ratio) where
  one_le := c.one_le_constraintCount r.ratio
  rounded := by
    intro hlt
    have hcount : c.constraintCount r.ratio =
        max 1 (Number.nearestNat (UInt64.size - 1) (Float.ofNat c.vars * r.ratio)) := by
      rw [Case.constraintCount, hc]
      rfl
    rw [hcount] at hlt ⊢
    rw [max_eq_right (by omega)] at hlt ⊢
    refine ⟨?_, Number.roundsTo_nearestNat (by omega)⟩
    have hnan : r.ratio.isNaN = false := by
      by_contra h
      rw [Number.nearestNat_of_isNaN (Number.isNaN_mul _ (by simpa using h))] at hlt
      omega
    have hle : ¬r.ratio ≤ 0.0 := by
      intro hle
      simp only [Request.check, hle, if_true] at hcheck
      split_ifs at hcheck
    rw [Number.le_zero_iff] at hle
    exact not_not.mp fun hpos => hle ⟨hnan, hpos⟩

end Rows

section Run
variable {m : Type → Type} [Monad m] [LawfulMonad m] (probe : m Reading) (runId : String) {r : Request}

/-- No case of the request says how many rows its program has. -/
def Request.RowsUnset (r : Request) : Prop := ∀ job ∈ r.jobs, job.1.constraints = none

theorem proportioned_record (hcheck : r.check = .ok ()) (hunset : r.RowsUnset) {ts : List Trial}
    (h : r.Tried r.jobs ts) {x : Record} (hx : x ∈ (Progress.ofTrials runId ts).records.toList) :
    Proportioned r.ratio x.vars x.constraints := by
  rw [records_ofTrials, List.mem_flatMap] at hx
  obtain ⟨t, ht, hx⟩ := hx
  obtain ⟨_, -, rfl⟩ := List.mem_map.mp hx
  have hjob : (t.input, t.repetition) ∈ r.jobs := h.inputs ▸ List.mem_map_of_mem ht
  have hcounted := h.counted t ht
  dsimp only
  rw [hcounted.vars, hcounted.constraints]
  exact proportioned_constraintCount hcheck (hunset _ hjob)

theorem run_of_check (hcheck : r.check = .ok ()) :
    ∃ done : m {p : Progress // r.RowsUnset →
        ∀ x ∈ p.records.toList, Proportioned r.ratio x.vars x.constraints},
      run probe runId r = (fun p => .ok p.val) <$> done := by
  choose exec hexec using execute_counted probe r
  obtain ⟨trials, htrials⟩ := exists_tried exec r.jobs
  refine ⟨(fun ts => ⟨.ofTrials runId ts.val, fun hunset x hx =>
    proportioned_record runId hcheck hunset ts.property hx⟩) <$> trials, ?_⟩
  simp [run, hcheck, runJobs_eq hexec, ← htrials, Except.mapError, Progress.ofTrials]

variable (r) in
/-- A request is refused for the first complaint and before anything is built. Every other request is carried
out, and where it does not say how many rows a program has, the number is in proportion. -/
theorem run_checked :
    (∀ text, (∃ cause, r.check = .error cause ∧ cause.message = text) ↔ r.complaints.head? = some text) ∧
    (∀ cause, r.check = .error cause → run probe runId r = pure (.error (.refused cause))) ∧
    (r.check = .ok () →
      (∃ done : m {p : Progress // r.RowsUnset →
          ∀ x ∈ p.records.toList, Proportioned r.ratio x.vars x.constraints},
        run probe runId r = (fun p => .ok p.val) <$> done) ∧
      ∀ c : Case, c.constraints = none →
        ∃ exec : m {e : Execution // Proportioned r.ratio c.vars e.program.constraints.size},
          execute probe r c = (fun e => .ok e.val) <$> exec) := by
  refine ⟨fun _ => check_eq_error_iff, fun cause h => by rw [run, h],
    fun hcheck => ⟨run_of_check probe runId hcheck, fun c hc => ?_⟩⟩
  obtain ⟨exec, hexec⟩ := execute_counted probe r c
  have hsize : ∀ e : {e : Execution // e.Counted r c},
      Proportioned r.ratio c.vars e.val.program.constraints.size := by
    rintro ⟨e, he⟩
    rw [he.program, Workload.size_constraints_built _ _ (c.one_le_constraintCount r.ratio)]
    exact proportioned_constraintCount hcheck hc
  exact ⟨(fun e => ⟨e.val, hsize e⟩) <$> exec, by simp [hexec]⟩

end Run

/-- Three variables and a share of rows. -/
def Request.sharing (share : Float) : Request where
  vars := some 3
  ratio := share
  noMemory := true

/-- One and a half rows are rounded up. -/
theorem half_checked :
    (Request.sharing 0.5).check = .ok () ∧ Case.constraintCount ⟨"vars_3", 3, none⟩ 0.5 = 2 ∧
      ∃ p, run still "half" (.sharing 0.5) = .ok p ∧
        ∀ x ∈ p.records.toList, Proportioned 0.5 x.vars x.constraints := by
  have hcheck : (Request.sharing 0.5).check = .ok () := by decide +kernel
  have hunset : (Request.sharing 0.5).RowsUnset := by rw [Request.RowsUnset]; decide
  obtain ⟨⟨done, hdone⟩, -⟩ := (run_checked still "half" (.sharing 0.5)).2.2 hcheck
  exact ⟨hcheck, by decide +kernel, done.run.val, hdone, done.run.property hunset⟩

/-- A share that is NaN does not lie above zero, and still nothing is said against it. -/
theorem unordered_share_accepted :
    ¬0.0 < (Request.sharing (0.0 / 0.0)).ratio ∧ (Request.sharing (0.0 / 0.0)).check = .ok () ∧
      ∃ p, run still "unordered" (.sharing (0.0 / 0.0)) = .ok p := by
  have hcheck : (Request.sharing (0.0 / 0.0)).check = .ok () := by decide +kernel
  obtain ⟨done, hdone⟩ := run_of_check still "unordered" hcheck
  exact ⟨by decide +kernel, hcheck, done.run.val, hdone⟩

end MixedProgram.Bench
