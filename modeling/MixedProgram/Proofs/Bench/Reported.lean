import MixedProgram.Bench.Run
import MixedProgram.Proofs.Bench.Execute
import MixedProgram.Proofs.Bench.Summary

/-! What a benchmark run reports.
Every case is executed as often as it is repeated, and every execution gives one record a stage. Cases of one
size share their name, so that the summary has one row for each stage of each size. -/
namespace MixedProgram.Bench
open Timing

/-! ### All executions -/

/-- One repetition of a case and its outcome. -/
structure Trial where
  input : Case
  repetition : Nat
  execution : Execution

def Trial.records (runId : String) (t : Trial) : List Record :=
  Record.ofExecution runId t.input.name t.repetition t.execution

def Progress.after (runId : String) (done : Progress) (t : Trial) : Progress where
  records := done.records ++ t.records runId
  program := some t.execution.program
  events := done.events ++ t.execution.events

/-- What is known once all trials are made. -/
def Progress.ofTrials (runId : String) (ts : List Trial) : Progress := ts.foldl (.after runId) {}

theorem records_foldl_after (runId : String) (ts : List Trial) (done : Progress) :
    (ts.foldl (.after runId) done).records.toList =
      done.records.toList ++ ts.flatMap (Trial.records runId) := by
  induction ts generalizing done with
  | nil => simp
  | cons t ts ih => simp [ih, Progress.after]

theorem records_ofTrials (runId : String) (ts : List Trial) :
    (Progress.ofTrials runId ts).records.toList = ts.flatMap (Trial.records runId) := by
  simp [Progress.ofTrials, records_foldl_after]

/-- One trial for each job, in order. -/
structure Request.Tried (r : Request) (jobs : List (Case × Nat)) (ts : List Trial) : Prop where
  inputs : ts.map (fun t => (t.input, t.repetition)) = jobs
  counted : ∀ t ∈ ts, t.execution.Counted r t.input

section Jobs
variable {m : Type → Type} [Monad m] [LawfulMonad m] {probe : m Reading} {r : Request}
  (exec : ∀ c, m {e : Execution // e.Counted r c})

/-- The trial of a job. -/
def tryJob (job : Case × Nat) : m Trial := (fun e => ⟨job.1, job.2, e.val⟩) <$> exec job.1

theorem exists_tried (jobs : List (Case × Nat)) :
    ∃ trials : m {ts : List Trial // r.Tried jobs ts}, (·.val) <$> trials = jobs.mapM (tryJob exec) := by
  induction jobs with
  | nil => exact ⟨pure ⟨[], rfl, nofun⟩, by simp⟩
  | cons job jobs ih =>
    obtain ⟨trials, htrials⟩ := ih
    have hcons : ∀ (e : {e : Execution // e.Counted r job.1}) (ts : {ts // r.Tried jobs ts}),
        r.Tried (job :: jobs) (⟨job.1, job.2, e.val⟩ :: ts.val) := fun e ts =>
      ⟨by simp [ts.property.inputs], List.forall_mem_cons.mpr ⟨e.property, ts.property.counted⟩⟩
    refine ⟨do
      let e ← exec job.1
      let ts ← trials
      pure ⟨_, hcons e ts⟩, ?_⟩
    simp [List.mapM_cons, tryJob, ← htrials]

variable {exec} in
/-- The jobs give what their trials give, one after another. -/
theorem runJobs_eq (hexec : ∀ c, execute probe r c = (fun e => .ok e.val) <$> exec c) (runId : String)
    (done : Progress) (jobs : List (Case × Nat)) :
    runJobs probe runId r done jobs =
      (fun ts => .ok (ts.foldl (.after runId) done)) <$> jobs.mapM (tryJob exec) := by
  induction jobs generalizing done with
  | nil => simp [runJobs]
  | cons job jobs ih => simp [runJobs, hexec, ih, tryJob, List.mapM_cons, Progress.after, Trial.records]

end Jobs

/-! ### The report -/

namespace Request
variable (r : Request)

/-- The sizes of the cases in order. -/
def sizes : List Nat :=
  match r.vars with
  | some n => [n]
  | none => r.cases.getD Case.defaultSizes

/-- The case of a size. Only a size given by itself can come with a number of rows. -/
def caseOf (n : Nat) : Case := ⟨"vars_" ++ toString n, n, if r.vars.isSome then r.constraints else none⟩

theorem jobs_eq :
    r.jobs = r.sizes.flatMap fun n => (List.range' 1 r.repetitions).map fun i => (r.caseOf n, i) := by
  cases h : r.vars <;> simp [jobs, resolved, sizes, caseOf, h, Case.ofSize, List.flatMap_map]

/-- The keys of all records in order. -/
def keys : List SummaryKey :=
  r.sizes.flatMap fun n => (List.range' 1 r.repetitions).flatMap fun _ =>
    stageNames.map (.mk ("vars_" ++ toString n))

variable {r}

theorem of_mem_keys {name stage : String} (h : ⟨name, stage⟩ ∈ r.keys) :
    (∃ n ∈ r.sizes, name = "vars_" ++ toString n) ∧ stage ∈ stageNames := by
  obtain ⟨n, hn, h⟩ := List.mem_flatMap.mp h
  obtain ⟨-, -, h⟩ := List.mem_flatMap.mp h
  obtain ⟨s, hs, heq⟩ := List.mem_map.mp h
  cases heq
  exact ⟨⟨n, hn, rfl⟩, hs⟩

theorem mem_keys_iff (hreps : 1 ≤ r.repetitions) {name stage : String} :
    ⟨name, stage⟩ ∈ r.keys ↔ (∃ n ∈ r.sizes, name = "vars_" ++ toString n) ∧ stage ∈ stageNames := by
  refine ⟨of_mem_keys, ?_⟩
  rintro ⟨⟨n, hn, rfl⟩, hstage⟩
  have hfirst : 1 ∈ List.range' 1 r.repetitions := List.mem_range'_1.mpr ⟨le_rfl, by omega⟩
  exact List.mem_flatMap.mpr ⟨n, hn, List.mem_flatMap.mpr ⟨1, hfirst, List.mem_map_of_mem hstage⟩⟩

theorem sizeName_inj {n k : Nat} : "vars_" ++ toString n = "vars_" ++ toString k ↔ n = k := by
  rw [String.append_right_inj]
  exact Nat.repr_inj

theorem nodup_stageNames : stageNames.Nodup := by decide

theorem count_keys {n : Nat} {stage : String} (hstage : stage ∈ stageNames) :
    r.keys.count ⟨"vars_" ++ toString n, stage⟩ = r.repetitions * r.sizes.count n := by
  have hone : ∀ k,
      (stageNames.map (SummaryKey.mk ("vars_" ++ toString k))).count ⟨"vars_" ++ toString n, stage⟩ =
        if k = n then 1 else 0 := by
    intro k
    split_ifs with h
    · subst h
      have hinj : Function.Injective (SummaryKey.mk ("vars_" ++ toString k)) := fun _ _ heq =>
        (SummaryKey.mk.inj heq).2
      rw [List.count_map_of_injective _ _ hinj]
      exact List.count_eq_one_of_mem nodup_stageNames hstage
    · refine List.count_eq_zero_of_not_mem fun hmem => ?_
      obtain ⟨s, -, heq⟩ := List.mem_map.mp hmem
      exact h (sizeName_inj.mp (SummaryKey.mk.inj heq).1)
  rw [keys]
  induction r.sizes with
  | nil => rfl
  | cons k sizes ih =>
    rw [List.flatMap_cons, List.count_append, ih, List.count_flatMap, List.count_cons]
    simp only [Function.comp_def, hone, List.map_const', List.sum_replicate, List.length_range',
      smul_eq_mul, beq_iff_eq]
    ring

end Request

/-- One record of a trial for each of its stages. -/
theorem Trial.map_records {r : Request} {t : Trial} (h : t.execution.Counted r t.input) (runId : String) :
    (t.records runId).map (fun x => (x.caseName, x.vars, x.repetition, x.stage)) =
      stageNames.map fun stage => (t.input.name, t.input.vars, t.repetition, stage) := by
  simp [records, Record.ofExecution, Function.comp_def, ← h.stages, h.vars]

namespace Request.Tried
variable {r : Request} {ts : List Trial}

theorem map_records (h : r.Tried r.jobs ts) (runId : String) :
    (ts.flatMap (Trial.records runId)).map (fun x => (x.caseName, x.vars, x.repetition, x.stage)) =
      r.sizes.flatMap fun n => (List.range' 1 r.repetitions).flatMap fun i =>
        stageNames.map fun stage => ("vars_" ++ toString n, n, i, stage) := by
  let line (job : Case × Nat) := stageNames.map fun stage => (job.1.name, job.1.vars, job.2, stage)
  calc (ts.flatMap (Trial.records runId)).map (fun x => (x.caseName, x.vars, x.repetition, x.stage))
      = ts.flatMap fun t => line (t.input, t.repetition) := by
        rw [List.map_flatMap]
        exact List.flatMap_congr fun t ht => Trial.map_records (h.counted t ht) runId
    _ = r.jobs.flatMap line := by rw [← h.inputs, List.flatMap_map]
    _ = _ := by rw [jobs_eq, List.flatMap_assoc]; simp only [List.flatMap_map, line, caseOf]

theorem map_key (h : r.Tried r.jobs ts) (runId : String) :
    (ts.flatMap (Trial.records runId)).map Record.key = r.keys := by
  have hkey := congrArg (List.map fun x => SummaryKey.mk x.1 x.2.2.2) (h.map_records runId)
  rw [List.map_map] at hkey
  refine hkey.trans ?_
  simp only [List.map_flatMap, List.map_map]
  rfl

/-- The rows of a summary are the stages of the sizes, each of them once. -/
theorem rows_perm (h : r.Tried r.jobs ts) (hreps : 1 ≤ r.repetitions) (runId : String) :
    ((summarize (ts.flatMap (Trial.records runId))).map fun row => (row.caseName, row.stage)).Perm
      (r.sizes.dedup.map ("vars_" ++ toString ·) ×ˢ stageNames) := by
  have hnames : (r.sizes.dedup.map ("vars_" ++ toString ·)).Nodup :=
    r.sizes.nodup_dedup.map fun _ _ heq => sizeName_inj.mp heq
  refine (List.perm_ext_iff_of_nodup (nodup_summarize _) (hnames.product nodup_stageNames)).mpr ?_
  rintro ⟨name, stage⟩
  rw [mem_map_summarize_iff, h.map_key, mem_keys_iff hreps, List.mem_product]
  simp only [List.mem_map, List.mem_dedup, eq_comm]

theorem samples_row (h : r.Tried r.jobs ts) (runId : String) {row : SummaryRow}
    (hrow : row ∈ summarize (ts.flatMap (Trial.records runId))) {n : Nat}
    (hname : row.caseName = "vars_" ++ toString n) : row.samples = r.repetitions * r.sizes.count n := by
  obtain ⟨⟨name, stage⟩, hkey, rfl⟩ := mem_summarize_iff.mp hrow
  obtain rfl : name = "vars_" ++ toString n := hname
  rw [h.map_key] at hkey
  have hcount : (tallyOf (ts.flatMap (Trial.records runId)) ⟨"vars_" ++ toString n, stage⟩).samples =
      r.keys.count ⟨"vars_" ++ toString n, stage⟩ := by
    rw [samples_tallyOf, h.map_key]
  exact hcount.trans (count_keys (of_mem_keys hkey).2)

theorem unmeasured (h : r.Tried r.jobs ts) (hno : r.noMemory = true) (runId : String) :
    ∀ x ∈ ts.flatMap (Trial.records runId), x.Unmeasured := by
  intro x hx
  obtain ⟨t, ht, hx⟩ := List.mem_flatMap.mp hx
  obtain ⟨m, hm, rfl⟩ := List.mem_map.mp hx
  exact (h.counted t ht).unmeasured hno m hm

end Request.Tried

/-- What is reported about the trials of a request: one record a stage, in order, and one row for each stage
of each size. -/
structure Request.Reported (r : Request) (runId : String) (ts : List Trial)
    (records : List Record) : Prop where
  expanded : records = ts.flatMap fun t => t.execution.stages.map fun m =>
    { runId
      caseName := t.input.name
      repetition := t.repetition
      vars := t.input.vars
      constraints := t.input.constraintCount r.ratio
      rawTerms := t.execution.program.objective.linear.size + t.execution.program.objective.quadratic.size
        + (t.execution.program.constraints.toList.map (·.form.size)).sum
      canonicalTerms := t.execution.program.objective.linear.canonical.length
        + t.execution.program.objective.quadratic.canonical.length
        + (t.execution.program.constraints.toList.map (·.form.canonical.length)).sum
      stage := m.stage
      milliseconds := milliseconds m.nanoseconds
      rssBefore := m.rssBefore
      rssAfter := m.rssAfter
      rssGrowth := m.rssGrowth }
  order : records.map (fun x => (x.caseName, x.vars, x.repetition, x.stage)) =
    r.sizes.flatMap fun n => (List.range' 1 r.repetitions).flatMap fun i =>
      stageNames.map fun stage => ("vars_" ++ toString n, n, i, stage)
  ascending : (summarize records).Pairwise fun a b =>
    a.caseName < b.caseName ∨ a.caseName = b.caseName ∧ a.stage < b.stage
  rows : ∀ name stage, (∃ row ∈ summarize records, row.caseName = name ∧ row.stage = stage) ↔
    (∃ n ∈ r.sizes, name = "vars_" ++ toString n) ∧ stage ∈ stageNames
  length_rows : (summarize records).length = 7 * r.sizes.dedup.length
  samples : ∀ row ∈ summarize records, ∀ n, row.caseName = "vars_" ++ toString n →
    row.samples = r.repetitions * r.sizes.count n
  unmeasured : r.noMemory = true →
    (∀ x ∈ records, x.rssBefore = none ∧ x.rssAfter = none ∧ x.rssGrowth = none) ∧
    ∀ row ∈ summarize records, row.meanGrowth = none ∧ row.maxRss = none

theorem Request.Tried.reported {r : Request} {ts : List Trial} (h : r.Tried r.jobs ts)
    (hreps : 1 ≤ r.repetitions) (runId : String) : r.Reported runId ts (ts.flatMap (Trial.records runId)) where
  expanded := by
    refine List.flatMap_congr fun t ht => ?_
    have hcounted := h.counted t ht
    simp [Trial.records, Record.ofExecution, hcounted.vars, hcounted.constraints, hcounted.raw_terms,
      hcounted.canonical_terms]
  order := h.map_records runId
  ascending := ascending_summarize _
  rows := by
    intro name stage
    rw [← mem_keys_iff hreps, ← h.map_key runId, ← mem_map_summarize_iff]
    simp
  length_rows := by
    have hlength := (h.rows_perm hreps runId).length_eq
    rw [List.length_map, List.length_product, List.length_map] at hlength
    rw [hlength, Nat.mul_comm]
    rfl
  samples _ hrow _ hname := h.samples_row runId hrow hname
  unmeasured hno := ⟨h.unmeasured hno runId, fun _ => unmeasured_row (h.unmeasured hno runId)⟩

section Run
variable {m : Type → Type} [Monad m] [LawfulMonad m] (probe : m Reading) (runId : String) (r : Request)

theorem check_eq_ok (hreps : 1 ≤ r.repetitions) (hduplicates : 1 ≤ r.duplicates) (hratio : 0.0 < r.ratio) :
    r.check = .ok () := by
  rw [Request.check, if_neg (by omega), if_neg (by omega), if_neg (Number.not_le_zero_of_zero_lt hratio)]

/-- A request that makes sense is carried out: every job is executed, and the records and the summary tell of
all executions. -/
theorem run_reported (hreps : 1 ≤ r.repetitions) (hduplicates : 1 ≤ r.duplicates) (hratio : 0.0 < r.ratio) :
    ∃ exec : ∀ c : Case, m {e : Execution // e.Counted r c},
      (∀ c, execute probe r c = (fun e => .ok e.val) <$> exec c) ∧
      ∃ trials : m {ts : List Trial // r.Tried r.jobs ts},
        (·.val) <$> trials = r.jobs.mapM (fun job => (fun e => ⟨job.1, job.2, e.val⟩) <$> exec job.1) ∧
        run probe runId r = (fun ts => .ok (.ofTrials runId ts.val)) <$> trials ∧
        ∀ ts, r.Tried r.jobs ts → r.Reported runId ts (Progress.ofTrials runId ts).records.toList := by
  choose exec hexec using execute_counted probe r
  obtain ⟨trials, htrials⟩ := exists_tried exec r.jobs
  refine ⟨exec, hexec, trials, htrials, ?_, fun ts hts => ?_⟩
  · rw [run, check_eq_ok r hreps hduplicates hratio]
    simp [runJobs_eq hexec, ← htrials, Except.mapError, Progress.ofTrials]
  · rw [records_ofTrials]
    exact hts.reported hreps runId

end Run

/-- One size twice, and one that comes later as a number but earlier as a text. -/
def Request.mixed : Request where
  cases := some [9, 10, 9]
  repetitions := 2
  noMemory := true

theorem mixed_reported :
    1 ≤ Request.mixed.repetitions ∧ 1 ≤ Request.mixed.duplicates ∧ 0.0 < Request.mixed.ratio ∧
      ∃ p, run still "mixed" .mixed = .ok p ∧ p.records.size = 42 ∧ (summarize p.records.toList).length = 14 ∧
        ∀ row ∈ summarize p.records.toList, row.maxRss = none ∧
          (row.caseName = "vars_9" → row.samples = 4) ∧ (row.caseName = "vars_10" → row.samples = 2) := by
  have hratio : 0.0 < Request.mixed.ratio := by decide +kernel
  obtain ⟨-, -, trials, -, hrun, hreported⟩ :=
    run_reported still "mixed" .mixed (by decide) (by decide) hratio
  obtain ⟨-, horder, -, -, hlength, hsamples, hunmeasured⟩ := hreported trials.run.val trials.run.property
  refine ⟨by decide, by decide, hratio, .ofTrials "mixed" trials.run.val, hrun, ?_, hlength,
    fun row hrow => ⟨?_, ?_, ?_⟩⟩
  · simpa [Request.mixed, Request.sizes, stageNames] using congrArg List.length horder
  · exact ((hunmeasured rfl).2 row hrow).2
  · exact hsamples row hrow 9
  · exact hsamples row hrow 10

end MixedProgram.Bench
