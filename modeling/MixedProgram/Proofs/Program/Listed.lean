import MixedProgram.Proofs.Program.Inspected

/-! Listings are complete.
Beside the listing stands a strict one, which fails where the listing would fall back: on a constraint that
cannot be listed and on a variable without a label. For a program that was reached it never fails, and both
give the same lines. -/
namespace MixedProgram

theorem mapM_eq_ok {α β ε : Type} {f : α → Except ε β} {g : α → β} {xs : List α}
    (h : ∀ x ∈ xs, f x = .ok (g x)) : xs.mapM f = .ok (xs.map g) := by
  induction xs with
  | nil => rfl
  | cons x xs ih =>
    rw [List.mapM_cons, h x List.mem_cons_self, ih fun y hy => h y (List.mem_cons_of_mem _ hy)]
    rfl

/-- Entries are numbered by their places. -/
theorem mapM_range_eq_ok {α β ε : Type} {f : ℕ → Except ε β} {g : α → β} {xs : Array α}
    (h : ∀ i (hi : i < xs.size), f i = .ok (g xs[i])) :
    (List.range xs.size).mapM f = .ok (xs.toList.map g) := by
  have hmap : (List.range xs.size).map f = xs.toList.map fun x => .ok (g x) := by
    refine List.ext_getElem (by simp) fun i hi _ => ?_
    simpa using h i (by simpa using hi)
  have hid : (List.range xs.size).mapM f = ((List.range xs.size).map f).mapM id := by
    rw [List.mapM_map]
    rfl
  rw [hid, hmap, List.mapM_map]
  exact mapM_eq_ok fun _ _ => rfl

namespace Program

section Strict
variable (p : Program)

/-- The label is the variable's own; there is no placeholder for a variable that is not there. -/
def strictLinearTerm (t : LinearTerm) : Except ProgramError String := do
  let label ← p.label t.key
  return Number.plain t.coefficient ++ " " ++ label

def strictQuadraticTerm (t : QuadraticTerm) : Except ProgramError String := do
  let first ← p.label t.key.first
  let second ← p.label t.key.second
  return Number.plain t.coefficient ++ " " ++
    if t.key.isSquare then first ++ "^2" else first ++ "*" ++ second

/-- Fails when the constraint or one of its labels is not there. -/
def strictConstraint (id : ConId) : Except ProgramError String := do
  let c ← p.getConstraint id
  let terms ← c.form.canonical.mapM p.strictLinearTerm
  return "+ ".intercalate (terms.map (· ++ " ")) ++ c.relation.symbol ++ " " ++ Number.plain c.rhs

def strictObjective : Except ProgramError String := do
  let linear ← p.objective.linear.canonical.mapM p.strictLinearTerm
  let quadratic ← p.objective.quadratic.canonical.mapM p.strictQuadraticTerm
  match linear ++ quadratic with
  | [] => return p.objective.direction.name
  | body :: rest => return p.objective.direction.name ++ "   " ++ body ++ String.join (rest.map (" + " ++ ·))

/-- The line of the constraint at a place. -/
def strictConstraintLine (place : ℕ) : Except ProgramError String := do
  let id := .ofIndex place
  let body ← p.strictConstraint id
  let name := p.constraintName id
  return Text.padLeft 7 (toString place) ++ ": " ++ if name = "" then body else name ++ ": " ++ body

/-- The line of the variable at a place. -/
def strictVariableLine (place : ℕ) : Except ProgramError String := do
  let v ← p.getVariable (.ofIndex place)
  let label ← p.label (.ofIndex place)
  return Text.padLeft 7 (toString place) ++ ": " ++
    (label ++ " [" ++ Number.plain v.lower ++ ", " ++ Number.plain v.upper ++ "]")

end Strict
section Labels
variable {p : Program}

theorem getVariable_ofIndex {i : ℕ} (hi : i < p.vars.size) (hsize : p.vars.size ≤ UInt32.size) :
    p.getVariable (.ofIndex i) = .ok p.vars[i] := by
  rw [getVariable_eq_ok, EntityId.index_ofIndex (hi.trans_le hsize)]
  exact Array.getElem?_eq_getElem hi

theorem getConstraint_ofIndex {i : ℕ} (hi : i < p.constraints.size)
    (hsize : p.constraints.size ≤ UInt32.size) :
    p.getConstraint (.ofIndex i) = .ok p.constraints[i] := by
  rw [getConstraint_eq_ok, EntityId.index_ofIndex (hi.trans_le hsize)]
  exact Array.getElem?_eq_getElem hi

theorem label_eq_ok {id : VarId} (h : p.hasVariable id = true) : p.label id = .ok (p.labelText id) := by
  obtain ⟨v, hv⟩ := exists_getVariable_iff.mpr (by simpa [hasVariable] using h)
  unfold labelText
  rw [label, hv]
  rfl

theorem strictLinearTerm_eq_ok {t : LinearTerm} (h : p.hasVariable t.key = true) :
    p.strictLinearTerm t = .ok (p.linearTermText t) := by
  rw [strictLinearTerm, label_eq_ok h]
  rfl

theorem strictQuadraticTerm_eq_ok {t : QuadraticTerm} (hfirst : p.hasVariable t.key.first = true)
    (hsecond : p.hasVariable t.key.second = true) :
    p.strictQuadraticTerm t = .ok (p.quadraticTermText t) := by
  rw [strictQuadraticTerm, label_eq_ok hfirst, label_eq_ok hsecond]
  rfl

theorem Consistent.label_viewVariable (h : p.Consistent) {v : Variable} (hmem : v ∈ p.vars) :
    p.label (p.viewVariable v).id = .ok (p.viewVariable v).label := by
  obtain ⟨i, hi, rfl⟩ := Array.mem_iff_getElem.mp hmem
  have hlabel : p.label p.vars[i].id = .ok (p.labelText p.vars[i].id) := by
    refine label_eq_ok ?_
    rw [h.variable_id i hi, hasVariable, decide_eq_true_eq]
    exact (EntityId.index_ofIndex_le i).trans_lt hi
  unfold viewVariable
  simp only [hlabel]

end Labels

section Lines
variable {p : Program}

/-- What stands in the listing for a constraint. -/
def constraintLine (p : Program) (c : Constraint) : String :=
  numbered c.id.index
    (if (p.constraintName c.id).isEmpty then p.constraintText c
      else p.constraintName c.id ++ ": " ++ p.constraintText c)

theorem Consistent.strictConstraint_eq (h : p.Consistent) (id : ConId) :
    p.strictConstraint id = p.listConstraint id := by
  rw [strictConstraint, listConstraint]
  cases hget : p.getConstraint id with
  | error _ => rfl
  | ok c =>
    have hc : c ∈ p.constraints := Array.mem_of_getElem? (getConstraint_eq_ok.mp hget)
    have hterms : c.form.canonical.mapM p.strictLinearTerm = .ok (c.form.canonical.map p.linearTermText) :=
      mapM_eq_ok fun t ht => strictLinearTerm_eq_ok ((h.constraint_keys c hc).canonical t ht)
    change ((c.form.canonical.mapM p.strictLinearTerm) >>= _) = _
    rw [hterms]
    simp [constraintText, Except.map, bind, Except.bind, pure, Except.pure, Function.comp_def]

theorem Consistent.strictObjective_eq_ok (h : p.Consistent) : p.strictObjective = .ok p.listObjective := by
  have hlinear : p.objective.linear.canonical.mapM p.strictLinearTerm =
      .ok (p.objective.linear.canonical.map p.linearTermText) :=
    mapM_eq_ok fun t ht => strictLinearTerm_eq_ok (h.linear_keys.canonical t ht)
  have hquadratic : p.objective.quadratic.canonical.mapM p.strictQuadraticTerm =
      .ok (p.objective.quadratic.canonical.map p.quadraticTermText) :=
    mapM_eq_ok fun t ht =>
      have hkeys := h.quadratic_keys.canonical t ht
      strictQuadraticTerm_eq_ok hkeys.1 hkeys.2
  rw [strictObjective, hlinear, hquadratic, listObjective]
  simp only [bind, Except.bind]
  cases p.objective.linear.canonical.map p.linearTermText ++
    p.objective.quadratic.canonical.map p.quadraticTermText <;> rfl

theorem Consistent.constraintLine?_eq_some (h : p.Consistent) (hc : p.constraints.size ≤ UInt32.size)
    {c : Constraint} (hmem : c ∈ p.constraints) : p.constraintLine? c = some (p.constraintLine c) := by
  obtain ⟨i, hi, rfl⟩ := Array.mem_iff_getElem.mp hmem
  rw [constraintLine?, listConstraint, h.constraint_id i hi, getConstraint_ofIndex hi hc]
  simp [constraintLine, h.constraint_id i hi, Except.map]

theorem Consistent.strictConstraintLine_eq_ok (h : p.Consistent)
    (hc : p.constraints.size ≤ UInt32.size) (i : ℕ)
    (hi : i < p.constraints.size) : p.strictConstraintLine i = .ok (p.constraintLine p.constraints[i]) := by
  have hindex : (EntityId.ofIndex i : ConId).index = i := EntityId.index_ofIndex (hi.trans_le hc)
  simp [strictConstraintLine, h.strictConstraint_eq, listConstraint, getConstraint_ofIndex hi hc,
    constraintLine, numbered, h.constraint_id i hi, hindex, Except.map, bind, Except.bind, pure, Except.pure]

theorem Consistent.strictVariableLine_eq_ok (h : p.Consistent) (hv : p.vars.size ≤ UInt32.size) (i : ℕ)
    (hi : i < p.vars.size) : p.strictVariableLine i = .ok (p.variableLine p.vars[i]) := by
  have hindex : (EntityId.ofIndex i : VarId).index = i := EntityId.index_ofIndex (hi.trans_le hv)
  have hlabel : p.label (.ofIndex i) = .ok (p.labelText (.ofIndex i)) :=
    label_eq_ok (by simpa [hasVariable, hindex] using hi)
  rw [strictVariableLine, getVariable_ofIndex hi hv, hlabel]
  simp [variableLine, numbered, Variable.index, h.variable_id i hi, hindex, bind, Except.bind,
    pure, Except.pure]

end Lines

section Limits

/-- Entries up to a limit, and how many there are beyond it. -/
def clipped (what : String) (limit : Option ℕ) (entries : List String) : List String :=
  match limit with
  | none => entries
  | some n =>
    if n < entries.length then
      entries.take n ++ ["    ... (" ++ toString (entries.length - n) ++ " more " ++ what ++ ")"]
    else entries

theorem take_append_omission (what : String) (limit : Option ℕ) (entries : List String) :
    entries.take (min (limit.getD entries.length) entries.length) ++
      omission what (min (limit.getD entries.length) entries.length) entries.length =
        clipped what limit entries := by
  cases limit with
  | none => simp [clipped, omission]
  | some n =>
    rw [clipped, Option.getD_some, omission]
    rcases lt_or_ge n entries.length with h | h
    · rw [min_eq_left h.le]
      simp [h]
    · rw [min_eq_right h]
      simp [not_lt.mpr h]

theorem clipped_of_le {what : String} {limit : Option ℕ} {entries : List String}
    (h : ∀ n ∈ limit, entries.length ≤ n) : clipped what limit entries = entries := by
  cases limit with
  | none => rfl
  | some n => exact if_neg (not_lt.mpr (h n rfl))

theorem Consistent.lines_eq {p : Program} (h : p.Consistent) (hc : p.constraints.size ≤ UInt32.size)
    (limits : ListingLimits) : p.lines limits =
      p.listObjective :: clipped "constraints" limits.constraints (p.constraints.toList.map p.constraintLine)
        ++ clipped "variables" limits.vars (p.vars.toList.map p.variableLine) := by
  have hlines : ∀ n, (p.constraints.toList.take n).filterMap p.constraintLine? =
      (p.constraints.toList.map p.constraintLine).take n := by
    intro n
    rw [← List.map_take, ← List.filterMap_eq_map]
    refine List.filterMap_congr fun c hmem => ?_
    exact h.constraintLine?_eq_some hc (by simpa using List.mem_of_mem_take hmem)
  rw [← take_append_omission, ← take_append_omission]
  simp [lines, hlines, List.map_take]

end Limits

/-- A listing has a line for the objective, for each constraint and for each variable, save those that a
limit cuts off; no line and no label is a substitute. -/
structure ListedInFull (p : Program) (constraintLines variableLines : List String) : Prop where
  objective : p.strictObjective = .ok p.listObjective
  constraint_lines : (List.range p.constraints.size).mapM p.strictConstraintLine = .ok constraintLines
  variable_lines : (List.range p.vars.size).mapM p.strictVariableLine = .ok variableLines
  length_constraint_lines : constraintLines.length = p.constraints.size
  length_variable_lines : variableLines.length = p.vars.size
  listing_eq : ∀ limits, p.listing limits = "\n".intercalate
    (p.listObjective :: clipped "constraints" limits.constraints constraintLines
      ++ clipped "variables" limits.vars variableLines)
  toString_eq : toString p = "\n".intercalate (p.listObjective :: constraintLines ++ variableLines)
  listing_eq_toString : ∀ limits, (∀ n ∈ limits.constraints, p.constraints.size ≤ n) →
    (∀ n ∈ limits.vars, p.vars.size ≤ n) → p.listing limits = toString p
  listConstraint_eq : ∀ id, p.listConstraint id = p.strictConstraint id
  view_label : ∀ options, ∀ view ∈ (p.inspect options).vars, p.label view.id = .ok view.label

theorem listing_complete {p : Program} (h : p.Reachable) (hv : p.vars.size ≤ UInt32.size)
    (hc : p.constraints.size ≤ UInt32.size) :
    ∃ constraintLines variableLines, p.ListedInFull constraintLines variableLines := by
  have hconsistent := h.consistent
  have hlisting : ∀ limits, p.listing limits = "\n".intercalate
      (p.listObjective :: clipped "constraints" limits.constraints (p.constraints.toList.map p.constraintLine)
        ++ clipped "variables" limits.vars (p.vars.toList.map p.variableLine)) :=
    fun limits => congrArg _ (hconsistent.lines_eq hc limits)
  refine ⟨p.constraints.toList.map p.constraintLine, p.vars.toList.map p.variableLine, ?_⟩
  constructor
  case objective => exact hconsistent.strictObjective_eq_ok
  case constraint_lines => exact mapM_range_eq_ok (hconsistent.strictConstraintLine_eq_ok hc)
  case variable_lines => exact mapM_range_eq_ok (hconsistent.strictVariableLine_eq_ok hv)
  case length_constraint_lines => simp
  case length_variable_lines => simp
  case listing_eq => exact hlisting
  case toString_eq => exact hlisting .full
  case listing_eq_toString =>
    intro limits hconstraints hvars
    change _ = p.listing .full
    rw [hlisting, hlisting, clipped_of_le (by simpa using hconstraints), clipped_of_le (by simpa using hvars)]
    rfl
  case listConstraint_eq => exact fun id => (hconsistent.strictConstraint_eq id).symm
  case view_label =>
    intro options view hview
    rw [vars_inspect] at hview
    obtain ⟨v, hmem, rfl⟩ := List.mem_map.mp (List.mem_of_mem_filter hview)
    exact hconsistent.label_viewVariable (by simpa using hmem)

theorem sample_listing_complete :
    (sample.vars.size = 3 ∧ sample.constraints.size = 1) ∧
    ∃ constraintLines variableLines, sample.ListedInFull constraintLines variableLines := by
  refine ⟨size_sample, listing_complete reachable_sample ?_ ?_⟩
  · rw [size_sample.1]; decide
  · rw [size_sample.2]; decide

end Program
end MixedProgram
