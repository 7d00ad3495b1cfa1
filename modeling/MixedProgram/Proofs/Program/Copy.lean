import MixedProgram.Proofs.Form.Canonical
import MixedProgram.Proofs.Session.Reachable

/-! The copy of a program as its normal form.
An edit cannot see whether its program has been copied before: it answers the same, and what it leaves has
the same copy. -/
namespace MixedProgram

section Canonicalized
variable {κ : Type} [Ord κ] [Std.TransOrd κ] [DecidableEq κ] [Std.LawfulEqOrd κ]

theorem Form.canonicalized_congr {f g : Form κ} (h : ∀ key, f.total key = g.total key) :
    f.canonicalized = g.canonicalized := by
  rw [canonicalized, canonicalized, canonical_congr h]

@[simp] theorem Form.canonicalized_canonicalized (f : Form κ) :
    f.canonicalized.canonicalized = f.canonicalized :=
  canonicalized_congr f.total_canonicalized

/-- A sum goes on from its canonical value just as it does from its first terms. -/
@[simp] theorem Form.canonicalized_append (f : Form κ) (t : Term κ) :
    (f.canonicalized.append t).canonicalized = (f.append t).canonicalized := by
  refine canonicalized_congr fun key => ?_
  rw [total_append, total_append, total_canonicalized]

@[simp] theorem Constraint.id_canonicalized (c : Constraint) : c.canonicalized.id = c.id := rfl
@[simp] theorem Constraint.relation_canonicalized (c : Constraint) :
    c.canonicalized.relation = c.relation := rfl
@[simp] theorem Constraint.rhs_canonicalized (c : Constraint) : c.canonicalized.rhs = c.rhs := rfl
@[simp] theorem Constraint.form_canonicalized (c : Constraint) :
    c.canonicalized.form = c.form.canonicalized := rfl

@[simp] theorem Constraint.canonicalized_canonicalized (c : Constraint) :
    c.canonicalized.canonicalized = c.canonicalized := by
  simp [canonicalized]

@[simp] theorem Constraint.canonicalized_append (c : Constraint) (t : LinearTerm) :
    (c.canonicalized.append t).canonicalized = (c.append t).canonicalized := by
  simp [canonicalized, append]

@[simp] theorem Objective.direction_canonicalized (o : Objective) :
    o.canonicalized.direction = o.direction := rfl
@[simp] theorem Objective.linear_canonicalized (o : Objective) :
    o.canonicalized.linear = o.linear.canonicalized := rfl
@[simp] theorem Objective.quadratic_canonicalized (o : Objective) :
    o.canonicalized.quadratic = o.quadratic.canonicalized := rfl

@[simp] theorem Objective.canonicalized_canonicalized (o : Objective) :
    o.canonicalized.canonicalized = o.canonicalized := by
  simp [canonicalized]

@[simp] theorem Objective.canonicalized_appendLinear (o : Objective) (t : LinearTerm) :
    (o.canonicalized.appendLinear t).canonicalized = (o.appendLinear t).canonicalized := by
  simp [canonicalized, appendLinear]

@[simp] theorem Objective.canonicalized_appendQuadratic (o : Objective) (t : QuadraticTerm) :
    (o.canonicalized.appendQuadratic t).canonicalized = (o.appendQuadratic t).canonicalized := by
  simp [canonicalized, appendQuadratic]

end Canonicalized

namespace Program
attribute [ext] Program

theorem recreateVariables_eq (p : Program) :
    p.recreateVariables =
      { vars := (p.vars.map (·.domain)).mapIdx fun i domain => ⟨.ofIndex i, domain⟩ } := by
  unfold recreateVariables
  obtain ⟨vs⟩ := p.vars
  rw [List.foldl_toArray]
  induction vs using List.reverseRecOn with
  | nil => simp
  | append_singleton vs v ih =>
    rw [List.foldl_append, ih]
    simp [addVariable]

/-- A copied variable is numbered by its place and keeps its domain. -/
theorem vars_copy (p : Program) :
    p.copy.vars = (p.vars.map (·.domain)).mapIdx fun i domain => ⟨.ofIndex i, domain⟩ := by
  rw [copy, recreateVariables_eq]

@[simp] theorem constraints_copy (p : Program) :
    p.copy.constraints = p.constraints.map (·.canonicalized) := rfl
@[simp] theorem objective_copy (p : Program) : p.copy.objective = p.objective.canonicalized := rfl
@[simp] theorem variableNotes_copy (p : Program) : p.copy.variableNotes = p.variableNotes := rfl
@[simp] theorem constraintNotes_copy (p : Program) : p.copy.constraintNotes = p.constraintNotes := rfl

@[simp] theorem map_domain_copy (p : Program) : p.copy.vars.map (·.domain) = p.vars.map (·.domain) := by
  ext i <;> simp [vars_copy]

@[simp] theorem size_vars_copy (p : Program) : p.copy.vars.size = p.vars.size := by
  simp [vars_copy]

@[simp] theorem hasVariable_copy (p : Program) (id : VarId) : p.copy.hasVariable id = p.hasVariable id := by
  simp [hasVariable]

@[simp] theorem hasConstraint_copy (p : Program) (id : ConId) :
    p.copy.hasConstraint id = p.hasConstraint id := by
  simp [hasConstraint]

/-- Programs have the same copy when they differ in nothing but ids and raw terms. -/
theorem copy_eq_copy {p q : Program} (hvars : p.vars.map (·.domain) = q.vars.map (·.domain))
    (hconstraints : p.constraints.map (·.canonicalized) = q.constraints.map (·.canonicalized))
    (hobjective : p.objective.canonicalized = q.objective.canonicalized)
    (hvariables : p.variableNotes = q.variableNotes)
    (hnotes : p.constraintNotes = q.constraintNotes) : p.copy = q.copy := by
  ext1
  · rw [vars_copy, vars_copy, hvars]
  · exact hconstraints
  · exact hobjective
  · exact hvariables
  · exact hnotes

@[simp] theorem requireVariable_copy (p : Program) (id : VarId) :
    p.copy.requireVariable id = p.requireVariable id := by
  simp [requireVariable]

@[simp] theorem requireConstraint_copy (p : Program) (id : ConId) :
    p.copy.requireConstraint id = p.requireConstraint id := by
  simp [requireConstraint]

theorem copy_copy (p : Program) : p.copy.copy = p.copy := by
  apply copy_eq_copy <;> simp [Function.comp_def]

section Changes
variable (p : Program)

theorem copy_addVariable (domain : Domain) :
    (p.copy.addVariable domain).2.copy = (p.addVariable domain).2.copy := by
  apply copy_eq_copy <;> simp [addVariable, Function.comp_def]

theorem copy_pushConstraint (relation : Relation) (rhs : Float) :
    (p.copy.pushConstraint relation rhs).copy = (p.pushConstraint relation rhs).copy := by
  apply copy_eq_copy <;> simp [pushConstraint, Function.comp_def]

theorem copy_appendToConstraint (con : ConId) (t : LinearTerm) :
    (p.copy.appendToConstraint con t).copy = (p.appendToConstraint con t).copy := by
  apply copy_eq_copy
  case hconstraints =>
    refine Array.ext (by simp [appendToConstraint]) fun i _ _ => ?_
    simp only [appendToConstraint, constraints_copy, Array.getElem_map, Array.getElem_modify]
    split_ifs <;> simp
  all_goals simp [appendToConstraint]

theorem copy_appendLinear (t : LinearTerm) : (p.copy.appendLinear t).copy = (p.appendLinear t).copy := by
  apply copy_eq_copy <;> simp [appendLinear, Function.comp_def]

theorem copy_appendQuadratic (t : QuadraticTerm) :
    (p.copy.appendQuadratic t).copy = (p.appendQuadratic t).copy := by
  apply copy_eq_copy <;> simp [appendQuadratic, Function.comp_def]

theorem copy_setDirection (direction : Direction) :
    (p.copy.setDirection direction).copy = (p.setDirection direction).copy := by
  apply copy_eq_copy <;> simp [setDirection, Objective.canonicalized, Function.comp_def]

theorem copy_annotateVariables (notes : Annotations .var) :
    (p.copy.annotateVariables notes).copy = (p.annotateVariables notes).copy := by
  apply copy_eq_copy <;> simp [annotateVariables, Function.comp_def]

theorem copy_annotateConstraints (notes : Annotations .con) :
    (p.copy.annotateConstraints notes).copy = (p.annotateConstraints notes).copy := by
  apply copy_eq_copy <;> simp [annotateConstraints, Function.comp_def]

end Changes
end Program

namespace Edit
open Program

/-- The answer of an edit and the copy of what it leaves. -/
def effect (p : Program) (e : Edit) : Except ProgramError (Answer × Program) :=
  (e.apply p).map fun r => (r.1, r.2.copy)

/-- Copying a program before an edit does not show, whether the edit is accepted or refused. -/
theorem effect_copy (p : Program) (e : Edit) : e.effect p.copy = e.effect p := by
  cases e with
  | addFloat lower upper =>
    simp only [effect, apply, Program.addFloat]
    split_ifs
    · rfl
    · exact congrArg Except.ok (Prod.ext (by simp [addVariable]) (p.copy_addVariable _))
  | addInt lower upper =>
    exact congrArg Except.ok (Prod.ext (by simp) (p.copy_addVariable _))
  | addBool => exact congrArg Except.ok (Prod.ext (by simp) (p.copy_addVariable _))
  | addConstraint relation rhs =>
    simp only [effect, apply, Program.addConstraint]
    split_ifs
    · rfl
    · exact congrArg Except.ok (Prod.ext (by simp) (p.copy_pushConstraint relation rhs))
  | addConstraintTerm con x var =>
    simp only [effect, apply, Program.addConstraintTerm, requireVariable_copy, requireConstraint_copy]
    cases p.requireVariable var with
    | error _ => rfl
    | ok =>
      cases p.requireConstraint con with
      | error _ => rfl
      | ok =>
        cases makeTerm x var with
        | error _ => rfl
        | ok t => exact congrArg (fun q => Except.ok (_, q)) (p.copy_appendToConstraint con t)
  | addObjectiveTerm x var =>
    simp only [effect, apply, Program.addObjectiveTerm, requireVariable_copy]
    cases p.requireVariable var with
    | error _ => rfl
    | ok =>
      cases makeTerm x var with
      | error _ => rfl
      | ok t => exact congrArg (fun q => Except.ok (_, q)) (p.copy_appendLinear t)
  | addQuadraticTerm x a b =>
    simp only [effect, apply, Program.addQuadraticTerm, requireVariable_copy]
    cases p.requireVariable a with
    | error _ => rfl
    | ok =>
      cases p.requireVariable b with
      | error _ => rfl
      | ok =>
        cases makeTerm x (VarPair.of a b) with
        | error _ => rfl
        | ok t => exact congrArg (fun q => Except.ok (_, q)) (p.copy_appendQuadratic t)
  | setDirection direction => exact congrArg (fun q => Except.ok (_, q)) (p.copy_setDirection direction)
  | nameVariable id name =>
    simp only [effect, apply, Program.nameVariable, requireVariable_copy]
    cases p.requireVariable id with
    | error _ => rfl
    | ok => exact congrArg (fun q => Except.ok (_, q)) (p.copy_annotateVariables _)
  | noteVariable id note =>
    simp only [effect, apply, Program.noteVariable, requireVariable_copy]
    cases p.requireVariable id with
    | error _ => rfl
    | ok => exact congrArg (fun q => Except.ok (_, q)) (p.copy_annotateVariables _)
  | nameConstraint id name =>
    simp only [effect, apply, Program.nameConstraint, requireConstraint_copy]
    cases p.requireConstraint id with
    | error _ => rfl
    | ok => exact congrArg (fun q => Except.ok (_, q)) (p.copy_annotateConstraints _)
  | noteConstraint id note =>
    simp only [effect, apply, Program.noteConstraint, requireConstraint_copy]
    cases p.requireConstraint id with
    | error _ => rfl
    | ok => exact congrArg (fun q => Except.ok (_, q)) (p.copy_annotateConstraints _)

end Edit
end MixedProgram
