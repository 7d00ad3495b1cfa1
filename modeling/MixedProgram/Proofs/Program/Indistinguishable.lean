import MixedProgram.Proofs.Program.Consistent

/-! Copying cannot be observed.
Nothing but raw terms and definition counts tells a program from its copy, at once or after any further
edits. -/
namespace MixedProgram
namespace Program
variable {p q : Program}

section Views

theorem Consistent.vars_copy (h : p.Consistent) : p.copy.vars = p.vars := by
  rw [Program.vars_copy]
  refine Array.ext (by simp) fun i _ hi => ?_
  rw [Array.getElem_mapIdx, Array.getElem_map, ← h.variable_id i hi]

theorem Consistent.getVariable_copy (h : p.Consistent) (id : VarId) :
    p.copy.getVariable id = p.getVariable id := by
  rw [getVariable, getVariable, h.vars_copy]

theorem getConstraint_copy (p : Program) (id : ConId) :
    p.copy.getConstraint id = (p.getConstraint id).map (·.canonicalized) := by
  simp only [getConstraint, constraints_copy, Array.getElem?_map]
  cases p.constraints[id.index]? <;> rfl

theorem Consistent.label_copy (h : p.Consistent) (id : VarId) : p.copy.label id = p.label id := by
  rw [label, label, h.getVariable_copy]
  rfl

theorem Consistent.labelText_copy (h : p.Consistent) (id : VarId) :
    p.copy.labelText id = p.labelText id := by
  rw [labelText, labelText, h.label_copy]

theorem Consistent.constraintText_copy (h : p.Consistent) (c : Constraint) :
    p.copy.constraintText c.canonicalized = p.constraintText c := by
  simp [constraintText, linearTermText, h.labelText_copy]

theorem Consistent.listConstraint_copy (h : p.Consistent) (id : ConId) :
    p.copy.listConstraint id = p.listConstraint id := by
  rw [listConstraint, listConstraint, getConstraint_copy]
  cases p.getConstraint id with
  | error _ => simp only [Except.map]
  | ok c => simp only [Except.map, h.constraintText_copy]

theorem Consistent.listObjective_copy (h : p.Consistent) : p.copy.listObjective = p.listObjective := by
  have hlinear : p.copy.linearTermText = p.linearTermText := by
    funext t
    simp [linearTermText, h.labelText_copy]
  have hquadratic : p.copy.quadraticTermText = p.quadraticTermText := by
    funext t
    simp [quadraticTermText, h.labelText_copy]
  simp [listObjective, hlinear, hquadratic]

theorem Consistent.constraintLine?_copy (h : p.Consistent) (c : Constraint) :
    p.copy.constraintLine? c.canonicalized = p.constraintLine? c := by
  simp [constraintLine?, h.listConstraint_copy, constraintName]

theorem Consistent.variableLine_copy (h : p.Consistent) : p.copy.variableLine = p.variableLine := by
  funext v
  simp [variableLine, h.labelText_copy]

theorem Consistent.listing_copy (h : p.Consistent) (limits : ListingLimits) :
    p.copy.listing limits = p.listing limits := by
  simp [listing, lines, h.listObjective_copy, h.variableLine_copy, h.constraintLine?_copy, h.vars_copy,
    ← List.map_take, List.filterMap_map]

theorem Consistent.viewVariable_copy (h : p.Consistent) : p.copy.viewVariable = p.viewVariable := by
  funext v
  simp [viewVariable, variableName?, variableNote?, h.label_copy]

theorem viewConstraint_copy (p : Program) (includeTerms : Bool) (c : Constraint) :
    p.copy.viewConstraint includeTerms c.canonicalized = p.viewConstraint includeTerms c := by
  simp [viewConstraint, constraintName, constraintNote?]

theorem Consistent.inspect_copy (h : p.Consistent) (options : InspectOptions) :
    p.copy.inspect options = p.inspect options := by
  simp [inspect, h.viewVariable_copy, h.vars_copy, viewConstraint_copy, List.filter_map, Function.comp_def]

end Views

/-- Everything that can be read off a program, save raw terms and definition counts. -/
structure Indistinguishable (p q : Program) : Prop where
  vars : p.vars = q.vars
  constraints : p.constraints.map (fun c => (c.id, c.relation, c.rhs)) =
    q.constraints.map fun c => (c.id, c.relation, c.rhs)
  constraint_total : ∀ var, p.constraints.map (·.form.total var) = q.constraints.map (·.form.total var)
  constraint_terms : p.constraints.map (·.form.canonical) = q.constraints.map (·.form.canonical)
  direction : p.objective.direction = q.objective.direction
  linear_total : ∀ var, p.objective.linear.total var = q.objective.linear.total var
  linear_terms : p.objective.linear.canonical = q.objective.linear.canonical
  quadratic_total : ∀ a b,
    p.objective.quadratic.total (VarPair.of a b) = q.objective.quadratic.total (VarPair.of a b)
  quadratic_terms : p.objective.quadratic.canonical = q.objective.quadratic.canonical
  variable_name : ∀ id, p.variableName? id = q.variableName? id
  constraint_name : ∀ id, p.constraintName id = q.constraintName id
  label : ∀ id, p.label id = q.label id
  find_variable : ∀ name, p.findVariable? name = q.findVariable? name
  find_constraint : ∀ name, p.findConstraint? name = q.findConstraint? name
  variable_note : ∀ id, p.variableNote? id = q.variableNote? id
  constraint_note : ∀ id, p.constraintNote? id = q.constraintNote? id
  inspect : ∀ options, p.inspect options = q.inspect options
  list_constraint : ∀ id, p.listConstraint id = q.listConstraint id
  list_objective : p.listObjective = q.listObjective
  listing : ∀ limits, p.listing limits = q.listing limits

/-- Consistent programs with one copy between them look the same. -/
theorem Consistent.indistinguishable (hp : p.Consistent) (hq : q.Consistent) (h : p.copy = q.copy) :
    p.Indistinguishable q := by
  have hconstraints : p.constraints.map (·.canonicalized) = q.constraints.map (·.canonicalized) :=
    congrArg constraints h
  have hobjective : p.objective.canonicalized = q.objective.canonicalized := congrArg objective h
  have hvariables : p.variableNotes = q.variableNotes := by
    simpa using congrArg variableNotes h
  have hnotes : p.constraintNotes = q.constraintNotes := by
    simpa using congrArg constraintNotes h
  constructor
  case vars => rw [← hp.vars_copy, ← hq.vars_copy, h]
  case constraints =>
    simpa [Function.comp_def] using congrArg (Array.map fun c => (c.id, c.relation, c.rhs)) hconstraints
  case constraint_total =>
    intro var
    simpa [Function.comp_def] using congrArg (Array.map (·.form.total var)) hconstraints
  case constraint_terms =>
    simpa [Function.comp_def] using congrArg (Array.map (·.form.canonical)) hconstraints
  case direction => simpa using congrArg Objective.direction hobjective
  case linear_total => intro var; simpa using congrArg (·.linear.total var) hobjective
  case linear_terms => simpa using congrArg (·.linear.canonical) hobjective
  case quadratic_total => intro a b; simpa using congrArg (·.quadratic.total (VarPair.of a b)) hobjective
  case quadratic_terms => simpa using congrArg (·.quadratic.canonical) hobjective
  case variable_name => intro id; rw [variableName?, variableName?, hvariables]
  case constraint_name => intro id; rw [constraintName, constraintName, hnotes]
  case label => intro id; rw [← hp.label_copy, ← hq.label_copy, h]
  case find_variable => intro name; rw [findVariable?, findVariable?, hvariables]
  case find_constraint => intro name; rw [findConstraint?, findConstraint?, hnotes]
  case variable_note => intro id; rw [variableNote?, variableNote?, hvariables]
  case constraint_note => intro id; rw [constraintNote?, constraintNote?, hnotes]
  case inspect => intro options; rw [← hp.inspect_copy, ← hq.inspect_copy, h]
  case list_constraint => intro id; rw [← hp.listConstraint_copy, ← hq.listConstraint_copy, h]
  case list_objective => rw [← hp.listObjective_copy, ← hq.listObjective_copy, h]
  case listing => intro limits; rw [← hp.listing_copy, ← hq.listing_copy, h]

end Program

namespace Edit
variable {p q : Program}

/-- An edit keeps programs with one copy together: same reply, and one copy again. -/
theorem run_congr (h : p.copy = q.copy) (e : Edit) :
    (e.run p).1 = (e.run q).1 ∧ (e.run p).2.copy = (e.run q).2.copy := by
  have heffect : e.effect p = e.effect q := by rw [← effect_copy p, ← effect_copy q, h]
  unfold effect at heffect
  unfold run
  cases hp : e.apply p with
  | error cause =>
    cases hq : e.apply q with
    | error cause' =>
      rw [hp, hq] at heffect
      obtain rfl := Except.error.inj heffect
      exact ⟨rfl, h⟩
    | ok r => rw [hp, hq] at heffect; cases heffect
  | ok r =>
    cases hq : e.apply q with
    | error cause => rw [hp, hq] at heffect; cases heffect
    | ok r' =>
      rw [hp, hq] at heffect
      obtain ⟨hanswer, hcopy⟩ := Prod.mk.inj (Except.ok.inj heffect)
      have hdirection : r.2.objective.direction = r'.2.objective.direction :=
        congrArg (·.objective.direction) hcopy
      refine ⟨?_, hcopy⟩
      cases e <;> simp [events, Except.map, hanswer, hdirection]

theorem runAll_congr (h : p.copy = q.copy) (es : List Edit) :
    (runAll p es).1 = (runAll q es).1 ∧ (runAll p es).2.copy = (runAll q es).2.copy := by
  induction es generalizing p q with
  | nil => exact ⟨rfl, h⟩
  | cons e es ih =>
    obtain ⟨hreply, hcopy⟩ := run_congr h e
    obtain ⟨hreplies, hcopy⟩ := ih hcopy
    simp only [runAll_cons, hreply, hreplies]
    exact ⟨trivial, hcopy⟩

end Edit

/-- Whatever edits follow, accepted or refused, a program and its copy reply alike and stay
indistinguishable. -/
theorem copy_unobservable {p : Program} (h : p.Reachable) (es : List Edit) :
    (Edit.runAll p.copy es).1 = (Edit.runAll p es).1 ∧
      (Edit.runAll p.copy es).2.Indistinguishable (Edit.runAll p es).2 := by
  obtain ⟨hreplies, hcopy⟩ := Edit.runAll_congr p.copy_copy es
  exact ⟨hreplies, (h.copy.runAll es).consistent.indistinguishable (h.runAll es).consistent hcopy⟩

/-- A sum that has cancelled and one that is not a number. -/
def Program.cancelled : Program :=
  (Edit.runAll {} [.addBool, .addBool, .addObjectiveTerm 2.0 (.ofIndex 0),
    .addObjectiveTerm (-2.0) (.ofIndex 0), .addObjectiveTerm (1.0 / 0.0) (.ofIndex 1),
    .addObjectiveTerm (-1.0 / 0.0) (.ofIndex 1)]).2

/-- Edits that go on with both sums, and one that is refused. -/
def Edit.resumed : List Edit :=
  [.addObjectiveTerm 3.0 (.ofIndex 0), .addObjectiveTerm 1.0 (.ofIndex 1), .nameVariable (.ofIndex 5) "slack"]

theorem cancelled_copy_unobservable :
    (Program.cancelled.objective.linear.size = 4 ∧ Program.cancelled.copy.objective.linear.size = 1) ∧
    (Edit.runAll Program.cancelled.copy Edit.resumed).1 = (Edit.runAll Program.cancelled Edit.resumed).1 ∧
      (Edit.runAll Program.cancelled.copy Edit.resumed).2.Indistinguishable
        (Edit.runAll Program.cancelled Edit.resumed).2 :=
  ⟨by decide +kernel, copy_unobservable (Program.Reachable.empty.runAll _) Edit.resumed⟩

end MixedProgram
