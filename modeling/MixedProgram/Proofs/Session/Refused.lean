import MixedProgram.Proofs.Program.Replay

/-! Why an edit is refused, and what is left of it.
The identities an edit names are looked up one after another and then its numbers are checked, so that
the first fault among them is the one reported. Nothing is changed before all checks are through. -/
namespace MixedProgram

section Refusal
variable {ε α β : Type}

theorem bind_eq_error {x : Except ε α} {f : α → Except ε β} {cause : ε} :
    (x >>= f) = .error cause ↔ x = .error cause ∨ ∃ a, x = .ok a ∧ f a = .error cause := by
  cases x <;> simp [bind, Except.bind]

theorem map_eq_error {x : Except ε α} {f : α → β} {cause : ε} :
    x.map f = .error cause ↔ x = .error cause := by
  cases x <;> simp [Except.map]

theorem pure_eq_error_iff {a : α} {cause : ε} : (pure a : Except ε α) = .error cause ↔ False := by
  simp [pure, Except.pure]

theorem head?_ite_eq_some {c : Prop} [Decidable c] {a b : α} :
    (if c then [a] else []).head? = some b ↔ c ∧ a = b := by
  split_ifs with h <;> simp [h]

end Refusal

namespace Program
variable {p : Program} {cause : ProgramError}

theorem requireVariable_eq_error {id : VarId} :
    p.requireVariable id = .error cause ↔ p.hasVariable id = false ∧ .unknownVariable id = cause := by
  unfold requireVariable
  split_ifs with h <;> simp [h]

theorem requireConstraint_eq_error {id : ConId} :
    p.requireConstraint id = .error cause ↔
      p.hasConstraint id = false ∧ .unknownConstraint id = cause := by
  unfold requireConstraint
  split_ifs with h <;> simp [h]

theorem makeTerm_eq_error {κ : Type} {x : Float} {key : κ} :
    makeTerm x key = .error cause ↔ x.isNaN = true ∧ .term .nanCoefficient = cause := by
  unfold makeTerm Term.make
  cases x.isNaN <;> simp [Except.mapError]

/-- Looking at the number of variables finds out whether one of them has the identity. -/
theorem Consistent.hasVariable_iff (h : p.Consistent) (id : VarId) :
    p.hasVariable id = true ↔ ∃ v ∈ p.vars, v.id = id := by
  rw [hasVariable, decide_eq_true_eq]
  constructor
  · intro hid
    exact ⟨_, Array.getElem_mem hid, (h.variable_id _ hid).trans id.ofIndex_index⟩
  · rintro ⟨v, hv, rfl⟩
    obtain ⟨i, hi, rfl⟩ := Array.mem_iff_getElem.mp hv
    rw [h.variable_id i hi]
    exact (EntityId.index_ofIndex_le i).trans_lt hi

theorem Consistent.hasConstraint_iff (h : p.Consistent) (id : ConId) :
    p.hasConstraint id = true ↔ ∃ c ∈ p.constraints, c.id = id := by
  rw [hasConstraint, decide_eq_true_eq]
  constructor
  · intro hid
    exact ⟨_, Array.getElem_mem hid, (h.constraint_id _ hid).trans id.ofIndex_index⟩
  · rintro ⟨c, hc, rfl⟩
    obtain ⟨i, hi, rfl⟩ := Array.mem_iff_getElem.mp hc
    rw [h.constraint_id i hi]
    exact (EntityId.index_ofIndex_le i).trans_lt hi

end Program

namespace Edit

section Arguments

/-- The variables an edit names, in the order in which they are looked up. -/
def vars : Edit → List VarId
  | addConstraintTerm _ _ var => [var]
  | addObjectiveTerm _ var => [var]
  | addQuadraticTerm _ a b => [a, b]
  | nameVariable id _ => [id]
  | noteVariable id _ => [id]
  | _ => []

def constraints : Edit → List ConId
  | addConstraintTerm con _ _ => [con]
  | nameConstraint id _ => [id]
  | noteConstraint id _ => [id]
  | _ => []

def numbers : Edit → List Float
  | addFloat lower upper => [lower, upper]
  | addConstraint _ rhs => [rhs]
  | addConstraintTerm _ x _ => [x]
  | addObjectiveTerm x _ => [x]
  | addQuadraticTerm x _ _ => [x]
  | _ => []

/-- How NaN is reported. Two bounds are told as they were given, whichever of them is NaN. -/
def nanError : Edit → ProgramError
  | addFloat lower upper => .nanBound lower upper
  | addConstraint .. => .nanRightHandSide
  | _ => .term .nanCoefficient

/-- All that is wrong with the arguments: identities that no variable has, then identities that no
constraint has, then NaN. -/
def faults (p : Program) (e : Edit) : List ProgramError :=
  (e.vars.filter fun id => ¬ ∃ v ∈ p.vars, v.id = id).map .unknownVariable
    ++ (e.constraints.filter fun id => ¬ ∃ c ∈ p.constraints, c.id = id).map .unknownConstraint
    ++ if e.numbers.any Float.isNaN then [e.nanError] else []

end Arguments

variable {p : Program}

theorem faults_eq_nil_iff (e : Edit) :
    e.faults p = [] ↔ (∀ id ∈ e.vars, ∃ v ∈ p.vars, v.id = id) ∧
      (∀ id ∈ e.constraints, ∃ c ∈ p.constraints, c.id = id) ∧ ∀ x ∈ e.numbers, x.isNaN = false := by
  have hnan : (if e.numbers.any Float.isNaN then [e.nanError] else []) = [] ↔
      ∀ x ∈ e.numbers, x.isNaN = false := by
    simp only [ite_eq_right_iff, reduceCtorEq, imp_false, Bool.not_eq_true, List.any_eq_false]
  rw [faults, List.append_eq_nil_iff, List.append_eq_nil_iff, hnan, and_assoc]
  simp only [List.map_eq_nil_iff, List.filter_eq_nil_iff, decide_eq_true_eq, not_not]

open Program in
/-- The checks of every edit come in one order: variables, constraints, numbers. -/
theorem apply_eq_error_iff (h : p.Consistent) (e : Edit) (cause : ProgramError) :
    e.apply p = .error cause ↔ (e.faults p).head? = some cause := by
  simp only [faults, ← h.hasVariable_iff, ← h.hasConstraint_iff]
  cases e with
  | addFloat lower upper =>
    simp only [apply, Program.addFloat, vars, constraints, numbers, nanError]
    split_ifs <;> simp_all [Except.map]
  | addConstraint relation rhs =>
    simp only [apply, Program.addConstraint, vars, constraints, numbers, nanError]
    split_ifs <;> simp_all [Except.map]
  | addConstraintTerm con x var =>
    simp [-bind_pure_comp, apply, map_eq_error, Program.addConstraintTerm, bind_eq_error,
      requireVariable_eq_error, requireVariable_eq_ok, requireConstraint_eq_error, requireConstraint_eq_ok,
      makeTerm_eq_error, pure_eq_error_iff, head?_ite_eq_some, vars, constraints, numbers, nanError]
  | addObjectiveTerm x var =>
    simp [-bind_pure_comp, apply, map_eq_error, Program.addObjectiveTerm, bind_eq_error,
      requireVariable_eq_error, requireVariable_eq_ok, makeTerm_eq_error, pure_eq_error_iff,
      head?_ite_eq_some, vars, constraints, numbers, nanError]
  | addQuadraticTerm x a b =>
    simp only [apply, map_eq_error, Program.addQuadraticTerm, bind_eq_error, requireVariable_eq_error,
      requireVariable_eq_ok, makeTerm_eq_error, pure_eq_error_iff, vars, constraints, numbers, nanError]
    cases ha : p.hasVariable a <;> cases hb : p.hasVariable b <;> simp [ha, hb, head?_ite_eq_some]
  | addInt | addBool | setDirection => simp [apply, vars, constraints, numbers]
  | nameVariable id name =>
    simp [-bind_pure_comp, apply, map_eq_error, Program.nameVariable, bind_eq_error,
      requireVariable_eq_error, pure_eq_error_iff, vars, constraints, numbers]
  | noteVariable id note =>
    simp [-bind_pure_comp, apply, map_eq_error, Program.noteVariable, bind_eq_error,
      requireVariable_eq_error, pure_eq_error_iff, vars, constraints, numbers]
  | nameConstraint id name =>
    simp [-bind_pure_comp, apply, map_eq_error, Program.nameConstraint, bind_eq_error,
      requireConstraint_eq_error, pure_eq_error_iff, vars, constraints, numbers]
  | noteConstraint id note =>
    simp [-bind_pure_comp, apply, map_eq_error, Program.noteConstraint, bind_eq_error,
      requireConstraint_eq_error, pure_eq_error_iff, vars, constraints, numbers]

end Edit

/-- A program changed in place. An error does not take back what has been changed before it. -/
abbrev InPlace (α : Type) := ExceptT ProgramError (StateM Program) α

namespace InPlace
variable {α β : Type}

/-- Reads the program and may fail. -/
def check (f : Program → Except ProgramError α) : InPlace α := fun p => (f p, p)

theorem check_bind (f : Program → Except ProgramError α) (g : α → InPlace β) (p : Program) :
    (check f >>= g : InPlace β) p =
      match f p with
      | .ok a => g a p
      | .error cause => (.error cause, p) := by
  change (ExceptT.bindCont g (f p) : StateM Program (Except ProgramError β)) p = _
  cases f p <;> rfl

/-- The edits as steps on one program: each check and each change in its turn. -/
def perform : Edit → InPlace Answer
  | .addFloat lower upper => do
    if lower.isNaN || upper.isNaN then throw (.nanBound lower upper)
    modifyGet fun p => (.variableId (p.addVariable (.float lower upper)).1,
      (p.addVariable (.float lower upper)).2)
  | .addInt lower upper =>
    modifyGet fun p => (.variableId (p.addVariable (.int lower upper)).1,
      (p.addVariable (.int lower upper)).2)
  | .addBool => modifyGet fun p => (.variableId (p.addVariable .bool).1, (p.addVariable .bool).2)
  | .addConstraint relation rhs => do
    if rhs.isNaN then throw .nanRightHandSide
    let p ← get
    modify (·.pushConstraint relation rhs)
    return .constraintId (.ofIndex p.constraints.size)
  | .addConstraintTerm con x var => do
    check (·.requireVariable var)
    check (·.requireConstraint con)
    let t ← check fun _ => Program.makeTerm x var
    modify (·.appendToConstraint con t)
    return .linearTerm t
  | .addObjectiveTerm x var => do
    check (·.requireVariable var)
    let t ← check fun _ => Program.makeTerm x var
    modify (·.appendLinear t)
    return .linearTerm t
  | .addQuadraticTerm x a b => do
    check (·.requireVariable a)
    check (·.requireVariable b)
    let t ← check fun _ => Program.makeTerm x (VarPair.of a b)
    modify (·.appendQuadratic t)
    return .quadraticTerm t
  | .setDirection direction => do
    modify (·.setDirection direction)
    return .done
  | .nameVariable id name => do
    check (·.requireVariable id)
    modify fun p => p.annotateVariables (p.variableNotes.rename id name)
    return .done
  | .noteVariable id note => do
    check (·.requireVariable id)
    modify fun p => p.annotateVariables (p.variableNotes.annotate id note)
    return .done
  | .nameConstraint id name => do
    check (·.requireConstraint id)
    modify fun p => p.annotateConstraints (p.constraintNotes.rename id name)
    return .done
  | .noteConstraint id note => do
    check (·.requireConstraint id)
    modify fun p => p.annotateConstraints (p.constraintNotes.annotate id note)
    return .done

/-- In place or not, an edit has one outcome and leaves one program. -/
theorem perform_eq (p : Program) (e : Edit) :
    perform e p = ((e.apply p).map (·.1), (e.run p).2) := by
  cases e with
  | addFloat lower upper =>
    simp only [perform, Edit.run, Edit.apply, Program.addFloat]
    cases lower.isNaN || upper.isNaN <;> rfl
  | addInt lower upper => rfl
  | addBool => rfl
  | addConstraint relation rhs =>
    simp only [perform, Edit.run, Edit.apply, Program.addConstraint]
    cases rhs.isNaN <;> rfl
  | addConstraintTerm con x var =>
    simp only [perform, check_bind, Edit.run, Edit.apply, Program.addConstraintTerm]
    cases p.requireVariable var with
    | error _ => rfl
    | ok =>
      cases p.requireConstraint con with
      | error _ => rfl
      | ok => cases Program.makeTerm x var <;> rfl
  | addObjectiveTerm x var =>
    simp only [perform, check_bind, Edit.run, Edit.apply, Program.addObjectiveTerm]
    cases p.requireVariable var with
    | error _ => rfl
    | ok => cases Program.makeTerm x var <;> rfl
  | addQuadraticTerm x a b =>
    simp only [perform, check_bind, Edit.run, Edit.apply, Program.addQuadraticTerm]
    cases p.requireVariable a with
    | error _ => rfl
    | ok =>
      cases p.requireVariable b with
      | error _ => rfl
      | ok => cases Program.makeTerm x (VarPair.of a b) <;> rfl
  | setDirection direction => rfl
  | nameVariable id name =>
    simp only [perform, check_bind, Edit.run, Edit.apply, Program.nameVariable]
    cases p.requireVariable id <;> rfl
  | noteVariable id note =>
    simp only [perform, check_bind, Edit.run, Edit.apply, Program.noteVariable]
    cases p.requireVariable id <;> rfl
  | nameConstraint id name =>
    simp only [perform, check_bind, Edit.run, Edit.apply, Program.nameConstraint]
    cases p.requireConstraint id <;> rfl
  | noteConstraint id note =>
    simp only [perform, check_bind, Edit.run, Edit.apply, Program.noteConstraint]
    cases p.requireConstraint id <;> rfl

end InPlace

namespace Edit

/-- The first fault is reported and nothing is changed; without a fault the edit is accepted. -/
structure RefusedForFirstFault (p : Program) (e : Edit) : Prop where
  error_iff : ∀ cause, (e.run p).1.result = some (.error cause) ↔ (e.faults p).head? = some cause
  accepted_iff : (e.run p).1.Accepted ↔ (∀ id ∈ e.vars, ∃ v ∈ p.vars, v.id = id) ∧
    (∀ id ∈ e.constraints, ∃ c ∈ p.constraints, c.id = id) ∧ ∀ x ∈ e.numbers, x.isNaN = false
  in_place : ∃ outcome, (e.run p).1.result = some outcome ∧ InPlace.perform e p = (outcome, (e.run p).2)
  unchanged : ¬ (e.run p).1.Accepted → (InPlace.perform e p).2 = p
  session_unchanged : ∀ (s : Session) (n : Nat), s.programs[n]? = some p →
    ¬ (s.step (.edit n e)).1.Accepted → (s.step (.edit n e)).2 = s

variable {p : Program}

theorem accepted_run_iff_faults (h : p.Consistent) (e : Edit) :
    (e.run p).1.Accepted ↔ e.faults p = [] := by
  rw [accepted_run_iff, ← List.head?_eq_none_iff]
  cases happly : e.apply p with
  | ok r =>
    have hno : ∀ cause, (e.faults p).head? ≠ some cause := fun cause hhead => by
      have := (apply_eq_error_iff h e cause).mpr hhead
      rw [happly] at this
      cases this
    exact iff_of_true ⟨r, rfl⟩ (Option.eq_none_iff_forall_ne_some.mpr hno)
  | error cause =>
    rw [(apply_eq_error_iff h e cause).mp happly]
    simp

theorem run_eq_self_of_refused (e : Edit) (h : ¬ (e.run p).1.Accepted) : (e.run p).2 = p := by
  rcases e.run_cases p with ⟨r, hr, -⟩ | ⟨_, -, hp⟩
  · exact absurd (accepted_run_iff.mpr ⟨r, hr⟩) h
  · exact hp

/-- Whatever is wrong with its arguments, an edit of a program that can be reached is refused for the
first fault and leaves the program as it was. -/
theorem refused_for_first_fault {p : Program} (h : p.Reachable) (e : Edit) : e.RefusedForFirstFault p where
  error_iff cause := by
    rw [← apply_eq_error_iff h.consistent, run]
    cases e.apply p <;> simp [Except.map]
  accepted_iff := by
    rw [accepted_run_iff_faults h.consistent, faults_eq_nil_iff]
  in_place := ⟨_, rfl, InPlace.perform_eq p e⟩
  unchanged hno := by
    rw [InPlace.perform_eq]
    exact e.run_eq_self_of_refused hno
  session_unchanged s n hn hno := by
    rw [Session.step_edit hn] at hno ⊢
    obtain ⟨hlt, rfl⟩ := Array.getElem?_eq_some_iff.mp hn
    rw [e.run_eq_self_of_refused hno]
    simp [Array.setIfInBounds, hlt]

/-- Three faults at once: the variable is told, then the constraint, then NaN. -/
theorem threefold_fault_refused :
    (faults Program.sample (.addConstraintTerm (.ofIndex 4) (0.0 / 0.0) (.ofIndex 9)) =
      [.unknownVariable (.ofIndex 9), .unknownConstraint (.ofIndex 4), .term .nanCoefficient]) ∧
    RefusedForFirstFault Program.sample (.addConstraintTerm (.ofIndex 4) (0.0 / 0.0) (.ofIndex 9)) :=
  ⟨by decide +kernel, refused_for_first_fault ((Program.Reachable.empty.runAll _).copy.runAll _) _⟩

end Edit
end MixedProgram
