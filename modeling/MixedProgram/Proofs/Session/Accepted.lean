import Mathlib
import MixedProgram.Session

/-! What an accepted edit does.
Every edit checks its arguments and then makes one change, so that a proof about edits is a case
distinction on the change. -/
namespace MixedProgram

section Success
variable {ε ε' α β : Type}

theorem bind_eq_ok {x : Except ε α} {f : α → Except ε β} {b : β} :
    (x >>= f) = .ok b ↔ ∃ a, x = .ok a ∧ f a = .ok b := by
  cases x <;> simp [bind, Except.bind]

theorem map_eq_ok {x : Except ε α} {f : α → β} {b : β} :
    x.map f = .ok b ↔ ∃ a, x = .ok a ∧ f a = b := by
  cases x <;> simp [Except.map]

theorem mapError_eq_ok {x : Except ε α} {f : ε → ε'} {a : α} : x.mapError f = .ok a ↔ x = .ok a := by
  cases x <;> simp [Except.mapError]

theorem pure_eq_ok {a b : α} : (pure a : Except ε α) = .ok b ↔ b = a := by
  simp [pure, Except.pure, eq_comm]

theorem refuse_eq_ok {c : Bool} {cause : ε} {a b : α} :
    (if c then .error cause else .ok a : Except ε α) = .ok b ↔ c = false ∧ b = a := by
  cases c <;> simp [eq_comm]

end Success

namespace Program
variable {p : Program}

theorem requireVariable_eq_ok {id : VarId} {u : Unit} :
    p.requireVariable id = .ok u ↔ p.hasVariable id = true := by
  unfold requireVariable
  split_ifs with h <;> simp [h]

theorem requireConstraint_eq_ok {id : ConId} {u : Unit} :
    p.requireConstraint id = .ok u ↔ p.hasConstraint id = true := by
  unfold requireConstraint
  split_ifs with h <;> simp [h]

theorem makeTerm_eq_ok {κ : Type} {x : Float} {key : κ} {t : Term κ} :
    makeTerm x key = .ok t ↔ x.isNaN = false ∧ t = ⟨key, x⟩ := by
  rw [makeTerm, mapError_eq_ok, Term.make, refuse_eq_ok]

theorem addFloat_eq_ok {lower upper : Float} {r : VarId × Program} :
    p.addFloat lower upper = .ok r ↔
      (lower.isNaN = false ∧ upper.isNaN = false) ∧ r = p.addVariable (.float lower upper) := by
  rw [addFloat, refuse_eq_ok, Bool.or_eq_false_iff]

/-- The program with one more constraint, still without terms. -/
def pushConstraint (p : Program) (relation : Relation) (rhs : Float) : Program :=
  { p with constraints := p.constraints.push ⟨.ofIndex p.constraints.size, relation, rhs, {}⟩ }

def appendToConstraint (p : Program) (con : ConId) (t : LinearTerm) : Program :=
  { p with constraints := p.constraints.modify con.index (·.append t) }

def appendLinear (p : Program) (t : LinearTerm) : Program :=
  { p with objective := p.objective.appendLinear t }

def appendQuadratic (p : Program) (t : QuadraticTerm) : Program :=
  { p with objective := p.objective.appendQuadratic t }

def annotateVariables (p : Program) (notes : Annotations .var) : Program :=
  { p with variableNotes := notes }

def annotateConstraints (p : Program) (notes : Annotations .con) : Program :=
  { p with constraintNotes := notes }

theorem addConstraint_eq_ok {relation : Relation} {rhs : Float} {r : ConId × Program} :
    p.addConstraint relation rhs = .ok r ↔
      rhs.isNaN = false ∧ r = (.ofIndex p.constraints.size, p.pushConstraint relation rhs) := by
  rw [addConstraint, refuse_eq_ok, pushConstraint]

theorem addConstraintTerm_eq_ok {con : ConId} {x : Float} {var : VarId} {r : LinearTerm × Program} :
    p.addConstraintTerm con x var = .ok r ↔
      p.hasVariable var = true ∧ p.hasConstraint con = true ∧ x.isNaN = false ∧
        r = (⟨var, x⟩, p.appendToConstraint con ⟨var, x⟩) := by
  simp [-bind_pure_comp, addConstraintTerm, bind_eq_ok, pure_eq_ok, requireVariable_eq_ok,
    requireConstraint_eq_ok, makeTerm_eq_ok, and_assoc, appendToConstraint]

theorem addObjectiveTerm_eq_ok {x : Float} {var : VarId} {r : LinearTerm × Program} :
    p.addObjectiveTerm x var = .ok r ↔
      p.hasVariable var = true ∧ x.isNaN = false ∧ r = (⟨var, x⟩, p.appendLinear ⟨var, x⟩) := by
  simp [-bind_pure_comp, addObjectiveTerm, bind_eq_ok, pure_eq_ok, requireVariable_eq_ok, makeTerm_eq_ok,
    and_assoc, appendLinear]

theorem addQuadraticTerm_eq_ok {x : Float} {a b : VarId} {r : QuadraticTerm × Program} :
    p.addQuadraticTerm x a b = .ok r ↔
      p.hasVariable a = true ∧ p.hasVariable b = true ∧ x.isNaN = false ∧
        r = (⟨.of a b, x⟩, p.appendQuadratic ⟨.of a b, x⟩) := by
  simp [-bind_pure_comp, addQuadraticTerm, bind_eq_ok, pure_eq_ok, requireVariable_eq_ok, makeTerm_eq_ok,
    and_assoc, appendQuadratic]

theorem nameVariable_eq_ok {id : VarId} {name : String} {q : Program} :
    p.nameVariable id name = .ok q ↔
      p.hasVariable id = true ∧ q = p.annotateVariables (p.variableNotes.rename id name) := by
  simp [-bind_pure_comp, nameVariable, bind_eq_ok, pure_eq_ok, requireVariable_eq_ok, annotateVariables]

theorem noteVariable_eq_ok {id : VarId} {note : Json} {q : Program} :
    p.noteVariable id note = .ok q ↔
      p.hasVariable id = true ∧ q = p.annotateVariables (p.variableNotes.annotate id note) := by
  simp [-bind_pure_comp, noteVariable, bind_eq_ok, pure_eq_ok, requireVariable_eq_ok, annotateVariables]

theorem nameConstraint_eq_ok {id : ConId} {name : String} {q : Program} :
    p.nameConstraint id name = .ok q ↔
      p.hasConstraint id = true ∧ q = p.annotateConstraints (p.constraintNotes.rename id name) := by
  simp [-bind_pure_comp, nameConstraint, bind_eq_ok, pure_eq_ok, requireConstraint_eq_ok, annotateConstraints]

theorem noteConstraint_eq_ok {id : ConId} {note : Json} {q : Program} :
    p.noteConstraint id note = .ok q ↔
      p.hasConstraint id = true ∧ q = p.annotateConstraints (p.constraintNotes.annotate id note) := by
  simp [-bind_pure_comp, noteConstraint, bind_eq_ok, pure_eq_ok, requireConstraint_eq_ok, annotateConstraints]

end Program

namespace Edit

/-- The conditions under which an edit is accepted, its answer and the program it leaves. -/
inductive Accepted (p : Program) : Edit → Answer × Program → Prop
  | addFloat (lower upper) (hl : lower.isNaN = false) (hu : upper.isNaN = false) :
    Accepted p (.addFloat lower upper)
      (.variableId (.ofIndex p.vars.size), (p.addVariable (.float lower upper)).2)
  | addInt (lower upper) :
    Accepted p (.addInt lower upper)
      (.variableId (.ofIndex p.vars.size), (p.addVariable (.int lower upper)).2)
  | addBool :
    Accepted p .addBool (.variableId (.ofIndex p.vars.size), (p.addVariable .bool).2)
  | addConstraint (relation rhs) (hr : rhs.isNaN = false) :
    Accepted p (.addConstraint relation rhs)
      (.constraintId (.ofIndex p.constraints.size), p.pushConstraint relation rhs)
  | addConstraintTerm (con x var) (hv : p.hasVariable var = true) (hc : p.hasConstraint con = true)
      (hx : x.isNaN = false) :
    Accepted p (.addConstraintTerm con x var)
      (.linearTerm ⟨var, x⟩, p.appendToConstraint con ⟨var, x⟩)
  | addObjectiveTerm (x var) (hv : p.hasVariable var = true) (hx : x.isNaN = false) :
    Accepted p (.addObjectiveTerm x var) (.linearTerm ⟨var, x⟩, p.appendLinear ⟨var, x⟩)
  | addQuadraticTerm (x a b) (ha : p.hasVariable a = true) (hb : p.hasVariable b = true)
      (hx : x.isNaN = false) :
    Accepted p (.addQuadraticTerm x a b)
      (.quadraticTerm ⟨.of a b, x⟩, p.appendQuadratic ⟨.of a b, x⟩)
  | setDirection (direction) : Accepted p (.setDirection direction) (.done, p.setDirection direction)
  | nameVariable (id name) (hv : p.hasVariable id = true) :
    Accepted p (.nameVariable id name)
      (.done, p.annotateVariables (p.variableNotes.rename id name))
  | noteVariable (id note) (hv : p.hasVariable id = true) :
    Accepted p (.noteVariable id note)
      (.done, p.annotateVariables (p.variableNotes.annotate id note))
  | nameConstraint (id name) (hc : p.hasConstraint id = true) :
    Accepted p (.nameConstraint id name)
      (.done, p.annotateConstraints (p.constraintNotes.rename id name))
  | noteConstraint (id note) (hc : p.hasConstraint id = true) :
    Accepted p (.noteConstraint id note)
      (.done, p.annotateConstraints (p.constraintNotes.annotate id note))

open Program in
theorem apply_eq_ok {p : Program} {e : Edit} {r : Answer × Program} :
    e.apply p = .ok r ↔ e.Accepted p r := by
  constructor
  · intro h
    cases e with
    | addFloat lower upper =>
      obtain ⟨_, hp, rfl⟩ := map_eq_ok.mp h
      obtain ⟨⟨hl, hu⟩, rfl⟩ := addFloat_eq_ok.mp hp
      exact .addFloat lower upper hl hu
    | addInt lower upper => cases h; exact .addInt lower upper
    | addBool => cases h; exact .addBool
    | addConstraint relation rhs =>
      obtain ⟨_, hp, rfl⟩ := map_eq_ok.mp h
      obtain ⟨hr, rfl⟩ := addConstraint_eq_ok.mp hp
      exact .addConstraint relation rhs hr
    | addConstraintTerm con x var =>
      obtain ⟨_, hp, rfl⟩ := map_eq_ok.mp h
      obtain ⟨hv, hc, hx, rfl⟩ := addConstraintTerm_eq_ok.mp hp
      exact .addConstraintTerm con x var hv hc hx
    | addObjectiveTerm x var =>
      obtain ⟨_, hp, rfl⟩ := map_eq_ok.mp h
      obtain ⟨hv, hx, rfl⟩ := addObjectiveTerm_eq_ok.mp hp
      exact .addObjectiveTerm x var hv hx
    | addQuadraticTerm x a b =>
      obtain ⟨_, hp, rfl⟩ := map_eq_ok.mp h
      obtain ⟨ha, hb, hx, rfl⟩ := addQuadraticTerm_eq_ok.mp hp
      exact .addQuadraticTerm x a b ha hb hx
    | setDirection direction => cases h; exact .setDirection direction
    | nameVariable id name =>
      obtain ⟨_, hp, rfl⟩ := map_eq_ok.mp h
      obtain ⟨hv, rfl⟩ := nameVariable_eq_ok.mp hp
      exact .nameVariable id name hv
    | noteVariable id note =>
      obtain ⟨_, hp, rfl⟩ := map_eq_ok.mp h
      obtain ⟨hv, rfl⟩ := noteVariable_eq_ok.mp hp
      exact .noteVariable id note hv
    | nameConstraint id name =>
      obtain ⟨_, hp, rfl⟩ := map_eq_ok.mp h
      obtain ⟨hc, rfl⟩ := nameConstraint_eq_ok.mp hp
      exact .nameConstraint id name hc
    | noteConstraint id note =>
      obtain ⟨_, hp, rfl⟩ := map_eq_ok.mp h
      obtain ⟨hc, rfl⟩ := noteConstraint_eq_ok.mp hp
      exact .noteConstraint id note hc
  · intro h
    cases h with
    | addFloat _ _ hl hu => exact map_eq_ok.mpr ⟨_, addFloat_eq_ok.mpr ⟨⟨hl, hu⟩, rfl⟩, rfl⟩
    | addInt => rfl
    | addBool => rfl
    | addConstraint _ _ hr => exact map_eq_ok.mpr ⟨_, addConstraint_eq_ok.mpr ⟨hr, rfl⟩, rfl⟩
    | addConstraintTerm _ _ _ hv hc hx =>
      exact map_eq_ok.mpr ⟨_, addConstraintTerm_eq_ok.mpr ⟨hv, hc, hx, rfl⟩, rfl⟩
    | addObjectiveTerm _ _ hv hx => exact map_eq_ok.mpr ⟨_, addObjectiveTerm_eq_ok.mpr ⟨hv, hx, rfl⟩, rfl⟩
    | addQuadraticTerm _ _ _ ha hb hx =>
      exact map_eq_ok.mpr ⟨_, addQuadraticTerm_eq_ok.mpr ⟨ha, hb, hx, rfl⟩, rfl⟩
    | setDirection => rfl
    | nameVariable _ _ hv => exact map_eq_ok.mpr ⟨_, nameVariable_eq_ok.mpr ⟨hv, rfl⟩, rfl⟩
    | noteVariable _ _ hv => exact map_eq_ok.mpr ⟨_, noteVariable_eq_ok.mpr ⟨hv, rfl⟩, rfl⟩
    | nameConstraint _ _ hc => exact map_eq_ok.mpr ⟨_, nameConstraint_eq_ok.mpr ⟨hc, rfl⟩, rfl⟩
    | noteConstraint _ _ hc => exact map_eq_ok.mpr ⟨_, noteConstraint_eq_ok.mpr ⟨hc, rfl⟩, rfl⟩

end Edit
end MixedProgram
