import MixedProgram.Proofs.Form.Definitions
import MixedProgram.Proofs.Program.Indistinguishable
import MixedProgram.Proofs.Program.Replay

/-! Where added terms go.
A slot is one key of one form of a program. An addition changes the tally of its own slot and nothing
else, so that after a list of additions the tally of a slot depends only on the additions to it. -/
namespace MixedProgram

/-- A key of the form of a constraint, which is given by its place, or of a form of the objective. -/
inductive Slot
  | constraint (place : Nat) (var : VarId)
  | linear (var : VarId)
  | quadratic (pair : VarPair)
  deriving DecidableEq

/-- The slot to which an edit adds a coefficient. -/
def Edit.slot? : Edit → Option Slot
  | addConstraintTerm con _ var => some (.constraint con.index var)
  | addObjectiveTerm _ var => some (.linear var)
  | addQuadraticTerm _ a b => some (.quadratic (.of a b))
  | _ => none

namespace Program

/-- There is no tally where there is no constraint. -/
def tally? (p : Program) : Slot → Option Tally
  | .constraint place var => p.constraints[place]?.map (·.form.tally var)
  | .linear var => some (p.objective.linear.tally var)
  | .quadratic pair => some (p.objective.quadratic.tally pair)

section Additions
variable (p : Program) (s : Slot)

theorem tally?_appendToConstraint (con : ConId) (t : LinearTerm) :
    (p.appendToConstraint con t).tally? s =
      if .constraint con.index t.key = s then (p.tally? s).map (·.add t.coefficient) else p.tally? s := by
  cases s with
  | constraint place var =>
    simp only [tally?, appendToConstraint, Array.getElem?_modify, Slot.constraint.injEq]
    by_cases hplace : con.index = place
    · by_cases hvar : t.key = var <;>
        cases p.constraints[place]? <;> simp [hplace, hvar, Constraint.append, Form.tally_append]
    · simp [hplace]
  | linear var => simp [tally?, appendToConstraint]
  | quadratic pair => simp [tally?, appendToConstraint]

theorem tally?_appendLinear (t : LinearTerm) :
    (p.appendLinear t).tally? s =
      if .linear t.key = s then (p.tally? s).map (·.add t.coefficient) else p.tally? s := by
  cases s with
  | linear var =>
    by_cases hvar : t.key = var <;>
      simp [tally?, appendLinear, Objective.appendLinear, Form.tally_append, hvar]
  | _ => simp [tally?, appendLinear, Objective.appendLinear]

theorem tally?_appendQuadratic (t : QuadraticTerm) :
    (p.appendQuadratic t).tally? s =
      if .quadratic t.key = s then (p.tally? s).map (·.add t.coefficient) else p.tally? s := by
  cases s with
  | quadratic pair =>
    by_cases hpair : t.key = pair <;>
      simp [tally?, appendQuadratic, Objective.appendQuadratic, Form.tally_append, hpair]
  | _ => simp [tally?, appendQuadratic, Objective.appendQuadratic]

end Additions

/-- All but the terms of forms is the same. -/
structure SameFrame (p q : Program) : Prop where
  vars : p.vars = q.vars
  heads : p.constraints.map (fun c => (c.id, c.relation, c.rhs)) =
    q.constraints.map fun c => (c.id, c.relation, c.rhs)
  direction : p.objective.direction = q.objective.direction
  variable_notes : p.variableNotes = q.variableNotes
  constraint_notes : p.constraintNotes = q.constraintNotes

variable {p q r : Program}

theorem SameFrame.refl (p : Program) : p.SameFrame p := ⟨rfl, rfl, rfl, rfl, rfl⟩

theorem SameFrame.symm (h : p.SameFrame q) : q.SameFrame p :=
  ⟨h.vars.symm, h.heads.symm, h.direction.symm, h.variable_notes.symm, h.constraint_notes.symm⟩

theorem SameFrame.trans (hpq : p.SameFrame q) (hqr : q.SameFrame r) : p.SameFrame r :=
  ⟨hpq.vars.trans hqr.vars, hpq.heads.trans hqr.heads, hpq.direction.trans hqr.direction,
    hpq.variable_notes.trans hqr.variable_notes, hpq.constraint_notes.trans hqr.constraint_notes⟩

theorem SameFrame.sameShape (h : p.SameFrame q) : p.SameShape q :=
  ⟨congrArg Array.size h.vars, by simpa using congrArg Array.size h.heads⟩

theorem sameFrame_appendToConstraint (p : Program) (con : ConId) (t : LinearTerm) :
    p.SameFrame (p.appendToConstraint con t) := by
  refine ⟨rfl, ?_, rfl, rfl, rfl⟩
  refine Array.ext (by simp [appendToConstraint]) fun i _ _ => ?_
  simp only [appendToConstraint, Array.getElem_map, Array.getElem_modify]
  split_ifs <;> rfl

/-- Programs with one frame and the same sums have the same copy. -/
theorem SameFrame.copy_eq (h : p.SameFrame q) (htally : ∀ s, p.tally? s = q.tally? s) :
    p.copy = q.copy := by
  apply copy_eq_copy
  case hvars => rw [h.vars]
  case hconstraints =>
    refine Array.ext_getElem? fun i => ?_
    have hhead := congrArg (·[i]?) h.heads
    have hsum := fun var => htally (.constraint i var)
    simp only [tally?, Array.getElem?_map] at hhead hsum ⊢
    cases hp : p.constraints[i]? with
    | none =>
      rw [hp] at hhead
      rw [Option.map_eq_none_iff.mp hhead.symm]
    | some c =>
      rw [hp] at hhead hsum
      obtain ⟨d, hq, hhead⟩ := Option.map_eq_some_iff.mp hhead.symm
      simp only [hq, Option.map_some, Option.some.injEq] at hsum ⊢
      obtain ⟨hid, hrelation, hrhs⟩ : d.id = c.id ∧ d.relation = c.relation ∧ d.rhs = c.rhs := by
        simpa using hhead
      have hform : c.form.canonicalized = d.form.canonicalized :=
        Form.canonicalized_congr fun var => congrArg Tally.sum (hsum var)
      simp [Constraint.canonicalized, hid, hrelation, hrhs, hform]
  case hobjective =>
    have hlinear : p.objective.linear.canonicalized = q.objective.linear.canonicalized :=
      Form.canonicalized_congr fun var => congrArg Tally.sum (Option.some.inj (htally (.linear var)))
    have hquadratic : p.objective.quadratic.canonicalized = q.objective.quadratic.canonicalized :=
      Form.canonicalized_congr fun pair => congrArg Tally.sum (Option.some.inj (htally (.quadratic pair)))
    rw [Objective.canonicalized, Objective.canonicalized, h.direction, hlinear, hquadratic]
  case hvariables => exact h.variable_notes
  case hnotes => exact h.constraint_notes

end Program

namespace Edit
variable {p : Program} {e : Edit}

theorem AddsTo.apply_eq (h : e.AddsTo p) (hx : e.coefficient.isNaN = false) :
    ∃ r, e.Accepted p r ∧ (e.run p).2 = r.2 := by
  rcases e.run_cases p with ⟨r, hr, hp⟩ | ⟨cause, hr, -⟩
  · exact ⟨r, apply_eq_ok.mp hr, hp⟩
  · obtain ⟨r, hok⟩ := accepted_run_iff.mp (h.accepted_iff.mpr hx)
    rw [hr] at hok
    cases hok

theorem AddsTo.sameFrame (h : e.AddsTo p) : p.SameFrame (e.run p).2 := by
  rcases e.run_cases p with ⟨r, hr, hp⟩ | ⟨_, -, hp⟩ <;> rw [hp]
  · cases h with
    | constraint => cases apply_eq_ok.mp hr with
      | addConstraintTerm => exact p.sameFrame_appendToConstraint _ _
    | linear => cases apply_eq_ok.mp hr with
      | addObjectiveTerm => exact ⟨rfl, rfl, rfl, rfl, rfl⟩
    | quadratic => cases apply_eq_ok.mp hr with
      | addQuadraticTerm => exact ⟨rfl, rfl, rfl, rfl, rfl⟩
  · exact .refl p

/-- An addition counts in its own slot. -/
theorem AddsTo.tally?_run (h : e.AddsTo p) (hx : e.coefficient.isNaN = false) (s : Slot) :
    (e.run p).2.tally? s =
      if e.slot? = some s then (p.tally? s).map (·.add e.coefficient) else p.tally? s := by
  obtain ⟨r, hr, hp⟩ := h.apply_eq hx
  rw [hp]
  cases h with
  | constraint con x var => cases hr with
    | addConstraintTerm => simp [Program.tally?_appendToConstraint, slot?, coefficient]
  | linear x var => cases hr with
    | addObjectiveTerm => simp [Program.tally?_appendLinear, slot?, coefficient]
  | quadratic x a b => cases hr with
    | addQuadraticTerm => simp [Program.tally?_appendQuadratic, slot?, coefficient]

/-- The coefficients that are added to a slot, in their order. -/
def addedTo (s : Slot) (es : List Edit) : List Float :=
  (es.filter (·.slot? = some s)).map (·.coefficient)

/-- Additions that are accepted one after another. -/
def Additions (p : Program) (es : List Edit) : Prop :=
  ∀ e ∈ es, e.AddsTo p ∧ e.coefficient.isNaN = false

variable {es : List Edit}

theorem Additions.congr {q : Program} (h : Additions p es) (hs : p.SameShape q) : Additions q es :=
  fun e he => ⟨(h e he).1.congr hs, (h e he).2⟩

theorem Additions.tail (h : Additions p (e :: es)) : Additions (e.run p).2 es :=
  Additions.congr (fun e' he' => h e' (List.mem_cons_of_mem e he')) (h e List.mem_cons_self).1.sameShape

theorem Additions.accepted (h : Additions p es) : ∀ reply ∈ (runAll p es).1, reply.Accepted :=
  (forall_accepted_iff fun e he => (h e he).1).mpr fun e he => (h e he).2

/-- Edits with a slot that have all been accepted were additions from the start. -/
theorem additions_of_accepted (hslot : ∀ e ∈ es, e.slot?.isSome = true)
    (hok : ∀ reply ∈ (runAll p es).1, reply.Accepted) : Additions p es := by
  induction es generalizing p with
  | nil => exact fun e he => absurd he List.not_mem_nil
  | cons e es ih =>
    rw [runAll_cons, List.forall_mem_cons] at hok
    rw [List.forall_mem_cons] at hslot
    obtain ⟨r, hr⟩ := accepted_run_iff.mp hok.1
    have hadds : e.AddsTo p := by
      cases apply_eq_ok.mp hr with
      | addConstraintTerm con x var hv hc => exact .constraint con x var hv hc
      | addObjectiveTerm x var hv => exact .linear x var hv
      | addQuadraticTerm x a b ha hb => exact .quadratic x a b ha hb
      | _ => exact absurd hslot.1 (by simp [slot?])
    have hshape : (e.run p).2.SameShape p := hadds.sameFrame.symm.sameShape
    refine List.forall_mem_cons.mpr ⟨⟨hadds, hadds.accepted_iff.mp hok.1⟩, ?_⟩
    exact (ih hslot.2 hok.2).congr hshape

theorem Additions.sameFrame (h : Additions p es) : p.SameFrame (runAll p es).2 := by
  induction es generalizing p with
  | nil => exact .refl p
  | cons e es ih => exact (h e List.mem_cons_self).1.sameFrame.trans (ih h.tail)

/-- After a run of additions a slot has what it had and what was added to it, in that order. -/
theorem Additions.tally?_runAll (h : Additions p es) (s : Slot) :
    (runAll p es).2.tally? s = (p.tally? s).map ((addedTo s es).foldl Tally.add) := by
  induction es generalizing p with
  | nil => simp [addedTo]
  | cons e es ih =>
    obtain ⟨hadds, hx⟩ := h e List.mem_cons_self
    rw [runAll_cons, ih h.tail, hadds.tally?_run hx]
    by_cases hs : e.slot? = some s
    · simp [addedTo, hs, Function.comp_def]
    · simp [addedTo, hs]

end Edit
end MixedProgram
