import MixedProgram.Proofs.Program.Indistinguishable

/-! What is created stays as it was created.
Edits only append, and a copy creates every entity again in its place. So an id finds the same entity at any
later time, in the program it was created in and in all copies and copies of copies. -/
namespace MixedProgram

theorem getElem?_of_prefix {α : Type} {xs ys : List α} (h : xs <+: ys) {i : Nat} {x : α}
    (hx : xs[i]? = some x) : ys[i]? = some x := by
  obtain ⟨hi, rfl⟩ := List.getElem?_eq_some_iff.mp hx
  exact List.prefix_iff_getElem?.mp h i hi

/-- What is fixed about a constraint when it is created. -/
def Constraint.head (c : Constraint) : ConId × Relation × Float := (c.id, c.relation, c.rhs)

@[simp] theorem Constraint.head_canonicalized (c : Constraint) : c.canonicalized.head = c.head := rfl

/-- The terms of the second form begin with those of the first. -/
def Form.Extends {κ : Type} (f g : Form κ) : Prop := f.terms.toList <+: g.terms.toList

theorem Form.Extends.refl {κ : Type} (f : Form κ) : f.Extends f := List.prefix_rfl

theorem Form.Extends.trans {κ : Type} {f g h : Form κ} (hfg : f.Extends g) (hgh : g.Extends h) :
    f.Extends h :=
  List.IsPrefix.trans hfg hgh

theorem Form.extends_append {κ : Type} (f : Form κ) (t : Term κ) : f.Extends (f.append t) := by
  simp [Form.Extends]

namespace Program
variable {p q r : Program}

/-- The entities of the second program begin with those of the first, as they were created. -/
structure Keeps (p q : Program) : Prop where
  vars : p.vars.toList <+: q.vars.toList
  constraints : p.constraints.toList.map Constraint.head <+: q.constraints.toList.map Constraint.head

/-- The second program goes on from the first: its entities and the terms of each of its forms begin with
those of the first. -/
structure Extends (p q : Program) : Prop extends Keeps p q where
  row : ∀ (place : Nat) (c : Constraint), p.constraints[place]? = some c →
    ∃ d : Constraint, q.constraints[place]? = some d ∧ c.form.Extends d.form
  linear : p.objective.linear.Extends q.objective.linear
  quadratic : p.objective.quadratic.Extends q.objective.quadratic

theorem Keeps.refl (p : Program) : p.Keeps p := ⟨List.prefix_rfl, List.prefix_rfl⟩

theorem Keeps.trans (hpq : p.Keeps q) (hqr : q.Keeps r) : p.Keeps r :=
  ⟨hpq.vars.trans hqr.vars, hpq.constraints.trans hqr.constraints⟩

theorem Extends.refl (p : Program) : p.Extends p :=
  ⟨.refl p, fun _ c hc => ⟨c, hc, .refl c.form⟩, .refl _, .refl _⟩

theorem Extends.trans (hpq : p.Extends q) (hqr : q.Extends r) : p.Extends r where
  toKeeps := hpq.toKeeps.trans hqr.toKeeps
  row place c hc := by
    obtain ⟨d, hd, hcd⟩ := hpq.row place c hc
    obtain ⟨e, he, hde⟩ := hqr.row place d hd
    exact ⟨e, he, hcd.trans hde⟩
  linear := hpq.linear.trans hqr.linear
  quadratic := hpq.quadratic.trans hqr.quadratic

section Changes
variable (p)

theorem extends_addVariable (domain : Domain) : p.Extends (p.addVariable domain).2 :=
  { Extends.refl p with vars := by simp [addVariable] }

theorem extends_pushConstraint (relation : Relation) (rhs : Float) :
    p.Extends (p.pushConstraint relation rhs) where
  vars := List.prefix_rfl
  constraints := by simp [pushConstraint]
  row place c hc := by
    obtain ⟨hlt, rfl⟩ := Array.getElem?_eq_some_iff.mp hc
    refine ⟨p.constraints[place], ?_, .refl _⟩
    simp [pushConstraint, Array.getElem?_push, hlt.ne]
  linear := .refl _
  quadratic := .refl _

theorem extends_appendToConstraint (con : ConId) (t : LinearTerm) :
    p.Extends (p.appendToConstraint con t) where
  vars := List.prefix_rfl
  constraints := by
    have hheads : (p.appendToConstraint con t).constraints.map Constraint.head =
        p.constraints.map Constraint.head := by
      refine Array.ext (by simp [appendToConstraint]) fun i _ _ => ?_
      simp only [appendToConstraint, Array.getElem_map, Array.getElem_modify]
      split_ifs <;> rfl
    rw [← Array.toList_map, ← Array.toList_map, hheads]
  row place c hc := by
    simp only [appendToConstraint, Array.getElem?_modify, hc]
    split_ifs
    · exact ⟨c.append t, rfl, c.form.extends_append t⟩
    · exact ⟨c, rfl, .refl _⟩
  linear := .refl _
  quadratic := .refl _

theorem extends_appendLinear (t : LinearTerm) : p.Extends (p.appendLinear t) :=
  { Extends.refl p with linear := p.objective.linear.extends_append t }

theorem extends_appendQuadratic (t : QuadraticTerm) : p.Extends (p.appendQuadratic t) :=
  { Extends.refl p with quadratic := p.objective.quadratic.extends_append t }

end Changes

/-- An edit takes nothing away, whether it is accepted or refused. -/
theorem extends_run (p : Program) (e : Edit) : p.Extends (e.run p).2 := by
  rcases e.run_cases p with ⟨s, hs, hq⟩ | ⟨_, -, hq⟩ <;> rw [hq]
  · cases Edit.apply_eq_ok.mp hs with
    | addFloat | addInt | addBool => exact p.extends_addVariable _
    | addConstraint relation rhs => exact p.extends_pushConstraint relation rhs
    | addConstraintTerm con x var => exact p.extends_appendToConstraint con ⟨var, x⟩
    | addObjectiveTerm x var => exact p.extends_appendLinear ⟨var, x⟩
    | addQuadraticTerm x a b => exact p.extends_appendQuadratic ⟨.of a b, x⟩
    | setDirection | nameVariable | noteVariable | nameConstraint | noteConstraint =>
      exact { Extends.refl p with }
  · exact .refl p

/-- A copy merges terms, but it has all entities of the program in their places. -/
theorem Consistent.keeps_copy (h : p.Consistent) : p.Keeps p.copy where
  vars := by rw [h.vars_copy]
  constraints := by simp [Function.comp_def]

section Lookup

theorem Keeps.getVariable_eq_ok (h : p.Keeps q) {id : VarId} {v : Variable} (hv : p.getVariable id = .ok v) :
    q.getVariable id = .ok v := by
  rw [Program.getVariable_eq_ok, ← Array.getElem?_toList] at hv ⊢
  exact getElem?_of_prefix h.vars hv

theorem Keeps.exists_getConstraint (h : p.Keeps q) {id : ConId} {c : Constraint}
    (hc : p.getConstraint id = .ok c) : ∃ d, q.getConstraint id = .ok d ∧ d.head = c.head := by
  simp only [getConstraint_eq_ok, ← Array.getElem?_toList] at hc ⊢
  have hhead : (p.constraints.toList.map Constraint.head)[id.index]? = some c.head := by
    rw [List.getElem?_map, hc]
    rfl
  have hkept := getElem?_of_prefix h.constraints hhead
  rw [List.getElem?_map] at hkept
  exact Option.map_eq_some_iff.mp hkept

end Lookup
end Program

namespace Edit

/-- What the variable ranges over that an edit creates. -/
def domain? : Edit → Option Domain
  | addFloat lower upper => some (.float lower upper)
  | addInt lower upper => some (.int lower upper)
  | addBool => some .bool
  | _ => none

open Program in
/-- The answer of an edit that creates a variable is the id under which the variable is found. -/
theorem getVariable_created {p : Program} {e : Edit} {id : VarId} {r : Answer × Program}
    (he : e.apply p = .ok r) (hid : r.1 = .variableId id) (hsize : p.vars.size < UInt32.size) :
    ∃ domain, e.domain? = some domain ∧ r.2.getVariable id = .ok ⟨id, domain⟩ := by
  have hfound : ∀ domain, (p.addVariable domain).2.getVariable (.ofIndex p.vars.size) =
      .ok ⟨.ofIndex p.vars.size, domain⟩ := fun domain => by
    rw [getVariable_eq_ok, EntityId.index_ofIndex hsize]
    simp [addVariable]
  cases apply_eq_ok.mp he with
  | addFloat | addInt | addBool =>
    obtain rfl := Answer.variableId.inj hid
    exact ⟨_, rfl, hfound _⟩
  | _ => cases hid

open Program in
theorem getConstraint_created {p : Program} {relation : Relation} {rhs : Float} {id : ConId}
    {r : Answer × Program} (he : (addConstraint relation rhs).apply p = .ok r)
    (hid : r.1 = .constraintId id) (hsize : p.constraints.size < UInt32.size) :
    r.2.getConstraint id = .ok ⟨id, relation, rhs, {}⟩ := by
  cases apply_eq_ok.mp he with
  | addConstraint =>
    obtain rfl := Answer.constraintId.inj hid
    rw [getConstraint_eq_ok, EntityId.index_ofIndex hsize]
    simp [pushConstraint]

end Edit

namespace Session
variable {s t : Session} {n k : Nat} {p : Program}

/-- A command can do no more to a program than edit it. -/
theorem getElem?_step (h : s.programs[n]? = some p) (c : Command) :
    (s.step c).2.programs[n]? = some p ∨ ∃ e : Edit, (s.step c).2.programs[n]? = some (e.run p).2 := by
  have hpush : ∀ q, (s.push q).programs[n]? = some p := fun q => by
    rw [push, Array.getElem?_push, if_neg (Array.getElem?_eq_some_iff.mp h).1.ne, h]
  cases c with
  | create => exact .inl (hpush {})
  | edit m e =>
    rw [programs_step_edit, Array.getElem?_modify, h]
    split_ifs
    · exact .inr ⟨e, rfl⟩
    · exact .inl rfl
  | ask m q =>
    rw [step]
    rcases s.withProgram_cases m _ with ⟨_, -, hact⟩ | ⟨-, hact⟩ <;> rw [hact] <;> exact .inl h
  | inspect m options =>
    rw [step]
    rcases s.withProgram_cases m _ with ⟨_, -, hact⟩ | ⟨-, hact⟩ <;> rw [hact] <;> exact .inl h
  | copy m =>
    rw [step]
    rcases s.withProgram_cases m _ with ⟨q, -, hact⟩ | ⟨-, hact⟩ <;> rw [hact]
    · exact .inl (hpush q.copy)
    · exact .inl h

theorem exists_extends_step (h : s.programs[n]? = some p) (c : Command) :
    ∃ q, (s.step c).2.programs[n]? = some q ∧ p.Extends q := by
  rcases getElem?_step h c with hq | ⟨e, hq⟩
  · exact ⟨p, hq, .refl p⟩
  · exact ⟨_, hq, p.extends_run e⟩

/-- However a run goes on, its programs only grow. -/
theorem exists_extends_run (h : s.programs[n]? = some p) (cs : List Command) :
    ∃ q, (s.run cs).2.programs[n]? = some q ∧ p.Extends q := by
  induction cs generalizing s p with
  | nil => exact ⟨p, h, .refl p⟩
  | cons c cs ih =>
    obtain ⟨q, hq, hpq⟩ := exists_extends_step h c
    obtain ⟨r, hr, hqr⟩ := ih hq
    exact ⟨r, hr, hpq.trans hqr⟩

theorem programs_step_copy (h : s.programs[n]? = some p) :
    (s.step (.copy n)).2.programs = s.programs.push p.copy := by
  simp [step, withProgram, h, push]

/-- From program `n` of a session stem that program at all later times, its copies, and what stems from
those. -/
inductive Stems (s : Session) (n : Nat) : Session → Nat → Prop
  | self : Stems s n s n
  | later {u : Session} {m : Nat} (h : Stems s n u m) (c : Command) : Stems s n (u.step c).2 m
  | copy {u : Session} {m : Nat} (h : Stems s n u m) : Stems s n (u.step (.copy m)).2 u.programs.size

theorem Stems.exists_run (h : Stems s n t k) : ∃ cs, t = (s.run cs).2 := by
  induction h with
  | self => exact ⟨[], rfl⟩
  | later _ c ih =>
    obtain ⟨cs, rfl⟩ := ih
    exact ⟨cs ++ [c], by simp [run_append, run_cons]⟩
  | @copy _ k _ ih =>
    obtain ⟨cs, rfl⟩ := ih
    exact ⟨cs ++ [.copy k], by simp [run_append, run_cons]⟩

/-- All that stems from a program has its entities. -/
theorem Stems.keeps (h : Stems s n t k) (hs : ∃ cs, s = (run {} cs).2) (hp : s.programs[n]? = some p) :
    ∃ q, t.programs[k]? = some q ∧ p.Keeps q := by
  induction h with
  | self => exact ⟨p, hp, .refl p⟩
  | later _ c ih =>
    obtain ⟨q, hq, hpq⟩ := ih
    obtain ⟨r, hr, hqr⟩ := exists_extends_step hq c
    exact ⟨r, hr, hpq.trans hqr.toKeeps⟩
  | copy h ih =>
    obtain ⟨q, hq, hpq⟩ := ih
    obtain ⟨cs, rfl⟩ := hs
    obtain ⟨ds, rfl⟩ := h.exists_run
    have hreach : q.Reachable := ⟨cs ++ ds, by rw [run_append]; exact Array.mem_of_getElem? hq⟩
    exact ⟨q.copy, by rw [programs_step_copy hq]; simp, hpq.trans hreach.consistent.keeps_copy⟩

theorem apply_of_result (h : s.programs[n]? = some p) {e : Edit} {a : Answer}
    (ha : (s.step (.edit n e)).1.result = some (.ok a)) :
    ∃ r, e.apply p = .ok r ∧ r.1 = a ∧ (s.step (.edit n e)).2.programs[n]? = some r.2 := by
  rw [step_edit h] at ha ⊢
  obtain ⟨r, hr, rfl⟩ := map_eq_ok.mp (Option.some.inj ha)
  refine ⟨r, hr, rfl, ?_⟩
  simp [Edit.run, hr, (Array.getElem?_eq_some_iff.mp h).1]

/-- What program `n` holds, and what it is given next, stays in it and in all that stems from it. -/
structure Permanent (s : Session) (n : Nat) (p : Program) : Prop where
  extended : ∀ cs, ∃ q, (s.run cs).2.programs[n]? = some q ∧ p.Extends q
  kept : ∀ t k, Stems s n t k → ∃ q, t.programs[k]? = some q ∧ p.Keeps q ∧
    (∀ id v, p.getVariable id = .ok v → q.getVariable id = .ok v) ∧
    ∀ id c, p.getConstraint id = .ok c → ∃ d, q.getConstraint id = .ok d ∧ d.head = c.head
  created_variable : ∀ e id, (s.step (.edit n e)).1.result = some (.ok (.variableId id)) →
    p.vars.size < UInt32.size → ∃ domain, e.domain? = some domain ∧
      ∀ t k, Stems (s.step (.edit n e)).2 n t k →
        ∃ q, t.programs[k]? = some q ∧ q.getVariable id = .ok ⟨id, domain⟩
  created_constraint : ∀ relation rhs id,
    (s.step (.edit n (.addConstraint relation rhs))).1.result = some (.ok (.constraintId id)) →
    p.constraints.size < UInt32.size → ∀ t k, Stems (s.step (.edit n (.addConstraint relation rhs))).2 n t k →
      ∃ q c, t.programs[k]? = some q ∧ q.getConstraint id = .ok c ∧ c.head = (id, relation, rhs)

end Session

/-- Nothing that a run of commands has put into a program is lost or renumbered by what follows, in the
program itself and in copies of any order. -/
theorem permanent_run (cs : List Command) {n : Nat} {p : Program}
    (h : (Session.run {} cs).2.programs[n]? = some p) : (Session.run {} cs).2.Permanent n p := by
  have hnext : ∀ c : Command, ∃ ds, ((Session.run {} cs).2.step c).2 = (Session.run {} ds).2 := fun c =>
    ⟨cs ++ [c], by simp [Session.run_append, Session.run_cons]⟩
  constructor
  case extended => exact Session.exists_extends_run h
  case kept =>
    intro t k hstems
    obtain ⟨q, hq, hkeeps⟩ := hstems.keeps ⟨cs, rfl⟩ h
    exact ⟨q, hq, hkeeps, fun _ _ => hkeeps.getVariable_eq_ok, fun _ _ => hkeeps.exists_getConstraint⟩
  case created_variable =>
    intro e id hresult hsize
    obtain ⟨r, hr, hid, hn⟩ := Session.apply_of_result h hresult
    obtain ⟨domain, hdomain, hget⟩ := Edit.getVariable_created hr hid hsize
    refine ⟨domain, hdomain, fun t k hstems => ?_⟩
    obtain ⟨q, hq, hkeeps⟩ := hstems.keeps (hnext _) hn
    exact ⟨q, hq, hkeeps.getVariable_eq_ok hget⟩
  case created_constraint =>
    intro relation rhs id hresult hsize t k hstems
    obtain ⟨r, hr, hid, hn⟩ := Session.apply_of_result h hresult
    have hget := Edit.getConstraint_created hr hid hsize
    obtain ⟨q, hq, hkeeps⟩ := hstems.keeps (hnext _) hn
    obtain ⟨c, hc, hhead⟩ := hkeeps.exists_getConstraint hget
    exact ⟨q, c, hq, hc, hhead⟩

/-- A bool variable and a row. -/
def Command.opening : List Command := [.edit 0 .addBool, .edit 0 (.addConstraint .equal 1.5)]

/-- The session after one more variable, a copy, and a copy of the copy. -/
def Session.copiedTwice : Session :=
  (Session.run {} (Command.opening ++ [.edit 0 (.addInt (-3) 5), .copy 0, .copy 1])).2

theorem permanent_copied_twice :
    ∃ p, (Session.run {} Command.opening).2.programs[0]? = some p ∧
      (Session.run {} Command.opening).2.Permanent 0 p ∧
      ∃ q, Session.copiedTwice.programs[2]? = some q ∧
        q.getVariable (.ofIndex 1) = .ok ⟨.ofIndex 1, .int (-3) 5⟩ := by
  have hpermanent := permanent_run Command.opening (n := 0) rfl
  refine ⟨_, rfl, hpermanent, ?_⟩
  obtain ⟨domain, hdomain, hfound⟩ :=
    hpermanent.created_variable (.addInt (-3) 5) (.ofIndex 1) rfl (by decide)
  obtain rfl := Option.some.inj hdomain
  exact hfound _ _ (.copy (.copy .self))

end MixedProgram
