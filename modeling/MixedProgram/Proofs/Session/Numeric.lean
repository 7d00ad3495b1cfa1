import MixedProgram.Proofs.Program.Replay

/-! When NaN gets into a program.
No operation takes NaN for a coefficient, and yet a run has NaN in one of its programs from the first edit on
that adds an infinity to a sum that is the opposite infinity. -/
namespace MixedProgram

/-- Where a change at one place spoils a property just when a condition holds there. -/
theorem forall_mem_modify_iff {α : Type} {f : α → α} {P C : α → Prop} (hf : ∀ x, P (f x) ↔ P x ∧ ¬ C x)
    (xs : Array α) (i : Nat) :
    (∀ x ∈ xs.modify i f, P x) ↔ (∀ x ∈ xs, P x) ∧ ¬ ∃ x, xs[i]? = some x ∧ C x := by
  constructor
  · intro h
    have hmodify : ∀ j (hj : j < xs.size), P (if i = j then f xs[j] else xs[j]) := by
      intro j hj
      rw [← Array.getElem_modify (by simpa using hj)]
      exact h _ (Array.getElem_mem _)
    refine ⟨fun x hx => ?_, ?_⟩
    · obtain ⟨j, hj, rfl⟩ := Array.mem_iff_getElem.mp hx
      have hj' := hmodify j hj
      split_ifs at hj'
      · exact ((hf _).mp hj').1
      · exact hj'
    · rintro ⟨x, hx, hc⟩
      obtain ⟨hi, rfl⟩ := Array.getElem?_eq_some_iff.mp hx
      have hi' := hmodify i hi
      rw [if_pos rfl] at hi'
      exact ((hf _).mp hi').2 hc
  · rintro ⟨h, hc⟩ x hx
    obtain ⟨j, hj, rfl⟩ := Array.mem_iff_getElem.mp hx
    rw [Array.size_modify] at hj
    rw [Array.getElem_modify]
    split_ifs with hij
    · subst hij
      exact (hf _).mpr ⟨h _ (Array.getElem_mem hj), fun hcj => hc ⟨_, Array.getElem?_eq_getElem hj, hcj⟩⟩
    · exact h _ (Array.getElem_mem hj)

namespace Program
variable {p : Program}

/-- Variables, names, notes and the direction do not matter. -/
theorem numeric_congr {q : Program} (hconstraints : q.constraints = p.constraints)
    (hlinear : q.objective.linear = p.objective.linear)
    (hquadratic : q.objective.quadratic = p.objective.quadratic) : q.Numeric ↔ p.Numeric := by
  constructor
  · rintro ⟨hc, hl, hq⟩
    exact ⟨hconstraints ▸ hc, hlinear ▸ hl, hquadratic ▸ hq⟩
  · rintro ⟨hc, hl, hq⟩
    exact ⟨hconstraints ▸ hc, hlinear ▸ hl, hquadratic ▸ hq⟩

theorem numeric_pushConstraint_iff {relation : Relation} {rhs : Float} :
    (p.pushConstraint relation rhs).Numeric ↔ p.Numeric := by
  constructor
  · intro h
    exact ⟨fun c hc => h.constraints c (Array.mem_push.mpr (.inl hc)), h.linear, h.quadratic⟩
  · intro h
    refine ⟨fun c hc => ?_, h.linear, h.quadratic⟩
    rcases Array.mem_push.mp hc with hc | rfl
    · exact h.constraints c hc
    · exact Form.numeric_empty

theorem numeric_appendLinear_iff {x : Float} {var : VarId} (hx : x.isNaN = false) :
    (p.appendLinear ⟨var, x⟩).Numeric ↔ p.Numeric ∧ ¬ p.objective.linear.Clashes x var := by
  constructor
  · intro h
    obtain ⟨hl, hclash⟩ := (Form.numeric_append_iff hx).mp h.linear
    exact ⟨⟨h.constraints, hl, h.quadratic⟩, hclash⟩
  · rintro ⟨h, hclash⟩
    exact ⟨h.constraints, (Form.numeric_append_iff hx).mpr ⟨h.linear, hclash⟩, h.quadratic⟩

theorem numeric_appendQuadratic_iff {x : Float} {pair : VarPair} (hx : x.isNaN = false) :
    (p.appendQuadratic ⟨pair, x⟩).Numeric ↔ p.Numeric ∧ ¬ p.objective.quadratic.Clashes x pair := by
  constructor
  · intro h
    obtain ⟨hq, hclash⟩ := (Form.numeric_append_iff hx).mp h.quadratic
    exact ⟨⟨h.constraints, h.linear, hq⟩, hclash⟩
  · rintro ⟨h, hclash⟩
    exact ⟨h.constraints, h.linear, (Form.numeric_append_iff hx).mpr ⟨h.quadratic, hclash⟩⟩

theorem numeric_appendToConstraint_iff {con : ConId} {x : Float} {var : VarId} (hx : x.isNaN = false) :
    (p.appendToConstraint con ⟨var, x⟩).Numeric ↔
      p.Numeric ∧ ¬ ∃ c, p.constraints[con.index]? = some c ∧ c.form.Clashes x var := by
  have hone : ∀ c : Constraint, (c.append ⟨var, x⟩).form.Numeric ↔ c.form.Numeric ∧ ¬ c.form.Clashes x var :=
    fun c => Form.numeric_append_iff hx
  have hall := forall_mem_modify_iff (P := (·.form.Numeric)) hone p.constraints con.index
  constructor
  · intro h
    obtain ⟨hc, hclash⟩ := hall.mp h.constraints
    exact ⟨⟨hc, h.linear, h.quadratic⟩, hclash⟩
  · rintro ⟨h, hclash⟩
    exact ⟨hall.mpr ⟨h.constraints, hclash⟩, h.linear, h.quadratic⟩

theorem numeric_copy_iff : p.copy.Numeric ↔ p.Numeric := by
  constructor
  · intro h
    refine ⟨fun c hc => ?_, Form.numeric_canonicalized_iff.mp h.linear,
      Form.numeric_canonicalized_iff.mp h.quadratic⟩
    exact Form.numeric_canonicalized_iff.mp (h.constraints _ (Array.mem_map.mpr ⟨c, hc, rfl⟩))
  · intro h
    refine ⟨fun c hc => ?_, Form.numeric_canonicalized_iff.mpr h.linear,
      Form.numeric_canonicalized_iff.mpr h.quadratic⟩
    obtain ⟨d, hd, rfl⟩ := Array.mem_map.mp hc
    exact Form.numeric_canonicalized_iff.mpr (h.constraints d hd)

theorem numeric_empty : Numeric {} := ⟨by simp, Form.numeric_empty, Form.numeric_empty⟩

end Program

namespace Edit
variable {p : Program} {e : Edit}

/-- The edit adds an infinity to a sum that is the opposite infinity. -/
def Clashes (p : Program) : Edit → Prop
  | addConstraintTerm con x var => p.hasVariable var = true ∧
    ∃ c, p.constraints[con.index]? = some c ∧ c.form.Clashes x var
  | addObjectiveTerm x var => p.hasVariable var = true ∧ p.objective.linear.Clashes x var
  | addQuadraticTerm x a b => p.hasVariable a = true ∧ p.hasVariable b = true ∧
    p.objective.quadratic.Clashes x (.of a b)
  | _ => False

/-- A clash is no reason to refuse an edit. -/
theorem Clashes.exists_apply (h : e.Clashes p) : ∃ r, e.apply p = .ok r := by
  simp only [apply_eq_ok]
  cases e with
  | addConstraintTerm con x var =>
    obtain ⟨hv, c, hc, hclash⟩ := h
    have hcon : p.hasConstraint con = true := by
      simpa [Program.hasConstraint] using (Array.getElem?_eq_some_iff.mp hc).1
    exact ⟨_, .addConstraintTerm con x var hv hcon hclash.isNaN_eq_false⟩
  | addObjectiveTerm x var => exact ⟨_, .addObjectiveTerm x var h.1 h.2.isNaN_eq_false⟩
  | addQuadraticTerm x a b =>
    exact ⟨_, .addQuadraticTerm x a b h.1 h.2.1 h.2.2.isNaN_eq_false⟩
  | _ => cases h

theorem Clashes.isInf_coefficient (h : e.Clashes p) : e.coefficient.isInf = true := by
  cases e with
  | addConstraintTerm con x var =>
    obtain ⟨-, c, -, hclash⟩ := h
    exact hclash.isInf
  | addObjectiveTerm x var => exact h.2.isInf
  | addQuadraticTerm x a b => exact h.2.2.isInf
  | _ => cases h

theorem Accepted.numeric_iff {r : Answer × Program} (h : e.Accepted p r) :
    r.2.Numeric ↔ p.Numeric ∧ ¬ e.Clashes p := by
  have hsame : r.2.constraints = p.constraints → r.2.objective.linear = p.objective.linear →
      r.2.objective.quadratic = p.objective.quadratic → ¬ e.Clashes p →
      (r.2.Numeric ↔ p.Numeric ∧ ¬ e.Clashes p) := by
    intro hc hl hq hno
    rw [Program.numeric_congr hc hl hq, and_iff_left hno]
  cases h with
  | addConstraint => simp [Clashes, Program.numeric_pushConstraint_iff]
  | addConstraintTerm con x var hv hc hx => simp [Clashes, Program.numeric_appendToConstraint_iff hx, hv]
  | addObjectiveTerm x var hv hx => simp [Clashes, Program.numeric_appendLinear_iff hx, hv]
  | addQuadraticTerm x a b ha hb hx => simp [Clashes, Program.numeric_appendQuadratic_iff hx, ha, hb]
  | _ => exact hsame rfl rfl rfl not_false

theorem numeric_run_iff (p : Program) (e : Edit) : (e.run p).2.Numeric ↔ p.Numeric ∧ ¬ e.Clashes p := by
  rcases e.run_cases p with ⟨r, hr, hp⟩ | ⟨cause, hr, hp⟩ <;> rw [hp]
  · exact (apply_eq_ok.mp hr).numeric_iff
  · have hno : ¬ e.Clashes p := by
      intro hclash
      obtain ⟨r, hok⟩ := hclash.exists_apply
      rw [hr] at hok
      cases hok
    simp [hno]

end Edit

namespace Session

/-- The command is an edit that clashes in the program it addresses. -/
def Clashes (s : Session) : Command → Prop
  | .edit n e => ∃ p, s.programs[n]? = some p ∧ e.Clashes p
  | _ => False

/-- Some command of the run clashes when its turn comes. -/
def ClashesAlong (s : Session) (cs : List Command) : Prop :=
  ∃ before c after, cs = before ++ c :: after ∧ (s.run before).2.Clashes c

theorem not_clashesAlong_nil (s : Session) : ¬ s.ClashesAlong [] := by
  rintro ⟨before, c, after, h, -⟩
  simp at h

theorem clashesAlong_cons {s : Session} {c : Command} {cs : List Command} :
    s.ClashesAlong (c :: cs) ↔ s.Clashes c ∨ (s.step c).2.ClashesAlong cs := by
  constructor
  · rintro ⟨before, d, after, h, hclash⟩
    cases before with
    | nil =>
      obtain ⟨rfl, -⟩ := List.cons.inj h
      exact .inl hclash
    | cons b before =>
      obtain ⟨rfl, rfl⟩ := List.cons.inj h
      exact .inr ⟨before, d, after, rfl, hclash⟩
  · rintro (hclash | ⟨before, d, after, rfl, hclash⟩)
    · exact ⟨[], c, cs, rfl, hclash⟩
    · exact ⟨c :: before, d, after, rfl, hclash⟩

theorem forall_numeric_step_iff (s : Session) (c : Command) :
    (∀ q ∈ (s.step c).2.programs, q.Numeric) ↔ (∀ p ∈ s.programs, p.Numeric) ∧ ¬ s.Clashes c := by
  cases c with
  | create => simp [step, push, Clashes, or_imp, forall_and, Program.numeric_empty]
  | edit n e =>
    rw [programs_step_edit]
    exact forall_mem_modify_iff (fun p => Edit.numeric_run_iff p e) s.programs n
  | ask n q =>
    rw [step]
    rcases s.withProgram_cases n _ with ⟨p, hp, hact⟩ | ⟨-, hact⟩ <;> rw [hact] <;> simp [Clashes]
  | inspect n options =>
    rw [step]
    rcases s.withProgram_cases n _ with ⟨p, hp, hact⟩ | ⟨-, hact⟩ <;> rw [hact] <;> simp [Clashes]
  | copy n =>
    rw [step]
    rcases s.withProgram_cases n _ with ⟨p, hp, hact⟩ | ⟨-, hact⟩ <;> rw [hact]
    · have hp := Array.mem_of_getElem? hp
      simp only [push, Array.mem_push, or_imp, forall_and, forall_eq, Program.numeric_copy_iff]
      exact ⟨fun h => ⟨h.1, not_false⟩, fun h => ⟨h.1, h.1 p hp⟩⟩
    · simp [Clashes]

theorem forall_numeric_run_iff (s : Session) (cs : List Command) :
    (∀ q ∈ (s.run cs).2.programs, q.Numeric) ↔ (∀ p ∈ s.programs, p.Numeric) ∧ ¬ s.ClashesAlong cs := by
  induction cs generalizing s with
  | nil => simp [not_clashesAlong_nil]
  | cons c cs ih =>
    rw [run_cons, ih, forall_numeric_step_iff, clashesAlong_cons, not_or, and_assoc]

/-- Finite coefficients never make NaN, not even when their sums overflow and are copied. -/
theorem numeric_of_finite {cs : List Command}
    (h : ∀ n e, .edit n e ∈ cs → e.coefficient.isInf = false) :
    ∀ p ∈ (run {} cs).2.programs, p.Numeric := by
  refine (forall_numeric_run_iff {} cs).mpr ⟨?_, ?_⟩
  · intro p hp
    rw [eq_empty_of_mem hp]
    exact Program.numeric_empty
  · rintro ⟨before, c, after, rfl, hclash⟩
    cases c with
    | edit n e =>
      obtain ⟨p, -, hclash⟩ := hclash
      have hfinite := h n e (List.mem_append_right _ List.mem_cons_self)
      rw [hclash.isInf_coefficient] at hfinite
      contradiction
    | _ => exact hclash

end Session

/-- A run keeps NaN out of all programs just when no infinity meets its opposite on the way, and a program
is free of NaN just when its terms, as added and as merged, can be added to any program of its shape. -/
theorem numeric_iff_no_clash (cs : List Command) :
    ((∀ p ∈ (Session.run {} cs).2.programs, p.Numeric) ↔ ¬ Session.ClashesAlong {} cs) ∧
    ∀ p ∈ (Session.run {} cs).2.programs, ∀ q, p.SameShape q →
      (p.Numeric ↔ (∀ reply ∈ (Edit.runAll q p.replay).1, reply.Accepted) ∧
        ∀ reply ∈ (Edit.runAll q p.copy.replay).1, reply.Accepted) := by
  constructor
  · rw [Session.forall_numeric_run_iff, and_iff_right]
    intro p hp
    rw [Session.eq_empty_of_mem hp]
    exact Program.numeric_empty
  · intro p hp q hs
    exact (Program.Reachable.consistent ⟨cs, hp⟩).numeric_iff_replay hs

/-- Both infinities are accepted under one key, and the copy keeps their sum as a term of its own. -/
def Command.clashing : List Command :=
  [.edit 0 .addBool, .edit 0 (.addObjectiveTerm (1.0 / 0.0) (.ofIndex 0)),
    .edit 0 (.addObjectiveTerm (-1.0 / 0.0) (.ofIndex 0)), .copy 0]

theorem clashing_makes_nan :
    ∃ p, (Session.run {} Command.clashing).2.programs[1]? = some p ∧
      (∃ t ∈ p.objective.linear.terms, t.coefficient.isNaN = true) ∧
      (∃ t ∈ p.objective.linear.canonical, t.coefficient.isNaN = true) ∧
      ∃ reply ∈ (Edit.runAll p p.replay).1, reply.result = some (.error (.term .nanCoefficient)) := by
  refine ⟨_, rfl, ?_, ?_, ?_⟩
  · exact Array.any_eq_true'.mp (by decide +kernel)
  · exact List.any_eq_true.mp (by decide +kernel)
  · exact ⟨_, List.mem_of_getElem? (i := 0) rfl, rfl⟩

end MixedProgram
