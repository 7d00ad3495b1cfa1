import MixedProgram.Proofs.Form.Numeric
import MixedProgram.Proofs.Program.Consistent

/-! Adding the terms of a program once more.
A replay of terms is accepted on every program of the same shape when no coefficient is NaN, and only
then. -/
namespace MixedProgram

/-- There is an answer, and it is not a refusal. -/
def Reply.Accepted (r : Reply) : Prop := ∃ a, r.result = some (.ok a)

/-- As many variables and as many constraints. -/
structure Program.SameShape (p q : Program) : Prop where
  vars : p.vars.size = q.vars.size
  constraints : p.constraints.size = q.constraints.size

namespace Edit

/-- Adds a term to a form that exists, with variables that exist. -/
inductive AddsTo (p : Program) : Edit → Prop
  | constraint (con x var) (hv : p.hasVariable var = true) (hc : p.hasConstraint con = true) :
    AddsTo p (.addConstraintTerm con x var)
  | linear (x var) (hv : p.hasVariable var = true) : AddsTo p (.addObjectiveTerm x var)
  | quadratic (x a b) (ha : p.hasVariable a = true) (hb : p.hasVariable b = true) :
    AddsTo p (.addQuadraticTerm x a b)

def coefficient : Edit → Float
  | addConstraintTerm _ x _ => x
  | addObjectiveTerm x _ => x
  | addQuadraticTerm x _ _ => x
  | _ => 0.0

variable {p q : Program} {e : Edit}

theorem AddsTo.congr (h : e.AddsTo p) (hs : p.SameShape q) : e.AddsTo q := by
  have hvar : ∀ id, q.hasVariable id = p.hasVariable id := by simp [Program.hasVariable, hs.vars]
  have hcon : ∀ id, q.hasConstraint id = p.hasConstraint id := by
    simp [Program.hasConstraint, hs.constraints]
  cases h with
  | constraint con x var hv hc => exact .constraint con x var ((hvar var).trans hv) ((hcon con).trans hc)
  | linear x var hv => exact .linear x var ((hvar var).trans hv)
  | quadratic x a b ha hb => exact .quadratic x a b ((hvar a).trans ha) ((hvar b).trans hb)

theorem accepted_run_iff : (e.run p).1.Accepted ↔ ∃ r, e.apply p = .ok r := by
  unfold run Reply.Accepted
  cases e.apply p with
  | ok r => simp [Except.map]
  | error cause => simp [Except.map]

theorem AddsTo.accepted_iff (h : e.AddsTo p) : (e.run p).1.Accepted ↔ e.coefficient.isNaN = false := by
  rw [accepted_run_iff]
  simp only [apply_eq_ok]
  cases h with
  | constraint con x var hv hc =>
    constructor
    · rintro ⟨_, ⟨⟩⟩
      assumption
    · exact fun hx => ⟨_, .addConstraintTerm con x var hv hc hx⟩
  | linear x var hv =>
    constructor
    · rintro ⟨_, ⟨⟩⟩
      assumption
    · exact fun hx => ⟨_, .addObjectiveTerm x var hv hx⟩
  | quadratic x a b ha hb =>
    constructor
    · rintro ⟨_, ⟨⟩⟩
      assumption
    · exact fun hx => ⟨_, .addQuadraticTerm x a b ha hb hx⟩

theorem AddsTo.sameShape (h : e.AddsTo p) : p.SameShape (e.run p).2 := by
  rcases e.run_cases p with ⟨r, hr, hp⟩ | ⟨_, -, hp⟩ <;> rw [hp]
  · cases h with
    | constraint => cases apply_eq_ok.mp hr with
      | addConstraintTerm => exact ⟨rfl, by simp [Program.appendToConstraint]⟩
    | linear => cases apply_eq_ok.mp hr with
      | addObjectiveTerm => exact ⟨rfl, rfl⟩
    | quadratic => cases apply_eq_ok.mp hr with
      | addQuadraticTerm => exact ⟨rfl, rfl⟩
  · exact ⟨rfl, rfl⟩

/-- Added terms do not get in each other's way, so a list of them is accepted when each one is. -/
theorem forall_accepted_iff {es : List Edit} (h : ∀ e ∈ es, e.AddsTo p) :
    (∀ reply ∈ (runAll p es).1, reply.Accepted) ↔ ∀ e ∈ es, e.coefficient.isNaN = false := by
  induction es generalizing p with
  | nil => simp
  | cons e es ih =>
    have he := h e List.mem_cons_self
    have hes : ∀ e' ∈ es, e'.AddsTo (e.run p).2 := fun e' he' =>
      (h e' (List.mem_cons_of_mem e he')).congr he.sameShape
    rw [runAll_cons, List.forall_mem_cons, List.forall_mem_cons, he.accepted_iff, ih hes]

end Edit

namespace Program
variable {p q : Program}

/-- The edits that add the terms of a program once more; on a copy these are the canonical terms. -/
def replay (p : Program) : List Edit :=
  p.objective.linear.terms.toList.map (fun t => .addObjectiveTerm t.coefficient t.key)
    ++ p.objective.quadratic.terms.toList.map
      (fun t => .addQuadraticTerm t.coefficient t.key.first t.key.second)
    ++ p.constraints.toList.flatMap fun c =>
      c.form.terms.toList.map fun t => .addConstraintTerm c.id t.coefficient t.key

theorem Consistent.addsTo_of_mem_replay (h : p.Consistent) {e : Edit} (he : e ∈ p.replay) : e.AddsTo p := by
  simp only [replay, List.mem_append, List.mem_map, List.mem_flatMap, Array.mem_toList_iff] at he
  rcases he with (⟨t, ht, rfl⟩ | ⟨t, ht, rfl⟩) | ⟨c, hc, t, ht, rfl⟩
  · exact .linear _ _ (h.linear_keys t ht)
  · exact .quadratic _ _ _ (h.quadratic_keys t ht).1 (h.quadratic_keys t ht).2
  · refine .constraint _ _ _ (h.constraint_keys c hc t ht) ?_
    obtain ⟨i, hi, rfl⟩ := Array.mem_iff_getElem.mp hc
    rw [h.constraint_id i hi, hasConstraint, decide_eq_true_eq]
    exact (EntityId.index_ofIndex_le i).trans_lt hi

/-- No coefficient of a program is NaN, of the terms as added or as merged. -/
structure Numeric (p : Program) : Prop where
  constraints : ∀ c ∈ p.constraints, c.form.Numeric
  linear : p.objective.linear.Numeric
  quadratic : p.objective.quadratic.Numeric

theorem forall_mem_replay_iff {P : Float → Prop} :
    (∀ e ∈ p.replay, P e.coefficient) ↔ (∀ c ∈ p.constraints, ∀ t ∈ c.form.terms, P t.coefficient) ∧
      (∀ t ∈ p.objective.linear.terms, P t.coefficient) ∧
      ∀ t ∈ p.objective.quadratic.terms, P t.coefficient := by
  simp only [replay, List.mem_append, List.mem_map, List.mem_flatMap, Array.mem_toList_iff]
  constructor
  · intro h
    refine ⟨fun c hc t ht => ?_, fun t ht => ?_, fun t ht => ?_⟩
    · exact h _ (.inr ⟨c, hc, t, ht, rfl⟩)
    · exact h _ (.inl (.inl ⟨t, ht, rfl⟩))
    · exact h _ (.inl (.inr ⟨t, ht, rfl⟩))
  · rintro ⟨hc, hl, hq⟩ e ((⟨t, ht, rfl⟩ | ⟨t, ht, rfl⟩) | ⟨c, hmem, t, ht, rfl⟩)
    · exact hl t ht
    · exact hq t ht
    · exact hc c hmem t ht

/-- A program is free of NaN when its terms, as added and as merged, can be added again. -/
theorem Consistent.numeric_iff_replay (h : p.Consistent) (hs : p.SameShape q) :
    p.Numeric ↔ (∀ reply ∈ (Edit.runAll q p.replay).1, reply.Accepted) ∧
      ∀ reply ∈ (Edit.runAll q p.copy.replay).1, reply.Accepted := by
  have hcopy : p.copy.SameShape q := ⟨by simp [hs.vars], by simp [hs.constraints]⟩
  rw [Edit.forall_accepted_iff fun e he => (h.addsTo_of_mem_replay he).congr hs,
    Edit.forall_accepted_iff fun e he => (h.copy.addsTo_of_mem_replay he).congr hcopy,
    forall_mem_replay_iff (P := fun x => x.isNaN = false),
    forall_mem_replay_iff (P := fun x => x.isNaN = false)]
  constructor
  · intro hn
    refine ⟨⟨fun c hc => (hn.constraints c hc).added, hn.linear.added, hn.quadratic.added⟩, ?_, ?_, ?_⟩
    · intro c hc t ht
      obtain ⟨d, hd, rfl⟩ := Array.mem_map.mp hc
      exact (hn.constraints d hd).merged t (Form.mem_terms_canonicalized.mp ht)
    · exact fun t ht => hn.linear.merged t (Form.mem_terms_canonicalized.mp ht)
    · exact fun t ht => hn.quadratic.merged t (Form.mem_terms_canonicalized.mp ht)
  · rintro ⟨⟨hc, hl, hq⟩, hcc, hcl, hcq⟩
    refine ⟨fun c hmem => ⟨hc c hmem, fun t ht => ?_⟩, ⟨hl, fun t ht => ?_⟩, ⟨hq, fun t ht => ?_⟩⟩
    · exact hcc c.canonicalized (Array.mem_map.mpr ⟨c, hmem, rfl⟩) t (Form.mem_terms_canonicalized.mpr ht)
    · exact hcl t (Form.mem_terms_canonicalized.mpr ht)
    · exact hcq t (Form.mem_terms_canonicalized.mpr ht)

end Program
end MixedProgram
