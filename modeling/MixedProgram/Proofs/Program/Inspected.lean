import MixedProgram.Proofs.Program.Consistent

/-! What a snapshot shows.
Options leave views out and hide term lists, and change nothing else. Without options a snapshot shows every
entity, with the sums that scanning the terms finds. -/
namespace MixedProgram

/-- The terms are all sums of a form that are not zero, in the order of their keys. -/
structure Form.Listed {κ : Type} [DecidableEq κ] [Ord κ] (f : Form κ) (ts : List (Term κ)) : Prop where
  ascending : ts.Pairwise fun s t => compare s.key t.key = .lt
  key_mem_iff : ∀ key, key ∈ ts.map (·.key) ↔ ((f.aggregate key).term.coefficient == 0.0) = false
  term_eq : ∀ t ∈ ts, t = (f.aggregate t.key).term

theorem Form.listed_canonical {κ : Type} [DecidableEq κ] [Ord κ] [Std.TransOrd κ] [Std.LawfulEqOrd κ]
    (f : Form κ) : f.Listed f.canonical where
  ascending := f.canonical_ascending
  key_mem_iff := f.mergesAsScanned.key_mem_iff
  term_eq t ht := by
    have hcoefficient := f.mergesAsScanned.coefficient_eq t ht
    obtain ⟨key, x⟩ := t
    exact congrArg (Term.mk key) hcoefficient

/-- A view without its terms; their number stays. -/
def ConstraintView.withoutTerms (c : ConstraintView) : ConstraintView := { c with terms := none }

/-- The view of a constraint with all its terms. -/
structure ConstraintView.Shows (view : ConstraintView) (c : Constraint) : Prop where
  id : view.id = c.id
  terms : ∃ ts, view.terms = some ts ∧ view.nnz = ts.length ∧ c.form.Listed ts

theorem passes_eq_decide {e : Entity} (filter : Option (List (EntityId e))) (id : EntityId e) :
    passes filter id = decide (∀ ids ∈ filter, id ∈ ids) := by
  cases filter with
  | none => simp [passes]
  | some ids => simp [passes]

namespace Snapshot

/-- The snapshot is another one with views left out and, if so asked, terms hidden. -/
structure RestrictionOf (s : Snapshot) (options : InspectOptions) (full : Snapshot) : Prop where
  vars : s.vars = full.vars.filter fun v => ∀ ids ∈ options.vars, v.id ∈ ids
  constraints : s.constraints =
    (full.constraints.filter fun c => ∀ ids ∈ options.constraints, c.id ∈ ids).map fun c =>
      if options.includeTerms then c else c.withoutTerms
  objective : s.objective = full.objective
  counts : s.counts = full.counts

/-- The snapshot shows every entity of a program in the order of creation, and all sums. -/
structure ShowsAll (s : Snapshot) (p : Program) : Prop where
  var_ids : s.vars.map (·.id) = (List.range p.vars.size).map .ofIndex
  constraint_ids : s.constraints.map (·.id) = (List.range p.constraints.size).map .ofIndex
  constraints : List.Forall₂ ConstraintView.Shows s.constraints p.constraints.toList
  objective_terms : p.objective.linear.Listed s.objective.terms
  objective_quadraticTerms : p.objective.quadratic.Listed s.objective.quadraticTerms
  counts : s.counts = ⟨p.vars.size, p.constraints.size, s.objective.terms.length,
    s.objective.quadraticTerms.length⟩

end Snapshot

namespace Program
variable {p : Program}

theorem vars_inspect (p : Program) (options : InspectOptions) : (p.inspect options).vars =
    (p.vars.toList.map p.viewVariable).filter fun v => ∀ ids ∈ options.vars, v.id ∈ ids := by
  rw [List.filter_map]
  simp only [inspect, passes_eq_decide]
  rfl

/-- Hiding terms is the last thing done to a view. -/
theorem viewConstraint_eq_comp (p : Program) (includeTerms : Bool) : p.viewConstraint includeTerms =
    (fun c => if includeTerms then c else c.withoutTerms) ∘ p.viewConstraint true := by
  funext c
  cases includeTerms <;> rfl

theorem constraints_inspect (p : Program) (options : InspectOptions) : (p.inspect options).constraints =
    ((p.constraints.toList.map (p.viewConstraint true)).filter fun c =>
      ∀ ids ∈ options.constraints, c.id ∈ ids).map fun c =>
        if options.includeTerms then c else c.withoutTerms := by
  rw [List.filter_map, List.map_map, ← viewConstraint_eq_comp]
  simp only [inspect, passes_eq_decide]
  rfl

theorem vars_inspect_default (p : Program) : (p.inspect {}).vars = p.vars.toList.map p.viewVariable := by
  simp [vars_inspect]

theorem constraints_inspect_default (p : Program) :
    (p.inspect {}).constraints = p.constraints.toList.map (p.viewConstraint true) := by
  simp [constraints_inspect]

theorem restrictionOf_inspect (p : Program) (options : InspectOptions) :
    (p.inspect options).RestrictionOf options (p.inspect {}) where
  vars := by rw [vars_inspect_default, vars_inspect]
  constraints := by rw [constraints_inspect_default, constraints_inspect]
  objective := rfl
  counts := rfl

theorem shows_viewConstraint (p : Program) (c : Constraint) : (p.viewConstraint true c).Shows c where
  id := rfl
  terms := ⟨c.form.canonical, rfl, rfl, c.form.listed_canonical⟩

theorem Consistent.map_vars_id (h : p.Consistent) :
    p.vars.toList.map (·.id) = (List.range p.vars.size).map .ofIndex := by
  refine List.ext_getElem (by simp) fun i hi _ => ?_
  simpa using h.variable_id i (by simpa using hi)

theorem Consistent.map_constraints_id (h : p.Consistent) :
    p.constraints.toList.map (·.id) = (List.range p.constraints.size).map .ofIndex := by
  refine List.ext_getElem (by simp) fun i hi _ => ?_
  simpa using h.constraint_id i (by simpa using hi)

theorem Consistent.showsAll_inspect (h : p.Consistent) : (p.inspect {}).ShowsAll p where
  var_ids := by
    rw [vars_inspect_default, List.map_map, ← h.map_vars_id]
    rfl
  constraint_ids := by
    rw [constraints_inspect_default, List.map_map, ← h.map_constraints_id]
    rfl
  constraints := by
    rw [constraints_inspect_default, List.forall₂_map_left_iff, List.forall₂_same]
    exact fun c _ => p.shows_viewConstraint c
  objective_terms := p.objective.linear.listed_canonical
  objective_quadraticTerms := p.objective.quadratic.listed_canonical
  counts := rfl

/-- There are as many ids as numbers that fit a word. -/
theorem nodup_map_ofIndex {e : Entity} {n : ℕ} (hn : n ≤ UInt32.size) :
    ((List.range n).map (.ofIndex : ℕ → EntityId e)).Nodup := by
  refine List.nodup_range.map_on fun i hi j hj hij => ?_
  rw [List.mem_range] at hi hj
  rw [← EntityId.index_ofIndex (e := e) (hi.trans_le hn), hij, EntityId.index_ofIndex (hj.trans_le hn)]

/-- Options only restrict: what they let through is what an unrestricted snapshot shows, and that one shows
everything. -/
theorem options_only_restrict {p : Program} (h : p.Reachable) (options : InspectOptions) :
    (p.inspect options).RestrictionOf options (p.inspect {}) ∧ (p.inspect {}).ShowsAll p ∧
    (p.vars.size ≤ UInt32.size → ((p.inspect options).vars.map (·.id)).Nodup) ∧
    (p.constraints.size ≤ UInt32.size → ((p.inspect options).constraints.map (·.id)).Nodup) := by
  have hrestricts := p.restrictionOf_inspect options
  have hshows := h.consistent.showsAll_inspect
  refine ⟨hrestricts, hshows, fun hv => ?_, fun hc => ?_⟩
  · have hnodup := nodup_map_ofIndex (e := .var) hv
    rw [← hshows.var_ids] at hnodup
    rw [hrestricts.vars]
    exact hnodup.sublist (List.filter_sublist.map _)
  · have hnodup := nodup_map_ofIndex (e := .con) hc
    rw [← hshows.constraint_ids] at hnodup
    have hids : (p.inspect options).constraints.map (·.id) =
        ((p.inspect {}).constraints.filter fun c => ∀ ids ∈ options.constraints, c.id ∈ ids).map (·.id) := by
      rw [hrestricts.constraints, List.map_map]
      refine List.map_congr_left fun c _ => ?_
      rw [Function.comp_apply]
      split_ifs <;> rfl
    rw [hids]
    exact hnodup.sublist (List.filter_sublist.map _)

/-- Filters in no order, with a repetition and with ids that nothing has; terms are hidden. -/
def selective : InspectOptions :=
  ⟨false, some [.ofIndex 2, .ofIndex 0, .ofIndex 2, .ofIndex 9], some [.ofIndex 4, .ofIndex 0]⟩

theorem reachable_sample : sample.Reachable := (Reachable.empty.runAll _).copy.runAll _

theorem size_sample : sample.vars.size = 3 ∧ sample.constraints.size = 1 := by decide +kernel

theorem sample_options_only_restrict :
    (sample.inspect selective).vars.map (·.id) = [.ofIndex 0, .ofIndex 2] ∧
    (sample.inspect selective).RestrictionOf selective (sample.inspect {}) ∧
      (sample.inspect {}).ShowsAll sample ∧
    ((sample.inspect selective).vars.map (·.id)).Nodup ∧
      ((sample.inspect selective).constraints.map (·.id)).Nodup := by
  have hids : (sample.inspect selective).vars.map (·.id) = [.ofIndex 0, .ofIndex 2] := by decide +kernel
  obtain ⟨hrestricts, hshows, hvars, hconstraints⟩ := options_only_restrict reachable_sample selective
  refine ⟨hids, hrestricts, hshows, hvars ?_, hconstraints ?_⟩
  · rw [size_sample.1]; decide
  · rw [size_sample.2]; decide

end Program
end MixedProgram
