import MixedProgram.Proofs.Program.Slot

/-! How many terms a program has.
Every addition is one more raw term; merged terms are counted by listing the keys whose sums are left. -/
namespace MixedProgram

section Sums
variable {α : Type}

theorem foldl_add_eq_sum (f : α → ℕ) (xs : List α) (k : ℕ) :
    xs.foldl (fun n x => n + f x) k = k + (xs.map f).sum := by
  induction xs generalizing k with
  | nil => rfl
  | cons x xs ih => simp [ih, Nat.add_assoc]

theorem sum_map_modify {f : α → ℕ} {g : α → α} (h : ∀ x, f (g x) = f x + 1) {xs : List α} {i : ℕ}
    (hi : i < xs.length) : ((xs.modify i g).map f).sum = (xs.map f).sum + 1 := by
  induction xs generalizing i with
  | nil => simp at hi
  | cons x xs ih =>
    cases i with
    | zero =>
      simp only [List.modify_zero_cons, List.map_cons, List.sum_cons, h]
      omega
    | succ i =>
      simp only [List.modify_succ_cons, List.map_cons, List.sum_cons, ih (Nat.lt_of_succ_lt_succ hi)]
      omega

end Sums

namespace Form
variable {κ : Type} [DecidableEq κ] {f : Form κ}

/-- The keys that occur have a number of terms each, which do not cancel, and the others have none. -/
structure Occurring (f : Form κ) (occurs : κ → Prop) (times : ℕ) : Prop where
  definitions : ∀ key, occurs key → f.definitions key = times
  total : ∀ key, occurs key → (f.total key == 0.0) = false
  absent : ∀ key, ¬ occurs key → f.definitions key = 0

variable [Ord κ] [Std.TransOrd κ] [Std.LawfulEqOrd κ]

/-- The canonical terms of a form are as many as the keys whose sums are not zero. -/
theorem length_canonical_eq {keys : List κ} (hnodup : keys.Nodup)
    (hkeys : ∀ key, key ∈ keys ↔ (f.total key == 0.0) = false) : f.canonical.length = keys.length := by
  have hdistinct := nodup_keys_of_ascending f.canonical_ascending
  have hperm : (f.canonical.map (·.key)).Perm keys := by
    refine (List.perm_ext_iff_of_nodup hdistinct hnodup).mpr fun key => ?_
    rw [hkeys]
    exact f.mergesAsScanned.key_mem_iff key
  simpa using hperm.length_eq

theorem Occurring.length_canonical {occurs : κ → Prop} {times : ℕ} (h : f.Occurring occurs times)
    {keys : List κ} (hnodup : keys.Nodup) (hkeys : ∀ key, key ∈ keys ↔ occurs key) :
    f.canonical.length = keys.length := by
  refine length_canonical_eq hnodup fun key => ?_
  rw [hkeys]
  refine ⟨h.total key, fun hsum => ?_⟩
  by_contra habsent
  rw [total_of_definitions_eq_zero (h.absent key habsent)] at hsum
  exact absurd hsum (by decide)

end Form

namespace Program
variable (p : Program)

theorem rawTermCount_eq :
    p.rawTermCount = p.objective.linear.size + p.objective.quadratic.size
      + (p.constraints.toList.map (·.form.size)).sum := by
  rw [rawTermCount, ← Array.foldl_toList, foldl_add_eq_sum, Nat.zero_add]

theorem canonicalTermCount_eq :
    p.canonicalTermCount = p.objective.linear.canonical.length + p.objective.quadratic.canonical.length
      + (p.constraints.toList.map (·.form.canonical.length)).sum := by
  rw [canonicalTermCount, ← Array.foldl_toList, foldl_add_eq_sum, Nat.zero_add]

end Program

namespace Edit
variable {p : Program} {e : Edit} {es : List Edit}

theorem AddsTo.rawTermCount_run (h : e.AddsTo p) (hx : e.coefficient.isNaN = false) :
    (e.run p).2.rawTermCount = p.rawTermCount + 1 := by
  obtain ⟨r, hr, hp⟩ := h.apply_eq hx
  rw [hp, Program.rawTermCount_eq, Program.rawTermCount_eq]
  cases h with
  | constraint con x var hv hc => cases hr with
    | addConstraintTerm =>
      have hlt : con.index < p.constraints.toList.length := by
        simpa [Program.hasConstraint] using hc
      have hsum := sum_map_modify (f := fun c : Constraint => c.form.size) (g := (·.append ⟨var, x⟩))
        (fun c => Form.size_append c.form ⟨var, x⟩) hlt
      simp only [Program.appendToConstraint, Array.toList_modify, hsum]
      omega
  | linear x var => cases hr with
    | addObjectiveTerm =>
      simp only [Program.appendLinear, Objective.appendLinear, Form.size_append]
      omega
  | quadratic x a b => cases hr with
    | addQuadraticTerm =>
      simp only [Program.appendQuadratic, Objective.appendQuadratic, Form.size_append]
      omega

theorem Additions.rawTermCount_runAll (h : Additions p es) :
    (runAll p es).2.rawTermCount = p.rawTermCount + es.length := by
  induction es generalizing p with
  | nil => rfl
  | cons e es ih =>
    obtain ⟨hadds, hx⟩ := h e List.mem_cons_self
    rw [runAll_cons, ih h.tail, hadds.rawTermCount_run hx, List.length_cons]
    omega

end Edit
end MixedProgram
