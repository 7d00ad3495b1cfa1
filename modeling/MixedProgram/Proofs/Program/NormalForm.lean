import MixedProgram.Proofs.Program.Slot

/-! The normal form that a copy has.
In a normal form every term stands for the sum of its key. Merging gives a normal form and leaves one as it
is, so a copy is its own copy. -/
namespace MixedProgram

namespace Form
variable {κ : Type} [DecidableEq κ] {f : Form κ} [Ord κ]

/-- Terms stand in the order of their keys, each key once, and none is zero. -/
structure Normal (f : Form κ) : Prop where
  ascending : f.terms.toList.Pairwise fun s t => compare s.key t.key = .lt
  ne_zero : ∀ t ∈ f.terms, (t.coefficient == 0.0) = false

variable [Std.TransOrd κ]

namespace Normal

omit [DecidableEq κ] in
theorem nodup_keys (h : f.Normal) : (f.terms.toList.map (·.key)).Nodup := nodup_keys_of_ascending h.ascending

theorem definitions_le_one (h : f.Normal) (key : κ) : f.definitions key ≤ 1 := by
  rw [definitions_eq_count]
  exact List.nodup_iff_count_le_one.mp h.nodup_keys key

/-- A term is the only one with its key. -/
theorem filter_terms (h : f.Normal) {t : Term κ} (ht : t ∈ f.terms) :
    f.terms.toList.filter (·.key = t.key) = [t] := by
  have hmem : t ∈ f.terms.toList := by simpa using ht
  refine List.perm_singleton.mp
    ((List.perm_ext_iff_of_nodup (h.nodup_keys.of_map.filter _) (by simp)).mpr fun s => ?_)
  simp only [List.mem_filter, List.mem_singleton, decide_eq_true_eq]
  constructor
  · rintro ⟨hs, hkey⟩
    exact List.inj_on_of_nodup_map h.nodup_keys hs hmem hkey
  · rintro rfl
    exact ⟨hmem, rfl⟩

theorem total_eq (h : f.Normal) {t : Term κ} (ht : t ∈ f.terms) : f.total t.key = t.coefficient := by
  have hne : t.coefficient ≠ -0.0 := by
    intro hzero
    have hcoefficient := h.ne_zero t ht
    rw [hzero] at hcoefficient
    exact absurd hcoefficient (by decide)
  rw [total_eq_foldl, h.filter_terms ht]
  exact Number.zero_add_of_ne hne

variable [Std.LawfulEqOrd κ]

/-- Merging a normal form changes nothing, on the lists themselves. -/
theorem canonical_eq (h : f.Normal) : f.canonical = f.terms.toList := by
  have hmem : ∀ t, t ∈ f.canonical ↔ t ∈ f.terms.toList := by
    intro t
    rw [mem_canonical_iff, Array.mem_toList_iff]
    constructor
    · rintro ⟨heq, hne⟩
      obtain ⟨s, hs, hkey⟩ := exists_key_of_mem_canonical ((mem_canonical_iff f t).mpr ⟨heq, hne⟩)
      have hst : s = t := by
        obtain ⟨l, x⟩ := t
        obtain rfl : s.key = l := hkey
        obtain rfl : x = f.total s.key := heq
        rw [h.total_eq hs]
      exact hst ▸ hs
    · intro ht
      rw [h.total_eq ht]
      exact ⟨rfl, h.ne_zero t ht⟩
  have hperm : f.canonical.Perm f.terms.toList :=
    (List.perm_ext_iff_of_nodup f.canonical_nodup h.nodup_keys.of_map).mpr hmem
  refine List.Perm.eq_of_pairwise (fun s t _ _ hst hts => ?_) f.canonical_ascending h.ascending hperm
  exact absurd hts (Std.OrientedCmp.not_lt_of_lt hst)

theorem definitions_eq_one_iff (h : f.Normal) (key : κ) :
    f.definitions key = 1 ↔ key ∈ f.canonical.map (·.key) := by
  rw [definitions_eq_count, h.canonical_eq]
  constructor
  · intro hcount
    exact List.count_pos_iff.mp (by omega)
  · exact List.count_eq_one_of_mem h.nodup_keys

end Normal

/-- A form is normal, and it is what merging makes of another one. -/
structure NormalFormOf (g f : Form κ) : Prop where
  normal : g.Normal
  distinct : (g.terms.toList.map (·.key)).Nodup
  terms_eq : g.terms.toList = f.canonical
  canonical_eq : g.canonical = g.terms.toList
  definitions_le_one : ∀ key, (g.aggregate key).definitions ≤ 1
  definitions_eq_one_iff : ∀ key, (g.aggregate key).definitions = 1 ↔ key ∈ g.canonical.map (·.key)
  sum_definitions : (g.keys.map fun key => (g.aggregate key).definitions).sum = g.size
  total_eq : ∀ key, (g.aggregate key).term = (f.aggregate key).term

variable [Std.LawfulEqOrd κ]

theorem normal_canonicalized (f : Form κ) : f.canonicalized.Normal where
  ascending := f.canonical_ascending
  ne_zero t ht := by
    obtain ⟨heq, hne⟩ := (mem_canonical_iff f t).mp (mem_terms_canonicalized.mp ht)
    rw [heq]
    exact hne

theorem normalFormOf_canonicalized (f : Form κ) : f.canonicalized.NormalFormOf f where
  normal := f.normal_canonicalized
  distinct := f.normal_canonicalized.nodup_keys
  terms_eq := rfl
  canonical_eq := f.normal_canonicalized.canonical_eq
  definitions_le_one := f.normal_canonicalized.definitions_le_one
  definitions_eq_one_iff := f.normal_canonicalized.definitions_eq_one_iff
  sum_definitions := f.canonicalized.sum_definitions
  total_eq key := congrArg (Term.mk key) (f.total_canonicalized key)

end Form

/-- Copying puts every form of a program into its normal form, and a copy is its own copy. -/
theorem copy_normalizes (p : Program) :
    List.Forall₂ (fun d c : Constraint => d.form.NormalFormOf c.form) p.copy.constraints.toList
      p.constraints.toList ∧
    p.copy.objective.linear.NormalFormOf p.objective.linear ∧
    p.copy.objective.quadratic.NormalFormOf p.objective.quadratic ∧
    p.copy.copy = p.copy := by
  refine ⟨?_, Form.normalFormOf_canonicalized _, Form.normalFormOf_canonicalized _, p.copy_copy⟩
  rw [Program.constraints_copy, Array.toList_map, List.forall₂_map_left_iff, List.forall₂_same]
  exact fun c _ => c.form.normalFormOf_canonicalized

end MixedProgram
