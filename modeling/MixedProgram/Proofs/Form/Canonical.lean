import MixedProgram.Objective
import MixedProgram.Proofs.Number.Addition

/-! The two readings of a form agree.
Scanning adds every coefficient of one key, merging leaves out zero coefficients and treats all keys at
once. The sums are the same because no partial sum is the negative zero. -/
namespace MixedProgram
namespace Form
open Number
variable {κ : Type}

/-- Every form arises from the empty one by appending terms. -/
theorem append_induction {P : Form κ → Prop} (empty : P {})
    (append : ∀ f t, P f → P (f.append t)) (f : Form κ) : P f := by
  obtain ⟨⟨ts⟩⟩ := f
  induction ts using List.reverseRecOn with
  | nil => exact empty
  | append_singleton ts t ih => simpa [Form.append] using append _ t ih

section Scan
variable [DecidableEq κ]

@[simp] theorem total_empty (key : κ) : ({} : Form κ).total key = 0.0 := rfl

theorem total_append (f : Form κ) (t : Term κ) (key : κ) :
    (f.append t).total key = if t.key = key then f.total key + t.coefficient else f.total key := by
  simp [total]

/-- A total adds up the coefficients of its own key and no others. -/
theorem total_eq_foldl (f : Form κ) (key : κ) :
    f.total key = ((f.terms.toList.filter (·.key = key)).map (·.coefficient)).foldl (· + ·) 0.0 := by
  induction f using append_induction with
  | empty => rfl
  | append f t ih =>
    rw [total_append]
    by_cases h : t.key = key <;> simp [h, ih]

theorem total_ne_neg_zero (f : Form κ) (key : κ) : f.total key ≠ -0.0 := by
  induction f using append_induction with
  | empty => exact zero_ne_neg_zero
  | append f t ih =>
    rw [total_append]
    split_ifs
    · exact add_ne_neg_zero ih _
    · exact ih

/-- A sum that counts as zero is the positive zero. -/
theorem total_eq_zero {f : Form κ} {key : κ} (h : (f.total key == 0.0) = true) : f.total key = 0.0 :=
  eq_zero_of_beq_zero (f.total_ne_neg_zero key) h

end Scan

section Merge
variable [Ord κ]

@[simp] theorem sums_append (f : Form κ) (t : Term κ) :
    (f.append t).sums = mergeTerm f.sums t := by
  simp [sums]

theorem mem_terms_canonicalized {f : Form κ} {t : Term κ} :
    t ∈ f.canonicalized.terms ↔ t ∈ f.canonical := by
  simp [canonicalized]

variable [Std.TransOrd κ]

/-- Canonical terms stand in the order of their keys, each key once. -/
theorem canonical_ascending (f : Form κ) :
    f.canonical.Pairwise fun s t => compare s.key t.key = .lt := by
  refine List.Pairwise.filterMap _ ?_ f.sums.ordered_keys_toList
  rintro ⟨k, x⟩ ⟨l, y⟩ hlt s hs t ht
  dsimp only at hs ht
  split_ifs at hs ht
  obtain rfl := Option.some.inj hs
  obtain rfl := Option.some.inj ht
  exact hlt

/-- Where keys ascend no key stands twice. -/
theorem nodup_keys_of_ascending {ts : List (Term κ)}
    (h : ts.Pairwise fun s t => compare s.key t.key = .lt) : (ts.map (·.key)).Nodup := by
  refine List.pairwise_map.mpr (h.imp ?_)
  rintro s t hlt heq
  rw [heq] at hlt
  simp at hlt

theorem canonical_nodup (f : Form κ) : f.canonical.Nodup :=
  (nodup_keys_of_ascending f.canonical_ascending).of_map

variable [DecidableEq κ] [Std.LawfulEqOrd κ]

/-- The entry of a key is its total; a key without an entry has total zero. -/
theorem getD_sums (f : Form κ) (key : κ) : f.sums[key]?.getD 0.0 = f.total key := by
  induction f using append_induction with
  | empty => simp [sums]
  | append f t ih =>
    rw [sums_append, total_append, mergeTerm]
    by_cases hc : (t.coefficient == 0.0) = true
    · rw [if_pos hc, ih, add_of_beq_zero (f.total_ne_neg_zero key) hc, ite_self]
    · rw [if_neg hc, Std.TreeMap.getElem?_alter]
      by_cases hk : t.key = key
      · subst hk
        simp [ih]
      · simp [hk, ih]

theorem mem_canonical_iff (f : Form κ) (t : Term κ) :
    t ∈ f.canonical ↔ t.coefficient = f.total t.key ∧ (f.total t.key == 0.0) = false := by
  have hsum := f.getD_sums t.key
  have hmem : t ∈ f.canonical ↔
      f.sums[t.key]? = some t.coefficient ∧ (t.coefficient == 0.0) = false := by
    rw [canonical, List.mem_filterMap]
    constructor
    · rintro ⟨⟨key, sum⟩, hk, hs⟩
      dsimp only at hs
      split_ifs at hs with hz
      obtain rfl := Option.some.inj hs
      exact ⟨Std.TreeMap.mem_toList_iff_getElem?_eq_some.mp hk, by simpa using hz⟩
    · rintro ⟨hk, hz⟩
      exact ⟨(t.key, t.coefficient), Std.TreeMap.mem_toList_iff_getElem?_eq_some.mpr hk, by simp [hz]⟩
  rw [hmem, ← hsum]
  cases f.sums[t.key]? with
  | none =>
    simp [zero_beq_zero]
  | some sum =>
    simp only [Option.some.injEq, Option.getD_some]
    constructor
    · rintro ⟨rfl, hz⟩; exact ⟨rfl, hz⟩
    · rintro ⟨rfl, hz⟩; exact ⟨rfl, hz⟩

/-- The keys of the canonical terms are keys of added terms. -/
theorem exists_key_of_mem_canonical {f : Form κ} {t : Term κ} (ht : t ∈ f.canonical) :
    ∃ s ∈ f.terms, s.key = t.key := by
  by_contra hno
  have hnil : f.terms.toList.filter (·.key = t.key) = [] := by
    refine List.filter_eq_nil_iff.mpr fun s hs hk => ?_
    exact hno ⟨s, by simpa using hs, by simpa using hk⟩
  have hne := ((mem_canonical_iff f t).mp ht).2
  rw [total_eq_foldl, hnil] at hne
  exact absurd hne (by simp [zero_beq_zero])

/-- Totals determine the canonical terms, so forms with the same totals are merged alike. -/
theorem canonical_congr {f g : Form κ} (h : ∀ key, f.total key = g.total key) :
    f.canonical = g.canonical := by
  have hperm : f.canonical.Perm g.canonical := by
    refine (List.perm_ext_iff_of_nodup f.canonical_nodup g.canonical_nodup).mpr fun t => ?_
    rw [mem_canonical_iff, mem_canonical_iff, h]
  have hanti : ∀ s t : Term κ, s ∈ f.canonical → t ∈ g.canonical →
      compare s.key t.key = .lt → compare t.key s.key = .lt → s = t := by
    intro s t _ _ hst hts
    exact absurd hts (Std.OrientedCmp.not_lt_of_lt hst)
  exact List.Perm.eq_of_pairwise hanti f.canonical_ascending g.canonical_ascending hperm

/-- A key has at most one canonical term, and none when its total is zero. -/
theorem filter_canonical (f : Form κ) (key : κ) :
    f.canonical.filter (·.key = key) =
      if f.total key == 0.0 then [] else [⟨key, f.total key⟩] := by
  split_ifs with hz
  · refine List.filter_eq_nil_iff.mpr fun t ht hk => ?_
    have hk : t.key = key := by simpa using hk
    have hne := ((mem_canonical_iff f t).mp ht).2
    rw [hk, hz] at hne
    contradiction
  · refine List.perm_singleton.mp
      ((List.perm_ext_iff_of_nodup (f.canonical_nodup.filter _) (by simp)).mpr ?_)
    rintro ⟨l, x⟩
    simp only [List.mem_filter, mem_canonical_iff, List.mem_singleton, Term.mk.injEq, decide_eq_true_eq]
    constructor
    · rintro ⟨⟨rfl, -⟩, rfl⟩
      exact ⟨rfl, rfl⟩
    · rintro ⟨rfl, rfl⟩
      exact ⟨⟨rfl, by simpa using hz⟩, rfl⟩

/-- Replacing a form by its canonical terms keeps every total. -/
@[simp] theorem total_canonicalized (f : Form κ) (key : κ) :
    f.canonicalized.total key = f.total key := by
  rw [total_eq_foldl, canonicalized, filter_canonical]
  split_ifs with hz
  · exact (total_eq_zero hz).symm
  · exact zero_add_of_ne (f.total_ne_neg_zero key)

@[simp] theorem canonical_canonicalized (f : Form κ) : f.canonicalized.canonical = f.canonical :=
  canonical_congr f.total_canonicalized

/-- Merging the terms of a form agrees with scanning them for each key. -/
structure MergesAsScanned (f : Form κ) : Prop where
  ascending : f.canonical.Pairwise fun s t => compare s.key t.key = .lt
  key_mem_iff : ∀ key, key ∈ f.canonical.map (·.key) ↔
    ((f.aggregate key).term.coefficient == 0.0) = false
  coefficient_eq : ∀ t ∈ f.canonical, t.coefficient = (f.aggregate t.key).term.coefficient
  aggregate_eq : ∀ key, (f.aggregate key).term.coefficient =
    ((f.terms.toList.filter (·.key = key)).map (·.coefficient)).foldl (· + ·) 0.0

theorem mergesAsScanned (f : Form κ) : f.MergesAsScanned where
  ascending := f.canonical_ascending
  key_mem_iff key := by
    rw [List.mem_map]
    constructor
    · rintro ⟨t, ht, rfl⟩
      exact ((mem_canonical_iff f t).mp ht).2
    · intro hne
      exact ⟨⟨key, f.total key⟩, (mem_canonical_iff f _).mpr ⟨rfl, hne⟩, rfl⟩
  coefficient_eq t ht := ((mem_canonical_iff f t).mp ht).1
  aggregate_eq := f.total_eq_foldl

end Merge
end Form

namespace Objective

theorem isQuadratic_iff (o : Objective) :
    o.isQuadratic = true ↔ ∃ pair, (o.quadratic.total pair == 0.0) = false := by
  have hmem : o.isQuadratic = true ↔ o.quadratic.canonical ≠ [] := by simp [isQuadratic]
  rw [hmem]
  constructor
  · intro h
    obtain ⟨t, ht⟩ := List.exists_mem_of_ne_nil _ h
    exact ⟨t.key, ((Form.mem_canonical_iff _ t).mp ht).2⟩
  · rintro ⟨pair, hne⟩
    exact List.ne_nil_of_mem
      ((Form.mem_canonical_iff _ ⟨pair, o.quadratic.total pair⟩).mpr ⟨rfl, hne⟩)

end Objective

/-- Both ways of reading a form agree for every form there is, linear or quadratic. An objective is
quadratic just when some product has a coefficient left, in whichever order its variables are given. -/
theorem merging_agrees_with_scanning :
    (∀ f : LinearForm, f.MergesAsScanned) ∧ (∀ f : QuadraticForm, f.MergesAsScanned) ∧
    (∀ (o : Objective) (a b : VarId),
      o.quadratic.aggregate (VarPair.of a b) = o.quadratic.aggregate (VarPair.of b a)) ∧
    ∀ o : Objective, o.isQuadratic = true ↔
      ∃ a b, ((o.quadratic.aggregate (VarPair.of a b)).term.coefficient == 0.0) = false := by
  refine ⟨Form.mergesAsScanned, Form.mergesAsScanned, ?_, ?_⟩
  · intro o a b
    rw [VarPair.of_comm]
  · intro o
    rw [o.isQuadratic_iff]
    constructor
    · rintro ⟨pair, hne⟩
      exact ⟨pair.first, pair.second, by rw [VarPair.of_first_second]; exact hne⟩
    · rintro ⟨a, b, hne⟩
      exact ⟨VarPair.of a b, hne⟩

end MixedProgram
