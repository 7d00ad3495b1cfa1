import MixedProgram.Proofs.Form.Canonical
import MixedProgram.Proofs.Number.Exact

/-! Forms whose sums are exact.
Both readings of a form give the exact sum of a key when every sum on the way can be written as a finite
number. Whole numbers that stay small are the common case, and then the order of addition does not
matter. -/
namespace MixedProgram
namespace Form
open Number
variable {κ : Type} [DecidableEq κ]

/-- The coefficients of one key, in the order of addition. -/
def addends (f : Form κ) (key : κ) : List Float :=
  (f.terms.toList.filter (·.key = key)).map (·.coefficient)

/-- The rationals that the finite coefficients of one key stand for. -/
def exactAddends (f : Form κ) (key : κ) : List ℚ := (f.addends key).filterMap rational?

/-- The coefficients of one key are finite, and every sum on the way can be written as a finite number. -/
structure Unrounded (f : Form κ) (key : κ) : Prop where
  finite : ∀ x ∈ f.addends key, x.isFinite = true
  sums : ∀ n, Representable ((f.exactAddends key).take n).sum

/-- The coefficients of one key are whole numbers whose sizes add up to at most `2 ^ 53`. -/
structure SmallWhole (f : Form κ) (key : κ) : Prop where
  whole : ∀ x ∈ f.addends key, ∃ n : ℤ, rational? x = some (n : ℚ)
  small : ((f.exactAddends key).map (|·|)).sum ≤ 2 ^ 53

/-- Scanning and merging both find the given sum for a key; merging drops it just when it is zero. -/
structure SumsTo [Ord κ] (f : Form κ) (key : κ) (q : ℚ) : Prop where
  scanned : rational? (f.aggregate key).term.coefficient = some q
  merged_iff : key ∈ f.canonical.map (·.key) ↔ q ≠ 0
  merged : ∀ t ∈ f.canonical, t.key = key → rational? t.coefficient = some q

section Sums
variable {f : Form κ} {key : κ}

theorem Unrounded.rational?_total (h : f.Unrounded key) :
    rational? (f.total key) = some (f.exactAddends key).sum := by
  have hzero : rational? 0.0 = some 0 := rfl
  have hfinite : ∀ x ∈ f.addends key, ∃ q, rational? x = some q :=
    fun x hx => isFinite_iff.mp (h.finite x hx)
  have hsums : ∀ n, Representable (0 + ((f.exactAddends key).take n).sum) := by simpa using h.sums
  rw [total_eq_foldl, ← zero_add (f.exactAddends key).sum]
  exact rational?_foldl hfinite hzero hsums

/-- A total that stands for a rational is what both readings find. -/
theorem sumsTo_of_rational?_total [Ord κ] [Std.TransOrd κ] [Std.LawfulEqOrd κ] {q : ℚ}
    (h : rational? (f.total key) = some q) : f.SumsTo key q := by
  have hzero := beq_zero_iff_of_rational? h
  refine ⟨h, ?_, ?_⟩
  · rw [f.mergesAsScanned.key_mem_iff, Ne, ← hzero, Bool.not_eq_true]
    rfl
  · rintro t ht rfl
    rw [((mem_canonical_iff f t).mp ht).1]
    exact h

end Sums

section Whole
variable {f g : Form κ} {key : κ}

theorem abs_sum_take_le (qs : List ℚ) (n : ℕ) : |(qs.take n).sum| ≤ (qs.map (|·|)).sum := by
  have hnonneg : 0 ≤ ((qs.drop n).map (|·|)).sum :=
    List.sum_nonneg fun r hr => by
      obtain ⟨q, -, rfl⟩ := List.mem_map.mp hr
      exact abs_nonneg q
  calc |(qs.take n).sum| ≤ ((qs.take n).map (|·|)).sum := by
        simpa using Multiset.abs_sum_le_sum_abs (s := (qs.take n : Multiset ℚ))
    _ ≤ ((qs.take n).map (|·|)).sum + ((qs.drop n).map (|·|)).sum := le_add_of_nonneg_right hnonneg
    _ = (qs.map (|·|)).sum := by rw [List.map_take, List.map_drop, List.sum_take_add_sum_drop]

theorem SmallWhole.unrounded (h : f.SmallWhole key) : f.Unrounded key where
  finite x hx := by
    obtain ⟨n, hn⟩ := h.whole x hx
    exact isFinite_iff.mpr ⟨n, hn⟩
  sums n := by
    have hmem : ∀ q ∈ (f.exactAddends key).take n, q ∈ (Int.castAddHom ℚ).range := by
      intro q hq
      obtain ⟨x, hx, hxq⟩ := List.mem_filterMap.mp (List.mem_of_mem_take hq)
      obtain ⟨k, hk⟩ := h.whole x hx
      exact ⟨k, Option.some.inj (hk.symm.trans hxq)⟩
    obtain ⟨k, hk⟩ := AddSubgroup.list_sum_mem _ hmem
    have habs : |(k : ℚ)| ≤ 2 ^ 53 := by
      rw [show (k : ℚ) = ((f.exactAddends key).take n).sum from hk]
      exact (abs_sum_take_le _ n).trans h.small
    rw [← show (k : ℚ) = ((f.exactAddends key).take n).sum from hk]
    exact representable_iff.mpr (fitsWord_intCast (by exact_mod_cast habs))

theorem addends_perm (h : g.terms.toList.Perm f.terms.toList) (key : κ) :
    (g.addends key).Perm (f.addends key) := (h.filter _).map _

theorem exactAddends_perm (h : g.terms.toList.Perm f.terms.toList) (key : κ) :
    (g.exactAddends key).Perm (f.exactAddends key) := (addends_perm h key).filterMap _

theorem SmallWhole.perm (hf : f.SmallWhole key) (h : g.terms.toList.Perm f.terms.toList) :
    g.SmallWhole key where
  whole x hx := hf.whole x ((addends_perm h key).mem_iff.mp hx)
  small := by
    rw [((exactAddends_perm h key).map _).sum_eq]
    exact hf.small

theorem SmallWhole.total_perm (hf : f.SmallWhole key) (h : g.terms.toList.Perm f.terms.toList) :
    g.total key = f.total key := by
  have htotal := (hf.perm h).unrounded.rational?_total
  rw [(exactAddends_perm h key).sum_eq] at htotal
  exact eq_of_rational?_eq htotal hf.unrounded.rational?_total (g.total_ne_neg_zero key)
    (f.total_ne_neg_zero key)

end Whole

/-- Aggregation is exact whenever it can be, in particular for whole numbers that stay small; those may be
added in any order. -/
theorem aggregation_exact {κ : Type} [Ord κ] [Std.TransOrd κ] [DecidableEq κ] [Std.LawfulEqOrd κ]
    (f : Form κ) :
    (∀ key, f.Unrounded key → f.SumsTo key (f.exactAddends key).sum) ∧
    (∀ key, f.SmallWhole key → f.Unrounded key) ∧
    ((∀ key, f.SmallWhole key) → ∀ g : Form κ, g.terms.toList.Perm f.terms.toList →
      g.canonical = f.canonical) :=
  ⟨fun _ h => sumsTo_of_rational?_total h.rational?_total, fun _ h => h.unrounded,
    fun h _ hperm => canonical_congr fun key => (h key).total_perm hperm⟩

/-- The sum of one variable passes through zero and ends just below the bound, that of another one
vanishes. -/
def passing : LinearForm :=
  ⟨#[⟨.ofIndex 0, 1.0⟩, ⟨.ofIndex 1, -1.0⟩, ⟨.ofIndex 0, -1.0⟩, ⟨.ofIndex 1, 1.0⟩,
    ⟨.ofIndex 0, 9007199254740990.0⟩]⟩

lemma rational?_passing : rational? 1.0 = some 1 ∧ rational? (-1.0) = some (-1) ∧
    rational? 9007199254740990.0 = some 9007199254740990 := by
  have hone : unpacked 1.0 = .finite .positive (2 ^ 52) (-52) (by decide) := by rfl
  have hminus : unpacked (-1.0) = .finite .negative (2 ^ 52) (-52) (by decide) := by rfl
  have hlarge : unpacked 9007199254740990.0 = .finite .positive 9007199254740990 0 (by decide) := by rfl
  simp only [rational?, hone, hminus, hlarge, rationalOf, Float.Model.UnpackedFloat.Sign.apply]
  norm_num

lemma exactAddends_passing : passing.exactAddends (.ofIndex 0) = [1, -1, 9007199254740990] ∧
    passing.exactAddends (.ofIndex 1) = [-1, 1] := by
  obtain ⟨hone, hminus, hlarge⟩ := rational?_passing
  have hzeroth : passing.addends (.ofIndex 0) = [1.0, -1.0, 9007199254740990.0] := by rfl
  have hfirst : passing.addends (.ofIndex 1) = [-1.0, 1.0] := by rfl
  constructor
  · simp only [exactAddends, hzeroth, List.filterMap_cons, hone, hminus, hlarge, List.filterMap_nil]
  · simp only [exactAddends, hfirst, List.filterMap_cons, hone, hminus, List.filterMap_nil]

lemma smallWhole_passing (key : VarId) : passing.SmallWhole key := by
  obtain ⟨hone, hminus, hlarge⟩ := rational?_passing
  obtain ⟨hzeroth, hfirst⟩ := exactAddends_passing
  constructor
  · intro x hx
    obtain ⟨t, ht, rfl⟩ := List.mem_map.mp hx
    have hmem := List.mem_of_mem_filter ht
    simp only [passing, List.mem_cons, List.not_mem_nil, or_false] at hmem
    rcases hmem with rfl | rfl | rfl | rfl | rfl
    · exact ⟨1, by simpa using hone⟩
    · exact ⟨-1, by simpa using hminus⟩
    · exact ⟨-1, by simpa using hminus⟩
    · exact ⟨1, by simpa using hone⟩
    · exact ⟨9007199254740990, by simpa using hlarge⟩
  · by_cases h0 : .ofIndex 0 = key
    · subst h0
      rw [hzeroth]
      norm_num
    by_cases h1 : .ofIndex 1 = key
    · subst h1
      rw [hfirst]
      norm_num
    · have hnone : passing.exactAddends key = [] := by simp [exactAddends, addends, passing, h0, h1]
      simp [hnone]

theorem passing_aggregated_exactly :
    (passing.Unrounded (.ofIndex 0) ∧ passing.SmallWhole (.ofIndex 0)) ∧
    passing.SumsTo (.ofIndex 0) 9007199254740990 ∧ passing.SumsTo (.ofIndex 1) 0 ∧
    (⟨passing.terms.reverse⟩ : LinearForm).canonical = passing.canonical := by
  obtain ⟨hsum, hunrounded, hperm⟩ := aggregation_exact passing
  obtain ⟨hzeroth, hfirst⟩ := exactAddends_passing
  have hsum0 := hsum (.ofIndex 0) (hunrounded _ (smallWhole_passing _))
  have hsum1 := hsum (.ofIndex 1) (hunrounded _ (smallWhole_passing _))
  rw [hzeroth] at hsum0
  rw [hfirst] at hsum1
  refine ⟨⟨hunrounded _ (smallWhole_passing _), smallWhole_passing _⟩, by simpa using hsum0,
    by simpa using hsum1, hperm smallWhole_passing _ ?_⟩
  simp

end Form
end MixedProgram
