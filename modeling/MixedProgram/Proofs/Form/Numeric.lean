import MixedProgram.Proofs.Form.Canonical

/-! Forms without NaN.
A term is refused when its own coefficient is NaN, but sums are formed later: two infinities of opposite
signs under one key pass one by one and make a sum that is NaN. -/
namespace MixedProgram
namespace Number

lemma beq_zero_of_isNaN {x : Float} (hx : x.isNaN = true) : (x == 0.0) = false := by
  by_contra hne
  rcases (beq_zero_iff x).mp (by simpa using hne) with rfl | rfl <;> exact absurd hx (by decide)

lemma isNaN_neg_of_isInf {x : Float} (hx : x.isInf = true) : (-x).isNaN = false := by
  obtain ⟨s, hs⟩ := (isInf_iff x).mp hx
  by_contra hne
  have hnan := (isNaN_iff (-x)).mp (by simpa using hne)
  rw [unpacked_neg, hs] at hnan
  cases hnan

lemma isInf_neg {x : Float} (hx : x.isInf = true) : (-x).isInf = true := by
  obtain ⟨s, hs⟩ := (isInf_iff x).mp hx
  refine (isInf_iff (-x)).mpr ⟨-s, ?_⟩
  rw [unpacked_neg, hs]
  rfl

end Number

namespace Form
open Number
variable {κ : Type} [Ord κ]

/-- No coefficient is NaN, of the terms as added or as merged. -/
structure Numeric (f : Form κ) : Prop where
  added : ∀ t ∈ f.terms, t.coefficient.isNaN = false
  merged : ∀ t ∈ f.canonical, t.coefficient.isNaN = false

variable [DecidableEq κ]

/-- The coefficient is an infinity and the sum so far is the opposite infinity. -/
def Clashes (f : Form κ) (x : Float) (key : κ) : Prop := (f.total key).isInf = true ∧ x = -f.total key

omit [Ord κ] in
theorem Clashes.isNaN_eq_false {f : Form κ} {x : Float} {key : κ} (h : f.Clashes x key) :
    x.isNaN = false := by
  rw [h.2]
  exact isNaN_neg_of_isInf h.1

omit [Ord κ] in
/-- NaN is never added away. -/
theorem isNaN_total_of_mem {f : Form κ} {t : Term κ} (ht : t ∈ f.terms)
    (hnan : t.coefficient.isNaN = true) : (f.total t.key).isNaN = true := by
  induction f using append_induction with
  | empty => simp at ht
  | append f s ih =>
    rw [total_append]
    rcases Array.mem_push.mp ht with ht | rfl
    · split_ifs
      · exact (isNaN_add_iff _ _).mpr (.inl (ih ht))
      · exact ih ht
    · rw [if_pos rfl]
      exact (isNaN_add_iff _ _).mpr (.inr (.inl hnan))

omit [Ord κ] in
theorem Clashes.isInf {f : Form κ} {x : Float} {key : κ} (h : f.Clashes x key) : x.isInf = true := by
  rw [h.2]
  exact isInf_neg h.1

variable [Std.TransOrd κ] [Std.LawfulEqOrd κ]

theorem numeric_iff {f : Form κ} : f.Numeric ↔ ∀ key, (f.total key).isNaN = false := by
  constructor
  · intro h key
    by_contra hne
    have hnan : (f.total key).isNaN = true := by simpa using hne
    have hmem : (⟨key, f.total key⟩ : Term κ) ∈ f.canonical :=
      (mem_canonical_iff f _).mpr ⟨rfl, beq_zero_of_isNaN hnan⟩
    have hmerged := h.merged _ hmem
    exact hne hmerged
  · intro h
    constructor
    · intro t ht
      by_contra hne
      have hnan := isNaN_total_of_mem ht (by simpa using hne)
      rw [h] at hnan
      contradiction
    · intro t ht
      rw [((mem_canonical_iff f t).mp ht).1]
      exact h t.key

theorem numeric_empty : Numeric ({} : Form κ) := numeric_iff.mpr fun key => by
  rw [total_empty]
  decide

theorem numeric_canonicalized_iff {f : Form κ} : f.canonicalized.Numeric ↔ f.Numeric := by
  simp only [numeric_iff, total_canonicalized]

/-- One more term keeps a form free of NaN unless its coefficient is NaN or clashes. -/
theorem numeric_append_iff {f : Form κ} {x : Float} {key : κ} (hx : x.isNaN = false) :
    (f.append ⟨key, x⟩).Numeric ↔ f.Numeric ∧ ¬ f.Clashes x key := by
  simp only [numeric_iff, total_append]
  constructor
  · intro h
    refine ⟨fun l => ?_, fun hclash => ?_⟩
    · by_contra hne
      have hl := h l
      split_ifs at hl
      · rw [(isNaN_add_iff (f.total l) x).mpr (.inl (by simpa using hne))] at hl
        contradiction
      · exact hne hl
    · have hkey := h key
      rw [if_pos rfl, (isNaN_add_iff (f.total key) x).mpr (.inr (.inr hclash))] at hkey
      contradiction
  · rintro ⟨h, hclash⟩ l
    split_ifs with hl
    · subst hl
      by_contra hne
      rcases (isNaN_add_iff _ _).mp (by simpa using hne) with hn | hn | hn
      · rw [h] at hn
        contradiction
      · rw [hx] at hn
        contradiction
      · exact hclash hn
    · exact h l

end Form
end MixedProgram
