import MixedProgram.Proofs.Number.Addition

/-! Positive numbers, infinity among them.
Sums of positive numbers are positive however often they are rounded, so that nothing cancels. -/
namespace MixedProgram.Number
open Float.Model (UnpackedFloat)
open Float.Model.UnpackedFloat

def isPositiveValue : UnpackedFloat → Bool
  | .infinity .positive => true
  | .finite .positive .. => true
  | _ => false

def isPositive (x : Float) : Bool := isPositiveValue (unpacked x)

lemma isPositiveValue_capped {u : UnpackedFloat} (hu : isPositiveValue u = true) :
    isPositiveValue (capped u) = true := by
  cases u with
  | finite s m e hm =>
    cases s with
    | positive => simp only [capped]; split_ifs <;> rfl
    | negative => cases hu
  | _ => exact hu

/-- A positive number of units rounds to a positive number, since rounding keeps off zero. -/
lemma isPositiveValue_normalize {n e : ℤ} (hn : 0 < n) (he : -1074 ≤ e) :
    isPositiveValue (normalize binary64 n e .positive) = true := by
  obtain ⟨m', e', h, hround, -⟩ := round_rounded .positive (m := n.toNat) (by omega) he
  unfold UnpackedFloat.normalize
  rw [Int.compare_eq_gt.mpr hn]
  dsimp only
  rw [hround]
  rfl

lemma isPositiveValue_add {u v : UnpackedFloat} (hu : Rounded u) (hv : Rounded v)
    (hpu : isPositiveValue u = true) (hpv : isPositiveValue v = true) :
    isPositiveValue (add binary64 u v) = true := by
  cases u with
  | infinity s =>
    cases s with
    | negative => cases hpu
    | positive =>
      cases v with
      | infinity t => cases t with
        | positive => rfl
        | negative => cases hpv
      | finite => rfl
      | _ => cases hpv
  | finite s m e hm =>
    cases s with
    | negative => cases hpu
    | positive =>
      cases v with
      | infinity t => cases t with
        | positive => rfl
        | negative => cases hpv
      | finite t m' e' hm' =>
        cases t with
        | negative => cases hpv
        | positive =>
          have hpos : 0 < m <<< (e - min e e').toNat := by
            rw [Nat.shiftLeft_eq]
            exact Nat.mul_pos hm (Nat.two_pow_pos _)
          refine isPositiveValue_normalize ?_ (le_min hu.2.1 hv.2.1)
          exact Int.add_pos_of_pos_of_nonneg (Int.natCast_pos.mpr hpos) (Int.natCast_nonneg _)
      | _ => cases hpv
  | _ => cases hpu

theorem isPositive_add {x y : Float} (hx : isPositive x = true) (hy : isPositive y = true) :
    isPositive (x + y) = true := by
  rw [isPositive, unpacked_add]
  exact isPositiveValue_capped
    (isPositiveValue_add (rounded_unpacked x) (rounded_unpacked y) hx hy)

theorem beq_zero_of_isPositive {x : Float} (hx : isPositive x = true) : (x == 0.0) = false := by
  by_contra hne
  rcases (beq_zero_iff x).mp (by simpa using hne) with rfl | rfl <;> exact absurd hx (by decide)

theorem isNaN_of_isPositive {x : Float} (hx : isPositive x = true) : x.isNaN = false := by
  by_contra hne
  have hnan := (isNaN_iff x).mp (by simpa using hne)
  rw [isPositive, hnan] at hx
  cases hx

theorem zero_add_of_isPositive {x : Float} (hx : isPositive x = true) : 0.0 + x = x := by
  refine zero_add_of_ne ?_
  rintro rfl
  exact absurd hx (by decide)

/-- A positive number summed from zero, once or many times. -/
theorem isPositive_foldl_replicate {x : Float} (hx : isPositive x = true) {n : ℕ} (hn : 0 < n) :
    isPositive ((List.replicate n x).foldl (· + ·) 0.0) = true := by
  induction n, hn using Nat.le_induction with
  | base => simpa [zero_add_of_isPositive hx] using hx
  | succ n _ ih =>
    rw [List.replicate_succ', List.foldl_append]
    exact isPositive_add ih hx

theorem lt_iff_compare {x y : Float} : x < y ↔ (unpacked x).compare (unpacked y) = some .lt := by
  change Float.lt x y = true ↔ _
  rw [Float.lt, decide_eq_true_iff]
  change ((unpacked x).compare (unpacked y) == some .lt) = true ↔ _
  exact beq_iff_eq

theorem le_iff_compare {x y : Float} : x ≤ y ↔ ((unpacked x).compare (unpacked y)).any (·.isLE) = true := by
  change Float.le x y = true ↔ _
  rw [Float.le, decide_eq_true_iff]
  rfl

/-- What lies above zero neither is zero nor lies below it. -/
theorem not_le_zero_of_zero_lt {x : Float} (h : 0.0 < x) : ¬x ≤ 0.0 := by
  rw [lt_iff_compare, unpacked_zero] at h
  rw [le_iff_compare, unpacked_zero]
  cases hx : unpacked x with
  | notANumber => rw [hx] at h; cases h
  | infinity s => rw [hx] at h; cases s <;> revert h <;> decide
  | zero s => rw [hx] at h; cases s <;> cases h
  | finite s m e hm =>
    rw [hx] at h
    cases s with
    | positive => exact Bool.false_ne_true
    | negative => cases h

end MixedProgram.Number
