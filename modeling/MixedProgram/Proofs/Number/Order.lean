import MixedProgram.Proofs.Number.Positive

/-! The order of numbers.
Every number but NaN has a place, and to compare two numbers is to compare their places. The zeros of both
signs share one; all other numbers have a place each. -/
namespace MixedProgram.Number
open Float.Model (UnpackedFloat)
open Float.Model.UnpackedFloat

/-- The kind of a number with its sign, then the exponent and the mantissa. The larger of two negative
numbers comes first. -/
def place : UnpackedFloat → ℤ ×ₗ ℤ ×ₗ ℤ
  | .infinity .negative => toLex (-2, toLex (0, 0))
  | .finite .negative m e _ => toLex (-1, toLex (-e, -m))
  | .finite .positive m e _ => toLex (1, toLex (e, m))
  | .infinity .positive => toLex (2, toLex (0, 0))
  | _ => toLex (0, toLex (0, 0))

section Places

lemma compare_toLex (a b : ℤ) (x y : ℤ ×ₗ ℤ) :
    compare (toLex (a, x)) (toLex (b, y)) = (compare a b).then (compare x y) := by
  rw [Prod.Lex.compare_def]
  rfl

lemma compare_neg (a b : ℤ) : compare (-a) (-b) = (compare a b).swap := by
  rcases lt_trichotomy a b with h | rfl | h
  · rw [compare_gt_iff_gt.mpr (neg_lt_neg h), compare_lt_iff_lt.mpr h, Ordering.swap_lt]
  · simp
  · rw [compare_lt_iff_lt.mpr (neg_lt_neg h), compare_gt_iff_gt.mpr h, Ordering.swap_gt]

lemma compare_natCast (m n : ℕ) : compare (m : ℤ) n = compare m n := by
  rcases lt_trichotomy m n with h | rfl | h
  · rw [compare_lt_iff_lt.mpr h, compare_lt_iff_lt.mpr (Int.ofNat_lt.mpr h)]
  · simp
  · rw [compare_gt_iff_gt.mpr h, compare_gt_iff_gt.mpr (Int.ofNat_lt.mpr h)]

lemma compare_parts (e e' : ℤ) (m m' : ℕ) :
    compare (toLex (e, (m : ℤ))) (toLex (e', (m' : ℤ))) = (compare e e').then (compare m m') := by
  rw [Prod.Lex.compare_def, ← compare_natCast]
  rfl

lemma compare_neg_parts (e e' : ℤ) (m m' : ℕ) :
    compare (toLex (-e, -(m : ℤ))) (toLex (-e', -(m' : ℤ))) = ((compare e e').then (compare m m')).swap := by
  rw [Prod.Lex.compare_def, Ordering.swap_then, ← compare_natCast, ← compare_neg, ← compare_neg]
  rfl

theorem compare_eq_place {u v : UnpackedFloat} (hu : u ≠ .notANumber) (hv : v ≠ .notANumber) :
    u.compare v = some (compare (place u) (place v)) := by
  cases u with
  | notANumber => exact absurd rfl hu
  | infinity s =>
    cases v with
    | notANumber => exact absurd rfl hv
    | finite t => cases s <;> cases t <;> rfl
    | _ t => cases s <;> cases t <;> rfl
  | zero s =>
    cases v with
    | notANumber => exact absurd rfl hv
    | finite t => cases t <;> rfl
    | infinity t => cases t <;> rfl
    | zero t => rfl
  | finite s m e hm =>
    cases v with
    | notANumber => exact absurd rfl hv
    | finite t m' e' hm' =>
      cases s <;> cases t
      · rw [place, place, compare_toLex, compare_neg_parts]; rfl
      · rfl
      · rfl
      · rw [place, place, compare_toLex, compare_parts]; rfl
    | infinity t => cases s <;> cases t <;> rfl
    | zero t => cases s <;> rfl

end Places

section Floats
variable {x y z : Float}

/-- NaN is not comparable with anything. -/
theorem isNaN_of_le (h : x ≤ y) : x.isNaN = false ∧ y.isNaN = false := by
  rw [le_iff_compare] at h
  constructor <;> by_contra hnan
  · rw [(isNaN_iff x).mp (by simpa using hnan)] at h
    cases h
  · rw [(isNaN_iff y).mp (by simpa using hnan)] at h
    cases hx : unpacked x <;> rw [hx] at h <;> cases h

lemma unpacked_ne_notANumber (hx : x.isNaN = false) : unpacked x ≠ .notANumber := by
  intro h
  rw [(isNaN_iff x).mpr h] at hx
  cases hx

theorem le_iff_place (hx : x.isNaN = false) (hy : y.isNaN = false) :
    x ≤ y ↔ place (unpacked x) ≤ place (unpacked y) := by
  rw [le_iff_compare, compare_eq_place (unpacked_ne_notANumber hx) (unpacked_ne_notANumber hy),
    Option.any_some, ← compare_le_iff_le]
  cases compare (place (unpacked x)) (place (unpacked y)) <;> simp

theorem le_self_of_not_nan (hx : x.isNaN = false) : x ≤ x := (le_iff_place hx hx).mpr le_rfl

theorem float_le_trans (hxy : x ≤ y) (hyz : y ≤ z) : x ≤ z := by
  obtain ⟨hx, hy⟩ := isNaN_of_le hxy
  obtain ⟨-, hz⟩ := isNaN_of_le hyz
  rw [le_iff_place hx hy] at hxy
  rw [le_iff_place hy hz] at hyz
  exact (le_iff_place hx hz).mpr (hxy.trans hyz)

theorem float_le_of_not_le (hx : x.isNaN = false) (hy : y.isNaN = false) (h : ¬x ≤ y) : y ≤ x := by
  rw [le_iff_place hx hy] at h
  exact (le_iff_place hy hx).mpr (le_of_not_ge h)

/-- Numbers that do not exceed each other are equal as numbers. -/
theorem beq_of_le_of_le (hxy : x ≤ y) (hyx : y ≤ x) : (x == y) = true := by
  obtain ⟨hx, hy⟩ := isNaN_of_le hxy
  rw [le_iff_place hx hy] at hxy
  rw [le_iff_place hy hx] at hyx
  change ((unpacked x).compare (unpacked y) == some .eq) = true
  rw [compare_eq_place (unpacked_ne_notANumber hx) (unpacked_ne_notANumber hy),
    compare_eq_iff_eq.mpr (hxy.antisymm hyx)]
  rfl

/-- Two numbers that are equal are the same, unless one of them is the negative zero. -/
theorem eq_of_beq_of_ne (h : (x == y) = true) (hx : x ≠ -0.0) (hy : y ≠ -0.0) : x = y := by
  rw [Float.beq_iff_ne_nan_and_eq] at h
  obtain ⟨-, -, h | ⟨-, h⟩ | ⟨h, -⟩⟩ := h
  · exact h
  · exact absurd h hy
  · exact absurd h hx

end Floats
end MixedProgram.Number
