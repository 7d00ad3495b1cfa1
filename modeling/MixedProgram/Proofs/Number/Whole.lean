import MixedProgram.Proofs.Number.Order
import MixedProgram.Proofs.Number.Exact
import MixedProgram.Proofs.Number.Plain

/-! Rounding to whole numbers.
The value read off the bits of a number is the one it computes with, so that the whole number a float is
rounded to can be told from the rational it stands for. -/
namespace MixedProgram.Number
open Float.Model (UnpackedFloat)
open Float.Model.UnpackedFloat (Sign unpack unpackSign unpackExponent unpackMantissa unpackSign_packComponents
  unpackExponent_packComponents unpackMantissa_packComponents)

section Readings

def isNegative : Sign → Bool
  | .negative => true
  | .positive => false

namespace Value

/-- The value of an unpacked number. A zero has the least exponent. -/
def ofUnpacked : UnpackedFloat → Value
  | .notANumber => .nan
  | .infinity s => .infinite (isNegative s)
  | .zero s => .finite (isNegative s) 0 (-1074)
  | .finite s m e _ => .finite (isNegative s) m e

lemma toNat_unpackSign (b : BitVec 64) :
    (@unpackSign binary64 b).toNat = b.toNat / 0x8000000000000000 % 2 := by
  simp [unpackSign, BitVec.extractLsb_toNat, Nat.shiftRight_eq_div_pow]

/-- The bits of a word are its parts. -/
theorem ofBits_word (s : Sign) (e : BitVec 11) (m : BitVec 52) :
    ofBits (word s e m).toNat =
      if e.toNat = 2047 then if m.toNat = 0 then infinite (isNegative s) else nan
      else if e.toNat = 0 then finite (isNegative s) m.toNat (-1074)
      else finite (isNegative s) (leadingBit + m.toNat) (e.toNat - 1075) := by
  have hexponent : (word s e m).toNat / leadingBit % 0x800 = e.toNat := by
    rw [← toNat_unpackExponent, unpackExponent_packComponents]
  have hmantissa : (word s e m).toNat % leadingBit = m.toNat := by
    rw [← toNat_unpackMantissa, unpackMantissa_packComponents]
  have hsign : ((word s e m).toNat / 0x8000000000000000 % 2 == 1) = isNegative s := by
    rw [← toNat_unpackSign, unpackSign_packComponents]
    cases s <;> rfl
  rw [ofBits, hexponent, hmantissa, hsign]

theorem ofBits_toNat (b : BitVec 64) : ofBits b.toNat = ofUnpacked (unpack binary64 b) := by
  induction b using word_cases with
  | infinity s => rw [ofBits_word, unpack_infinity]; rfl
  | notANumber s m hm =>
    have hne : m.toNat ≠ 0 := fun h => hm (BitVec.eq_of_toNat_eq h)
    rw [ofBits_word, unpack_notANumber s hm]
    simp [hne, ofUnpacked]
  | zero s => rw [ofBits_word, unpack_zero]; rfl
  | subnormal s m hm => rw [ofBits_word, unpack_subnormal s hm]; rfl
  | normal s e m he he' =>
    have hspecial : e.toNat ≠ 2047 := fun h => he (BitVec.eq_of_toNat_eq h)
    have hzero : e.toNat ≠ 0 := fun h => he' (BitVec.eq_of_toNat_eq h)
    rw [ofBits_word, unpack_normal s m he he', if_neg hspecial, if_neg hzero]
    rfl

theorem ofFloat_eq (x : Float) : ofFloat x = ofUnpacked (unpacked x) := ofBits_toNat x.toBits.toBitVec

end Value
end Readings

section Quotients

/-- A half is rounded up. -/
theorem roundQuotient_up (n : ℕ) {d : ℕ} (hd : 0 < d) : roundQuotient .up n d = ⌊(n / d + 1 / 2 : ℚ)⌋₊ := by
  have hpos : (0 : ℚ) < d := by exact_mod_cast hd
  have hsum : (n / d + 1 / 2 : ℚ) = ((2 * n + d : ℕ) : ℚ) / ((2 * d : ℕ) : ℚ) := by
    push_cast
    field_simp
  have hparts : 2 * n + d = 2 * d * (n / d) + (2 * (n % d) + d) := by
    have hdiv := Nat.div_add_mod n d
    rw [mul_assoc]
    omega
  have hquotient : (2 * n + d) / (2 * d) = n / d + (2 * (n % d) + d) / (2 * d) := by
    rw [hparts, Nat.mul_add_div (by omega)]
  have hlt := Nat.mod_lt n hd
  rw [hsum, Nat.floor_div_eq_div, hquotient]
  unfold roundQuotient
  cases hcompare : compare (2 * (n % d)) d with
  | lt =>
    rw [compare_lt_iff_lt] at hcompare
    rw [Nat.div_eq_of_lt (show 2 * (n % d) + d < 2 * d by omega)]
    rfl
  | eq =>
    rw [compare_eq_iff_eq] at hcompare
    rw [show 2 * (n % d) + d = 2 * d by omega, Nat.div_self (by omega)]
  | gt =>
    rw [compare_gt_iff_gt] at hcompare
    rw [Nat.div_eq_of_lt_le (show 1 * (2 * d) ≤ 2 * (n % d) + d by omega) (by omega)]

lemma ratio_pos (m : ℕ) (e : ℤ) : 0 < (ratio m e).2 := Nat.two_pow_pos _

lemma ratio_eq (m : ℕ) (e : ℤ) : ((ratio m e).1 / (ratio m e).2 : ℚ) = m * 2 ^ e := by
  have hsplit : (2 : ℚ) ^ e = 2 ^ e.toNat / 2 ^ (-e).toNat := by
    rw [← zpow_natCast, ← zpow_natCast, ← zpow_sub₀ (by norm_num)]
    congr 1
    omega
  simp only [ratio, Nat.pow_eq, hsplit]
  push_cast
  rw [mul_div_assoc]

end Quotients

section Floats
variable {most : ℕ} {x y : Float} {q : ℚ}

/-- Of the finite numbers those below a half are rounded to zero. -/
theorem nearestNat_of_rational? (h : rational? x = some q) : nearestNat most x = min most ⌊q + 1 / 2⌋₊ := by
  unfold rational? at h
  rw [nearestNat, Value.ofFloat_eq]
  cases hu : unpacked x with
  | zero s =>
    rw [hu] at h
    obtain rfl := Option.some.inj h
    have hvalue : ((0 : ℕ) : ℚ) * 2 ^ (-1074 : ℤ) = 0 := by simp
    have hround : roundQuotient .up (ratio 0 (-1074)).1 (ratio 0 (-1074)).2 = ⌊(0 + 1 / 2 : ℚ)⌋₊ := by
      rw [roundQuotient_up _ (ratio_pos _ _), ratio_eq, hvalue]
    have hfloor : ⌊(0 + 1 / 2 : ℚ)⌋₊ = 0 := by norm_num
    rw [hfloor] at hround ⊢
    cases s <;> simp [Value.ofUnpacked, isNegative, hround]
  | finite s m e hm =>
    rw [hu] at h
    obtain rfl := Option.some.inj h
    cases s with
    | negative =>
      have hsign : (Sign.negative.apply m : ℚ) * 2 ^ e ≤ 0 := by
        simp only [Sign.apply, Int.cast_neg, Int.cast_natCast, neg_mul, neg_nonpos]
        positivity
      rw [Nat.floor_eq_zero.mpr (by linarith), min_zero]
      rfl
    | positive =>
      have hvalue : (Sign.positive.apply m : ℚ) * 2 ^ e = (ratio m e).1 / (ratio m e).2 := by
        rw [ratio_eq]
        rfl
      rw [hvalue, ← roundQuotient_up _ (ratio_pos m e)]
      rfl
  | _ => rw [hu] at h; cases h

theorem nearestNat_of_isNaN (h : x.isNaN = true) : nearestNat most x = 0 := by
  rw [nearestNat, Value.ofFloat_eq, (isNaN_iff x).mp h]
  rfl

/-- The number `n` is `x` rounded, a half going away from zero, and kept within `0 … most`. -/
def RoundsTo (most : ℕ) (x : Float) (n : ℕ) : Prop :=
  x = 1.0 / 0.0 ∧ n = most ∨ ∃ q, rational? x = some q ∧ n = min most ⌊q + 1 / 2⌋₊

lemma unpacked_infinity : unpacked (1.0 / 0.0) = .infinity .positive := rfl

theorem roundsTo_nearestNat (h : 0 < nearestNat most x) : RoundsTo most x (nearestNat most x) := by
  cases hx : rational? x with
  | some q => exact .inr ⟨q, hx, nearestNat_of_rational? hx⟩
  | none =>
    refine .inl ?_
    unfold rational? at hx
    rw [nearestNat, Value.ofFloat_eq] at h ⊢
    rw [← unpacked_inj, unpacked_infinity]
    cases hu : unpacked x with
    | infinity s =>
      cases s with
      | positive => exact ⟨rfl, rfl⟩
      | negative => rw [hu] at h; cases h
    | notANumber => rw [hu] at h; cases h
    | _ => rw [hu] at hx; cases hx

/-- A product with NaN is NaN. -/
theorem isNaN_mul (x : Float) (h : y.isNaN = true) : (x * y).isNaN = true := by
  rw [isNaN_iff] at h ⊢
  have hproduct : UnpackedFloat.mul binary64 (unpacked x) (unpacked y) = .notANumber := by
    rw [h]
    cases unpacked x <;> rfl
  change unpacked (packed (UnpackedFloat.mul binary64 (unpacked x) (unpacked y))) = _
  rw [hproduct]
  exact unpacked_packed (u := .notANumber) trivial

theorem lt_iff_place (hx : x.isNaN = false) (hy : y.isNaN = false) :
    x < y ↔ place (unpacked x) < place (unpacked y) := by
  rw [lt_iff_compare, compare_eq_place (unpacked_ne_notANumber hx) (unpacked_ne_notANumber hy),
    Option.some_inj, compare_lt_iff_lt]

/-- NaN is neither up to zero nor above it. -/
theorem le_zero_iff : x ≤ 0.0 ↔ x.isNaN = false ∧ ¬0.0 < x := by
  refine ⟨fun h => ⟨(isNaN_of_le h).1, fun hpos => not_le_zero_of_zero_lt hpos h⟩, ?_⟩
  rintro ⟨hx, hpos⟩
  have hzero : (0.0 : Float).isNaN = false := by decide
  rw [lt_iff_place hzero hx, not_lt] at hpos
  exact (le_iff_place hx hzero).mpr hpos

end Floats
end MixedProgram.Number
