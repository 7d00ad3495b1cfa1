import MixedProgram.Proofs.Number.Addition
import MixedProgram.Proofs.Number.Shortest

/-! Exact sums.
A finite number stands for a rational, and a sum of finite numbers is not rounded when its exact value fits
the 64 bits: the bits that are shifted out are all zero. -/
namespace MixedProgram.Number
open Float.Model (Format UnpackedFloat totalExponent)
open Float.Model.UnpackedFloat

/-- The rational that a finite number stands for. -/
def rationalOf : UnpackedFloat → Option ℚ
  | .zero _ => some 0
  | .finite s m e _ => some (s.apply m * 2 ^ e)
  | _ => none

def rational? (x : Float) : Option ℚ := rationalOf (unpacked x)

/-- Some finite number stands for the rational. -/
def Representable (q : ℚ) : Prop := ∃ x, rational? x = some q

/-- A mantissa of at most 53 bits at an exponent of the format. -/
def FitsWord (q : ℚ) : Prop := ∃ (m : ℤ) (e : ℤ), q = m * 2 ^ e ∧ |m| < 2 ^ 53 ∧ -1074 ≤ e ∧ e ≤ 971

section Fitting

lemma abs_sign_apply (s : Sign) (m : ℕ) : |s.apply m| = m := by
  cases s <;> simp [Sign.apply]

theorem fitsWord_of_rational? {x : Float} {q : ℚ} (h : rational? x = some q) : FitsWord q := by
  have hrounded := rounded_unpacked x
  have hcapped := capped_unpacked x
  unfold rational? at h
  cases hx : unpacked x with
  | zero s =>
    rw [hx] at h
    obtain rfl := Option.some.inj h
    exact ⟨0, 0, by simp, by simp, by simp, by simp⟩
  | finite s m e hm =>
    rw [hx] at h hrounded hcapped
    obtain rfl := Option.some.inj h
    obtain ⟨hlt, hmin, -⟩ := hrounded
    have hmax : e ≤ 971 := by
      by_contra hgt
      simp [capped, not_le.mp hgt] at hcapped
    exact ⟨s.apply m, e, rfl, by rw [abs_sign_apply]; exact_mod_cast hlt, hmin, hmax⟩
  | infinity s => rw [hx] at h; cases h
  | notANumber => rw [hx] at h; cases h

theorem FitsWord.neg {q : ℚ} (h : FitsWord q) : FitsWord (-q) := by
  obtain ⟨m, e, rfl, hm, hmin, hmax⟩ := h
  exact ⟨-m, e, by push_cast; ring, by rwa [abs_neg], hmin, hmax⟩

/-- Whole numbers up to `2 ^ 53` on either side of zero. -/
theorem fitsWord_intCast {n : ℤ} (h : |n| ≤ 2 ^ 53) : FitsWord n := by
  rcases h.lt_or_eq with hlt | heq
  · exact ⟨n, 0, by simp, hlt, by simp, by simp⟩
  · rcases (abs_eq (by positivity)).mp heq with rfl | rfl
    · exact ⟨1, 53, by norm_num, by norm_num, by norm_num, by norm_num⟩
    · exact ⟨-1, 53, by norm_num, by norm_num, by norm_num, by norm_num⟩

end Fitting

section Rounding

/-- Shifting out zeros leaves no trace of them. -/
lemma shiftRight_exact (r k : ℕ) :
    ExtendedMantissa.ofMantissaAndAccuracy (2 ^ k * r) .exact >>> k = ⟨r, false, false⟩ := by
  induction k generalizing r with
  | zero => simp [HShiftRight.hShiftRight, Nat.repeat, ExtendedMantissa.ofMantissaAndAccuracy]
  | succ k ih =>
    have hstep := ih (2 * r)
    rw [← mul_assoc, ← pow_succ] at hstep
    change ExtendedMantissa.shiftRightOne
      (ExtendedMantissa.ofMantissaAndAccuracy (2 ^ (k + 1) * r) .exact >>> k) = _
    rw [hstep]
    simp [ExtendedMantissa.shiftRightOne]

lemma shiftToTargetExponent_exact {r k : ℕ} {e : ℤ} (hr : 0 < r)
    (ht : binary64.targetExponent (totalExponent r (e + k)) = e + k) :
    shiftToTargetExponent binary64 (2 ^ k * r) e .exact = (⟨r, false, false⟩, e + k) := by
  have hlog : (2 ^ k * r).log2 = r.log2 + k := by
    rw [mul_comm, ← Nat.shiftLeft_eq, log2_shiftLeft hr]
  have htarget : binary64.targetExponent (totalExponent (2 ^ k * r) e) = e + k := by
    rw [targetExponent_binary64] at ht ⊢
    rw [hlog]
    push_cast
    omega
  unfold shiftToTargetExponent shiftToExponent
  dsimp only
  rw [htarget, show (e + k - e).toNat = k by omega, shiftRight_exact]

/-- A mantissa that ends in enough zeros loses only these. -/
lemma roundWithAccuracy_exact (s : Sign) {r k : ℕ} {e : ℤ} (hr : 0 < r)
    (ht : binary64.targetExponent (totalExponent r (e + k)) = e + k) :
    roundWithAccuracy binary64 s (2 ^ k * r) e .exact = .finite s r (e + k) hr := by
  have hfirst := shiftToTargetExponent_exact hr ht
  have hsecond : shiftToTargetExponent binary64 r (e + k) .exact = (⟨r, false, false⟩, e + k) := by
    simpa using shiftToTargetExponent_exact (k := 0) (e := e + k) hr (by simpa using ht)
  have hmantissa : ExtendedMantissa.roundedMantissa ⟨r, false, false⟩ = r := rfl
  unfold roundWithAccuracy
  simp only [hfirst, hmantissa, hsecond, hr.ne', dite_false]

/-- A number that fits is at least as fine as the exponent it is rounded to asks for. -/
lemma targetExponent_le {m : ℕ} {n e e' : ℤ} (hm : 0 < m) (hq : (m : ℚ) * 2 ^ e = n * 2 ^ e')
    (hn : |n| < 2 ^ 53) (hmin : -1074 ≤ e') : binary64.targetExponent (totalExponent m e) ≤ e' := by
  have hlow : (2 : ℚ) ^ ((m.log2 : ℤ) + e) ≤ m * 2 ^ e := by
    rw [zpow_add₀ (by norm_num), zpow_natCast]
    gcongr
    exact_mod_cast Nat.log2_self_le hm.ne'
  have hhigh : (n : ℚ) * 2 ^ e' < 2 ^ (53 + e') := by
    rw [zpow_add₀ (by norm_num)]
    gcongr
    exact_mod_cast (le_abs_self n).trans_lt hn
  have hlt : (m.log2 : ℤ) + e < 53 + e' :=
    (zpow_lt_zpow_iff_right₀ (by norm_num : (1 : ℚ) < 2)).mp (hlow.trans_lt (hq ▸ hhigh))
  rw [targetExponent_binary64]
  omega

/-- Rounding keeps a number that fits. -/
theorem round_exact (s : Sign) {m : ℕ} {e : ℤ} (hm : 0 < m) (hfits : FitsWord (m * 2 ^ e)) :
    ∃ m' e' h, UnpackedFloat.round binary64 s m e = .finite s m' e' h ∧ e' ≤ 971 ∧
      (m' : ℚ) * 2 ^ e' = m * 2 ^ e := by
  obtain ⟨n, e', hq, hn, hmin, hmax⟩ := hfits
  have hle := targetExponent_le hm hq hn hmin
  have htarget := targetExponent_binary64 m e
  set t := binary64.targetExponent (totalExponent m e) with ht
  -- The mantissa at the exponent of the format, which is no larger than the one the number fits at.
  have hpos : 0 < n := by
    have hprod : (0 : ℚ) < n * 2 ^ e' := by rw [← hq]; positivity
    exact_mod_cast pos_of_mul_pos_left hprod (by positivity)
  lift n to ℕ using hpos.le
  set r := n * 2 ^ (e' - t).toNat with hr
  have hrpos : 0 < r := Nat.mul_pos (by exact_mod_cast hpos) (Nat.two_pow_pos _)
  have hvalue : (r : ℚ) * 2 ^ t = m * 2 ^ e := by
    rw [hq, hr]
    push_cast
    rw [← zpow_natCast, mul_assoc, ← zpow_add₀ (by norm_num), Int.toNat_of_nonneg (by omega), sub_add_cancel]
  -- Both mantissas, brought to the smaller of the two exponents.
  have hshift : m * 2 ^ (e - t).toNat = 2 ^ (t - e).toNat * r := by
    have hsame : e - (e - t).toNat = t - (t - e).toNat := by omega
    have hsplit : ∀ (x : ℚ) (k : ℕ) (d : ℤ), x * 2 ^ k * 2 ^ (d - k) = x * 2 ^ d := by
      intro x k d
      rw [mul_assoc, ← zpow_natCast, ← zpow_add₀ (by norm_num), add_sub_cancel]
    have hscaled : (m : ℚ) * 2 ^ (e - t).toNat * 2 ^ (e - (e - t).toNat) =
      r * 2 ^ (t - e).toNat * 2 ^ (e - (e - t).toNat) := by
      rw [hsplit, hsame, hsplit, hvalue]
    have hcancel := mul_right_cancel₀ (by positivity) hscaled
    rw [mul_comm (2 ^ _)]
    exact_mod_cast hcancel
  have hlog : m.log2 + (e - t).toNat = r.log2 + (t - e).toNat := by
    rw [← log2_shiftLeft hm, ← log2_shiftLeft hrpos, Nat.shiftLeft_eq, Nat.shiftLeft_eq, hshift, mul_comm r]
  have hexp : e - (e - t).toNat + (t - e).toNat = t := by omega
  refine ⟨r, t, hrpos, ?_, hle.trans hmax, hvalue⟩
  unfold UnpackedFloat.round decreaseExponent
  dsimp only
  rw [← ht, Nat.shiftLeft_eq, hshift, roundWithAccuracy_exact s hrpos]
  · simp only [hexp]
  · rw [hexp, targetExponent_binary64]
    omega

theorem rationalOf_normalize {n e : ℤ} (hfits : FitsWord (n * 2 ^ e)) :
    rationalOf (capped (UnpackedFloat.normalize binary64 n e .positive)) = some ((n : ℚ) * 2 ^ e) := by
  unfold UnpackedFloat.normalize
  rcases lt_trichotomy n 0 with hn | rfl | hn
  · obtain ⟨k, rfl⟩ := Int.exists_eq_neg_ofNat hn.le
    obtain ⟨m', e', h, hround, hmax, hvalue⟩ := round_exact .negative (m := k) (e := e) (by omega)
      (by simpa using hfits.neg)
    rw [Int.compare_eq_lt.mpr hn]
    simp [hround, capped, not_lt.mpr hmax, rationalOf, Sign.apply, hvalue]
  · simp [capped, rationalOf]
  · lift n to ℕ using hn.le
    obtain ⟨m', e', h, hround, hmax, hvalue⟩ := round_exact .positive (m := n) (e := e) (by omega)
      (by simpa using hfits)
    rw [Int.compare_eq_gt.mpr hn]
    simp [hround, capped, not_lt.mpr hmax, rationalOf, Sign.apply, hvalue]

end Rounding

/-- The float with the given parts. -/
def packed (u : UnpackedFloat) : Float := .ofModel (.pack u)

theorem unpacked_packed {u : UnpackedFloat} (hu : Rounded u) : unpacked (packed u) = capped u :=
  unpack_pack hu

theorem representable_iff {q : ℚ} : Representable q ↔ FitsWord q := by
  constructor
  · rintro ⟨x, hx⟩
    exact fitsWord_of_rational? hx
  · intro h
    obtain ⟨m, e, rfl, hm, hmin, hmax⟩ := id h
    have hrounded : Rounded (UnpackedFloat.normalize binary64 m e .positive) := by
      rcases normalize_rounded m hmin with ⟨-, hzero⟩ | ⟨_, _, _, _, hfinite, hround⟩
      · rw [hzero]; trivial
      · rw [hfinite]; exact hround
    refine ⟨packed (UnpackedFloat.normalize binary64 m e .positive), ?_⟩
    rw [rational?, unpacked_packed hrounded]
    exact rationalOf_normalize h

section Sums
variable {x y : Float} {a b : ℚ}

lemma apply_shiftLeft (s : Sign) (m : ℕ) {e k : ℤ} (hk : k ≤ e) :
    (s.apply (m <<< (e - k).toNat : ℕ) : ℚ) * 2 ^ k = s.apply m * 2 ^ e := by
  have hscale : ((m <<< (e - k).toNat : ℕ) : ℚ) * 2 ^ k = m * 2 ^ e := by
    rw [Nat.shiftLeft_eq]
    push_cast
    rw [mul_assoc, ← zpow_natCast, ← zpow_add₀ (by norm_num), Int.toNat_of_nonneg (by omega), sub_add_cancel]
  cases s
  · simp only [Sign.apply, Int.cast_neg, Int.cast_natCast, neg_mul, hscale]
  · simp only [Sign.apply, Int.cast_natCast, hscale]

/-- A sum that can be exact is exact. -/
theorem rational?_add (hx : rational? x = some a) (hy : rational? y = some b)
    (hsum : Representable (a + b)) : rational? (x + y) = some (a + b) := by
  have hcx := capped_unpacked x
  have hcy := capped_unpacked y
  unfold rational? at hx hy ⊢
  rw [unpacked_add]
  cases hu : unpacked x with
  | zero s =>
    rw [hu] at hx
    obtain rfl := Option.some.inj hx
    cases hv : unpacked y with
    | zero t =>
      rw [hv] at hy
      obtain rfl := Option.some.inj hy
      simp only [add]
      split_ifs <;> simp [capped, rationalOf]
    | finite t m e hm =>
      rw [hv] at hy hcy
      simp only [add]
      rw [hcy, hy, zero_add]
    | _ => rw [hv] at hy; cases hy
  | finite s m e hm =>
    rw [hu] at hx hcx
    obtain rfl := Option.some.inj hx
    cases hv : unpacked y with
    | zero t =>
      rw [hv] at hy
      obtain rfl := Option.some.inj hy
      simp only [add]
      rw [hcx, add_zero]
      rfl
    | finite t m' e' hm' =>
      rw [hv] at hy
      obtain rfl := Option.some.inj hy
      have hscaled :
          ((s.apply (m <<< (e - min e e').toNat : ℕ) + t.apply (m' <<< (e' - min e e').toNat : ℕ) : ℤ) : ℚ)
            * 2 ^ min e e' = s.apply m * 2 ^ e + t.apply m' * 2 ^ e' := by
        rw [Int.cast_add, add_mul, apply_shiftLeft s m (min_le_left e e'),
          apply_shiftLeft t m' (min_le_right e e')]
      rw [← hscaled] at hsum ⊢
      exact rationalOf_normalize (representable_iff.mp hsum)
    | _ => rw [hv] at hy; cases hy
  | _ => rw [hu] at hx; cases hx

/-- Sums are exact as long as each of them can be. -/
theorem rational?_foldl {xs : List Float} (hfinite : ∀ z ∈ xs, ∃ q, rational? z = some q)
    (hx : rational? x = some a) (hsums : ∀ n, Representable (a + ((xs.filterMap rational?).take n).sum)) :
    rational? (xs.foldl (· + ·) x) = some (a + (xs.filterMap rational?).sum) := by
  induction xs generalizing x a with
  | nil => simpa using hx
  | cons y ys ih =>
    obtain ⟨b, hb⟩ := hfinite y List.mem_cons_self
    rw [List.filterMap_cons_some hb] at hsums ⊢
    have hstep : rational? (x + y) = some (a + b) := rational?_add hx hb (by simpa using hsums 1)
    rw [List.foldl_cons, List.sum_cons, ← add_assoc]
    refine ih (fun z hz => hfinite z (List.mem_cons_of_mem _ hz)) hstep fun n => ?_
    simpa [add_assoc] using hsums (n + 1)

end Sums

section Values
variable {x y : Float} {q : ℚ}

theorem isFinite_iff : x.isFinite = true ↔ ∃ q, rational? x = some q := by
  change (unpacked x).isFinite = true ↔ _
  unfold rational?
  cases unpacked x <;> simp [isFinite, rationalOf]

lemma sign_apply_eq_zero_iff {s : Sign} {m : ℕ} : s.apply m = 0 ↔ m = 0 := by
  cases s <;> simp [Sign.apply]

lemma sign_apply_inj {s t : Sign} {m : ℕ} (hm : 0 < m) (h : s.apply m = t.apply m) : s = t := by
  cases s with
  | positive =>
    cases t with
    | positive => rfl
    | negative => simp only [Sign.apply] at h; omega
  | negative =>
    cases t with
    | positive => simp only [Sign.apply] at h; omega
    | negative => rfl

theorem beq_zero_iff_of_rational? (hx : rational? x = some q) : (x == 0.0) = true ↔ q = 0 := by
  rw [beq_zero_iff]
  constructor
  · rintro (rfl | rfl)
    · simpa [rational?, rationalOf, eq_comm] using hx
    · simpa [rational?, rationalOf, eq_comm] using hx
  · rintro rfl
    unfold rational? at hx
    cases hu : unpacked x with
    | zero s =>
      cases s with
      | positive => exact Or.inl (unpacked_inj.mp (hu.trans unpacked_zero.symm))
      | negative => exact Or.inr (unpacked_inj.mp (hu.trans unpacked_neg_zero.symm))
    | finite s m e hm =>
      rw [hu] at hx
      have hzero : (s.apply m : ℚ) * 2 ^ e = 0 := Option.some.inj hx
      have hmantissa : s.apply m = 0 := by
        exact_mod_cast (mul_eq_zero.mp hzero).resolve_right (by positivity)
      exact absurd (sign_apply_eq_zero_iff.mp hmantissa) hm.ne'
    | _ => rw [hu] at hx; cases hx

lemma abs_finite (s : Sign) (m : ℕ) (e : ℤ) : |(s.apply m : ℚ) * 2 ^ e| = m * 2 ^ e := by
  rw [abs_mul, abs_of_pos (by positivity : (0 : ℚ) < 2 ^ e), ← Int.cast_abs, abs_sign_apply, Int.cast_natCast]

/-- The parts of a rounded number are determined by the rational. -/
lemma rationalOf_finite_inj {s t : Sign} {m m' : ℕ} {e e' : ℤ} {hm : 0 < m} {hm' : 0 < m'}
    (hr : Rounded (.finite s m e hm)) (hr' : Rounded (.finite t m' e' hm'))
    (h : rationalOf (.finite s m e hm) = rationalOf (.finite t m' e' hm')) :
    UnpackedFloat.finite s m e hm = .finite t m' e' hm' := by
  have hvalue : (s.apply m : ℚ) * 2 ^ e = t.apply m' * 2 ^ e' := Option.some.inj h
  have habs : (m : ℚ) * 2 ^ e = m' * 2 ^ e' := by rw [← abs_finite s, ← abs_finite t, hvalue]
  obtain ⟨rfl, rfl⟩ := Interval.eq_of_holds_around ⟨hr.1, hr.2.1, hr.2.2⟩ ⟨hr'.1, hr'.2.1, hr'.2.2⟩
    (Interval.holds_around_self hm) (habs ▸ Interval.holds_around_self hm')
  have hsign : s.apply m = t.apply m := by
    exact_mod_cast mul_right_cancel₀ (by positivity) hvalue
  rw [sign_apply_inj hm hsign]

/-- Apart from the negative zero, one float stands for a rational. -/
theorem eq_of_rational?_eq (hx : rational? x = some q) (hy : rational? y = some q) (hnx : x ≠ -0.0)
    (hny : y ≠ -0.0) : x = y := by
  by_cases hq : q = 0
  · rw [eq_zero_of_beq_zero hnx ((beq_zero_iff_of_rational? hx).mpr hq),
      eq_zero_of_beq_zero hny ((beq_zero_iff_of_rational? hy).mpr hq)]
  have hrx := rounded_unpacked x
  have hry := rounded_unpacked y
  rw [← unpacked_inj]
  unfold rational? at hx hy
  cases hu : unpacked x with
  | zero s => rw [hu] at hx; exact absurd (Option.some.inj hx).symm hq
  | finite s m e hm =>
    cases hv : unpacked y with
    | zero t => rw [hv] at hy; exact absurd (Option.some.inj hy).symm hq
    | finite t m' e' hm' =>
      rw [hu] at hx hrx
      rw [hv] at hy hry
      exact rationalOf_finite_inj hrx hry (hx.trans hy.symm)
    | _ => rw [hv] at hy; cases hy
  | _ => rw [hu] at hx; cases hx

end Values
end MixedProgram.Number
