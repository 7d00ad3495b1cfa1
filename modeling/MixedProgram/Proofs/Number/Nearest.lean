import MixedProgram.Proofs.Number.Exact

/-! Rounding goes to the nearest number.
The bits that rounding shifts out decide between the two neighbours of a quotient, and no number of the
format lies closer to the exact value than the neighbour taken. -/
namespace MixedProgram.Number
open Float.Model (Format UnpackedFloat totalExponent)
open Float.Model.UnpackedFloat

section Quotients

/-- What is left of a mantissa after some bits, at least one, are shifted out: the last of them and whether
another one was set. -/
lemma shiftRight_succ (m k : ℕ) : ExtendedMantissa.ofMantissaAndAccuracy m .exact >>> (k + 1) =
    ⟨m / 2 ^ (k + 1), m / 2 ^ k % 2 != 0, m % 2 ^ k != 0⟩ := by
  induction k with
  | zero => simp [HShiftRight.hShiftRight, Nat.repeat, ExtendedMantissa.ofMantissaAndAccuracy,
      ExtendedMantissa.shiftRightOne, Nat.mod_one]
  | succ k ih =>
    change ExtendedMantissa.shiftRightOne
      (ExtendedMantissa.ofMantissaAndAccuracy m .exact >>> (k + 1)) = _
    rw [ih]
    have hquotient : m / 2 ^ (k + 1) / 2 = m / 2 ^ (k + 1 + 1) := by rw [Nat.div_div_eq_div_mul, ← pow_succ]
    have hremainder : m % 2 ^ (k + 1) = m % 2 ^ k + 2 ^ k * (m / 2 ^ k % 2) := by rw [pow_succ, Nat.mod_mul]
    have hpos : 0 < 2 ^ k := Nat.two_pow_pos k
    have hsticky : ((m / 2 ^ k % 2 != 0) || (m % 2 ^ k != 0)) = (m % 2 ^ (k + 1) != 0) := by
      rw [hremainder]
      rcases Nat.mod_two_eq_zero_or_one (m / 2 ^ k) with h | h
      · simp [h]
      · simp [h]
    simp only [ExtendedMantissa.shiftRightOne, hquotient, hsticky]

/-- The bits that are shifted out round the mantissa to the nearest quotient. -/
theorem roundedMantissa_shiftRight (m k : ℕ) :
    (ExtendedMantissa.ofMantissaAndAccuracy m .exact >>> k).roundedMantissa =
      roundQuotient .toEven m (2 ^ k) := by
  cases k with
  | zero =>
    rw [pow_zero, roundQuotient_one]
    rfl
  | succ k =>
    have hremainder : m % 2 ^ (k + 1) = m % 2 ^ k + 2 ^ k * (m / 2 ^ k % 2) := by rw [pow_succ, Nat.mod_mul]
    have hlt : m % 2 ^ k < 2 ^ k := Nat.mod_lt _ (Nat.two_pow_pos k)
    rw [shiftRight_succ]
    unfold roundQuotient
    rcases Nat.mod_two_eq_zero_or_one (m / 2 ^ k) with hbit | hbit
    · have hcompare : compare (2 * (m % 2 ^ (k + 1))) (2 ^ (k + 1)) = .lt := by
        rw [compare_lt_iff_lt, hremainder, hbit, pow_succ]
        omega
      cases hsticky : m % 2 ^ k != 0 <;>
        simp [hcompare, hbit, ExtendedMantissa.roundedMantissa, ExtendedMantissa.accuracy,
          Accuracy.roundToNearestEven]
    · cases hsticky : m % 2 ^ k != 0
      · have hcompare : compare (2 * (m % 2 ^ (k + 1))) (2 ^ (k + 1)) = .eq := by
          rw [compare_eq_iff_eq, hremainder, hbit, bne_eq_false_iff_eq.mp hsticky, pow_succ]
          omega
        simp [hcompare, hbit, ExtendedMantissa.roundedMantissa, ExtendedMantissa.accuracy,
          Accuracy.roundToNearestEven]
      · have hrest := bne_iff_ne.mp hsticky
        have hcompare : compare (2 * (m % 2 ^ (k + 1))) (2 ^ (k + 1)) = .gt := by
          rw [compare_gt_iff_gt, hremainder, hbit, pow_succ]
          omega
        simp [hcompare, hbit, ExtendedMantissa.roundedMantissa, ExtendedMantissa.accuracy,
          Accuracy.roundToNearestEven]

/-- The quotient is rounded down at most by a half, and up at most by a half. -/
lemma roundQuotient_cases (tie : Tie) (n d : ℕ) :
    roundQuotient tie n d = n / d ∧ 2 * (n % d) ≤ d ∨
      roundQuotient tie n d = n / d + 1 ∧ d ≤ 2 * (n % d) := by
  unfold roundQuotient
  cases hcompare : compare (2 * (n % d)) d with
  | lt => exact .inl ⟨rfl, (compare_lt_iff_lt.mp hcompare).le⟩
  | gt => exact .inr ⟨rfl, (compare_gt_iff_gt.mp hcompare).le⟩
  | eq =>
    have heq := compare_eq_iff_eq.mp hcompare
    cases tie with
    | up => exact .inr ⟨rfl, heq.ge⟩
    | toEven =>
      rcases Nat.mod_two_eq_zero_or_one (n / d) with h | h
      · exact .inl ⟨by simp [h], heq.le⟩
      · exact .inr ⟨by simp [h], heq.ge⟩

/-- No whole number is closer to a quotient than the one it is rounded to. -/
theorem roundQuotient_nearest (tie : Tie) (n : ℕ) {d : ℕ} (hd : 0 < d) (j : ℤ) :
    |(roundQuotient tie n d : ℚ) - n / d| ≤ |j - (n / d : ℚ)| := by
  have hpos : (0 : ℚ) < d := by exact_mod_cast hd
  set b := n / d with hb
  set f : ℚ := (n % d : ℕ) / d with hf
  have hvalue : (n : ℚ) / d = b + f := by
    rw [hf, hb, eq_comm, eq_div_iff hpos.ne', add_mul, div_mul_cancel₀ _ hpos.ne']
    exact_mod_cast Nat.div_add_mod' n d
  have hlow : 0 ≤ f := by positivity
  have hhigh : f < 1 := by
    rw [hf, div_lt_one hpos]
    exact_mod_cast Nat.mod_lt n hd
  have herror : |(roundQuotient tie n d : ℚ) - n / d| ≤ f ∧
    |(roundQuotient tie n d : ℚ) - n / d| ≤ 1 - f := by
    rcases roundQuotient_cases tie n d with ⟨hround, hhalf⟩ | ⟨hround, hhalf⟩
    · have hf2 : 2 * f ≤ 1 := by
        rw [hf, ← mul_div_assoc, div_le_one hpos]
        exact_mod_cast hhalf
      rw [hround, hvalue, ← hb, sub_add_cancel_left, abs_neg, abs_of_nonneg hlow]
      exact ⟨le_rfl, by linarith⟩
    · have hf2 : 1 ≤ 2 * f := by
        rw [hf, ← mul_div_assoc, one_le_div hpos]
        exact_mod_cast hhalf
      rw [hround, hvalue, ← hb, Nat.cast_add, Nat.cast_one, add_sub_add_left_eq_sub, abs_of_pos (by linarith)]
      exact ⟨by linarith, le_rfl⟩
  rcases le_or_gt j b with hj | hj
  · refine herror.1.trans (le_trans ?_ (neg_le_abs _))
    have hj : (j : ℚ) ≤ b := by exact_mod_cast hj
    linarith
  · refine herror.2.trans (le_trans ?_ (le_abs_self _))
    have hj : (b : ℚ) + 1 ≤ j := by exact_mod_cast hj
    linarith

end Quotients

section Rounding

/-- A mantissa of 53 bits that is rounded up may need one bit more, and then ends in a zero. -/
lemma exists_mantissa {r : ℕ} {t : ℤ} (hr : 0 < r) (hle : r ≤ 2 ^ 53) (ht : -1074 ≤ t)
    (hbig : 2 ^ 52 ≤ r ∨ t = -1074) : ∃ r' k : ℕ, 0 < r' ∧ k ≤ 1 ∧ r = 2 ^ k * r' ∧
      binary64.targetExponent (totalExponent r' (t + k)) = t + k := by
  rcases hle.lt_or_eq with hlt | rfl
  · refine ⟨r, 0, hr, by omega, by simp, ?_⟩
    have hlog : r.log2 < 53 := (Nat.log2_lt hr.ne').mpr hlt
    have hlow := le_targetExponent hbig
    rw [targetExponent_binary64] at hlow ⊢
    push_cast
    omega
  · refine ⟨2 ^ 52, 1, by positivity, by omega, by norm_num, ?_⟩
    rw [targetExponent_binary64, Nat.log2_two_pow]
    push_cast
    omega

/-- Rounding replaces the mantissa by the quotient at the exponent it needs. -/
theorem roundWithAccuracy_value (s : Sign) {m : ℕ} {e t : ℤ} (hm : 0 < m) (he : -1074 ≤ e) (hle : e ≤ t)
    (ht : binary64.targetExponent (totalExponent m e) = t) :
    ∃ m' e' h, roundWithAccuracy binary64 s m e .exact = .finite s m' e' h ∧ e' ≤ t + 1 ∧
      (m' : ℚ) * 2 ^ e' = roundQuotient .toEven m (2 ^ (t - e).toNat) * 2 ^ t := by
  obtain ⟨hpos, hlt, hbig⟩ := shift_rounded hm he hle ht
  set r := roundQuotient .toEven m (2 ^ (t - e).toNat) with hr
  have hbounds : m / 2 ^ (t - e).toNat ≤ r ∧ r ≤ m / 2 ^ (t - e).toNat + 1 := by
    rcases roundQuotient_cases .toEven m (2 ^ (t - e).toNat) with ⟨h, -⟩ | ⟨h, -⟩ <;> omega
  obtain ⟨r', k, hr', hk, hsplit, htarget⟩ :=
    exists_mantissa (t := t) (by omega) (by omega : r ≤ 2 ^ 53) (by omega) (by omega)
  refine ⟨r', t + k, hr', ?_, by omega, ?_⟩
  · have hfirst : shiftToTargetExponent binary64 m e .exact =
        (ExtendedMantissa.ofMantissaAndAccuracy m .exact >>> (t - e).toNat, t) := by
      unfold shiftToTargetExponent shiftToExponent
      dsimp only
      rw [ht]
      congr 1
      omega
    have hsecond := shiftToTargetExponent_exact hr' htarget
    unfold roundWithAccuracy
    simp only [hfirst, roundedMantissa_shiftRight, ← hr, hsplit, hsecond, hr'.ne', dite_false]
  · rw [hsplit]
    push_cast
    rw [zpow_add₀ (by norm_num), zpow_natCast]
    ring

/-- No number of the format is closer than the one that a positive number is rounded to. -/
theorem roundWithAccuracy_nearest (s : Sign) {m : ℕ} {e : ℤ} (hm : 0 < m) (he : -1074 ≤ e)
    (hle : e ≤ binary64.targetExponent (totalExponent m e)) (hlog : (m.log2 : ℤ) + e ≤ 1022) :
    ∃ m' e' h, roundWithAccuracy binary64 s m e .exact = .finite s m' e' h ∧ e' ≤ 971 ∧
      ∀ q, FitsWord q → |(m' : ℚ) * 2 ^ e' - m * 2 ^ e| ≤ |q - m * 2 ^ e| := by
  set t := binary64.targetExponent (totalExponent m e) with ht
  obtain ⟨m', e', h, hround, hmax, hvalue⟩ := roundWithAccuracy_value s hm he hle ht.symm
  have htarget := ht.trans (targetExponent_binary64 m e)
  refine ⟨m', e', h, hround, by omega, ?_⟩
  rintro q ⟨a, b, rfl, ha, hmin, -⟩
  have hnearest := roundQuotient_nearest .toEven m (Nat.two_pow_pos (t - e).toNat)
  set d := 2 ^ (t - e).toNat with hd
  set r := roundQuotient .toEven m d
  have hscale : (0 : ℚ) < 2 ^ t := by positivity
  have hexact : (m : ℚ) * 2 ^ e = m / d * 2 ^ t := by
    have hsplit : (2 : ℚ) ^ t = d * 2 ^ e := by
      rw [hd]
      push_cast
      rw [← zpow_natCast, ← zpow_add₀ (by norm_num)]
      congr 1
      omega
    rw [hsplit, ← mul_assoc, div_mul_cancel₀ _ (by positivity)]
  rw [hvalue, hexact, ← sub_mul, abs_mul, abs_of_pos hscale]
  rcases le_or_gt t b with htb | hbt
  · -- The other number is a whole number of units of the same grid.
    have hgrid : (a : ℚ) * 2 ^ b = ((a * 2 ^ (b - t).toNat : ℤ) : ℚ) * 2 ^ t := by
      push_cast
      rw [mul_assoc, ← zpow_natCast, ← zpow_add₀ (by norm_num)]
      congr 2
      omega
    rw [hgrid, ← sub_mul, abs_mul, abs_of_pos hscale]
    exact mul_le_mul_of_nonneg_right (hnearest _) hscale.le
  · -- The other number lies below the grid's least mantissa of 53 bits, which is on the grid.
    obtain ⟨-, -, hbig⟩ := shift_rounded hm he hle ht.symm
    have hleast : (2 : ℚ) ^ 52 ≤ m / d := by
      rw [le_div_iff₀ (by positivity)]
      exact_mod_cast (Nat.le_div_iff_mul_le (Nat.two_pow_pos _)).mp (hbig.resolve_right (by omega))
    have hbelow : (a : ℚ) * 2 ^ b ≤ 2 ^ 52 * 2 ^ t := by
      have hstep : (2 : ℚ) ^ 53 * 2 ^ b ≤ 2 ^ 52 * 2 ^ t := by
        rw [show (2 : ℚ) ^ 53 = 2 ^ 52 * 2 ^ (1 : ℤ) by norm_num, mul_assoc, ← zpow_add₀ (by norm_num)]
        gcongr
        · norm_num
        · omega
      refine le_trans ?_ hstep
      gcongr
      exact_mod_cast ((le_abs_self a).trans_lt ha).le
    have herror : |(r : ℚ) - m / d| ≤ m / d - 2 ^ 52 := by
      have hsize : |((2 ^ 52 : ℤ) : ℚ) - m / d| = m / d - 2 ^ 52 := by
        rw [Int.cast_pow, Int.cast_ofNat, abs_sub_comm, abs_of_nonneg (sub_nonneg.mpr hleast)]
      exact (hnearest (2 ^ 52)).trans_eq hsize
    calc |(r : ℚ) - m / d| * 2 ^ t ≤ (m / d - 2 ^ 52) * 2 ^ t := mul_le_mul_of_nonneg_right herror hscale.le
      _ ≤ m / d * 2 ^ t - a * 2 ^ b := by rw [sub_mul]; linarith
      _ ≤ |(a : ℚ) * 2 ^ b - m / d * 2 ^ t| := by rw [abs_sub_comm]; exact le_abs_self _

end Rounding

section Conversion

lemma rational?_toFloat {n : ℕ} (hn : n ≤ 2 ^ 53) : rational? n.toUInt64.toFloat = some (n : ℚ) := by
  have hword : n.toUInt64.toNat = n := UInt64.toNat_ofNat_of_lt' (hn.trans_lt (by decide))
  have hround : Rounded (UnpackedFloat.normalize binary64 n 0 .positive) := by
    rcases normalize_rounded n (by decide : (-1074 : ℤ) ≤ 0) with ⟨-, hzero⟩ | ⟨_, _, _, _, hfinite, hround⟩
    · rw [hzero]; trivial
    · rw [hfinite]; exact hround
  have hunpacked : unpacked n.toUInt64.toFloat = capped (UnpackedFloat.normalize binary64 n 0 .positive) := by
    rw [← unpacked_packed hround]
    change unpacked (packed (UnpackedFloat.normalize binary64 n.toUInt64.toNat 0 .positive)) = _
    rw [hword]
  rw [rational?, hunpacked, rationalOf_normalize]
  · simp
  · simpa using fitsWord_intCast (n := n) (by rw [Nat.abs_cast]; exact_mod_cast hn)

/-- A product with the word of one keeps a finite number. -/
lemma mul_ofBits_one {x : Float} {q : ℚ} (hx : rational? x = some q) :
    x * Float.ofBits 0x3FF0000000000000 = x := by
  have hrounded := rounded_unpacked x
  have hone : unpacked (Float.ofBits 0x3FF0000000000000) = .finite .positive (2 ^ 52) (-52) (by decide) := rfl
  have hproduct : mul binary64 (unpacked x) (.finite .positive (2 ^ 52) (-52) (by decide)) = unpacked x := by
    unfold rational? at hx
    cases hu : unpacked x with
    | zero s => cases s <;> rfl
    | finite s m e hm =>
      rw [hu] at hrounded
      obtain ⟨hlt, hmin, hbig⟩ := hrounded
      have htarget : binary64.targetExponent (totalExponent m (e - 52 + (52 : ℕ))) = e - 52 + (52 : ℕ) := by
        have hlog : m.log2 < 53 := (Nat.log2_lt hm.ne').mpr hlt
        have hlow := le_targetExponent hbig
        rw [targetExponent_binary64] at hlow ⊢
        push_cast
        omega
      have hexact := roundWithAccuracy_exact s (k := 52) hm htarget
      have hsign : s * .positive = s := by cases s <;> rfl
      simp only [mul, mul_comm m]
      rw [hsign, ← sub_eq_add_neg, hexact]
      simp only [Nat.cast_ofNat, sub_add_cancel]
    | _ => rw [hu] at hx; cases hx
  rw [← unpacked_inj, ← capped_unpacked x, ← hproduct, ← hone, ← unpacked_packed]
  · rfl
  · rw [hone, hproduct]
    exact hrounded

lemma ofNat_eq_toFloat {n : ℕ} (hn : n < 2 ^ 53) : Float.ofNat n = n.toUInt64.toFloat := by
  change Float.ofScientific n false 0 = _
  unfold Float.ofScientific
  rw [dif_pos ⟨hn, by decide⟩]
  exact mul_ofBits_one (rational?_toFloat hn.le)

lemma ofNat_eq_packed {n : ℕ} (hn : 2 ^ 53 ≤ n) :
    Float.ofNat n = packed (roundWithAccuracy binary64 .positive (n * 2 ^ 53) (-53) .exact) := by
  change Float.ofScientific n false 0 = _
  unfold Float.ofScientific
  rw [dif_neg (by omega)]
  change packed (UnpackedFloat.ofScientific binary64 n 0) = _
  unfold UnpackedFloat.ofScientific
  rw [dif_neg (by omega), if_neg (by decide), if_neg (by simp), if_pos le_rfl]
  simp only [mul, Nat.shiftLeft_eq, Int.toNat_zero, pow_zero, mul_one]
  rfl

/-- The float is finite, and none is closer to the number. -/
def NearestTo (x : Float) (v : ℚ) : Prop :=
  ∃ q, rational? x = some q ∧ ∀ r, Representable r → |q - v| ≤ |r - v|

theorem NearestTo.neg {x : Float} {v : ℚ} (h : NearestTo x v) : NearestTo (-x) (-v) := by
  obtain ⟨q, hq, hnearest⟩ := h
  refine ⟨-q, ?_, fun r hr => ?_⟩
  · unfold rational? at hq ⊢
    rw [unpacked_neg]
    cases hu : unpacked x with
    | zero s =>
      rw [hu] at hq
      obtain rfl := Option.some.inj hq
      simp [UnpackedFloat.neg, rationalOf]
    | finite s m e hm =>
      rw [hu] at hq
      obtain rfl := Option.some.inj hq
      cases s <;> simp [UnpackedFloat.neg, rationalOf, Sign.apply]
    | _ => rw [hu] at hq; cases hq
  · have hflip : ∀ a b : ℚ, |(-a) - (-b)| = |a - b| := fun a b => by rw [neg_sub_neg, abs_sub_comm]
    rw [hflip]
    refine (hnearest (-r) (representable_iff.mpr (representable_iff.mp hr).neg)).trans_eq ?_
    rw [← hflip, neg_neg]

theorem nearestTo_ofNat {n : ℕ} (hn : n < 2 ^ 64) : NearestTo (Float.ofNat n) n := by
  rcases lt_or_ge n (2 ^ 53) with hsmall | hlarge
  · rw [ofNat_eq_toFloat hsmall]
    exact ⟨n, rational?_toFloat hsmall.le, fun r _ => by rw [sub_self, abs_zero]; exact abs_nonneg _⟩
  · have hpos : 0 < n * 2 ^ 53 := by positivity
    have hlog : (n * 2 ^ 53).log2 = n.log2 + 53 := by
      rw [← Nat.shiftLeft_eq, log2_shiftLeft (by omega)]
    have hlow : n.log2 < 64 := (Nat.log2_lt (by omega)).mpr hn
    have hhigh : 53 ≤ n.log2 := (Nat.le_log2 (by omega)).mpr hlarge
    have hle : (-53 : ℤ) ≤ binary64.targetExponent (totalExponent (n * 2 ^ 53) (-53)) := by
      rw [targetExponent_binary64, hlog]
      push_cast
      omega
    obtain ⟨m, e, hm, hround, hmax, hnearest⟩ :=
      roundWithAccuracy_nearest .positive hpos (by decide) hle (by rw [hlog]; push_cast; omega)
    obtain ⟨_, _, _, hround', hrounded⟩ := roundWithAccuracy_rounded .positive .exact hpos (by decide) hle
    rw [← hround'] at hrounded
    have hvalue : ((n * 2 ^ 53 : ℕ) : ℚ) * 2 ^ (-53 : ℤ) = n := by
      push_cast
      rw [mul_assoc, zpow_neg]
      norm_num
    rw [hvalue] at hnearest
    refine ⟨m * 2 ^ e, ?_, fun r hr => hnearest r (representable_iff.mp hr)⟩
    rw [ofNat_eq_packed hlarge, rational?, unpacked_packed hrounded, hround]
    simp [capped, not_lt.mpr hmax, rationalOf, Sign.apply]

/-- A whole number of a word is converted to a float none is closer than. -/
theorem nearestTo_ofInt {n : ℤ} (hn : |n| < 2 ^ 64) : NearestTo (Float.ofInt n) n := by
  cases n with
  | ofNat n => exact nearestTo_ofNat (by rw [Int.ofNat_eq_natCast, Nat.abs_cast] at hn; exact_mod_cast hn)
  | negSucc n =>
    have hsucc : n + 1 < 2 ^ 64 := by
      rw [Int.negSucc_eq, abs_neg, ← Nat.cast_succ, Nat.abs_cast] at hn
      exact_mod_cast hn
    have hneg := (nearestTo_ofNat hsucc).neg
    rw [Int.negSucc_eq]
    push_cast at hneg ⊢
    exact hneg

end Conversion

section Nearest
variable {x y : Float} {v w q r : ℚ}

/-- A number that a float stands for is nearest to itself only. -/
theorem NearestTo.eq_of_representable (h : NearestTo x v) (hv : Representable v) : rational? x = some v := by
  obtain ⟨q, hq, hnearest⟩ := h
  have hle := hnearest v hv
  rw [sub_self, abs_zero] at hle
  rw [hq, sub_eq_zero.mp (abs_nonpos_iff.mp hle)]

/-- What is nearest to a number does not go past a representable number above it. -/
theorem NearestTo.le (h : NearestTo x v) (hq : rational? x = some q) (hr : Representable r) (hvr : v ≤ r) :
    q ≤ r := by
  obtain ⟨q', hq', hnearest⟩ := h
  obtain rfl := Option.some.inj (hq.symm.trans hq')
  have hdistance := (le_abs_self _).trans (hnearest r hr)
  rw [abs_of_nonneg (sub_nonneg.mpr hvr)] at hdistance
  linarith

/-- What is nearest to a number does not go past a representable number below it. -/
theorem NearestTo.ge (h : NearestTo x v) (hq : rational? x = some q) (hr : Representable r) (hrv : r ≤ v) :
    r ≤ q := by
  obtain ⟨q', hq', hnearest⟩ := h
  obtain rfl := Option.some.inj (hq.symm.trans hq')
  have hdistance := (neg_le_abs _).trans (hnearest r hr)
  rw [abs_of_nonpos (sub_nonpos.mpr hrv)] at hdistance
  linarith

/-- Rounding to the nearest number keeps the order. -/
theorem NearestTo.mono (hx : NearestTo x v) (hy : NearestTo y w) (hq : rational? x = some q)
    (hr : rational? y = some r) (hvw : v < w) : q ≤ r := by
  obtain ⟨q', hq', hnearest⟩ := hx
  obtain ⟨r', hr', hnearest'⟩ := hy
  obtain rfl := Option.some.inj (hq.symm.trans hq')
  obtain rfl := Option.some.inj (hr.symm.trans hr')
  have hleft := sq_le_sq.mpr (hnearest r ⟨y, hr⟩)
  have hright := sq_le_sq.mpr (hnearest' q ⟨x, hq⟩)
  nlinarith only [hleft, hright, hvw]

/-- From `2 ^ 53` on no number of the format has a fraction. -/
lemma FitsWord.exists_int (h : FitsWord q) (hq : 2 ^ 53 ≤ |q|) : ∃ k : ℤ, q = k := by
  obtain ⟨m, e, rfl, hm, -, -⟩ := h
  have he : 0 ≤ e := by
    by_contra hneg
    have hpower : (2 : ℚ) ^ e < 1 := zpow_lt_one_of_neg₀ (by norm_num) (not_le.mp hneg)
    have hmantissa : |(m : ℚ)| < 2 ^ 53 := by exact_mod_cast hm
    rw [abs_mul, abs_of_pos (by positivity : (0 : ℚ) < 2 ^ e)] at hq
    nlinarith only [hq, hpower, hmantissa, abs_nonneg (m : ℚ)]
  lift e to ℕ using he
  exact ⟨m * 2 ^ e, by push_cast; rfl⟩

/-- Nothing is closer to a whole number than another whole number, if not itself. -/
theorem NearestTo.exists_int {n : ℤ} (h : NearestTo x n) : ∃ k : ℤ, rational? x = some (k : ℚ) := by
  obtain ⟨q, hq, -⟩ := id h
  have hpower : Representable ((2 ^ 53 : ℤ) : ℚ) := representable_iff.mpr (fitsWord_intCast (by norm_num))
  have hpower' : Representable ((-2 ^ 53 : ℤ) : ℚ) := representable_iff.mpr (fitsWord_intCast (by norm_num))
  have hfits : FitsWord q := fitsWord_of_rational? hq
  rcases le_or_gt |n| (2 ^ 53) with hsmall | hlarge
  · exact ⟨n, h.eq_of_representable (representable_iff.mpr (fitsWord_intCast hsmall))⟩
  · have hsize : 2 ^ 53 ≤ |q| := by
      rcases lt_abs.mp hlarge with hpos | hneg
      · have hle := h.ge hq hpower (by exact_mod_cast hpos.le)
        exact le_trans (by exact_mod_cast hle) (le_abs_self q)
      · have hle := h.le hq hpower' (by exact_mod_cast (by omega : n ≤ -2 ^ 53))
        refine le_trans ?_ (neg_le_abs q)
        push_cast at hle
        linarith
    obtain ⟨k, rfl⟩ := hfits.exists_int hsize
    exact ⟨k, hq⟩

end Nearest
end MixedProgram.Number
