import Mathlib

/-! Binary numbers with a sign, a mantissa and an exponent, and the 64 bits that hold them.
What rounding returns fits the 64 bits, apart from numbers that are too large and become infinite. -/
namespace MixedProgram.Number
open Float.Model (Format UnpackedFloat totalExponent)
open Float.Model.UnpackedFloat

abbrev binary64 : Format := Format.binary64

/-- At most 53 bits of mantissa, of which the highest is set unless the exponent is the least one. -/
def Rounded : UnpackedFloat → Prop
  | .finite _ m e _ => m < 2 ^ 53 ∧ -1074 ≤ e ∧ (2 ^ 52 ≤ m ∨ e = -1074)
  | _ => True

/-- A number above the largest exponent is infinite. -/
def capped : UnpackedFloat → UnpackedFloat
  | .finite s m e h => if 971 < e then .infinity s else .finite s m e h
  | u => u

section Shifting

lemma shiftRight_mantissa (em : ExtendedMantissa) (k : ℕ) :
    (em >>> k).mantissa = em.mantissa / 2 ^ k := by
  induction k with
  | zero => simp [HShiftRight.hShiftRight, Nat.repeat]
  | succ k ih =>
    change (em >>> k).mantissa / 2 = _
    rw [ih, Nat.div_div_eq_div_mul, pow_succ]

lemma mantissa_le_roundedMantissa (em : ExtendedMantissa) : em.mantissa ≤ em.roundedMantissa := by
  rcases em with ⟨m, r, t⟩
  cases r <;> cases t <;>
    simp [ExtendedMantissa.roundedMantissa, ExtendedMantissa.accuracy, Accuracy.roundToNearestEven]

lemma log2_shiftLeft {m : ℕ} (hm : 0 < m) (k : ℕ) : (m <<< k).log2 = m.log2 + k := by
  induction k with
  | zero => simp
  | succ k ih =>
    have hpos : m <<< k ≠ 0 := by simp [Nat.shiftLeft_eq, hm.ne']
    rw [Nat.shiftLeft_succ, Nat.log2_two_mul hpos, ih, Nat.add_assoc]

lemma targetExponent_binary64 (m : ℕ) (e : ℤ) :
    binary64.targetExponent (totalExponent m e) = max (m.log2 + 1 + e - 53) (-1074) := rfl

/-- Shifting down to the target exponent leaves a positive mantissa of at most 53 bits. -/
lemma shift_rounded {m : ℕ} {e t : ℤ} (hm : 0 < m) (he : -1074 ≤ e) (hle : e ≤ t)
    (ht : binary64.targetExponent (totalExponent m e) = t) :
    0 < m / 2 ^ (t - e).toNat ∧ m / 2 ^ (t - e).toNat < 2 ^ 53 ∧
      (2 ^ 52 ≤ m / 2 ^ (t - e).toNat ∨ t = -1074) := by
  rw [targetExponent_binary64] at ht
  have hlow := Nat.log2_self_le hm.ne'
  have hhigh := Nat.lt_log2_self (n := m)
  generalize m.log2 = l at *
  have hpos : 0 < 2 ^ (t - e).toNat := Nat.two_pow_pos _
  by_cases hl : 52 ≤ l
  · have hk : (t - e).toNat = l - 52 := by omega
    have h52 : 2 ^ l = 2 ^ 52 * 2 ^ (l - 52) := by rw [← pow_add]; congr 1; omega
    have h53 : 2 ^ (l + 1) = 2 ^ 53 * 2 ^ (l - 52) := by rw [← pow_add]; congr 1; omega
    rw [hk] at hpos ⊢
    have hge : 2 ^ 52 ≤ m / 2 ^ (l - 52) := (Nat.le_div_iff_mul_le hpos).mpr (by omega)
    have hlt : m / 2 ^ (l - 52) < 2 ^ 53 := (Nat.div_lt_iff_lt_mul hpos).mpr (by omega)
    exact ⟨by omega, hlt, Or.inl hge⟩
  · have hk : (t - e).toNat = 0 := by omega
    have hlt : 2 ^ (l + 1) ≤ 2 ^ 53 := Nat.pow_le_pow_right (by decide) (by omega)
    rw [hk, pow_zero, Nat.div_one]
    exact ⟨hm, by omega, by omega⟩

end Shifting

section Rounding

/-- After a step of rounding the mantissa still needs its own exponent or a larger one. -/
lemma le_targetExponent {r : ℕ} {e : ℤ} (h : 2 ^ 52 ≤ r ∨ e = -1074) :
    e ≤ binary64.targetExponent (totalExponent r e) := by
  rw [targetExponent_binary64]
  rcases h with hr | rfl
  · have := (Nat.le_log2 (by omega : r ≠ 0)).mpr hr
    omega
  · exact le_max_right _ _

/-- Rounding is two shifts with one rounding step between; each leaves a positive mantissa. -/
theorem roundWithAccuracy_rounded (s : Sign) {m : ℕ} {e : ℤ} (a : Accuracy) (hm : 0 < m)
    (he : -1074 ≤ e) (hle : e ≤ binary64.targetExponent (totalExponent m e)) :
    ∃ m' e' h, roundWithAccuracy binary64 s m e a = .finite s m' e' h ∧
      Rounded (.finite s m' e' h) := by
  set t := binary64.targetExponent (totalExponent m e) with ht
  obtain ⟨hpos, -, hbig⟩ := shift_rounded hm he hle ht.symm
  set first := ExtendedMantissa.ofMantissaAndAccuracy m a >>> (t - e).toNat with hfirst
  have hmant : first.mantissa = m / 2 ^ (t - e).toNat := by
    rw [hfirst, shiftRight_mantissa]
    cases a with
    | exact => rfl
    | inexact o => cases o <;> rfl
  have hr := mantissa_le_roundedMantissa first
  have het : e + (t - e).toNat = t := by omega
  have htl : -1074 ≤ t := le_max_right _ _
  set r := first.roundedMantissa
  set t' := binary64.targetExponent (totalExponent r t) with ht'
  have hle' : t ≤ t' := le_targetExponent (by omega)
  obtain ⟨hpos', hlt', hbig'⟩ := shift_rounded (by omega) htl hle' ht'.symm
  have hfinal : (ExtendedMantissa.ofMantissaAndAccuracy r .exact >>> (t' - t).toNat).mantissa =
      r / 2 ^ (t' - t).toNat := shiftRight_mantissa _ _
  have het' : t + (t' - t).toNat = t' := by omega
  refine ⟨_, t', hpos', ?_, hlt', le_max_right _ _, hbig'⟩
  have hone : shiftToTargetExponent binary64 m e a = (first, t) :=
    Prod.ext rfl het
  have htwo : shiftToTargetExponent binary64 r t .exact =
      (ExtendedMantissa.ofMantissaAndAccuracy r .exact >>> (t' - t).toNat, t') := Prod.ext rfl het'
  unfold roundWithAccuracy
  rw [hone]
  change (if h : (shiftToTargetExponent binary64 r t .exact).1.mantissa = 0
    then UnpackedFloat.zero s
    else UnpackedFloat.finite s (shiftToTargetExponent binary64 r t .exact).1.mantissa
      (shiftToTargetExponent binary64 r t .exact).2 (Nat.pos_of_ne_zero h)) = _
  simp only [htwo, hfinal, hpos'.ne', dite_false]

/-- Rounding a positive number on the grid of the least exponent never gives zero. -/
theorem round_rounded (s : Sign) {m : ℕ} {e : ℤ} (hm : 0 < m) (he : -1074 ≤ e) :
    ∃ m' e' h, UnpackedFloat.round binary64 s m e = .finite s m' e' h ∧
      Rounded (.finite s m' e' h) := by
  set t := binary64.targetExponent (totalExponent m e) with ht
  set k := (e - t).toNat with hk
  have hpos : 0 < m <<< k := by rw [Nat.shiftLeft_eq]; exact Nat.mul_pos hm (Nat.two_pow_pos k)
  have hlog : (m <<< k).log2 = m.log2 + k := log2_shiftLeft hm k
  have htl : -1074 ≤ t := le_max_right _ _
  refine roundWithAccuracy_rounded s .exact hpos (e := e - k) (by omega) ?_
  rw [targetExponent_binary64, hlog]
  rw [targetExponent_binary64] at ht
  push_cast
  omega

/-- A whole number of units of a grid rounds to a number, and to the positive zero only from zero. -/
theorem normalize_rounded (n : ℤ) {e : ℤ} (he : -1074 ≤ e) :
    (n = 0 ∧ UnpackedFloat.normalize binary64 n e .positive = .zero .positive) ∨
      ∃ s m' e' h, UnpackedFloat.normalize binary64 n e .positive = .finite s m' e' h ∧
        Rounded (.finite s m' e' h) := by
  unfold UnpackedFloat.normalize
  rcases lt_trichotomy n 0 with hn | rfl | hn
  · rw [Int.compare_eq_lt.mpr hn]
    exact Or.inr ⟨_, round_rounded .negative (by omega) he⟩
  · exact Or.inl ⟨rfl, rfl⟩
  · rw [Int.compare_eq_gt.mpr hn]
    exact Or.inr ⟨_, round_rounded .positive (by omega) he⟩

end Rounding

section Words

/-- The word with the given sign, biased exponent and mantissa. -/
abbrev word (s : Sign) (e : BitVec 11) (m : BitVec 52) : BitVec 64 := packComponents binary64 s e m

/-- The five kinds of words. -/
theorem word_cases {P : BitVec 64 → Prop} (infinity : ∀ s, P (word s 2047#11 0#52))
    (notANumber : ∀ s m, m ≠ 0#52 → P (word s 2047#11 m)) (zero : ∀ s, P (word s 0#11 0#52))
    (subnormal : ∀ s m, 0 < m.toNat → P (word s 0#11 m))
    (normal : ∀ s e m, e ≠ 2047#11 → e ≠ 0#11 → P (word s e m)) (b : BitVec 64) : P b := by
  rw [← @packComponents_unpackSign_unpackExponent_unpackMantissa binary64 b]
  generalize Sign.ofBitVec (@unpackSign binary64 b) = s
  generalize @unpackExponent binary64 b = e
  generalize @unpackMantissa binary64 b = m
  by_cases he : e = 2047#11
  · subst he
    by_cases hm : m = 0#52
    · exact hm ▸ infinity s
    · exact notANumber s m hm
  by_cases he' : e = 0#11
  · subst he'
    by_cases hm : m = 0#52
    · exact hm ▸ zero s
    · exact subnormal s m (BitVec.toNat_pos_of_ne_zero hm)
  · exact normal s e m he he'

lemma toNat_implicit (m : BitVec 52) : (1#1 ++ m).toNat = 2 ^ 52 + m.toNat := by
  rw [BitVec.toNat_append, ← Nat.shiftLeft_add_eq_or_of_lt m.isLt]
  simp

lemma exponentBias_binary64 : binary64.exponentBias = 1023 := rfl

section Parts
variable (s : Sign)

@[simp] lemma unpack_infinity : unpack binary64 (word s 2047#11 0#52) = .infinity s := by
  simp [unpack]

lemma unpack_notANumber {m : BitVec 52} (hm : m ≠ 0#52) :
    unpack binary64 (word s 2047#11 m) = .notANumber := by
  simp [unpack, hm]

@[simp] lemma unpack_zero : unpack binary64 (word s 0#11 0#52) = .zero s := by
  simp [unpack]

lemma unpack_subnormal {m : BitVec 52} (hm : 0 < m.toNat) :
    unpack binary64 (word s 0#11 m) = .finite s m.toNat (-1074) hm := by
  have h : m ≠ 0#52 := by rintro rfl; simp at hm
  simp [unpack, h, exponentBias_binary64]

lemma unpack_normal {e : BitVec 11} (m : BitVec 52) (he : e ≠ 2047#11) (he' : e ≠ 0#11) :
    unpack binary64 (word s e m) = .finite s (2 ^ 52 + m.toNat) (e.toNat - 1075) (by omega) := by
  simp [unpack, he, he', toNat_implicit, exponentBias_binary64]

lemma pack_large {m : ℕ} {e : ℤ} (hm : 0 < m) (he : 971 < e) :
    pack binary64 (.finite s m e hm) = word s 2047#11 0#52 := by
  have hbig : 2 ^ 11 ≤ (e + 1023 + 52).toNat + 1 := by omega
  exact if_pos hbig

lemma pack_subnormal {m : ℕ} (hm : 0 < m) (hlt : m < 2 ^ 52) :
    pack binary64 (.finite s m (-1074) hm) = word s 0#11 (BitVec.ofNat 52 m) := by
  have hlog : ¬ m.log2 + 1 = binary64.mantissaBits := by
    have := (Nat.log2_lt hm.ne').mpr hlt
    change ¬ m.log2 + 1 = 53
    omega
  exact if_neg hlog

lemma pack_normal {m : ℕ} {e : ℤ} (hm : 0 < m) (hge : 2 ^ 52 ≤ m) (hlt : m < 2 ^ 53)
    (he : -1074 ≤ e) (he' : e ≤ 971) :
    pack binary64 (.finite s m e hm) =
      word s (BitVec.ofNat 11 (e + 1075).toNat) (BitVec.ofNat 52 m) := by
  have hlog : m.log2 + 1 = binary64.mantissaBits := by
    have := (Nat.log2_eq_iff hm.ne').mpr ⟨hge, hlt⟩
    change m.log2 + 1 = 53
    omega
  have hfit : ¬ 2 ^ 11 ≤ (e + 1023 + 52).toNat + 1 := by omega
  have hexp : (e + 1075).toNat = (e + 1023 + 52).toNat := by omega
  rw [hexp]
  exact (if_neg hfit).trans (if_pos hlog)

end Parts

end Words

section RoundTrip

/-- What a word stands for fits the word. -/
theorem rounded_unpack (b : BitVec 64) : Rounded (unpack binary64 b) := by
  induction b using word_cases with
  | infinity s => rw [unpack_infinity]; trivial
  | notANumber s m hm => rw [unpack_notANumber s hm]; trivial
  | zero s => rw [unpack_zero]; trivial
  | subnormal s m hm =>
    have hlt := m.isLt
    rw [unpack_subnormal s hm]
    exact ⟨by omega, le_rfl, Or.inr rfl⟩
  | normal s e m he he' =>
    have hlt := m.isLt
    have hne' : e.toNat ≠ 0 := fun hh => he' (BitVec.eq_of_toNat_eq hh)
    rw [unpack_normal s m he he']
    exact ⟨by omega, by omega, Or.inl (by omega)⟩

/-- A rounded number comes back from its word, unless it is too large for it. -/
theorem unpack_pack {u : UnpackedFloat} (hu : Rounded u) :
    unpack binary64 (pack binary64 u) = capped u := by
  cases u with
  | infinity s => exact unpack_infinity s
  | notANumber => exact unpack_notANumber _ (by decide)
  | zero s => exact unpack_zero s
  | finite s m e hm =>
    obtain ⟨hlt, hmin, hbig⟩ := hu
    by_cases hmax : 971 < e
    · rw [pack_large s hm hmax, unpack_infinity, capped, if_pos hmax]
    rw [capped, if_neg hmax]
    by_cases hge : 2 ^ 52 ≤ m
    · rw [pack_normal s hm hge hlt hmin (by omega)]
      have hexp : (BitVec.ofNat 11 (e + 1075).toNat).toNat = (e + 1075).toNat := by
        rw [BitVec.toNat_ofNat, Nat.mod_eq_of_lt (by omega)]
      have hne : BitVec.ofNat 11 (e + 1075).toNat ≠ 2047#11 := by
        intro hh
        have := congrArg BitVec.toNat hh
        rw [hexp] at this
        simp at this
        omega
      have hne' : BitVec.ofNat 11 (e + 1075).toNat ≠ 0#11 := by
        intro hh
        have := congrArg BitVec.toNat hh
        rw [hexp] at this
        simp at this
        omega
      rw [unpack_normal s _ hne hne']
      simp only [hexp, BitVec.toNat_ofNat]
      congr 1 <;> omega
    · obtain rfl : e = -1074 := hbig.resolve_left hge
      have hmant : (BitVec.ofNat 52 m).toNat = m := by
        rw [BitVec.toNat_ofNat, Nat.mod_eq_of_lt (by omega)]
      rw [pack_subnormal s hm (by omega), unpack_subnormal s (by omega)]
      simp only [hmant]

end RoundTrip
end MixedProgram.Number
