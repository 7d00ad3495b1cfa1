import MixedProgram.Proofs.Number.Addition
import MixedProgram.Proofs.Number.Numeral

/-! Plain numerals.
The plain text of a number belongs to no other number, and all NaNs are one number. -/
namespace MixedProgram.Number
open Float.Model.UnpackedFloat

namespace Value
variable {x y : Float} {negative : Bool}

lemma toNat_unpackExponent (b : BitVec 64) :
    (@unpackExponent binary64 b).toNat = b.toNat / leadingBit % 0x800 := by
  simp [unpackExponent, BitVec.extractLsb_toNat, Nat.shiftRight_eq_div_pow, leadingBit]

lemma toNat_unpackMantissa (b : BitVec 64) : (@unpackMantissa binary64 b).toNat = b.toNat % leadingBit := by
  simp [unpackMantissa, BitVec.extractLsb_toNat, leadingBit]

/-- All bits of the exponent are set in the infinities and NaN, and no bit of the fraction in the former. -/
theorem ofBits_cases (a : ℕ) :
    (∃ negative m e, ofBits a = finite negative m e) ∨
      a / leadingBit % 0x800 = 2047 ∧
        (a % leadingBit = 0 ∧ ofBits a = infinite (a / 0x8000000000000000 % 2 == 1) ∨
          a % leadingBit ≠ 0 ∧ ofBits a = nan) := by
  unfold ofBits
  dsimp only
  split_ifs with hspecial hfraction
  · exact .inr ⟨hspecial, .inl ⟨hfraction, rfl⟩⟩
  · exact .inr ⟨hspecial, .inr ⟨hfraction, rfl⟩⟩
  · exact .inl ⟨_, _, _, rfl⟩
  · exact .inl ⟨_, _, _, rfl⟩

theorem eq_of_ofFloat_infinite (hx : ofFloat x = infinite negative) (hy : ofFloat y = infinite negative) :
    x = y := by
  have hparts : ∀ {z : Float}, ofFloat z = infinite negative → z.toBits.toNat / leadingBit % 0x800 = 2047 ∧
      z.toBits.toNat % leadingBit = 0 ∧ (z.toBits.toNat / 0x8000000000000000 % 2 == 1) = negative := by
    intro z hz
    rcases ofBits_cases z.toBits.toNat with ⟨_, _, _, h⟩ | ⟨hexponent, ⟨hfraction, h⟩ | ⟨-, h⟩⟩
    · cases h.symm.trans hz
    · exact ⟨hexponent, hfraction, infinite.inj (h.symm.trans hz)⟩
    · cases h.symm.trans hz
  obtain ⟨hexponent, hfraction, hsign⟩ := hparts hx
  obtain ⟨hexponent', hfraction', hsign'⟩ := hparts hy
  have hsigns := Bool.eq_iff_iff.mp (hsign.trans hsign'.symm)
  rw [beq_iff_eq, beq_iff_eq] at hsigns
  unfold leadingBit at hexponent hexponent' hfraction hfraction'
  have hltx := x.toBits.toNat_lt
  have hlty := y.toBits.toNat_lt
  rw [← Float.toBits_inj, ← UInt64.toNat_inj]
  omega

/-- There is one NaN. -/
theorem eq_of_ofFloat_nan (hx : ofFloat x = nan) (hy : ofFloat y = nan) : x = y := by
  have hpacked : ∀ {z : Float}, ofFloat z = nan → z.toBits.toBitVec = packedNaN binary64 := by
    intro z hz
    rcases ofBits_cases z.toBits.toNat with ⟨_, _, _, h⟩ | ⟨hexponent, ⟨-, h⟩ | ⟨hfraction, -⟩⟩
    · cases h.symm.trans hz
    · cases h.symm.trans hz
    · refine z.toModel.valid.eq_packedNaN (BitVec.eq_of_toNat_eq ?_) fun hzero => hfraction ?_
      · exact (toNat_unpackExponent _).trans hexponent
      · exact (toNat_unpackMantissa _).symm.trans (congrArg BitVec.toNat hzero)
  rw [← Float.toBits_inj, ← UInt64.toBitVec_inj, hpacked hx, hpacked hy]

end Value

section Numerals
variable {x y : Float}

theorem denoted_digits {cs : List Char} (h : AllDigits cs) : denoted cs = digitsValue cs := by
  have htake : cs.takeWhile Char.isDigit = cs := List.takeWhile_eq_self_iff.mpr h
  have hdrop : cs.dropWhile Char.isDigit = [] := List.dropWhile_eq_nil_iff.mpr h
  simp [denoted, htake, hdrop]

/-- A positional numeral denotes its decimal also when whole numbers have no fraction. -/
theorem Decimal.denoted_positional_nil (d : Decimal) : denoted (d.positional []) = d.value := by
  by_cases hwhole : 0 ≤ d.exponent
  · obtain ⟨k, hk⟩ := Int.eq_ofNat_of_zero_le hwhole
    have htext : d.positional [] = d.digits ++ zeros k := by simp [positional, hk]
    rw [htext, denoted_digits (d.allDigits_digits.append (allDigits_zeros k)), digitsValue_append,
      digitsValue_digits, digitsValue_zeros, length_zeros, value, hk]
    push_cast
    rw [zpow_natCast]
    ring
  · rw [← d.denoted_positional]
    simp only [positional, hwhole, if_false]

theorem plainLayout_finite_inj {negative negative' : Bool} {m m' : ℕ} {e e' : ℤ} (h : FitsBinary64 m e)
    (h' : FitsBinary64 m' e') (heq : plainLayout.finite negative m e = plainLayout.finite negative' m' e') :
    negative = negative' ∧ m = m' ∧ e = e' :=
  plainLayout.finite_inj_of_denoted (fun d => d.denoted_positional_nil) h h' heq

theorem plainChars_of_finite {negative : Bool} {m : ℕ} {e : ℤ} (h : Value.ofFloat x = .finite negative m e) :
    plainChars x = signed negative (plainLayout.numeral (plainLayout.decimal m e)) := by
  rw [plainChars, h]
  rfl

theorem plainChars_ne_of_isFinite (hx : (Value.ofFloat x).isFinite = true)
    (hy : (Value.ofFloat y).isFinite = false) : plainChars x ≠ plainChars y := by
  obtain ⟨negative, m, e, hvx⟩ := Value.exists_of_isFinite hx
  rw [plainChars_of_finite hvx, plainChars]
  cases hvy : Value.ofFloat y with
  | nan =>
    change _ ≠ signed false ('N' :: ['a', 'N'])
    exact signed_ne_signed_cons (plainLayout.startsWithDigit_numeral _) rfl (by decide)
  | infinite negative' => exact signed_ne_signed_cons (plainLayout.startsWithDigit_numeral _) rfl (by decide)
  | finite => rw [hvy] at hy; cases hy

/-- The plain text of a number is its own. -/
theorem plainChars_inj : plainChars x = plainChars y ↔ x = y := by
  refine ⟨fun h => ?_, congrArg _⟩
  cases hx : (Value.ofFloat x).isFinite <;> cases hy : (Value.ofFloat y).isFinite
  · rw [plainChars, plainChars] at h
    cases hvx : Value.ofFloat x with
    | nan =>
      cases hvy : Value.ofFloat y with
      | nan => exact Value.eq_of_ofFloat_nan hvx hvy
      | infinite negative => rw [hvx, hvy] at h; cases negative <;> exact absurd h (by decide)
      | finite => rw [hvy] at hy; cases hy
    | infinite negative =>
      cases hvy : Value.ofFloat y with
      | nan => rw [hvx, hvy] at h; cases negative <;> exact absurd h (by decide)
      | infinite negative' =>
        rw [hvx, hvy] at h
        cases negative <;> cases negative' <;>
          first | exact Value.eq_of_ofFloat_infinite hvx hvy | exact absurd h (by decide)
      | finite => rw [hvy] at hy; cases hy
    | finite => rw [hvx] at hx; cases hx
  · exact absurd h.symm (plainChars_ne_of_isFinite hy hx)
  · exact absurd h (plainChars_ne_of_isFinite hx hy)
  · obtain ⟨negative, m, e, hvx⟩ := Value.exists_of_isFinite hx
    obtain ⟨negative', m', e', hvy⟩ := Value.exists_of_isFinite hy
    rw [plainChars, plainChars, hvx, hvy] at h
    obtain ⟨rfl, rfl, rfl⟩ := plainLayout_finite_inj (Value.fits_ofBits hvx) (Value.fits_ofBits hvy) h
    exact Value.ofFloat_inj hvx hvy

theorem mem_signed {negative : Bool} {cs : List Char} {c : Char} (h : c ∈ signed negative cs) :
    c = '-' ∨ c ∈ cs := by
  cases negative
  · exact .inr h
  · exact List.mem_cons.mp h

/-- The characters of plain numbers. -/
theorem mem_plainChars {c : Char} (hc : c ∈ plainChars x) : c.isDigit = true ∨ c ∈ "-.infNa".toList := by
  unfold plainChars at hc
  cases hx : Value.ofFloat x with
  | nan => rw [hx] at hc; exact .inr (by fin_cases hc <;> decide)
  | infinite negative =>
    rw [hx] at hc
    rcases mem_signed hc with rfl | hc
    · exact .inr (by decide)
    · exact .inr (by fin_cases hc <;> decide)
  | finite negative m e =>
    rw [hx] at hc
    rcases mem_signed hc with rfl | hc
    · exact .inr (by decide)
    · rcases (plainLayout.decimal m e).mem_positional hc with hc | rfl | hc
      · exact .inl hc
      · exact .inr (by decide)
      · cases hc

end Numerals
end MixedProgram.Number
