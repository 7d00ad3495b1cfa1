import Mathlib
import MixedProgram.Number.Shortest

/-! The shortest numeral of a number lies among the reals that round to it.
Intervals around different numbers have no point in common, because an end that two of them share belongs
to the even mantissa alone. -/
namespace MixedProgram.Number

/-- The size of the parts of a finite number of 64 bits. -/
structure FitsBinary64 (m : ℕ) (e : ℤ) : Prop where
  mantissa_lt : m < 2 ^ 53
  exponent_ge : -1074 ≤ e
  full_or_least : 2 ^ 52 ≤ m ∨ e = -1074

namespace Value
variable {a b : ℕ} {negative : Bool} {m : ℕ} {e : ℤ}

theorem exists_of_isFinite {v : Value} (h : v.isFinite = true) :
    ∃ negative m e, v = finite negative m e := by
  cases v with
  | finite negative m e => exact ⟨negative, m, e, rfl⟩
  | _ => cases h

theorem fits_ofBits (h : ofBits a = finite negative m e) : FitsBinary64 m e := by
  have hfraction : a % leadingBit < leadingBit := Nat.mod_lt _ (by decide)
  have hbiased : a / leadingBit % 0x800 < 0x800 := Nat.mod_lt _ (by decide)
  unfold ofBits at h
  dsimp only at h
  split_ifs at h with _ _ hleast <;> cases h
  · exact ⟨by unfold leadingBit at hfraction ⊢; omega, by omega, Or.inr rfl⟩
  · exact ⟨by unfold leadingBit at hfraction ⊢; omega, by omega, Or.inl (by unfold leadingBit; omega)⟩

/-- The parts of a finite number are the parts of its bits. -/
theorem parts_of_ofBits (h : ofBits a = finite negative m e) :
    (a / 0x8000000000000000 % 2 == 1) = negative ∧
      a / leadingBit % 0x800 = (if m < leadingBit then 0 else (e + 1075).toNat) ∧
      a % leadingBit = m % leadingBit := by
  have hfraction : a % leadingBit < leadingBit := Nat.mod_lt _ (by decide)
  unfold ofBits at h
  dsimp only at h
  split_ifs at h with _ _ hleast <;> cases h
  · simp [hfraction, hleast]
  · refine ⟨rfl, ?_, by simp⟩
    rw [if_neg (by omega)]
    omega

theorem ofBits_inj (ha : a < UInt64.size) (hb : b < UInt64.size) (h : ofBits a = finite negative m e)
    (h' : ofBits b = finite negative m e) : a = b := by
  obtain ⟨hsign, hbiased, hfraction⟩ := parts_of_ofBits h
  obtain ⟨hsign', hbiased', hfraction'⟩ := parts_of_ofBits h'
  have hsigns := Bool.eq_iff_iff.mp (hsign.trans hsign'.symm)
  rw [beq_iff_eq, beq_iff_eq] at hsigns
  have hbiaseds := hbiased.trans hbiased'.symm
  have hfractions := hfraction.trans hfraction'.symm
  unfold leadingBit at hbiaseds hfractions
  have hsize : UInt64.size = 0x10000000000000000 := rfl
  omega

theorem ofFloat_inj {x y : Float} (hx : ofFloat x = finite negative m e)
    (hy : ofFloat y = finite negative m e) : x = y := by
  have hbits : x.toBits = y.toBits :=
    UInt64.toNat_inj.mp (ofBits_inj x.toBits.toNat_lt y.toBits.toNat_lt hx hy)
  obtain ⟨⟨_, _⟩⟩ := x
  obtain ⟨⟨_, _⟩⟩ := y
  cases hbits
  rfl

end Value
namespace Decimal

/-- The number that a decimal stands for. -/
def value (d : Decimal) : ℚ := d.coefficient * 10 ^ d.exponent

theorem value_trim (n : ℕ) (k : ℤ) : (trim n k).value = n * 10 ^ k := by
  induction n using Nat.strong_induction_on generalizing k with
  | _ n ih =>
    unfold trim
    split_ifs with h
    · obtain ⟨hn, hmod⟩ := h
      have hten : (n : ℚ) = (n / 10 : ℕ) * 10 := by
        exact_mod_cast (Nat.div_mul_cancel (Nat.dvd_of_mod_eq_zero hmod)).symm
      rw [ih (n / 10) (by omega), hten, zpow_add₀ (by norm_num)]
      ring
    · rfl

end Decimal

section Powers

theorem zpow_eq_div (a : ℚ) (k : ℤ) : a ^ k = a ^ k.toNat / a ^ (-k).toNat := by
  rcases le_total 0 k with hk | hk
  · lift k to ℕ using hk
    simp
  · obtain ⟨n, rfl⟩ := Int.exists_eq_neg_ofNat hk
    simp

theorem value_exact (m : ℕ) (e : ℤ) : (Decimal.exact m e).value = m * 2 ^ e := by
  have htwo := zpow_eq_div 2 e
  have hten := zpow_eq_div 10 (min e 0)
  have hmin : (min e 0).toNat = 0 ∧ (-min e 0).toNat = (-e).toNat := by omega
  rw [Decimal.exact, Decimal.value_trim, hten, htwo, hmin.1, hmin.2]
  have hsplit : (10 : ℚ) ^ (-e).toNat = 2 ^ (-e).toNat * 5 ^ (-e).toNat := by rw [← mul_pow]; norm_num
  rw [hsplit]
  push_cast [Nat.pow_eq]
  field_simp

end Powers

theorem roundQuotient_eq_or (tie : Tie) (n d : ℕ) :
    roundQuotient tie n d = n / d ∨ roundQuotient tie n d = n / d + 1 := by
  unfold roundQuotient
  split <;> simp
  omega

namespace Interval

/-- A real lies in the interval, at an end only if the interval is closed. -/
def Holds (i : Interval) (x : ℚ) : Prop :=
  if i.closed then i.low ≤ x * i.den ∧ x * i.den ≤ i.high else i.low < x * i.den ∧ x * i.den < i.high

theorem holds_of_contains {i : Interval} {k : ℤ} {n : ℕ} (h : (i.inUnits k).contains n = true) :
    i.Holds (n * 10 ^ k) := by
  have hpos : (0 : ℚ) < 10 ^ (-k).toNat := by positivity
  have hscale : (n : ℚ) * 10 ^ k * i.den = n * (i.den * 10 ^ k.toNat) / 10 ^ (-k).toNat := by
    rw [zpow_eq_div]
    ring
  rw [Holds, hscale, le_div_iff₀ hpos, div_le_iff₀ hpos, lt_div_iff₀ hpos, div_lt_iff₀ hpos]
  cases hclosed : i.closed <;>
    simp only [contains, inUnits, hclosed, if_true, Bool.false_eq_true, if_false, Bool.and_eq_true,
      decide_eq_true_eq] at h ⊢ <;>
    exact_mod_cast h

theorem contains_of_nearest? {tie : Tie} {i : Interval} {n : ℕ} (h : i.nearest? tie = some n) :
    i.contains n = true := by
  have hround := roundQuotient_eq_or tie i.mid i.den
  cases hbelow : i.contains (i.mid / i.den) <;> cases habove : i.contains (i.mid / i.den + 1) <;>
    simp only [nearest?, hbelow, habove, Option.some.injEq, reduceCtorEq] at h
  · rwa [← h]
  · rwa [← h]
  · rcases hround with hround | hround <;> rw [← h, hround] <;> assumption

section Around
variable {m m' : ℕ} {e e' : ℤ} {x : ℚ}

/-- How far the interval reaches below the number, in quarters of a unit. -/
def gap (m : ℕ) (e : ℤ) : ℕ := if m = leadingBit ∧ e ≠ -1074 then 1 else 2

theorem holds_around_iff : (around m e).Holds x ↔
    if m % 2 = 0 then (4 * m - gap m e : ℕ) * 2 ^ (e - 2) ≤ x ∧ x ≤ (4 * m + 2 : ℕ) * 2 ^ (e - 2)
    else (4 * m - gap m e : ℕ) * 2 ^ (e - 2) < x ∧ x < (4 * m + 2 : ℕ) * 2 ^ (e - 2) := by
  have hpos : (0 : ℚ) < 2 ^ (-(e - 2)).toNat := by positivity
  rw [zpow_eq_div, Holds, mul_div_assoc', mul_div_assoc', div_le_iff₀ hpos, le_div_iff₀ hpos,
    div_lt_iff₀ hpos, lt_div_iff₀ hpos]
  have heven : (around m e).closed = decide (m % 2 = 0) := rfl
  have hlow : ((around m e).low : ℚ) = (4 * m - gap m e : ℕ) * 2 ^ (e - 2).toNat := by
    simp [around, gap, ratio, Nat.pow_eq]
  have hhigh : ((around m e).high : ℚ) = (4 * m + 2 : ℕ) * 2 ^ (e - 2).toNat := by
    simp [around, ratio, Nat.pow_eq]
  have hden : ((around m e).den : ℚ) = 2 ^ (-(e - 2)).toNat := by simp [around, ratio, Nat.pow_eq]
  rw [heven, hlow, hhigh, hden]
  simp only [decide_eq_true_eq]

theorem holds_around_self (hm : 0 < m) : (around m e).Holds (m * 2 ^ e) := by
  have hu : (0 : ℚ) < 2 ^ (e - 2) := by positivity
  have hvalue : (m : ℚ) * 2 ^ e = (4 * m : ℕ) * 2 ^ (e - 2) := by
    rw [zpow_sub₀ (by norm_num)]
    push_cast
    ring
  have hgap : 0 < gap m e := by unfold gap; split_ifs <;> decide
  have hlow : ((4 * m - gap m e : ℕ) : ℚ) * 2 ^ (e - 2) < (4 * m : ℕ) * 2 ^ (e - 2) := by
    refine mul_lt_mul_of_pos_right ?_ hu
    exact_mod_cast (show 4 * m - gap m e < 4 * m by omega)
  have hhigh : ((4 * m : ℕ) : ℚ) * 2 ^ (e - 2) < (4 * m + 2 : ℕ) * 2 ^ (e - 2) := by
    refine mul_lt_mul_of_pos_right ?_ hu
    exact_mod_cast (show 4 * m < 4 * m + 2 by omega)
  rw [holds_around_iff, hvalue]
  split_ifs
  · exact ⟨hlow.le, hhigh.le⟩
  · exact ⟨hlow, hhigh⟩

end Around

theorem getD_findSome? {α β : Type} {P : β → Prop} {f : α → Option β} {xs : List α} {d : β}
    (hsome : ∀ a b, f a = some b → P b) (hnone : P d) : P ((xs.findSome? f).getD d) := by
  cases hfound : xs.findSome? f with
  | none => exact hnone
  | some b =>
    obtain ⟨a, -, ha⟩ := List.exists_of_findSome?_eq_some hfound
    exact hsome a b ha

theorem shortest_holds (tie : Tie) {m : ℕ} (e : ℤ) (hm : 0 < m) :
    (around m e).Holds (shortest tie m e).value := by
  refine getD_findSome? (P := fun d : Decimal => (around m e).Holds d.value) (fun places d hd => ?_) ?_
  · obtain ⟨n, hn, rfl⟩ := Option.map_eq_some_iff.mp hd
    rw [Decimal.value_trim]
    exact holds_of_contains (contains_of_nearest? hn)
  · rw [value_exact]
    exact holds_around_self hm

section Disjoint
variable {m m' : ℕ} {e e' : ℤ} {x : ℚ}

theorem gap_le (m : ℕ) (e : ℤ) : gap m e ≤ 2 := by unfold gap; split_ifs <;> decide

/-- Of two numbers the greater one has its interval above that of the other. They share an end only if
one of the mantissas is odd. -/
theorem around_above (h : FitsBinary64 m e) (h' : FitsBinary64 m' e') (hlt : e < e' ∨ e = e' ∧ m < m') :
    ((4 * m + 2 : ℕ) : ℚ) * 2 ^ (e - 2) ≤ (4 * m' - gap m' e' : ℕ) * 2 ^ (e' - 2) ∧
      (m % 2 = 0 → m' % 2 = 0 →
        ((4 * m + 2 : ℕ) : ℚ) * 2 ^ (e - 2) < (4 * m' - gap m' e' : ℕ) * 2 ^ (e' - 2)) := by
  have hu : (0 : ℚ) < 2 ^ (e - 2) := by positivity
  have hgap := gap_le m' e'
  rcases hlt with hlt | ⟨rfl, hlt⟩
  · obtain ⟨k, rfl⟩ := Int.exists_add_of_le (Int.add_one_le_of_lt hlt)
    have hge := h.exponent_ge
    have hfull := h'.full_or_least.resolve_right (by omega)
    have hhalf : 4 * m + 2 ≤ (4 * m' - gap m' (e + 1 + k)) * 2 ∧
        (m % 2 = 0 → 4 * m + 2 < (4 * m' - gap m' (e + 1 + k)) * 2) := by
      have hlt := h.mantissa_lt
      unfold gap leadingBit
      split_ifs <;> omega
    have hscale : (2 : ℚ) ^ (e + 1 + k - 2) = 2 * 2 ^ k * 2 ^ (e - 2) := by
      rw [show e + 1 + k - 2 = e - 2 + 1 + k by ring, zpow_add₀ (by norm_num), zpow_add₀ (by norm_num)]
      simp only [zpow_one, zpow_natCast]
      ring
    have hgrow : (((4 * m' - gap m' (e + 1 + k)) * 2 : ℕ) : ℚ) * 2 ^ (e - 2) ≤
        (4 * m' - gap m' (e + 1 + k) : ℕ) * 2 ^ (e + 1 + k - 2) := by
      have hone : (1 : ℚ) ≤ 2 ^ k := one_le_pow₀ (by norm_num)
      have hpos : (0 : ℚ) ≤ (4 * m' - gap m' (e + 1 + k) : ℕ) * 2 * 2 ^ (e - 2) := by positivity
      calc (((4 * m' - gap m' (e + 1 + k)) * 2 : ℕ) : ℚ) * 2 ^ (e - 2)
          = (4 * m' - gap m' (e + 1 + k) : ℕ) * 2 * 2 ^ (e - 2) * 1 := by push_cast; ring
        _ ≤ (4 * m' - gap m' (e + 1 + k) : ℕ) * 2 * 2 ^ (e - 2) * 2 ^ k := by gcongr
        _ = (4 * m' - gap m' (e + 1 + k) : ℕ) * 2 ^ (e + 1 + k - 2) := by rw [hscale]; ring
    refine ⟨le_trans ?_ hgrow, fun heven _ => lt_of_lt_of_le ?_ hgrow⟩
    · gcongr
      exact hhalf.1
    · gcongr
      exact hhalf.2 heven
  · constructor
    · gcongr
      omega
    · intro heven heven'
      gcongr
      omega

/-- No real rounds to two numbers. -/
theorem eq_of_holds_around (h : FitsBinary64 m e) (h' : FitsBinary64 m' e') (hx : (around m e).Holds x)
    (hx' : (around m' e').Holds x) : m = m' ∧ e = e' := by
  have hdisjoint : ∀ {m m' e e'}, FitsBinary64 m e → FitsBinary64 m' e' → (around m e).Holds x →
      (around m' e').Holds x → ¬ (e < e' ∨ e = e' ∧ m < m') := by
    intro m m' e e' h h' hx hx' hlt
    obtain ⟨hle, hstrict⟩ := around_above h h' hlt
    rw [holds_around_iff] at hx hx'
    split_ifs at hx hx' with heven heven'
    · linarith [hx.2, hx'.1, hstrict heven heven']
    · linarith [hx.2, hx'.1]
    · linarith [hx.2, hx'.1]
    · linarith [hx.2, hx'.1]
  have hbelow := hdisjoint h h' hx hx'
  have habove := hdisjoint h' h hx' hx
  omega

end Disjoint

end Interval

end MixedProgram.Number
