import MixedProgram.Proofs.Number.Packing

/-! Sums of binary numbers, one added after another.
A sum that starts at the positive zero never is the negative zero, so that adding either zero leaves it
alone, and it becomes NaN only where opposite infinities meet. -/
namespace MixedProgram.Number
open Float.Model (Format UnpackedFloat)
open Float.Model.UnpackedFloat

lemma sign_ne_iff (s t : Sign) : s ≠ t ↔ t = -s := by
  have hneg : -Sign.negative = Sign.positive := rfl
  have hpos : -Sign.positive = Sign.negative := rfl
  cases s <;> cases t <;> simp [hneg, hpos]

/-- Two finite numbers add up to a rounded number, and to the positive zero when they cancel. -/
lemma finite_add_finite {s₁ s₂ : Sign} {m₁ m₂ : ℕ} {e₁ e₂ : ℤ} {h₁ : 0 < m₁} {h₂ : 0 < m₂}
    (hr₁ : Rounded (.finite s₁ m₁ e₁ h₁)) (hr₂ : Rounded (.finite s₂ m₂ e₂ h₂)) :
    add binary64 (.finite s₁ m₁ e₁ h₁) (.finite s₂ m₂ e₂ h₂) = .zero .positive ∨
      ∃ s m e h, add binary64 (.finite s₁ m₁ e₁ h₁) (.finite s₂ m₂ e₂ h₂) = .finite s m e h ∧
        Rounded (.finite s m e h) := by
  have he : -1074 ≤ min e₁ e₂ := le_min hr₁.2.1 hr₂.2.1
  exact (normalize_rounded _ he).imp (fun h => h.2) id

theorem rounded_add {u v : UnpackedFloat} (hu : Rounded u) (hv : Rounded v) :
    Rounded (add binary64 u v) := by
  cases u with
  | notANumber => trivial
  | infinity s =>
    cases v with
    | infinity t => simp only [add]; split_ifs <;> trivial
    | _ => trivial
  | zero s =>
    cases v with
    | zero t => simp only [add]; split_ifs <;> trivial
    | finite t m e hm => exact hv
    | _ => trivial
  | finite s m e hm =>
    cases v with
    | zero t => exact hu
    | finite t m' e' hm' =>
      rcases finite_add_finite hu hv with h | ⟨_, _, _, _, h, hr⟩
      · rw [h]; trivial
      · rw [h]; exact hr
    | _ => trivial

/-- The negative zero is the sum of negative zeros only. -/
lemma left_of_add_eq_neg_zero {u v : UnpackedFloat} (hu : Rounded u) (hv : Rounded v)
    (h : add binary64 u v = .zero .negative) : u = .zero .negative := by
  cases u with
  | notANumber => simp [add] at h
  | infinity s =>
    cases v with
    | infinity t => simp only [add] at h; split_ifs at h
    | _ => simp [add] at h
  | zero s =>
    cases v with
    | zero t => cases s <;> cases t <;> simp_all [add]
    | _ => simp [add] at h
  | finite s m e hm =>
    cases v with
    | finite t m' e' hm' =>
      rcases finite_add_finite hu hv with h' | ⟨_, _, _, _, h', -⟩
      · simp [h'] at h
      · simp [h'] at h
    | _ => simp [add] at h

lemma add_zero_right {u : UnpackedFloat} (hu : u ≠ .zero .negative) (t : Sign) :
    add binary64 u (.zero t) = u := by
  cases u with
  | zero s =>
    cases s with
    | positive => cases t <;> rfl
    | negative => exact absurd rfl hu
  | _ => rfl

lemma add_zero_left {v : UnpackedFloat} (hv : v ≠ .zero .negative) :
    add binary64 (.zero .positive) v = v := by
  cases v with
  | zero s =>
    cases s with
    | positive => rfl
    | negative => exact absurd rfl hv
  | _ => rfl

/-- Only NaN itself and opposite infinities make a sum NaN. -/
lemma add_eq_notANumber_iff {u v : UnpackedFloat} (hu : Rounded u) (hv : Rounded v) :
    add binary64 u v = .notANumber ↔
      u = .notANumber ∨ v = .notANumber ∨ ∃ s, u = .infinity s ∧ v = .infinity (-s) := by
  cases u with
  | notANumber => simp [add]
  | infinity s =>
    cases v with
    | infinity t => simp [add, ← sign_ne_iff]
    | _ => simp [add]
  | zero s =>
    cases v with
    | zero t => simp only [add]; split_ifs <;> simp
    | _ => simp [add]
  | finite s m e hm =>
    cases v with
    | finite t m' e' hm' =>
      rcases finite_add_finite hu hv with h | ⟨_, _, _, _, h, -⟩ <;> simp [h]
    | _ => simp [add]

/-- What a number stands for, read off its bits. -/
def unpacked (x : Float) : UnpackedFloat := x.toModel.unpack

lemma rounded_unpacked (x : Float) : Rounded (unpacked x) := rounded_unpack _

theorem unpacked_inj {x y : Float} : unpacked x = unpacked y ↔ x = y := by
  rw [← Float.toBits_inj, ← UInt64.toBitVec_inj]
  exact unpack_inj_of_valid x.toModel.valid y.toModel.valid

@[simp] lemma unpacked_zero : unpacked 0.0 = .zero .positive := by
  rfl

@[simp] lemma unpacked_neg_zero : unpacked (-0.0) = .zero .negative := by
  rfl

theorem unpacked_add (x y : Float) :
    unpacked (x + y) = capped (add binary64 (unpacked x) (unpacked y)) :=
  unpack_pack (rounded_add (rounded_unpacked x) (rounded_unpacked y))

lemma capped_unpacked (x : Float) : capped (unpacked x) = unpacked x := by
  have h := unpack_pack (rounded_unpacked x)
  rw [← h]
  exact congrArg (unpack binary64) (pack_unpack_of_valid x.toModel.valid)

lemma capped_eq_iff {u v : UnpackedFloat} (hv : v = .notANumber ∨ ∃ s, v = .zero s) :
    capped u = v ↔ u = v := by
  rcases hv with rfl | ⟨s, rfl⟩
  all_goals
    cases u with
    | finite t m e hm => simp only [capped]; split_ifs <;> simp
    | _ => rfl

lemma beq_zero_iff (x : Float) : (x == 0.0) = true ↔ x = 0.0 ∨ x = -0.0 := by
  rw [Float.beq_iff_ne_nan_and_eq]
  constructor
  · rintro ⟨-, -, h | ⟨-, h⟩ | ⟨h, -⟩⟩
    · exact Or.inl h
    · exact absurd h (by decide)
    · exact Or.inr h
  · rintro (rfl | rfl)
    · exact ⟨by decide, by decide, Or.inl rfl⟩
    · exact ⟨by decide, by decide, Or.inr (Or.inr ⟨by decide, by decide⟩)⟩

lemma unpacked_ne_neg_zero {x : Float} (hx : x ≠ -0.0) : unpacked x ≠ .zero .negative :=
  fun h => hx (unpacked_inj.mp (h.trans unpacked_neg_zero.symm))

section Zeros
variable {s c : Float}

/-- Adding a zero of either sign changes nothing but the negative zero. -/
theorem add_of_beq_zero (hs : s ≠ -0.0) (hc : (c == 0.0) = true) : s + c = s := by
  rw [← unpacked_inj, unpacked_add]
  rcases (beq_zero_iff c).mp hc with rfl | rfl
  · rw [unpacked_zero, add_zero_right (unpacked_ne_neg_zero hs), capped_unpacked]
  · rw [unpacked_neg_zero, add_zero_right (unpacked_ne_neg_zero hs), capped_unpacked]

theorem zero_add_of_ne (hc : c ≠ -0.0) : 0.0 + c = c := by
  rw [← unpacked_inj, unpacked_add, unpacked_zero, add_zero_left (unpacked_ne_neg_zero hc),
    capped_unpacked]

/-- Under rounding to nearest nothing added to another number gives the negative zero. -/
theorem add_ne_neg_zero (hs : s ≠ -0.0) (c : Float) : s + c ≠ -0.0 := by
  intro h
  have hu := congrArg unpacked h
  rw [unpacked_add, unpacked_neg_zero, capped_eq_iff (Or.inr ⟨_, rfl⟩)] at hu
  exact unpacked_ne_neg_zero hs
    (left_of_add_eq_neg_zero (rounded_unpacked s) (rounded_unpacked c) hu)

theorem zero_ne_neg_zero : (0.0 : Float) ≠ -0.0 := by decide

lemma zero_beq_zero : ((0.0 : Float) == 0.0) = true := by decide

theorem eq_zero_of_beq_zero (hs : s ≠ -0.0) (h : (s == 0.0) = true) : s = 0.0 :=
  ((beq_zero_iff s).mp h).resolve_right hs

end Zeros

section NaN

lemma isNaN_iff (x : Float) : x.isNaN = true ↔ unpacked x = .notANumber := by
  exact UnpackedFloat.isNaN_iff

lemma isInf_iff (x : Float) : x.isInf = true ↔ ∃ s, unpacked x = .infinity s := by
  change (unpacked x).isInf = true ↔ _
  cases unpacked x <;> simp [isInf]

lemma unpacked_neg (x : Float) : unpacked (-x) = (unpacked x).neg := by
  have hr : Rounded (unpacked x).neg := by
    have h := rounded_unpacked x
    cases hx : unpacked x <;> simp_all [neg, Rounded]
  have hc : capped (unpacked x).neg = (capped (unpacked x)).neg := by
    cases unpacked x with
    | finite s m e hm => simp only [neg, capped]; split_ifs <;> rfl
    | _ => rfl
  rw [← capped_unpacked x, ← hc]
  exact unpack_pack hr

/-- A sum is NaN when a part is, or when infinities of opposite signs meet. -/
theorem isNaN_add_iff (x y : Float) :
    (x + y).isNaN = true ↔ x.isNaN = true ∨ y.isNaN = true ∨ (x.isInf = true ∧ y = -x) := by
  simp only [isNaN_iff, isInf_iff]
  rw [unpacked_add, capped_eq_iff (Or.inl rfl),
    add_eq_notANumber_iff (rounded_unpacked x) (rounded_unpacked y)]
  refine or_congr_right (or_congr_right ⟨?_, ?_⟩)
  · rintro ⟨s, hx, hy⟩
    exact ⟨⟨s, hx⟩, unpacked_inj.mp (by rw [hy, unpacked_neg, hx]; rfl)⟩
  · rintro ⟨⟨s, hx⟩, rfl⟩
    exact ⟨s, hx, by rw [unpacked_neg, hx]; rfl⟩

end NaN
end MixedProgram.Number
