import MixedProgram.Number.Reader
import MixedProgram.Number.Layout
import MixedProgram.Proofs.Number.Shortest

/-! What a numeral denotes.
In either form, with an exponent or without one, the text of a decimal denotes the decimal, so that two
numerals with one text belong to one number. -/
namespace MixedProgram.Number

section Digits

/-- A text of digits only. -/
abbrev AllDigits (cs : List Char) : Prop := ∀ c ∈ cs, c.isDigit = true

theorem allDigits_toDigits (n : ℕ) : AllDigits (Nat.toDigits 10 n) := fun _ =>
  Nat.isDigit_of_mem_toDigits (by decide) (by decide)

theorem allDigits_zeros (n : ℕ) : AllDigits (zeros n) := by
  intro c hc
  rw [List.eq_of_mem_replicate hc]
  rfl

theorem AllDigits.append {cs ds : List Char} (h : AllDigits cs) (h' : AllDigits ds) : AllDigits (cs ++ ds) :=
  List.forall_mem_append.mpr ⟨h, h'⟩

@[simp] theorem digitsValue_toDigits (n : ℕ) : digitsValue (Nat.toDigits 10 n) = n :=
  Nat.ofDigitChars_ten_toDigits

theorem digitsValue_append (cs ds : List Char) :
    digitsValue (cs ++ ds) = 10 ^ ds.length * digitsValue cs + digitsValue ds := by
  rw [digitsValue, Nat.ofDigitChars_append, Nat.ofDigitChars_eq_ofDigitChars_zero]
  rfl

@[simp] theorem digitsValue_zeros (n : ℕ) : digitsValue (zeros n) = 0 := by
  simp [digitsValue, zeros, Nat.ofDigitChars_replicate_zero]

theorem toDigits_inj {m n : ℕ} : Nat.toDigits 10 m = Nat.toDigits 10 n ↔ m = n := by
  refine ⟨fun h => ?_, congrArg _⟩
  rw [← digitsValue_toDigits m, h, digitsValue_toDigits]

@[simp] theorem length_zeros (n : ℕ) : (zeros n).length = n := List.length_replicate

@[simp] theorem readExponent?_nil : readExponent? [] = none := rfl

/-- A power of ten as it stands behind the letter of an exponent. -/
def exponentChars (k : ℤ) : List Char := (if k < 0 then '-' else '+') :: Nat.toDigits 10 k.natAbs

@[simp] theorem readExponent?_exponentChars (k : ℤ) : readExponent? (exponentChars k) = some k := by
  have hall : (Nat.toDigits 10 k.natAbs).all Char.isDigit = true :=
    List.all_eq_true.mpr (allDigits_toDigits k.natAbs)
  have hread : readDigits? (Nat.toDigits 10 k.natAbs) = some k.natAbs := by
    simp [readDigits?, hall, Nat.toDigits_ne_nil]
  unfold exponentChars
  split_ifs with hk
  · have habs : -(k.natAbs : ℤ) = k := by omega
    simpa [readExponent?, splitSign, hread] using habs
  · have habs : (k.natAbs : ℤ) = k := by omega
    simpa [readExponent?, splitSign, hread] using habs

end Digits

section Denoted

/-- The number denoted by digits with a point among them, perhaps, and perhaps an exponent behind them. -/
def denoted (cs : List Char) : ℚ :=
  let whole := cs.takeWhile Char.isDigit
  let (fraction, rest) := match cs.dropWhile Char.isDigit with
    | '.' :: r => (r.takeWhile Char.isDigit, r.dropWhile Char.isDigit)
    | r => ([], r)
  digitsValue (whole ++ fraction) * 10 ^ ((readExponent? (rest.drop 1)).getD 0 - fraction.length)

variable {whole fraction tail : List Char}

theorem denoted_point (hwhole : AllDigits whole) (hfraction : AllDigits fraction)
    (htail : ∀ c ∈ tail.head?, c.isDigit = false) :
    denoted (whole ++ '.' :: (fraction ++ tail)) =
      digitsValue (whole ++ fraction) * 10 ^ ((readExponent? (tail.drop 1)).getD 0 - fraction.length) := by
  have hstop : tail.takeWhile Char.isDigit = [] ∧ tail.dropWhile Char.isDigit = tail := by
    cases tail with
    | nil => exact ⟨rfl, rfl⟩
    | cons c cs => simp [htail c rfl]
  simp [denoted, List.takeWhile_append_of_pos hwhole, List.dropWhile_append_of_pos hwhole,
    List.takeWhile_append_of_pos hfraction, List.dropWhile_append_of_pos hfraction, hstop]

theorem denoted_exponent (hwhole : AllDigits whole) :
    denoted (whole ++ 'e' :: tail) = digitsValue whole * 10 ^ ((readExponent? tail).getD 0) := by
  simp [denoted, List.takeWhile_append_of_pos hwhole, List.dropWhile_append_of_pos hwhole]

end Denoted

namespace Decimal
variable (d : Decimal)

theorem allDigits_digits : AllDigits d.digits := allDigits_toDigits _

theorem digits_ne_nil : d.digits ≠ [] := Nat.toDigits_ne_nil

@[simp] theorem digitsValue_digits : digitsValue d.digits = d.coefficient := digitsValue_toDigits _

/-- A positional numeral denotes its decimal, provided that whole numbers end in a zero fraction. -/
theorem denoted_positional : denoted (d.positional ".0".toList) = d.value := by
  have hdigits := d.allDigits_digits
  unfold positional value
  split_ifs with hwhole hpoint
  · obtain ⟨k, hk⟩ := Int.eq_ofNat_of_zero_le hwhole
    have htext : d.digits ++ zeros d.exponent.toNat ++ ".0".toList =
        (d.digits ++ zeros k) ++ '.' :: (zeros 1 ++ []) := by simp [hk, zeros]
    rw [htext, denoted_point (hdigits.append (allDigits_zeros k)) (allDigits_zeros 1) (by simp), hk]
    simp only [digitsValue_append, digitsValue_digits, digitsValue_zeros, length_zeros, List.drop_nil,
      readExponent?_nil, Option.getD_none]
    push_cast
    rw [zpow_natCast, zpow_neg_one]
    ring
  · obtain ⟨k, hk⟩ := Int.eq_ofNat_of_zero_le hpoint.le
    have htake : AllDigits (d.digits.take k) := fun c hc => hdigits c (List.mem_of_mem_take hc)
    have hdrop : AllDigits (d.digits.drop k) := fun c hc => hdigits c (List.mem_of_mem_drop hc)
    have hplaces : 0 - ((d.digits.drop k).length : ℤ) = d.exponent := by
      have hpoint : d.digits.length + d.exponent = k := hk
      rw [List.length_drop]
      omega
    rw [hk, Int.toNat_natCast, ← List.append_nil (d.digits.drop k), denoted_point htake hdrop (by simp),
      List.take_append_drop, digitsValue_digits, List.drop_nil, readExponent?_nil, Option.getD_none, hplaces]
  · obtain ⟨k, hk⟩ := Int.eq_ofNat_of_zero_le (show 0 ≤ -d.point by omega)
    have hplaces : 0 - ((zeros k ++ d.digits).length : ℤ) = d.exponent := by
      have hpoint : -(d.digits.length + d.exponent) = k := hk
      rw [List.length_append, length_zeros]
      push_cast
      omega
    have htext : '0' :: '.' :: zeros k ++ d.digits = zeros 1 ++ '.' :: ((zeros k ++ d.digits) ++ []) := by
      simp [zeros]
    rw [hk, Int.toNat_natCast, htext,
      denoted_point (allDigits_zeros 1) ((allDigits_zeros k).append hdigits) (by simp), List.drop_nil,
      readExponent?_nil, Option.getD_none, hplaces]
    simp [digitsValue_append]

theorem mem_positional {ending : List Char} {c : Char} (hc : c ∈ d.positional ending) :
    c.isDigit = true ∨ c = '.' ∨ c ∈ ending := by
  have hdigits := d.allDigits_digits c
  have hzero : c = '0' → c.isDigit = true := by rintro rfl; rfl
  have hzeros := fun n => allDigits_zeros n c
  unfold positional at hc
  split_ifs at hc <;> grind [List.mem_of_mem_take, List.mem_of_mem_drop]

theorem denoted_scientific : denoted d.scientific = d.value := by
  have hdigits := d.allDigits_digits
  have hpositive := List.length_pos_iff.mpr d.digits_ne_nil
  have htext : d.scientific = d.digits.take 1 ++ (if d.digits.length = 1 then [] else '.' :: d.digits.drop 1)
       ++ 'e' :: exponentChars (d.point - 1) := rfl
  rw [htext, value]
  split_ifs with hone
  · have hpower : d.point - 1 = d.exponent := by rw [point]; omega
    rw [List.append_nil, List.take_of_length_le hone.le, denoted_exponent hdigits, digitsValue_digits,
      readExponent?_exponentChars, Option.getD_some, hpower]
  · have htake : AllDigits (d.digits.take 1) := fun c hc => hdigits c (List.mem_of_mem_take hc)
    have hdrop : AllDigits (d.digits.drop 1) := fun c hc => hdigits c (List.mem_of_mem_drop hc)
    have hpower : d.point - 1 - ((d.digits.drop 1).length : ℤ) = d.exponent := by
      rw [List.length_drop, point]
      omega
    rw [List.append_assoc, List.cons_append, denoted_point htake hdrop (by simp), List.take_append_drop,
      digitsValue_digits, List.drop_one, List.tail_cons, readExponent?_exponentChars,
      Option.getD_some, hpower]

end Decimal

section Signed

/-- A text that starts with a digit and so not with a sign. -/
def StartsWithDigit (cs : List Char) : Prop := ∃ c ds, cs = c :: ds ∧ c.isDigit = true

theorem startsWithDigit_toDigits (n : ℕ) : StartsWithDigit (Nat.toDigits 10 n) := by
  obtain ⟨c, cs, hcs⟩ := List.exists_cons_of_ne_nil (Nat.toDigits_ne_nil : Nat.toDigits 10 n ≠ [])
  exact ⟨c, cs, hcs, allDigits_toDigits n c (by simp [hcs])⟩

/-- Whether there is a sign shows in front of a digit. -/
theorem signed_inj {negative negative' : Bool} {cs cs' : List Char} (h : StartsWithDigit cs)
    (h' : StartsWithDigit cs') :
    signed negative cs = signed negative' cs' ↔ negative = negative' ∧ cs = cs' := by
  have hsign : ∀ {ds : List Char} (es : List Char), StartsWithDigit ds → '-' :: es ≠ ds := by
    rintro _ es ⟨c, ds, rfl, hc⟩ heq
    cases heq
    exact absurd hc (by decide)
  cases negative <;> cases negative'
  · simp [signed]
  · simp [signed, (hsign cs' h).symm]
  · simp [signed, hsign cs h']
  · simp [signed]

/-- A number starts with a digit behind its sign, and a word with a letter. -/
lemma signed_ne_signed_cons {negative negative' : Bool} {cs ds : List Char} {c : Char}
    (h : StartsWithDigit cs)
    (hc : c.isDigit = false) (hminus : c ≠ '-') : signed negative cs ≠ signed negative' (c :: ds) := by
  obtain ⟨d, es, rfl, hd⟩ := h
  have hne : d ≠ c := by rintro rfl; simp [hc] at hd
  have hsign : d ≠ '-' := by rintro rfl; simp at hd
  cases negative <;> cases negative' <;> simp [signed, hne, hsign, hminus.symm]

end Signed

namespace Layout
variable (l : Layout)

/-- The decimal chosen for a number. -/
def decimal (m : ℕ) (e : ℤ) : Decimal := if m = 0 then ⟨0, 0⟩ else shortest l.tie m e

def numeral (d : Decimal) : List Char :=
  if l.positional d.point then d.positional l.wholeEnding else d.scientific

theorem finite_eq (negative : Bool) (m : ℕ) (e : ℤ) :
    l.finite negative m e = signed negative (l.numeral (l.decimal m e)) := rfl

theorem decimal_holds (m : ℕ) (e : ℤ) : (Interval.around m e).Holds (l.decimal m e).value := by
  unfold decimal
  split_ifs with hm
  · subst hm
    rw [Interval.holds_around_iff]
    simp [Decimal.value, zpow_nonneg]
  · exact Interval.shortest_holds l.tie e (Nat.pos_of_ne_zero hm)

theorem startsWithDigit_numeral (d : Decimal) : StartsWithDigit (l.numeral d) := by
  obtain ⟨c, cs, hcs, hc⟩ : StartsWithDigit d.digits := startsWithDigit_toDigits d.coefficient
  unfold numeral
  split_ifs
  · unfold Decimal.positional
    split_ifs with _ hpoint
    · exact ⟨c, _, by rw [hcs]; rfl, hc⟩
    · obtain ⟨k, hk⟩ := Nat.exists_eq_succ_of_ne_zero (show d.point.toNat ≠ 0 by omega)
      exact ⟨c, _, by rw [hcs, hk]; rfl, hc⟩
    · exact ⟨'0', _, rfl, rfl⟩
  · exact ⟨c, _, by rw [Decimal.scientific, hcs]; rfl, hc⟩

variable {l}

/-- Numbers whose numerals agree in sign and text are the same, if a numeral denotes its decimal. -/
theorem finite_inj_of_denoted (hdenoted : ∀ d, denoted (l.numeral d) = d.value) {negative negative' : Bool}
    {m m' : ℕ} {e e' : ℤ} (h : FitsBinary64 m e) (h' : FitsBinary64 m' e')
    (heq : l.finite negative m e = l.finite negative' m' e') : negative = negative' ∧ m = m' ∧ e = e' := by
  rw [finite_eq, finite_eq, signed_inj (l.startsWithDigit_numeral _) (l.startsWithDigit_numeral _)] at heq
  obtain ⟨hsign, htext⟩ := heq
  have hvalue : (l.decimal m e).value = (l.decimal m' e').value := by
    rw [← hdenoted, htext, hdenoted]
  have hholds := l.decimal_holds m' e'
  rw [← hvalue] at hholds
  exact ⟨hsign, Interval.eq_of_holds_around h h' (l.decimal_holds m e) hholds⟩

variable (hl : l.wholeEnding = ".0".toList)
include hl

theorem denoted_numeral (d : Decimal) : denoted (l.numeral d) = d.value := by
  unfold numeral
  split_ifs
  · rw [hl]
    exact d.denoted_positional
  · exact d.denoted_scientific

/-- A numeral is told from the digits of a whole number by its point or its exponent. -/
theorem not_allDigits_numeral (d : Decimal) : ¬ AllDigits (l.numeral d) := by
  have hpoint : '.' ∈ d.positional l.wholeEnding := by
    unfold Decimal.positional
    split_ifs <;> simp [hl]
  have hexponent : 'e' ∈ d.scientific := by simp [Decimal.scientific]
  intro hall
  unfold numeral at hall
  split_ifs at hall
  · exact absurd (hall '.' hpoint) (by decide)
  · exact absurd (hall 'e' hexponent) (by decide)

theorem isNumeral_of_mem_numeral {d : Decimal} {c : Char} (hc : c ∈ l.numeral d) :
    c.isDigit = true ∨ c ∈ ['.', 'e', '+', '-'] := by
  unfold numeral at hc
  split_ifs at hc
  · rcases d.mem_positional (hl ▸ hc) with hc | rfl | hc
    · exact .inl hc
    · exact .inr (by decide)
    · fin_cases hc <;> decide
  · have hdigits := d.allDigits_digits c
    have hpower := allDigits_toDigits (d.point - 1).natAbs c
    unfold Decimal.scientific at hc
    grind [List.mem_of_mem_take]

/-- Numbers whose numerals agree in sign and text are the same. -/
theorem finite_inj {negative negative' : Bool} {m m' : ℕ} {e e' : ℤ} (h : FitsBinary64 m e)
    (h' : FitsBinary64 m' e') (heq : l.finite negative m e = l.finite negative' m' e') :
    negative = negative' ∧ m = m' ∧ e = e' :=
  finite_inj_of_denoted (denoted_numeral hl) h h' heq

end Layout

end MixedProgram.Number
