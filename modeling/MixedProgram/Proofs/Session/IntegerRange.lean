import MixedProgram.Proofs.Number.Nearest
import MixedProgram.Proofs.Session.Lineage

/-! Integer ranges in binary.
A range of words is kept exactly, but its bounds are reported as the nearest floats. The floats describe the
same range when both bounds are small, and beyond that only if rounding moves no bound past a word. -/
namespace MixedProgram
open Number

/-- The number lies between two finite bounds. -/
def Between (lower upper : Float) (n : ℤ) : Prop :=
  ∃ l u, rational? lower = some l ∧ rational? upper = some u ∧ l ≤ n ∧ n ≤ u

/-- The bounds have the same words between them as the range. -/
def SameRange (lo hi : Int64) (lower upper : Float) : Prop :=
  ∀ z : Int64, lo ≤ z ∧ z ≤ hi ↔ Between lower upper z.toInt

/-- The bounds are the nearest ones to those of a range of words. They bound the same words just when a range
that is not empty begins with a number that is representable, and also ends with one or else with the last
word, and when one that is empty does not become a single word by rounding. -/
structure RangeReported (lo hi : Int64) (lower upper : Float) : Prop where
  nearest_lower : NearestTo lower lo.toInt
  nearest_upper : NearestTo upper hi.toInt
  same_iff : SameRange lo hi lower upper ↔
    lo ≤ hi ∧ Representable lo.toInt ∧ (Representable hi.toInt ∨ hi = Int64.maxValue) ∨
      hi < lo ∧ (rational? lower ≠ rational? upper ∨ rational? lower = some (2 ^ 63))
  same_of_small : |lo.toInt| ≤ 2 ^ 53 → |hi.toInt| ≤ 2 ^ 53 → SameRange lo hi lower upper

section Words

/-- The whole numbers that a word stands for. -/
theorem forall_int64 {P : ℤ → Prop} : (∀ z : Int64, P z.toInt) ↔ ∀ k : ℤ, -2 ^ 63 ≤ k → k < 2 ^ 63 → P k := by
  constructor
  · intro h k hmin hmax
    have hword := h (.ofInt k)
    rwa [Int64.toInt_ofInt_of_le hmin hmax] at hword
  · exact fun h z => h z.toInt z.le_toInt z.toInt_lt

lemma abs_toInt_le (z : Int64) : |z.toInt| ≤ 2 ^ 63 := abs_le.mpr ⟨z.le_toInt, z.toInt_lt.le⟩

theorem nearestTo_ofInt_toInt (z : Int64) : NearestTo (Float.ofInt z.toInt) z.toInt :=
  nearestTo_ofInt ((abs_toInt_le z).trans_lt (by norm_num))

lemma representable_two_pow_63 : Representable ((2 ^ 63 : ℤ) : ℚ) ∧ Representable ((-2 ^ 63 : ℤ) : ℚ) := by
  rw [representable_iff, representable_iff]
  exact ⟨⟨1, 63, by norm_num, by norm_num, by norm_num, by norm_num⟩,
    ⟨-1, 63, by norm_num, by norm_num, by norm_num, by norm_num⟩⟩

/-- A word is rounded to a whole number, which is one more than the last word at most. -/
theorem exists_rational?_ofInt (z : Int64) :
    ∃ k : ℤ, rational? (Float.ofInt z.toInt) = some (k : ℚ) ∧ -2 ^ 63 ≤ k ∧ k ≤ 2 ^ 63 := by
  have hnearest := nearestTo_ofInt_toInt z
  obtain ⟨k, hk⟩ := hnearest.exists_int
  have hbounds := abs_le.mp (abs_toInt_le z)
  have hlow := hnearest.ge hk representable_two_pow_63.2 (by exact_mod_cast hbounds.1)
  have hhigh := hnearest.le hk representable_two_pow_63.1 (by exact_mod_cast hbounds.2)
  exact ⟨k, hk, by exact_mod_cast hlow, by exact_mod_cast hhigh⟩

/-- A word that is representable is reported as it is. -/
lemma rational?_ofInt_iff (z : Int64) :
    rational? (Float.ofInt z.toInt) = some (z.toInt : ℚ) ↔ Representable z.toInt :=
  ⟨fun h => ⟨_, h⟩, (nearestTo_ofInt_toInt z).eq_of_representable⟩

lemma rational?_ofInt_maxValue : rational? (Float.ofInt Int64.maxValue.toInt) = some ((2 ^ 63 : ℤ) : ℚ) := by
  have hword : Float.ofInt Int64.maxValue.toInt = Float.ofBits 0x43E0000000000000 := by decide +kernel
  have hunpacked : unpacked (Float.ofBits 0x43E0000000000000) =
    .finite .positive (2 ^ 52) 11 (by decide) := rfl
  rw [hword, rational?, hunpacked]
  norm_num [rationalOf, Float.Model.UnpackedFloat.Sign.apply]

end Words

section Ranges
variable {lo hi : Int64} {x y : Float} {a b l u : ℤ}

theorem sameRange_iff_forall (hl : rational? x = some (l : ℚ)) (hu : rational? y = some (u : ℚ)) :
    SameRange lo hi x y ↔
      ∀ k : ℤ, -2 ^ 63 ≤ k → k < 2 ^ 63 → (lo.toInt ≤ k ∧ k ≤ hi.toInt ↔ l ≤ k ∧ k ≤ u) := by
  rw [← forall_int64]
  refine forall_congr' fun z => ?_
  simp only [Int64.le_iff_toInt_le, Between, hl, hu, Option.some.injEq, exists_and_left,
    exists_eq_left', Int.cast_le]

/-- Two ranges of whole numbers that agree on all words. -/
lemma forall_word_iff (ha : -2 ^ 63 ≤ a ∧ a < 2 ^ 63) (hb : -2 ^ 63 ≤ b ∧ b < 2 ^ 63)
    (hl : -2 ^ 63 ≤ l ∧ l ≤ 2 ^ 63) (hu : -2 ^ 63 ≤ u ∧ u ≤ 2 ^ 63) :
    (∀ k : ℤ, -2 ^ 63 ≤ k → k < 2 ^ 63 → (a ≤ k ∧ k ≤ b ↔ l ≤ k ∧ k ≤ u)) ↔
      a ≤ b ∧ l = a ∧ (u = b ∨ b = 2 ^ 63 - 1 ∧ u = 2 ^ 63) ∨ b < a ∧ (u < l ∨ l = 2 ^ 63) := by
  constructor
  · intro h
    have hfirst := h a
    have hlast := h b
    have hlower := h l
    have hupper := h u
    have hnext := h (b + 1)
    omega
  · omega

/-- The conversion of both bounds decides whether the range is kept. -/
theorem sameRange_ofInt_iff (lo hi : Int64) :
    SameRange lo hi (Float.ofInt lo.toInt) (Float.ofInt hi.toInt) ↔
      lo ≤ hi ∧ Representable lo.toInt ∧ (Representable hi.toInt ∨ hi = Int64.maxValue) ∨
        hi < lo ∧ (rational? (Float.ofInt lo.toInt) ≠ rational? (Float.ofInt hi.toInt) ∨
          rational? (Float.ofInt lo.toInt) = some (2 ^ 63)) := by
  obtain ⟨l, hl, hlmin, hlmax⟩ := exists_rational?_ofInt lo
  obtain ⟨u, hu, humin, humax⟩ := exists_rational?_ofInt hi
  have hlower : l = lo.toInt ↔ Representable lo.toInt := by
    rw [← rational?_ofInt_iff, hl, Option.some.injEq, Int.cast_inj]
  have hupper : u = hi.toInt ↔ Representable hi.toInt := by
    rw [← rational?_ofInt_iff, hu, Option.some.injEq, Int.cast_inj]
  have hlast : hi.toInt = 2 ^ 63 - 1 ∧ u = 2 ^ 63 ↔ hi = Int64.maxValue := by
    constructor
    · exact fun h => Int64.toInt_inj.mp h.1
    · rintro rfl
      rw [rational?_ofInt_maxValue, Option.some.injEq, Int.cast_inj] at hu
      exact ⟨rfl, hu.symm⟩
  have hempty : hi < lo → (u < l ↔ (l : ℚ) ≠ u) := by
    intro h
    have hle : u ≤ l := by
      exact_mod_cast (nearestTo_ofInt_toInt hi).mono (nearestTo_ofInt_toInt lo) hu hl
        (by exact_mod_cast Int64.lt_iff_toInt_lt.mp h)
    rw [Ne, Int.cast_inj]
    omega
  have hpower : (l : ℚ) = 2 ^ 63 ↔ l = 2 ^ 63 := by norm_cast
  rw [sameRange_iff_forall hl hu, forall_word_iff ⟨lo.le_toInt, lo.toInt_lt⟩ ⟨hi.le_toInt, hi.toInt_lt⟩
    ⟨hlmin, hlmax⟩ ⟨humin, humax⟩, hlower, hupper, hlast, hl, hu, ← Int64.le_iff_toInt_le,
    ← Int64.lt_iff_toInt_lt]
  simp only [ne_eq, Option.some.injEq, hpower]
  exact or_congr_right (and_congr_right fun h => by rw [hempty h])

theorem rangeReported_ofInt (lo hi : Int64) :
    RangeReported lo hi (Float.ofInt lo.toInt) (Float.ofInt hi.toInt) where
  nearest_lower := nearestTo_ofInt_toInt lo
  nearest_upper := nearestTo_ofInt_toInt hi
  same_iff := sameRange_ofInt_iff lo hi
  same_of_small hlo hhi := by
    have hlower := representable_iff.mpr (fitsWord_intCast hlo)
    have hupper := representable_iff.mpr (fitsWord_intCast hhi)
    rw [sameRange_ofInt_iff]
    by_cases h : lo ≤ hi
    · exact .inl ⟨h, hlower, .inl hupper⟩
    · have hlt := Int64.not_le.mp h
      refine .inr ⟨hlt, .inl fun heq => ?_⟩
      rw [(rational?_ofInt_iff lo).mpr hlower, (rational?_ofInt_iff hi).mpr hupper, Option.some.injEq,
        Int.cast_inj] at heq
      exact (Int64.ne_of_lt hlt).symm (Int64.toInt_inj.mp heq)

end Ranges

namespace Program

/-- A program has an integer variable and reports its range, also in each snapshot that shows the variable. -/
structure ReportsInteger (p : Program) (v : Variable) (lo hi : Int64) : Prop where
  domain : v.domain = .int lo hi
  bounds : RangeReported lo hi v.lower v.upper
  viewed_bounds : RangeReported lo hi (p.viewVariable v).lower (p.viewVariable v).upper
  viewed : ∀ options, passes options.vars v.id = true → p.viewVariable v ∈ (p.inspect options).vars

theorem reportsInteger_of_mem {p : Program} {id : VarId} {lo hi : Int64}
    (h : ⟨id, .int lo hi⟩ ∈ p.vars.toList) : p.ReportsInteger ⟨id, .int lo hi⟩ lo hi where
  domain := rfl
  bounds := rangeReported_ofInt lo hi
  viewed_bounds := rangeReported_ofInt lo hi
  viewed _ hpasses := List.mem_map_of_mem (List.mem_filter.mpr ⟨h, hpasses⟩)

end Program

/-- An integer variable keeps the range it was created with, and its program and all that stem from it report
the nearest bounds. -/
theorem integer_range_reported (cs : List Command) {n : Nat} {p : Program}
    (h : (Session.run {} cs).2.programs[n]? = some p) (lo hi : Int64) {t : Session} {k : Nat}
    (hstems : Session.Stems ((Session.run {} cs).2.step (.edit n (.addInt lo hi))).2 n t k) :
    ∃ q v, t.programs[k]? = some q ∧ q.vars[p.vars.size]? = some v ∧ v.id = .ofIndex p.vars.size ∧
      q.ReportsInteger v lo hi := by
  set created := (p.addVariable (.int lo hi)).2 with hcreated
  have hn : ((Session.run {} cs).2.step (.edit n (.addInt lo hi))).2.programs[n]? = some created := by
    rw [Session.programs_step_edit, Array.getElem?_modify, h, if_pos rfl]
    rfl
  obtain ⟨q, hq, hkeeps⟩ := hstems.keeps
    ⟨cs ++ [.edit n (.addInt lo hi)], by simp [Session.run_append, Session.run_cons]⟩ hn
  have hnew : created.vars.toList[p.vars.size]? = some ⟨.ofIndex p.vars.size, .int lo hi⟩ := by
    rw [Array.getElem?_toList, hcreated]
    simp [Program.addVariable]
  have hplace := getElem?_of_prefix hkeeps.vars hnew
  exact ⟨q, _, hq, by rwa [← Array.getElem?_toList], rfl,
    Program.reportsInteger_of_mem (List.mem_of_getElem? hplace)⟩

/-- Bounds that both have 54 bits, in a copy of a copy. -/
theorem large_range_reported : ∃ (q : Program) (v : Variable), (Session.run {} [.edit 0 .addBool,
      .edit 0 (.addInt 9007199254740994 18014398509481980), .copy 0, .copy 1]).2.programs[2]? = some q ∧
    q.vars[1]? = some v ∧ v.id = .ofIndex 1 ∧ q.ReportsInteger v 9007199254740994 18014398509481980 :=
  integer_range_reported [.edit 0 .addBool] (n := 0) rfl 9007199254740994 18014398509481980
    (.copy (.copy .self))

/-- A range of one word whose reported bounds leave this word out and have another one between them. -/
theorem range_moved_by_rounding : ∃ (q : Program) (v : Variable),
    (Session.run {} [.edit 0 (.addInt 9007199254740993 9007199254740993)]).2.programs[0]? = some q ∧
      q.vars[0]? = some v ∧ v.domain = .int 9007199254740993 9007199254740993 ∧
      ¬Between v.lower v.upper 9007199254740993 ∧ Between v.lower v.upper 9007199254740992 ∧
      ¬SameRange 9007199254740993 9007199254740993 v.lower v.upper := by
  have hword : Float.ofInt 9007199254740993 = Float.ofBits 0x4340000000000000 := by decide +kernel
  have hunpacked : unpacked (Float.ofBits 0x4340000000000000) =
    .finite .positive (2 ^ 52) 1 (by decide) := rfl
  have hvalue : rational? (Float.ofInt 9007199254740993) = some 9007199254740992 := by
    rw [hword, rational?, hunpacked]
    norm_num [rationalOf, Float.Model.UnpackedFloat.Sign.apply]
  have hout : ¬Between (Float.ofInt 9007199254740993) (Float.ofInt 9007199254740993) 9007199254740993 := by
    rintro ⟨_, u, -, hu, -, hle⟩
    obtain rfl := Option.some.inj (hvalue.symm.trans hu)
    norm_num at hle
  refine ⟨_, ⟨.ofIndex 0, .int 9007199254740993 9007199254740993⟩, rfl, rfl, rfl, hout, ?_, ?_⟩
  · exact ⟨_, _, hvalue, hvalue, by norm_num, by norm_num⟩
  · exact fun h => hout ((h 9007199254740993).mp ⟨Int64.le_refl _, Int64.le_refl _⟩)

end MixedProgram
