import MixedProgram.Proofs.Bench.Summary
import MixedProgram.Proofs.Number.Order

/-! What the rows of a summary say of their records.
A tally goes through the records of its key once. What it starts with does not show in the row, and only
the two averages depend on the order of the records. -/
namespace MixedProgram.Bench
open Number

section Largest
variable {a b : Float} {xs : List Float}

theorem le_larger (ha : a.isNaN = false) (hb : b.isNaN = false) : a ≤ larger a b ∧ b ≤ larger a b := by
  unfold larger
  split_ifs with h
  · exact ⟨h, le_self_of_not_nan hb⟩
  · exact ⟨le_self_of_not_nan ha, float_le_of_not_le ha hb h⟩

theorem isNaN_larger (ha : a.isNaN = false) (hb : b.isNaN = false) : (larger a b).isNaN = false := by
  unfold larger
  split_ifs <;> assumption

theorem foldl_larger_mem (xs : List Float) (a : Float) : xs.foldl larger a ∈ a :: xs := by
  induction xs generalizing a with
  | nil => simp
  | cons x xs ih =>
    have hstep : larger a x = a ∨ larger a x = x := by unfold larger; split_ifs <;> simp
    rcases List.mem_cons.mp (ih (larger a x)) with h | h
    · rw [List.foldl_cons, h]
      rcases hstep with h | h <;> simp [h]
    · exact List.mem_cons_of_mem _ (List.mem_cons_of_mem _ h)

theorem le_foldl_larger (ha : a.isNaN = false) (hxs : ∀ x ∈ xs, x.isNaN = false) :
    ∀ x ∈ a :: xs, x ≤ xs.foldl larger a := by
  induction xs generalizing a with
  | nil => simpa using le_self_of_not_nan ha
  | cons y xs ih =>
    obtain ⟨hy, hxs⟩ := List.forall_mem_cons.mp hxs
    have hle := ih (isNaN_larger ha hy) hxs
    have hstart := hle _ List.mem_cons_self
    obtain ⟨hay, hyy⟩ := le_larger ha hy
    rw [List.foldl_cons, List.forall_mem_cons, List.forall_mem_cons]
    exact ⟨float_le_trans hay hstart, float_le_trans hyy hstart,
      fun x hx => hle x (List.mem_cons_of_mem _ hx)⟩

/-- Zero is given up for the first of some numbers that are not below it. -/
theorem foldl_larger_mem_of_nonneg (hne : xs ≠ []) (hxs : ∀ x ∈ xs, 0.0 ≤ x) : xs.foldl larger 0.0 ∈ xs := by
  cases xs with
  | nil => exact absurd rfl hne
  | cons x xs =>
    rw [List.foldl_cons, larger, if_pos (hxs x List.mem_cons_self)]
    exact foldl_larger_mem xs x

theorem max_eq_ite (m n : UInt64) : max m n = if m < n then n else m := by
  rw [show max m n = if m ≤ n then n else m from rfl]
  grind

instance lawfulOrderMax_size : Std.LawfulOrderMax UInt64 where
  max_eq_or m n := by rw [max_eq_ite]; grind
  max_le_iff m n k := by rw [max_eq_ite]; grind

/-- Sizes that are missing do not count. -/
theorem foldl_largerSize (sizes : List (Option UInt64)) (a : Option UInt64) :
    sizes.foldl largerSize a = (a.toList ++ sizes.filterMap id).max? := by
  induction sizes generalizing a with
  | nil => cases a <;> rfl
  | cons b sizes ih =>
    rw [List.foldl_cons, ih]
    cases a with
    | none => cases b <;> rfl
    | some m =>
      cases b with
      | none => rfl
      | some n =>
        simp only [largerSize, ← max_eq_ite]
        rfl

end Largest

namespace Tally

/-- A tally taken field by field. -/
theorem foldl_add_eq (rs : List Record) (t : Tally) : rs.foldl add t =
    { samples := t.samples + rs.length
      durationSum := (rs.map (·.milliseconds)).foldl (· + ·) t.durationSum
      durationMax := (rs.map (·.milliseconds)).foldl larger t.durationMax
      growthSum := ((rs.filterMap (·.rssGrowth)).map fun n => Float.ofInt n.toInt).foldl (· + ·) t.growthSum
      growthCount := t.growthCount + (rs.filterMap (·.rssGrowth)).length
      rssMax := (rs.map (·.rssAfter)).foldl largerSize t.rssMax } := by
  induction rs generalizing t with
  | nil => rfl
  | cons r rs ih =>
    rw [List.foldl_cons, ih]
    cases hgrowth : r.rssGrowth <;> simp [add, hgrowth] <;> omega

end Tally

namespace SummaryRow

def key (row : SummaryRow) : SummaryKey := ⟨row.caseName, row.stage⟩

/-- The row says of some records how many they are, how long they took on average and at most, how much
memory was gained on average and how much was held at most. A record without a size does not count for it. -/
structure SumsUp (row : SummaryRow) (group : List Record) : Prop where
  samples : row.samples = group.length
  mean : row.meanMilliseconds = (group.map (·.milliseconds)).foldl (· + ·) 0.0 / Float.ofNat group.length
  longest_mem : row.maxMilliseconds ∈ group.map (·.milliseconds)
  le_longest : ∀ r ∈ group, r.milliseconds ≤ row.maxMilliseconds
  meanGrowth_eq_none_iff : row.meanGrowth = none ↔ ∀ r ∈ group, r.rssGrowth = none
  meanGrowth_eq : ∀ x ∈ row.meanGrowth, x =
    ((group.filterMap (·.rssGrowth)).map fun n => Float.ofInt n.toInt).foldl (· + ·) 0.0
      / Float.ofNat (group.filterMap (·.rssGrowth)).length
  maxRss_eq_none_iff : row.maxRss = none ↔ ∀ r ∈ group, r.rssAfter = none
  maxRss_mem : ∀ m ∈ row.maxRss, m ∈ group.filterMap (·.rssAfter)
  le_maxRss : ∀ m ∈ row.maxRss, ∀ k ∈ group.filterMap (·.rssAfter), k ≤ m

theorem sumsUp_ofTally {group : List Record} (hne : group ≠ []) (h : ∀ r ∈ group, 0.0 ≤ r.milliseconds)
    (key : SummaryKey) : (ofTally key (group.foldl .add {})).SumsUp group := by
  have hlength : group.length ≠ 0 := List.length_eq_zero_iff.not.mpr hne
  have hdurations : ∀ x ∈ group.map (·.milliseconds), 0.0 ≤ x := by simpa using h
  have hsizes := foldl_largerSize (group.map (·.rssAfter)) none
  rw [List.filterMap_map, Option.toList_none, List.nil_append] at hsizes
  rw [Tally.foldl_add_eq]
  constructor
  case samples => simp [ofTally]
  case mean => simp [ofTally, hlength]
  case longest_mem => exact foldl_larger_mem_of_nonneg (by simpa using hne) hdurations
  case le_longest =>
    intro r hr
    refine le_foldl_larger (by decide) (fun x hx => (isNaN_of_le (hdurations x hx)).2) r.milliseconds ?_
    exact List.mem_cons_of_mem _ (List.mem_map_of_mem hr)
  case meanGrowth_eq_none_iff => simp [ofTally]
  case meanGrowth_eq =>
    intro x hx
    simp only [ofTally, Nat.zero_add, Option.mem_def] at hx
    split_ifs at hx
    exact (Option.some.inj hx).symm
  case maxRss_eq_none_iff =>
    change (group.map (·.rssAfter)).foldl largerSize none = none ↔ _
    rw [hsizes, List.max?_eq_none_iff]
    simp [List.filterMap_eq_nil_iff]
  case maxRss_mem =>
    intro m hm
    exact (List.max?_eq_some_iff.mp (hsizes.symm.trans hm)).1
  case le_maxRss =>
    intro m hm
    exact (List.max?_eq_some_iff.mp (hsizes.symm.trans hm)).2

theorem SumsUp.longest_ne {row : SummaryRow} {group : List Record} (h : row.SumsUp group) {x : Float}
    (hx : ∀ r ∈ group, r.milliseconds ≠ x) : row.maxMilliseconds ≠ x := by
  obtain ⟨r, hr, hlongest⟩ := List.mem_map.mp h.longest_mem
  rw [← hlongest]
  exact hx r hr

/-- The rows agree in all that the order of the records has no part in. Two durations may be zeros of
different signs. -/
structure AgreesWith (row row' : SummaryRow) : Prop where
  key : row.key = row'.key
  samples : row.samples = row'.samples
  longest : (row.maxMilliseconds == row'.maxMilliseconds) = true
  maxRss : row.maxRss = row'.maxRss

/-- Records in another order make a row that agrees. -/
theorem SumsUp.agreesWith {row row' : SummaryRow} {group group' : List Record} (h : row.SumsUp group)
    (h' : row'.SumsUp group') (hperm : group.Perm group') (hkey : row.key = row'.key) :
    row.AgreesWith row' := by
  have hsizes : ∀ m, m ∈ group.filterMap (·.rssAfter) ↔ m ∈ group'.filterMap (·.rssAfter) := fun m =>
    (hperm.filterMap _).mem_iff
  constructor
  case key => exact hkey
  case samples => rw [h.samples, h'.samples, hperm.length_eq]
  case longest =>
    obtain ⟨r, hr, hlongest⟩ := List.mem_map.mp h.longest_mem
    obtain ⟨r', hr', hlongest'⟩ := List.mem_map.mp h'.longest_mem
    refine beq_of_le_of_le ?_ ?_
    · rw [← hlongest]
      exact h'.le_longest r (hperm.mem_iff.mp hr)
    · rw [← hlongest']
      exact h.le_longest r' (hperm.mem_iff.mpr hr')
  case maxRss =>
    have hnone : row.maxRss = none ↔ row'.maxRss = none := by
      simp only [h.maxRss_eq_none_iff, h'.maxRss_eq_none_iff, hperm.mem_iff]
    cases hm : row.maxRss with
    | none => exact (hnone.mp hm).symm
    | some m =>
      cases hm' : row'.maxRss with
      | none => rw [hnone.mpr hm'] at hm; cases hm
      | some m' =>
        have hle := h'.le_maxRss m' hm' m ((hsizes m).mp (h.maxRss_mem m hm))
        have hge := h.le_maxRss m hm m' ((hsizes m').mpr (h'.maxRss_mem m' hm'))
        rw [UInt64.le_antisymm hle hge]

end SummaryRow

section Keys
variable {records records' : List Record}

/-- The rows are those of the keys that occur, each taken once. -/
theorem summarize_eq_map (records : List Record) : summarize records =
    (tallies records).keys.map fun key => .ofTally key (tallyOf records key) := by
  rw [summarize, ← Std.TreeMap.map_fst_toList_eq_keys, List.map_map]
  refine List.map_congr_left fun entry hentry => ?_
  obtain ⟨key, t⟩ := entry
  rw [Std.TreeMap.mem_toList_iff_getElem?_eq_some, getElem?_tallies] at hentry
  split_ifs at hentry with hkey
  rw [Function.comp_apply, Option.some.inj hentry]

theorem map_key_summarize (records : List Record) :
    (summarize records).map SummaryRow.key = (tallies records).keys := by
  rw [summarize_eq_map, List.map_map]
  exact List.map_id _

theorem mem_keys_tallies {key : SummaryKey} : key ∈ (tallies records).keys ↔
    key ∈ records.map Record.key := by
  rw [Std.TreeMap.mem_keys, Std.TreeMap.mem_iff_isSome_getElem?, getElem?_tallies]
  split_ifs with h <;> simp [h]

theorem nodup_keys_tallies (records : List Record) : (tallies records).keys.Nodup :=
  Std.TreeMap.ordered_keys.imp fun {a b} hlt heq => by
    rw [heq, Std.ReflOrd.compare_self] at hlt
    cases hlt

/-- The keys are listed in one order, however they came up. -/
theorem keys_tallies_congr (h : ∀ key, key ∈ records.map Record.key ↔ key ∈ records'.map Record.key) :
    (tallies records).keys = (tallies records').keys := by
  have hperm : (tallies records).keys.Perm (tallies records').keys := by
    refine (List.perm_ext_iff_of_nodup (nodup_keys_tallies _) (nodup_keys_tallies _)).mpr fun key => ?_
    rw [mem_keys_tallies, mem_keys_tallies, h]
  refine List.Perm.eq_of_pairwise (fun a b _ _ hab hba => ?_) Std.TreeMap.ordered_keys
    Std.TreeMap.ordered_keys hperm
  exact absurd hba (Std.OrientedCmp.not_lt_of_lt hab)

theorem sum_samples (records : List Record) :
    ((summarize records).map (·.samples)).sum = records.length := by
  have hcounts : ((summarize records).map (·.samples)) =
      (tallies records).keys.map fun key => (records.map Record.key).count key := by
    rw [summarize_eq_map, List.map_map]
    exact List.map_congr_left fun key _ => samples_tallyOf records key
  have hperm : (tallies records).keys.Perm (records.map Record.key).dedup := by
    refine (List.perm_ext_iff_of_nodup (nodup_keys_tallies _) (List.nodup_dedup _)).mpr fun key => ?_
    rw [mem_keys_tallies, List.mem_dedup]
  rw [hcounts, (hperm.map _).sum_eq, List.sum_map_count_dedup_eq_length, List.length_map]

end Keys

/-- The rows ascend, there is one for each key, and each sums up the records of its key. -/
structure Summarizes (rows : List SummaryRow) (records : List Record) : Prop where
  ascending : rows.Pairwise SummaryRow.Before
  key_mem_iff : ∀ key, key ∈ rows.map SummaryRow.key ↔ key ∈ records.map Record.key
  row_sumsUp : ∀ row ∈ rows, row.SumsUp (records.filter (·.key == row.key))
  sum_samples : (rows.map (·.samples)).sum = records.length

section Summary
variable {records records' : List Record}

theorem filter_key_eq_nil_iff {key : SummaryKey} :
    records.filter (·.key == key) = [] ↔ key ∉ records.map Record.key := by
  simp [List.filter_eq_nil_iff]

theorem sumsUp_of_mem_keys (h : ∀ r ∈ records, 0.0 ≤ r.milliseconds) {key : SummaryKey}
    (hkey : key ∈ records.map Record.key) :
    (SummaryRow.ofTally key (tallyOf records key)).SumsUp (records.filter (·.key == key)) :=
  SummaryRow.sumsUp_ofTally (fun hnil => filter_key_eq_nil_iff.mp hnil hkey)
    (fun r hr => h r (List.mem_of_mem_filter hr)) key

theorem summarizes_summarize (h : ∀ r ∈ records, 0.0 ≤ r.milliseconds) :
    Summarizes (summarize records) records where
  ascending := ascending_summarize records
  key_mem_iff key := by rw [map_key_summarize, mem_keys_tallies]
  row_sumsUp row hrow := by
    obtain ⟨key, hkey, rfl⟩ := mem_summarize_iff.mp hrow
    exact sumsUp_of_mem_keys h hkey
  sum_samples := sum_samples records

/-- Rows of two summaries are compared key by key. -/
theorem forall₂_summarize {R : SummaryRow → SummaryRow → Prop}
    (hkeys : ∀ key, key ∈ records.map Record.key ↔ key ∈ records'.map Record.key)
    (hR : ∀ key ∈ records.map Record.key,
      R (.ofTally key (tallyOf records key)) (.ofTally key (tallyOf records' key))) :
    List.Forall₂ R (summarize records) (summarize records') := by
  rw [summarize_eq_map, summarize_eq_map, ← keys_tallies_congr hkeys, List.forall₂_map_left_iff,
    List.forall₂_map_right_iff, List.forall₂_same]
  exact fun key hkey => hR key (mem_keys_tallies.mp hkey)

theorem summarize_congr (h : ∀ key, records.filter (·.key == key) = records'.filter (·.key == key)) :
    summarize records = summarize records' := by
  have hkeys : ∀ key, key ∈ records.map Record.key ↔ key ∈ records'.map Record.key := fun key => by
    rw [← not_iff_not, ← filter_key_eq_nil_iff, ← filter_key_eq_nil_iff, h]
  rw [← List.forall₂_eq_eq_eq]
  refine forall₂_summarize hkeys fun key _ => ?_
  rw [tallyOf, tallyOf, h]

end Summary

/-- A summary says of each case and stage what its records come to. In another order of the records the
averages may be rounded differently and a zero may change its sign; all else stays, and nothing changes at
all as long as the records of each case and stage keep their order. -/
theorem summary_sums_up {records : List Record} (h : ∀ r ∈ records, 0.0 ≤ r.milliseconds) :
    Summarizes (summarize records) records ∧
    (∀ records', records.Perm records' →
      List.Forall₂ SummaryRow.AgreesWith (summarize records) (summarize records') ∧
      ((∀ r ∈ records, r.milliseconds ≠ -0.0) →
        (summarize records).map (·.maxMilliseconds) = (summarize records').map (·.maxMilliseconds))) ∧
    ∀ records', (∀ key, records.filter (·.key == key) = records'.filter (·.key == key)) →
      summarize records = summarize records' := by
  refine ⟨summarizes_summarize h, fun records' hperm => ?_, fun records' => summarize_congr⟩
  have h' : ∀ r ∈ records', 0.0 ≤ r.milliseconds := fun r hr => h r (hperm.mem_iff.mpr hr)
  have hkeys : ∀ key, key ∈ records.map Record.key ↔ key ∈ records'.map Record.key := fun _ =>
    (hperm.map _).mem_iff
  have hagree : ∀ key ∈ records.map Record.key, (SummaryRow.ofTally key (tallyOf records key)).AgreesWith
      (.ofTally key (tallyOf records' key)) := fun key hkey =>
    (sumsUp_of_mem_keys h hkey).agreesWith (sumsUp_of_mem_keys h' ((hkeys key).mp hkey)) (hperm.filter _) rfl
  refine ⟨forall₂_summarize hkeys hagree, fun hzero => ?_⟩
  have hzero' : ∀ r ∈ records', r.milliseconds ≠ -0.0 := fun r hr => hzero r (hperm.mem_iff.mpr hr)
  rw [← List.forall₂_eq_eq_eq, List.forall₂_map_left_iff, List.forall₂_map_right_iff]
  refine forall₂_summarize hkeys fun key hkey => ?_
  have hlongest := (sumsUp_of_mem_keys h hkey).longest_ne (fun r hr => hzero r (List.mem_of_mem_filter hr))
  have hlongest' := (sumsUp_of_mem_keys h' ((hkeys key).mp hkey)).longest_ne
    (fun r hr => hzero' r (List.mem_of_mem_filter hr))
  exact eq_of_beq_of_ne (hagree key hkey).longest hlongest hlongest'

/-- Two stages of one case in turns. Sizes are missing here and there. -/
def interleaved : List Record :=
  let record (stage : String) (milliseconds : Float) (rssAfter : Option UInt64)
      (rssGrowth : Option Int64) : Record :=
    ⟨"run", "vars_30", 1, 30, 4, 60, 60, stage, milliseconds, none, rssAfter, rssGrowth⟩
  [record "total" 10.5 (some 2500) (some 1000), record "copy" 2.0 none none,
    record "total" 30.0 (some 100) none]

theorem interleaved_summed_up :
    (∀ r ∈ interleaved, 0.0 ≤ r.milliseconds) ∧ Summarizes (summarize interleaved) interleaved ∧
    List.Forall₂ SummaryRow.AgreesWith (summarize interleaved) (summarize interleaved.reverse) ∧
    (summarize interleaved).map (·.maxMilliseconds) =
      (summarize interleaved.reverse).map (·.maxMilliseconds) := by
  have hnonneg : ∀ r ∈ interleaved, 0.0 ≤ r.milliseconds := by decide +kernel
  obtain ⟨hrows, hperm, -⟩ := summary_sums_up hnonneg
  obtain ⟨hagree, hlongest⟩ := hperm _ interleaved.reverse_perm.symm
  exact ⟨hnonneg, hrows, hagree, hlongest (by decide +kernel)⟩

end MixedProgram.Bench
