import Mathlib
import MixedProgram.Bench.Summary

/-! The rows of a summary.
All records of one case and stage come together in one row, and the rows ascend with their keys. -/
namespace MixedProgram.Bench

/-- A record without any memory size. -/
def Record.Unmeasured (r : Record) : Prop := r.rssBefore = none ∧ r.rssAfter = none ∧ r.rssGrowth = none

namespace Tally

@[simp] theorem samples_add (t : Tally) (r : Record) : (t.add r).samples = t.samples + 1 := rfl

theorem samples_foldl_add (rs : List Record) (t : Tally) :
    (rs.foldl add t).samples = t.samples + rs.length := by
  induction rs generalizing t with
  | nil => rfl
  | cons r rs ih => rw [List.foldl_cons, ih, samples_add, List.length_cons]; omega

/-- Records without sizes leave those of a tally as they are. -/
theorem foldl_add_unmeasured {rs : List Record} (h : ∀ r ∈ rs, r.Unmeasured) (t : Tally) :
    (rs.foldl add t).growthCount = t.growthCount ∧ (rs.foldl add t).rssMax = t.rssMax := by
  induction rs generalizing t with
  | nil => exact ⟨rfl, rfl⟩
  | cons r rs ih =>
    obtain ⟨-, hafter, hgrowth⟩ := h r List.mem_cons_self
    obtain ⟨hcount, hmax⟩ := ih (fun x hx => h x (List.mem_cons_of_mem _ hx)) (t.add r)
    rw [List.foldl_cons, hcount, hmax]
    cases hrss : t.rssMax <;> simp [add, hafter, hgrowth, hrss, largerSize]

end Tally

/-- What the records of a key come to. -/
def tallyOf (records : List Record) (key : SummaryKey) : Tally :=
  (records.filter (·.key == key)).foldl .add {}

theorem samples_tallyOf (records : List Record) (key : SummaryKey) :
    (tallyOf records key).samples = (records.map Record.key).count key := by
  rw [tallyOf, Tally.samples_foldl_add, List.count, List.countP_map, List.countP_eq_length_filter]
  exact Nat.zero_add _

theorem tallyOf_append_singleton (records : List Record) (r : Record) (key : SummaryKey) :
    tallyOf (records ++ [r]) key =
      if r.key = key then (tallyOf records key).add r else tallyOf records key := by
  by_cases h : r.key = key <;> simp [tallyOf, List.filter_append, h]

theorem tallyOf_of_not_mem {records : List Record} {key : SummaryKey} (h : key ∉ records.map Record.key) :
    tallyOf records key = {} := by
  have hnone : records.filter (·.key == key) = [] :=
    List.filter_eq_nil_iff.mpr fun r hr hkey => h (List.mem_map.mpr ⟨r, hr, eq_of_beq hkey⟩)
  rw [tallyOf, hnone, List.foldl_nil]

/-- The table holds the tally of every key that occurs, and of no other. -/
theorem getElem?_tallies (records : List Record) (key : SummaryKey) :
    (tallies records)[key]? = if key ∈ records.map Record.key then some (tallyOf records key) else none := by
  induction records using List.reverseRecOn with
  | nil => simp [tallies]
  | append_singleton records r ih =>
    have hstep : tallies (records ++ [r]) =
        (tallies records).alter r.key fun t => some ((t.getD {}).add r) := by
      simp [tallies, List.foldl_append]
    rw [hstep, Std.TreeMap.getElem?_alter, tallyOf_append_singleton]
    by_cases h : r.key = key
    · subst h
      have hbefore : (tallies records)[r.key]?.getD {} = tallyOf records r.key := by
        rw [ih]
        split_ifs with hmem
        · rfl
        · exact (tallyOf_of_not_mem hmem).symm
      simp [hbefore]
    · have hne : compare r.key key ≠ .eq := fun heq => h (Std.LawfulEqOrd.eq_of_compare heq)
      simp [hne, ih, h, Ne.symm h]

theorem mem_summarize_iff {records : List Record} {row : SummaryRow} :
    row ∈ summarize records ↔
      ∃ key ∈ records.map Record.key, row = .ofTally key (tallyOf records key) := by
  rw [summarize, List.mem_map]
  constructor
  · rintro ⟨⟨key, t⟩, hmem, rfl⟩
    rw [Std.TreeMap.mem_toList_iff_getElem?_eq_some, getElem?_tallies] at hmem
    split_ifs at hmem with hkey
    exact ⟨key, hkey, by rw [Option.some.inj hmem]⟩
  · rintro ⟨key, hkey, rfl⟩
    refine ⟨(key, tallyOf records key), ?_, rfl⟩
    rw [Std.TreeMap.mem_toList_iff_getElem?_eq_some, getElem?_tallies, if_pos hkey]

/-- Rows are ordered by case and then by stage, as texts. -/
def SummaryRow.Before (a b : SummaryRow) : Prop :=
  a.caseName < b.caseName ∨ a.caseName = b.caseName ∧ a.stage < b.stage

theorem lt_of_compare_eq_lt {s t : String} (h : compare s t = .lt) : s < t :=
  compareOfLessAndEq_eq_lt.mp h

theorem before_of_compare_eq_lt {a b : SummaryKey} (h : compare a b = .lt) (s t : Tally) :
    (SummaryRow.ofTally a s).Before (.ofTally b t) := by
  have hlex : (compareOn SummaryKey.caseName a b).then (compareOn SummaryKey.stage a b) = .lt := h
  rw [Ordering.then_eq_lt] at hlex
  rcases hlex with hname | ⟨hname, hstage⟩
  · exact .inl (lt_of_compare_eq_lt hname)
  · exact .inr ⟨Std.LawfulEqOrd.eq_of_compare hname, lt_of_compare_eq_lt hstage⟩

theorem ascending_summarize (records : List Record) : (summarize records).Pairwise SummaryRow.Before := by
  rw [summarize, List.pairwise_map]
  exact Std.TreeMap.ordered_keys_toList.imp fun h => before_of_compare_eq_lt h _ _

theorem nodup_summarize (records : List Record) :
    ((summarize records).map fun row => (row.caseName, row.stage)).Nodup := by
  rw [List.Nodup, List.pairwise_map]
  refine (ascending_summarize records).imp fun {a b} hbefore heq => ?_
  obtain ⟨hname, hstage⟩ := Prod.mk.inj heq
  rcases hbefore with hlt | ⟨-, hlt⟩
  · exact String.lt_irrefl _ (hname ▸ hlt)
  · exact String.lt_irrefl _ (hstage ▸ hlt)

theorem mem_map_summarize_iff {records : List Record} {name stage : String} :
    (name, stage) ∈ (summarize records).map (fun row => (row.caseName, row.stage)) ↔
      ⟨name, stage⟩ ∈ records.map Record.key := by
  rw [List.mem_map]
  constructor
  · rintro ⟨row, hrow, heq⟩
    obtain ⟨key, hkey, rfl⟩ := mem_summarize_iff.mp hrow
    cases heq
    exact hkey
  · intro h
    exact ⟨_, mem_summarize_iff.mpr ⟨_, h, rfl⟩, rfl⟩

/-- Records without sizes make rows without sizes. -/
theorem unmeasured_row {records : List Record} (h : ∀ r ∈ records, r.Unmeasured) {row : SummaryRow}
    (hrow : row ∈ summarize records) : row.meanGrowth = none ∧ row.maxRss = none := by
  obtain ⟨key, -, rfl⟩ := mem_summarize_iff.mp hrow
  have hall : ∀ r ∈ records.filter (·.key == key), r.Unmeasured := fun r hr =>
    h r (List.mem_of_mem_filter hr)
  obtain ⟨hcount, hmax⟩ := Tally.foldl_add_unmeasured hall {}
  simp [SummaryRow.ofTally, tallyOf, hcount, hmax]

end MixedProgram.Bench
