import MixedProgram.Bench.Run
import MixedProgram.Proofs.Json.Compact
import MixedProgram.Proofs.Json.Fields
import MixedProgram.Proofs.Json.Stripped
import MixedProgram.Text.Split

/-! The printed forms of records agree.
A record has a line of its own in the line format and in the artifact, from which all its fields can be told,
and the indented array has the same lines in it once its blanks are taken out. -/
namespace MixedProgram

section Lines
open Text
variable {lines : List String}

/-- A part ends at the first separator. -/
theorem splitChars_append {sep : Char} {cs ds : List Char} (h : sep ∉ cs) :
    splitChars sep (cs ++ sep :: ds) = cs :: splitChars sep ds := by
  induction cs with
  | nil => simp [splitChars]
  | cons c cs ih =>
    rw [List.mem_cons, not_or] at h
    rw [List.cons_append, splitChars, if_neg (Ne.symm h.1), ih h.2]

theorem toList_unlines (lines : List String) :
    (Bench.unlines lines).toList = lines.flatMap fun line => line.toList ++ ['\n'] := by
  simp [Bench.unlines, String.toList_join, List.flatMap_map]

/-- Lines without line feeds are found again in the text they are written to. -/
theorem split_unlines (h : ∀ line ∈ lines, '\n' ∉ line.toList) :
    split '\n' (Bench.unlines lines) = lines ++ [""] := by
  have hparts : splitChars '\n' (Bench.unlines lines).toList = lines.map String.toList ++ [[]] := by
    rw [toList_unlines]
    induction lines with
    | nil => rfl
    | cons line lines ih =>
      rw [List.forall_mem_cons] at h
      rw [List.flatMap_cons, List.append_assoc, List.singleton_append, splitChars_append h.1,
        ih h.2, List.map_cons, List.cons_append]
  rw [split, hparts]
  simp

end Lines

namespace Json

theorem separated_eq_intercalate {α : Type} (text : α → List Char) (xs : List α) :
    separated text xs = [','].intercalate (xs.map text) := by
  induction xs with
  | nil => rfl
  | cons x xs ih => cases xs with
    | nil => simp [separated]
    | cons y ys =>
      rw [List.map_cons, List.map_cons, List.intercalate_cons_cons, ← List.map_cons, ← ih]
      simp [separated]

theorem compact_array (items : List Json) :
    (array items).compact = "[" ++ ",".intercalate (items.map compact) ++ "]" := by
  rw [← String.toList_inj]
  simp [compact, compactChars, compactItems_eq, separated_eq_intercalate, Function.comp_def]

/-- A value that is printed on lines of its own. -/
theorem stripped_unlines_pretty (j : Json) : stripped (Bench.unlines [j.pretty]) = j.compact := by
  have hend : StripsTo ['\n'] [] := StripsTo.nil.blank (by decide)
  have hall := ((stripsTo_prettyChars 0 j).append hend) []
  simpa [stripped, toList_unlines, pretty, compact, strip, String.ofList_inj] using hall

end Json

namespace Bench

section Fields
open Json

/-- The record with NaN for a duration that is not finite. -/
def Record.settled (r : Record) : Record := { r with milliseconds := Number.settled r.milliseconds }

theorem settled_size_iff {a b : Option UInt64} :
    (a.elim null fun n => int n.toNat).settled = (b.elim null fun n => int n.toNat).settled ↔ a = b :=
  settled_elim_iff (fun _ => by simp [Json.settled]) fun x y => by
    rw [settled_int_iff, Nat.cast_inj, UInt64.toNat_inj]

theorem settled_growth_iff {a b : Option Int64} :
    (a.elim null fun n => int n.toInt).settled = (b.elim null fun n => int n.toInt).settled ↔ a = b :=
  settled_elim_iff (fun _ => by simp [Json.settled]) fun x y => by
    rw [settled_int_iff, Int64.toInt_inj]

theorem Record.settled_toJson_iff (x y : Record) : x.toJson.settled = y.toJson.settled ↔
    x.settled = y.settled := by
  obtain ⟨_, _, _, _, _, _, _, _, _, _, _, _⟩ := x
  obtain ⟨_, _, _, _, _, _, _, _, _, _, _, _⟩ := y
  simp only [toJson, settled_cons_iff, settled_string_iff, settled_int_iff, Nat.cast_inj, settled_float_iff,
    settled_size_iff, settled_growth_iff, settled, Record.mk.injEq, true_and, and_true]

/-- The line of a record tells all its fields. -/
theorem Record.compact_toJson_inj {x y : Record} : x.toJson.compact = y.toJson.compact ↔
    x.settled = y.settled :=
  Json.compact_inj.trans (settled_toJson_iff x y)

end Fields

theorem foldl_writeRecord (written : String) (records : List Record) :
    records.foldl writeRecord written = written ++ unlines (ndjsonLines records) := by
  induction records generalizing written with
  | nil => simp [ndjsonLines, unlines]
  | cons r records ih => simp [ih, writeRecord, ndjsonLines, unlines, String.append_assoc]

/-- Three texts that carry the same records: one line a record without any other line break, the same text
again, and an array that has the same lines in it apart from blanks. Each line belongs to one record only, but
for durations that are not finite. -/
structure Printed (records : List Record) (ndjson jsonl json : String) : Prop where
  lines : Text.split '\n' ndjson = records.map (·.toJson.compact) ++ [""]
  framed : ∀ x ∈ records, ∀ c ∈ x.toJson.compact.toList, c ≠ '\n' ∧ c ≠ '\r'
  determined : ∀ x ∈ records, ∀ y : Record, x.toJson.compact = y.toJson.compact ↔ x.settled = y.settled
  artifact_eq : jsonl = ndjson
  stripped : Json.stripped json = "[" ++ ",".intercalate (records.map (·.toJson.compact)) ++ "]"

theorem ne_of_mem_compact {j : Json} {c : Char} (hc : c ∈ j.compact.toList) : c ≠ '\n' ∧ c ≠ '\r' := by
  have hle : 32 ≤ c.toNat := Json.le_of_mem_compactChars (by simpa [Json.compact] using hc)
  constructor <;> rintro rfl <;> exact absurd hle (by decide)

/-- All records are printed, whatever texts and numbers they hold. -/
theorem printed_outputs (records : List Record) :
    Printed records (unlines (reportLines .ndjson records)) (artifact records)
      (unlines (reportLines .json records)) where
  lines := by
    refine split_unlines fun line hline => ?_
    obtain ⟨x, -, rfl⟩ := List.mem_map.mp hline
    exact fun hc => (ne_of_mem_compact hc).1 rfl
  framed _ _ _ hc := ne_of_mem_compact hc
  determined _ _ _ := Record.compact_toJson_inj
  artifact_eq := (foldl_writeRecord "" records).trans String.empty_append
  stripped := by
    rw [reportLines, prettyJson, Json.stripped_unlines_pretty, Json.compact_array, List.map_map]
    rfl

end Bench
end MixedProgram
