import Mathlib
import MixedProgram.Json.Printer
import MixedProgram.Json.Reader

/-! Quoted strings read back.
The reader finds the end of a quoted string whatever follows it, so that no quoted string is the start of
another one. -/
namespace MixedProgram.Json

theorem hexUnit?_digitChar {n : ℕ} (hn : n < 32) :
    hexUnit? '0' '0' (Nat.digitChar (n / 16)) (Nat.digitChar (n % 16)) = some n := by
  interval_cases n <;> rfl

/-- One escaped character is read as the character. -/
theorem readQuoted_escapeChar (acc : List Char) (c : Char) (cs : List Char) :
    readQuoted acc (escapeChar c ++ cs) = readQuoted (c :: acc) cs := by
  unfold escapeChar
  split
  case h_6 hquote hbackslash _ _ _ =>
    split_ifs with hb hf hlow
    · obtain rfl : c = '\x08' := Char.toNat_inj.mp hb
      rfl
    · obtain rfl : c = '\x0c' := Char.toNat_inj.mp hf
      rfl
    · have hhigh : isHighHalf c.toNat = false := by
        simp [isHighHalf]
        omega
      have hhalf : isLowHalf c.toNat = false := by
        simp [isLowHalf]
        omega
      simp [readQuoted, hexUnit?_digitChar hlow, hhigh, hhalf]
    · rw [readQuoted.eq_def]
      split <;> simp_all
  all_goals rfl

/-- A quoted string is read to its closing quote. -/
theorem readQuoted_quoted (s : String) (cs : List Char) :
    readQuoted [] ((quoted s).drop 1 ++ cs) = some (s, cs) := by
  have hread : ∀ (ds acc : List Char),
      readQuoted acc (ds.flatMap escapeChar ++ '"' :: cs) = some (String.ofList (acc.reverse ++ ds), cs) := by
    intro ds
    induction ds with
    | nil => simp [readQuoted]
    | cons d ds ih =>
      intro acc
      rw [List.flatMap_cons, List.append_assoc, readQuoted_escapeChar, ih]
      simp
  simpa [quoted] using hread s.toList []

theorem quoted_append_inj {s t : String} {cs ds : List Char} :
    quoted s ++ cs = quoted t ++ ds ↔ s = t ∧ cs = ds := by
  constructor
  · intro h
    have htail : (quoted s).drop 1 ++ cs = (quoted t).drop 1 ++ ds := by
      simpa [quoted] using h
    have hread := congrArg (readQuoted []) htail
    rwa [readQuoted_quoted, readQuoted_quoted, Option.some.injEq, Prod.mk.injEq] at hread
  · rintro ⟨rfl, rfl⟩
    rfl

end MixedProgram.Json
