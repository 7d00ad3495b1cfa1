import MixedProgram.Proofs.Json.Compact
import MixedProgram.Proofs.Number.Plain
import MixedProgram.Text.Blank

/-! The two layouts of JSON text.
A scanner that knows whether it stands in a string literal takes the blanks out of the indented text, and
what is left is the compact text. No character of the compact text lies below the blank. -/
namespace MixedProgram.Json
open Number Text

section Characters
variable {j : Json} {c d : Char}

/-- The characters of ASCII that leave a mark. -/
def Visible (c : Char) : Prop := 32 < c.toNat ∧ c.toNat < 127

instance (c : Char) : Decidable (Visible c) := inferInstanceAs (Decidable (_ ∧ _))

lemma Visible.not_isBlank (h : Visible c) : isBlank c = false := by
  obtain ⟨hlow, hhigh⟩ := h
  simp only [isBlank, Bool.or_eq_false_iff, Bool.and_eq_false_iff, decide_eq_false_iff_not,
    beq_eq_false_iff_ne]
  omega

lemma visible_of_isDigit (h : c.isDigit = true) : Visible c := by
  obtain ⟨hlow, hhigh⟩ := Char.isDigit_iff_toNat.mp h
  exact ⟨lt_of_lt_of_le (by decide) hlow, hhigh.trans_lt (by decide)⟩

lemma IsLiteral.visible (h : IsLiteral j) (hc : c ∈ compactChars j) : Visible c := by
  cases h with
  | null => fin_cases hc <;> decide
  | bool b => cases b <;> fin_cases hc <;> decide

lemma IsNumber.visible (h : IsNumber j) (hc : c ∈ compactChars j) : Visible c := by
  obtain ⟨negative, body, htext, -, hbody⟩ := h.exists_signed
  rw [htext] at hc
  rcases mem_signed hc with rfl | hc
  · decide
  · rcases hbody c hc with hdigit | hsign
    · exact visible_of_isDigit hdigit
    · fin_cases hsign <;> decide

theorem visible_of_opening_eq_none (h : j.opening = none) (hc : c ∈ compactChars j) : Visible c := by
  rw [← compactChars_settled] at hc
  rcases settled_of_opening_eq_none h with h | h
  · exact h.visible hc
  · exact h.visible hc

/-- The characters that neither end a string literal nor protect another one. -/
def Harmless (c : Char) : Prop := 32 ≤ c.toNat ∧ c ≠ '"' ∧ c ≠ '\\'

instance (c : Char) : Decidable (Harmless c) := inferInstanceAs (Decidable (_ ∧ _))

lemma harmless_digitChar {n : ℕ} (hn : n < 16) : Harmless (Nat.digitChar n) := by
  interval_cases n <;> decide

/-- A character stands for itself or is escaped by a backslash, another character and perhaps a number. -/
theorem escapeChar_cases (c : Char) : escapeChar c = [c] ∧ Harmless c ∨
    ∃ d ds, escapeChar c = '\\' :: d :: ds ∧ 32 ≤ d.toNat ∧ ∀ x ∈ ds, Harmless x := by
  unfold escapeChar
  split
  case h_6 hquote hbackslash _ _ _ =>
    split_ifs with hb hf hlow
    · exact .inr ⟨_, _, rfl, by decide, nofun⟩
    · exact .inr ⟨_, _, rfl, by decide, nofun⟩
    · refine .inr ⟨_, _, rfl, by decide, ?_⟩
      simp only [List.forall_mem_cons]
      exact ⟨by decide, by decide, harmless_digitChar (by omega), harmless_digitChar (by omega), nofun⟩
    · exact .inl ⟨rfl, by omega, hquote, hbackslash⟩
  all_goals exact .inr ⟨_, _, rfl, by decide, nofun⟩

/-- Escaping leaves no control character. -/
theorem le_of_mem_escapeChar (h : d ∈ escapeChar c) : 32 ≤ d.toNat := by
  rcases escapeChar_cases c with ⟨htext, hc⟩ | ⟨e, es, htext, he, hes⟩
  · rw [htext, List.mem_singleton] at h
    exact h ▸ hc.1
  · rw [htext, List.mem_cons, List.mem_cons] at h
    rcases h with rfl | rfl | h
    · decide
    · exact he
    · exact (hes d h).1

theorem le_of_mem_quoted {s : String} (h : c ∈ quoted s) : 32 ≤ c.toNat := by
  simp only [quoted, List.cons_append, List.mem_cons, List.mem_append, List.mem_flatMap,
    List.not_mem_nil, or_false] at h
  rcases h with rfl | ⟨d, -, h⟩ | rfl
  · decide
  · exact le_of_mem_escapeChar h
  · decide

theorem le_of_mem_separated {α : Type} {text : α → List Char} {xs : List α}
    (h : ∀ x ∈ xs, ∀ c ∈ text x, 32 ≤ c.toNat) (hc : c ∈ separated text xs) : 32 ≤ c.toNat := by
  cases xs with
  | nil => cases hc
  | cons x xs =>
    rw [List.forall_mem_cons] at h
    simp only [separated, List.mem_append, List.mem_flatMap, List.mem_cons] at hc
    rcases hc with hc | ⟨y, hy, rfl | hc⟩
    · exact h.1 c hc
    · decide
    · exact h.2 y hy c hc

/-- Compact text has no control characters, whatever characters the strings have. -/
theorem le_of_mem_compactChars (hc : c ∈ compactChars j) : 32 ≤ c.toNat := by
  induction j using induction_on_parts generalizing c with
  | string s => exact le_of_mem_quoted hc
  | array items ih =>
    simp only [compactChars, compactItems_eq, List.cons_append, List.mem_cons, List.mem_append,
      List.not_mem_nil, or_false] at hc
    rcases hc with rfl | hc | rfl
    · decide
    · exact le_of_mem_separated (fun j hj c => ih j hj) hc
    · decide
  | object fields ih =>
    simp only [compactChars, compactFields_eq, List.cons_append, List.mem_cons, List.mem_append,
      List.not_mem_nil, or_false] at hc
    rcases hc with rfl | hc | rfl
    · decide
    · refine le_of_mem_separated (fun f hf c hc => ?_) hc
      rw [fieldChars, List.mem_append, List.mem_cons] at hc
      rcases hc with hc | rfl | hc
      · exact le_of_mem_quoted hc
      · decide
      · exact ih f hf hc
    · decide
  | _ => exact (visible_of_opening_eq_none rfl hc).1.le

end Characters

section Scanner

/-- Where a scanner of JSON text stands. -/
inductive Place
  | outside
  | inside
  | escaped

/-- The text without the blanks outside of string literals. A backslash protects the next character of a
literal. -/
def strip : Place → List Char → List Char
  | _, [] => []
  | .outside, c :: cs =>
    if c = '"' then c :: strip .inside cs else if isBlank c then strip .outside cs else c :: strip .outside cs
  | .inside, c :: cs => c :: strip (if c = '"' then .outside else if c = '\\' then .escaped else .inside) cs
  | .escaped, c :: cs => c :: strip .inside cs

/-- From outside a literal the scanner turns the one text into the other and stands outside again. -/
def StripsTo (text left : List Char) : Prop := ∀ cs, strip .outside (text ++ cs) = left ++ strip .outside cs

namespace StripsTo
variable {text left more rest : List Char} {c : Char}

theorem append (h : StripsTo text left) (h' : StripsTo more rest) :
    StripsTo (text ++ more) (left ++ rest) := by
  intro cs
  rw [List.append_assoc, h, h', List.append_assoc]

theorem blank (hc : isBlank c = true) (h : StripsTo text left) : StripsTo (c :: text) left := by
  intro cs
  have hquote : c ≠ '"' := by
    rintro rfl
    exact absurd hc (by decide)
  rw [List.cons_append, strip, if_neg hquote, if_pos hc, h]

theorem visible (hc : Visible c) (hquote : c ≠ '"') (h : StripsTo text left) :
    StripsTo (c :: text) (c :: left) := by
  intro cs
  rw [List.cons_append, strip, if_neg hquote, hc.not_isBlank, if_neg Bool.false_ne_true, h, List.cons_append]

theorem nil : StripsTo [] [] := fun _ => rfl

theorem word (h : ∀ c ∈ text, Visible c ∧ c ≠ '"') : StripsTo text text := by
  induction text with
  | nil => exact nil
  | cons c cs ih =>
    rw [List.forall_mem_cons] at h
    exact (ih h.2).visible h.1.1 h.1.2

theorem newline (depth : Nat) : StripsTo (newline depth) [] := by
  have hblanks : ∀ n, StripsTo (List.replicate n ' ') [] := by
    intro n
    induction n with
    | zero => exact nil
    | succ n ih => exact ih.blank (by decide)
  exact (hblanks _).blank (by decide)

end StripsTo

variable {cs : List Char}

theorem strip_harmless {hs : List Char} (h : ∀ c ∈ hs, Harmless c) :
    strip .inside (hs ++ cs) = hs ++ strip .inside cs := by
  induction hs with
  | nil => rfl
  | cons d ds ih =>
    rw [List.forall_mem_cons] at h
    rw [List.cons_append, strip, if_neg h.1.2.1, if_neg h.1.2.2, ih h.2, List.cons_append]

/-- An escaped character does not end a literal. -/
theorem strip_escapeChar (c : Char) :
    strip .inside (escapeChar c ++ cs) = escapeChar c ++ strip .inside cs := by
  rcases escapeChar_cases c with ⟨htext, hc⟩ | ⟨d, ds, htext, -, hds⟩
  · rw [htext]
    exact strip_harmless (List.forall_mem_singleton.mpr hc)
  · rw [htext]
    change '\\' :: d :: strip .inside (ds ++ cs) = _
    rw [strip_harmless hds]
    rfl

/-- A literal is kept as it is. -/
theorem StripsTo.quoted (s : String) : StripsTo (quoted s) (quoted s) := by
  intro cs
  have hbody : ∀ ds : List Char, strip .inside (ds.flatMap escapeChar ++ '"' :: cs) =
      ds.flatMap escapeChar ++ '"' :: strip .outside cs := by
    intro ds
    induction ds with
    | nil => rfl
    | cons d ds ih => rw [List.flatMap_cons, List.append_assoc, strip_escapeChar, ih, List.append_assoc]
  have hquoted : Json.quoted s ++ cs = '"' :: (s.toList.flatMap escapeChar ++ '"' :: cs) := by
    simp [Json.quoted]
  rw [hquoted, strip, if_pos rfl, hbody]
  simp [Json.quoted]

theorem StripsTo.separated {α : Type} {text left : α → List Char} {xs : List α}
    (h : ∀ x ∈ xs, StripsTo (text x) (left x)) : StripsTo (separated text xs) (separated left xs) := by
  have hmore : ∀ ys : List α, (∀ y ∈ ys, StripsTo (text y) (left y)) →
      StripsTo (ys.flatMap fun y => ',' :: text y) (ys.flatMap fun y => ',' :: left y) := by
    intro ys hys
    induction ys with
    | nil => exact nil
    | cons y ys ih =>
      rw [List.forall_mem_cons] at hys
      exact (hys.1.visible (by decide) (by decide)).append (ih hys.2)
  cases xs with
  | nil => exact nil
  | cons x xs =>
    rw [List.forall_mem_cons] at h
    exact h.1.append (hmore xs h.2)

end Scanner

section Layouts

theorem prettyItems_eq (depth : Nat) (items : List Json) :
    prettyItems depth items = separated (fun j => newline depth ++ prettyChars depth j) items := by
  induction items with
  | nil => rfl
  | cons j rest ih => cases rest with
    | nil => simp [prettyItems, separated]
    | cons k rest =>
      rw [prettyItems, ih, separated, separated, List.flatMap_cons, List.cons_append]
      simp

def prettyField (depth : Nat) (f : String × Json) : List Char :=
  newline depth ++ quoted f.1 ++ ':' :: ' ' :: prettyChars depth f.2

theorem prettyFields_eq (depth : Nat) (fields : List (String × Json)) :
    prettyFields depth fields = separated (prettyField depth) fields := by
  induction fields with
  | nil => rfl
  | cons f rest ih => cases rest with
    | nil => simp [prettyFields, separated, prettyField]
    | cons g rest =>
      rw [prettyFields, ih, separated, separated, List.flatMap_cons, List.cons_append]
      · simp [prettyField]
      · simp

/-- A value without parts and quotes has one text. -/
theorem stripsTo_of_opening_eq_none (depth : Nat) {j : Json} (h : j.opening = none) :
    StripsTo (prettyChars depth j) (compactChars j) := by
  have hsame : prettyChars depth j = compactChars j := by cases j <;> first | rfl | cases h
  rw [hsame]
  refine .word fun c hc => ⟨visible_of_opening_eq_none h hc, ?_⟩
  rintro rfl
  exact ((isWord_of_opening_eq_none h).plain _ hc).2 (by decide)

/-- Brackets around parts that are stripped. Only the last bracket has a line of its own. -/
theorem StripsTo.bracketed {opener closer : Char} {text left : List Char} (depth : Nat)
    (hopener : Visible opener ∧ opener ≠ '"') (hcloser : Visible closer ∧ closer ≠ '"')
    (h : StripsTo text left) :
    StripsTo (opener :: text ++ Json.newline depth ++ [closer]) (opener :: left ++ [closer]) := by
  have hbody := ((h.visible hopener.1 hopener.2).append (newline depth)).append
    (nil.visible hcloser.1 hcloser.2)
  rwa [List.append_nil] at hbody

/-- Without blanks indented text is compact text, at whatever depth it starts. -/
theorem stripsTo_prettyChars (depth : Nat) (j : Json) : StripsTo (prettyChars depth j) (compactChars j) := by
  induction j using induction_on_parts generalizing depth with
  | string s => exact .quoted s
  | array items ih =>
    cases items with
    | nil =>
      exact (StripsTo.nil.visible (c := ']') (by decide) (by decide)).visible (c := '[')
        (by decide) (by decide)
    | cons j rest =>
      rw [prettyChars, compactChars, prettyItems_eq, compactItems_eq]
      · exact .bracketed depth (by decide) (by decide)
          (.separated fun k hk => (StripsTo.newline (depth + 1)).append (ih k hk (depth + 1)))
      · exact List.cons_ne_nil j rest
  | object fields ih =>
    cases fields with
    | nil =>
      exact (StripsTo.nil.visible (c := '\x7d') (by decide) (by decide)).visible (c := '\x7b') (by decide)
        (by decide)
    | cons f rest =>
      have hfield : ∀ g ∈ f :: rest, StripsTo (prettyField (depth + 1) g) (fieldChars g) := fun g hg =>
        ((StripsTo.newline (depth + 1)).append (.quoted g.1)).append
          (((ih g hg (depth + 1)).blank (by decide)).visible (by decide) (by decide))
      rw [prettyChars, compactChars, prettyFields_eq, compactFields_eq]
      · exact .bracketed depth (by decide) (by decide) (.separated hfield)
      · exact List.cons_ne_nil f rest
  | _ => exact stripsTo_of_opening_eq_none depth rfl

/-- A text without the blanks outside of its string literals. -/
def stripped (s : String) : String := String.ofList (strip .outside s.toList)

end Layouts
end MixedProgram.Json
