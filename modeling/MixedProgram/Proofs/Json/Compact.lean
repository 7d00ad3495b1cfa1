import MixedProgram.Proofs.Json.Quoted
import MixedProgram.Proofs.Json.Settled
import MixedProgram.Proofs.Number.Numeral

/-! Compact JSON text can be told apart.
The text of a value is never the start of another text that stands where a value ends, so that a text
determines its value. -/
namespace MixedProgram.Json
open Number

section Words

/-- What stands behind a value inside another one, and what a value with parts starts with. -/
def stops : List Char := [',', ']', '\x7d']
def openings : List Char := ['"', '[', '\x7b']

/-- A text is at its end or goes on behind a value. -/
def Stopped (cs : List Char) : Prop := ∀ c ∈ cs.head?, c ∈ stops

theorem append_inj_of_stopped {v w cs ds : List Char} (hv : ∀ c ∈ v, c ∉ stops)
    (hw : ∀ c ∈ w, c ∉ stops) (hcs : Stopped cs) (hds : Stopped ds) (h : v ++ cs = w ++ ds) :
    v = w ∧ cs = ds := by
  induction v generalizing w with
  | nil =>
    cases w with
    | nil => exact ⟨rfl, h⟩
    | cons c w =>
      have hc : c ∈ stops := hcs c (by simp [show cs = c :: (w ++ ds) from h])
      exact absurd hc (hw c List.mem_cons_self)
  | cons c v ih =>
    cases w with
    | nil =>
      have hc : c ∈ stops := hds c (by simp [show ds = c :: (v ++ cs) from h.symm])
      exact absurd hc (hv c List.mem_cons_self)
    | cons d w =>
      rw [List.cons_append, List.cons_append, List.cons.injEq] at h
      obtain ⟨rfl, h⟩ := h
      rw [List.forall_mem_cons] at hv hw
      obtain ⟨rfl, hrest⟩ := ih hv.2 hw.2 h
      exact ⟨rfl, hrest⟩

/-- A nonempty text that neither stops nor opens anything. -/
structure IsWord (cs : List Char) : Prop where
  ne_nil : cs ≠ []
  plain : ∀ c ∈ cs, c ∉ stops ∧ c ∉ openings

/-- The digits, the points and the exponents of numbers. -/
theorem isWord_signed {negative : Bool} {body : List Char} (hbody : body ≠ [])
    (hchars : ∀ c ∈ body, c.isDigit = true ∨ c ∈ ['.', 'e', '+', '-']) :
    IsWord (signed negative body) := by
  have hplain : ∀ c, c.isDigit = true ∨ c ∈ ['.', 'e', '+', '-'] → c ∉ stops ∧ c ∉ openings := by
    rintro c hc
    constructor <;> intro hmem
    · fin_cases hmem <;> simp at hc
    · fin_cases hmem <;> simp at hc
  unfold signed
  split_ifs
  · refine ⟨by simp, List.forall_mem_cons.mpr ⟨by decide, fun c hc => hplain c (hchars c hc)⟩⟩
  · exact ⟨hbody, fun c hc => hplain c (hchars c hc)⟩

end Words

section Scalars
variable {j k : Json} {x y : Float}

/-- A value with parts or quotes starts in its own way. -/
def opening : Json → Option Char
  | string _ => some '"'
  | array _ => some '['
  | object _ => some '\x7b'
  | _ => none

theorem head_of_opening {c : Char} (h : j.opening = some c) :
    ∃ cs, compactChars j = c :: cs ∧ c ∈ openings := by
  cases j <;> cases h <;> exact ⟨_, rfl, by decide⟩

theorem intChars_inj {m n : ℤ} (h : intChars m = intChars n) : m = n := by
  rw [intChars, intChars, signed_inj (startsWithDigit_toDigits _) (startsWithDigit_toDigits _),
    toDigits_inj, decide_eq_decide] at h
  omega

theorem floatChars_inj (hx : (Value.ofFloat x).isFinite = true) (hy : (Value.ofFloat y).isFinite = true)
    (h : floatChars x = floatChars y) : x = y := by
  obtain ⟨negative, m, e, hvx⟩ := Value.exists_of_isFinite hx
  obtain ⟨negative', m', e', hvy⟩ := Value.exists_of_isFinite hy
  rw [floatChars_of_finite hvx, floatChars_of_finite hvy] at h
  obtain ⟨rfl, rfl, rfl⟩ := Layout.finite_inj rfl (Value.fits_ofBits hvx) (Value.fits_ofBits hvy) h
  exact Value.ofFloat_inj hvx hvy

theorem intChars_ne_floatChars (n : ℤ) (hx : (Value.ofFloat x).isFinite = true) :
    intChars n ≠ floatChars x := by
  obtain ⟨negative, m, e, hvx⟩ := Value.exists_of_isFinite hx
  intro h
  rw [intChars, floatChars_of_finite hvx, Layout.finite_eq,
    signed_inj (startsWithDigit_toDigits _) (numberLayout.startsWithDigit_numeral _)] at h
  exact Layout.not_allDigits_numeral rfl _ (h.2 ▸ allDigits_toDigits _)

inductive IsLiteral : Json → Prop
  | null : IsLiteral null
  | bool (b : Bool) : IsLiteral (bool b)

/-- Only finite numbers have a text of their own. -/
inductive IsNumber : Json → Prop
  | int (n : ℤ) : IsNumber (int n)
  | float (x : Float) (hx : (Value.ofFloat x).isFinite = true) : IsNumber (float x)

theorem settled_of_opening_eq_none (h : j.opening = none) : IsLiteral j.settled ∨ IsNumber j.settled := by
  cases j with
  | null => exact Or.inl .null
  | bool b => exact Or.inl (.bool b)
  | int n => exact Or.inr (.int n)
  | float x =>
    rw [settled]
    split_ifs with hx
    · exact Or.inr (.float x hx)
    · exact Or.inl .null
  | _ => cases h

theorem IsLiteral.inj (hj : IsLiteral j) (hk : IsLiteral k) (h : compactChars j = compactChars k) :
    j = k := by
  cases hj with
  | null => cases hk with
    | null => rfl
    | bool b => cases b <;> cases h
  | bool b => cases hk with
    | null => cases b <;> cases h
    | bool b' => cases b <;> cases b' <;> first | rfl | cases h

theorem IsLiteral.head (h : IsLiteral j) :
    ∃ c cs, compactChars j = c :: cs ∧ c.isDigit = false ∧ c ≠ '-' := by
  cases h with
  | null => exact ⟨_, _, rfl, by decide, by decide⟩
  | bool b => cases b <;> exact ⟨_, _, rfl, by decide, by decide⟩

theorem IsLiteral.isWord (h : IsLiteral j) : IsWord (compactChars j) := by
  cases h with
  | null => constructor <;> simp [compactChars, stops, openings]
  | bool b => cases b <;> constructor <;> simp [compactChars, stops, openings]

theorem IsNumber.exists_signed (h : IsNumber j) :
    ∃ negative body, compactChars j = signed negative body ∧ StartsWithDigit body ∧
      ∀ c ∈ body, c.isDigit = true ∨ c ∈ ['.', 'e', '+', '-'] := by
  cases h with
  | int n =>
    exact ⟨_, _, rfl, startsWithDigit_toDigits _, fun c hc => Or.inl (allDigits_toDigits _ c hc)⟩
  | float x hx =>
    obtain ⟨negative, m, e, hvx⟩ := Value.exists_of_isFinite hx
    exact ⟨negative, _, floatChars_of_finite hvx, numberLayout.startsWithDigit_numeral _,
      fun c => Layout.isNumeral_of_mem_numeral rfl⟩

theorem IsNumber.isWord (h : IsNumber j) : IsWord (compactChars j) := by
  obtain ⟨negative, body, htext, ⟨c, cs, rfl, -⟩, hchars⟩ := h.exists_signed
  rw [htext]
  exact isWord_signed (List.cons_ne_nil c cs) hchars

theorem IsNumber.inj (hj : IsNumber j) (hk : IsNumber k) (h : compactChars j = compactChars k) : j = k := by
  cases hj with
  | int m => cases hk with
    | int n => rw [intChars_inj h]
    | float x hx => exact absurd h (intChars_ne_floatChars m hx)
  | float x hx => cases hk with
    | int n => exact absurd h.symm (intChars_ne_floatChars n hx)
    | float y hy => rw [floatChars_inj hx hy h]

theorem IsLiteral.text_ne (hj : IsLiteral j) (hk : IsNumber k) : compactChars j ≠ compactChars k := by
  obtain ⟨c, cs, hcs, hc, hminus⟩ := hj.head
  obtain ⟨negative, body, htext, hbody, -⟩ := hk.exists_signed
  rw [hcs, htext]
  change signed false (c :: cs) ≠ _
  exact (signed_ne_signed_cons hbody hc hminus).symm

theorem isWord_of_opening_eq_none (h : j.opening = none) : IsWord (compactChars j) := by
  rw [← compactChars_settled]
  rcases settled_of_opening_eq_none h with h | h
  · exact h.isWord
  · exact h.isWord

theorem settled_eq_of_opening_eq_none (hj : j.opening = none) (hk : k.opening = none)
    (h : compactChars j = compactChars k) : j.settled = k.settled := by
  rw [← compactChars_settled j, ← compactChars_settled k] at h
  rcases settled_of_opening_eq_none hj with hj | hj <;> rcases settled_of_opening_eq_none hk with hk | hk
  · exact hj.inj hk h
  · exact absurd h (hj.text_ne hk)
  · exact absurd h.symm (hk.text_ne hj)
  · exact hj.inj hk h

/-- How a text starts shows what kind of value it belongs to. -/
theorem opening_eq_of_text_eq {cs ds : List Char} (h : compactChars j ++ cs = compactChars k ++ ds) :
    j.opening = k.opening := by
  have hword : ∀ {j k : Json} {cs ds : List Char}, j.opening = none →
      compactChars j ++ cs = compactChars k ++ ds → k.opening = none := by
    intro j k cs ds hj h
    obtain ⟨hne, hplain⟩ := isWord_of_opening_eq_none hj
    obtain ⟨c, rest, htext⟩ := List.exists_cons_of_ne_nil hne
    by_contra hk
    obtain ⟨d, hd⟩ := Option.ne_none_iff_exists'.mp hk
    obtain ⟨more, hmore, hopen⟩ := head_of_opening hd
    rw [htext, hmore, List.cons_append, List.cons_append, List.cons.injEq] at h
    obtain ⟨rfl, -⟩ := h
    exact (hplain c (by simp [htext])).2 hopen
  cases hj : j.opening with
  | none => exact (hword hj h).symm
  | some c =>
    cases hk : k.opening with
    | none => rw [hword hk h.symm] at hj; cases hj
    | some d =>
      obtain ⟨_, hc, -⟩ := head_of_opening hj
      obtain ⟨_, hd, -⟩ := head_of_opening hk
      rw [hc, hd, List.cons_append, List.cons_append, List.cons.injEq] at h
      rw [h.1]

end Scalars

section Parts
variable {α β : Type} {text : α → List Char} {value : α → β} {close : Char} {xs ys : List α}

/-- The texts of some parts can be told apart where they are followed by a stop. -/
def Readable (text : α → List Char) (value : α → β) (xs : List α) : Prop :=
  ∀ x ∈ xs, ∀ y cs ds, Stopped cs → Stopped ds → text x ++ cs = text y ++ ds →
    value x = value y ∧ cs = ds

theorem stopped_more (hclose : close ∈ stops) (xs : List α) (cs : List Char) :
    Stopped ((xs.flatMap fun y => ',' :: text y) ++ close :: cs) := by
  cases xs with
  | nil => simpa [Stopped] using hclose
  | cons x xs => simp [Stopped, stops]

theorem readable_more (hclose : close ∈ stops) (hcomma : close ≠ ',') (h : Readable text value xs)
    {cs ds : List Char}
    (heq : (xs.flatMap fun y => ',' :: text y) ++ close :: cs =
      (ys.flatMap fun y => ',' :: text y) ++ close :: ds) :
    xs.map value = ys.map value ∧ cs = ds := by
  induction xs generalizing ys with
  | nil =>
    cases ys with
    | nil => simpa using heq
    | cons y ys => simp [hcomma] at heq
  | cons x xs ih =>
    cases ys with
    | nil => simp [hcomma.symm] at heq
    | cons y ys =>
      simp only [List.flatMap_cons, List.cons_append, List.append_assoc, List.cons.injEq, true_and] at heq
      obtain ⟨hvalue, hrest⟩ := h x List.mem_cons_self y _ _ (stopped_more hclose xs cs)
        (stopped_more hclose ys ds) heq
      obtain ⟨hvalues, hdone⟩ := ih (fun z hz => h z (List.mem_cons_of_mem x hz)) hrest
      exact ⟨by rw [List.map_cons, List.map_cons, hvalue, hvalues], hdone⟩

/-- A list of parts ends at its closing bracket, and its parts can be told apart. -/
theorem readable_separated (hclose : close ∈ stops) (hcomma : close ≠ ',') (h : Readable text value xs)
    (hstart : ∀ x, ∃ c cs, text x = c :: cs ∧ c ≠ close) {cs ds : List Char}
    (heq : separated text xs ++ close :: cs = separated text ys ++ close :: ds) :
    xs.map value = ys.map value ∧ cs = ds := by
  cases xs with
  | nil =>
    cases ys with
    | nil => simpa [separated] using heq
    | cons y ys =>
      obtain ⟨c, rest, hc, hne⟩ := hstart y
      simp [separated, hc, hne.symm] at heq
  | cons x xs =>
    cases ys with
    | nil =>
      obtain ⟨c, rest, hc, hne⟩ := hstart x
      simp [separated, hc, hne] at heq
    | cons y ys =>
      -- With a comma in front the first part is as the others.
      refine readable_more hclose hcomma h ?_
      simpa [separated] using heq

end Parts

section Values
variable {j k : Json} {cs ds : List Char}

theorem settled_eq_of_word (hj : j.opening = none) (hcs : Stopped cs) (hds : Stopped ds)
    (h : compactChars j ++ cs = compactChars k ++ ds) : j.settled = k.settled ∧ cs = ds := by
  have hk : k.opening = none := (opening_eq_of_text_eq h).symm.trans hj
  obtain ⟨htext, hrest⟩ := append_inj_of_stopped (fun c hc => ((isWord_of_opening_eq_none hj).plain c hc).1)
    (fun c hc => ((isWord_of_opening_eq_none hk).plain c hc).1) hcs hds h
  exact ⟨settled_eq_of_opening_eq_none hj hk htext, hrest⟩

theorem exists_cons_compactChars (j : Json) : ∃ c cs, compactChars j = c :: cs ∧ c ∉ stops := by
  cases hj : j.opening with
  | none =>
    obtain ⟨hne, hplain⟩ := isWord_of_opening_eq_none hj
    obtain ⟨c, cs, hcs⟩ := List.exists_cons_of_ne_nil hne
    exact ⟨c, cs, hcs, (hplain c (by simp [hcs])).1⟩
  | some c =>
    obtain ⟨cs, hcs, hc⟩ := head_of_opening hj
    refine ⟨c, cs, hcs, ?_⟩
    fin_cases hc <;> decide

/-- A text is read to the end of its value, whatever may follow a value. -/
theorem compactChars_append_inj (hcs : Stopped cs) (hds : Stopped ds)
    (h : compactChars j ++ cs = compactChars k ++ ds) : j.settled = k.settled ∧ cs = ds := by
  induction j using induction_on_parts generalizing k cs ds with
  | string s =>
    have hk := opening_eq_of_text_eq h
    cases k with
    | string t =>
      obtain ⟨rfl, hrest⟩ := quoted_append_inj.mp h
      exact ⟨rfl, hrest⟩
    | _ => cases hk
  | array items ih =>
    have hk := opening_eq_of_text_eq h
    cases k with
    | array items' =>
      simp only [compactChars, compactItems_eq, List.cons_append, List.append_assoc,
        List.cons.injEq, true_and, List.nil_append] at h
      have hreadable : Readable compactChars settled items := fun j hj k cs ds hcs hds h => ih j hj hcs hds h
      obtain ⟨hitems, hrest⟩ := readable_separated (by decide) (by decide) hreadable
        (fun j => by
          obtain ⟨c, cs, hc, hstop⟩ := exists_cons_compactChars j
          exact ⟨c, cs, hc, fun heq => hstop (heq ▸ by decide)⟩) h
      rw [settled, settled, settledItems_eq, settledItems_eq, hitems]
      exact ⟨rfl, hrest⟩
    | _ => cases hk
  | object fields ih =>
    have hk := opening_eq_of_text_eq h
    cases k with
    | object fields' =>
      simp only [compactChars, compactFields_eq, List.cons_append, List.append_assoc,
        List.cons.injEq, true_and, List.nil_append] at h
      have hreadable : Readable fieldChars (fun f => (f.1, f.2.settled)) fields := by
        intro f hf g cs ds hcs hds h
        rw [fieldChars, fieldChars, List.append_assoc, List.append_assoc] at h
        obtain ⟨hname, hvalue⟩ := quoted_append_inj.mp h
        obtain ⟨hsettled, hrest⟩ := ih f hf hcs hds (List.cons.inj hvalue).2
        exact ⟨Prod.ext hname hsettled, hrest⟩
      obtain ⟨hfields, hrest⟩ := readable_separated (by decide) (by decide) hreadable
        (fun f => ⟨'"', _, rfl, by decide⟩) h
      rw [settled, settled, settledFields_eq, settledFields_eq, hfields]
      exact ⟨rfl, hrest⟩
    | _ => cases hk
  | _ => exact settled_eq_of_word rfl hcs hds h

/-- The compact text of a value says all about it but which numbers were not finite. -/
theorem compact_inj : j.compact = k.compact ↔ j.settled = k.settled := by
  rw [compact, compact, String.ofList_inj]
  constructor
  · intro h
    have hstopped : Stopped [] := fun _ hc => by cases hc
    exact (compactChars_append_inj hstopped hstopped (congrArg (· ++ []) h)).1
  · intro h
    rw [← compactChars_settled j, h, compactChars_settled]

end Values

end MixedProgram.Json
