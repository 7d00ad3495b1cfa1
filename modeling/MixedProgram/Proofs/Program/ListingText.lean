import MixedProgram.Proofs.Number.Plain
import MixedProgram.Proofs.Program.Listed

/-! What a line of the listing tells.
Blanks cut a line into words, and neither a number nor a default label has a blank in it. So the line of a
constraint or of the objective tells everything about its canonical terms, as long as no variable is named. -/
namespace MixedProgram
open Number (plain plainChars plainChars_inj)

section Words

/-- Words with a blank between any two of them. -/
def spaced (words : List (List Char)) : List Char := [' '].intercalate words

/-- Words in pairs with a plus sign between any two pairs. -/
def summands : List (List Char × List Char) → List (List Char)
  | [] => []
  | [(a, b)] => [a, b]
  | (a, b) :: pair :: pairs => a :: b :: ['+'] :: summands (pair :: pairs)

theorem spaced_cons {word : List Char} {words : List (List Char)} (h : words ≠ []) :
    spaced (word :: words) = word ++ ' ' :: spaced words := by
  obtain ⟨w, ws, rfl⟩ := List.exists_cons_of_ne_nil h
  simp [spaced, List.intercalate_cons_cons]

theorem spaced_inj {ws vs : List (List Char)} (hws : ∀ w ∈ ws, ' ' ∉ w) (hvs : ∀ v ∈ vs, ' ' ∉ v)
    (hwsne : ws ≠ []) (hvsne : vs ≠ []) : spaced ws = spaced vs ↔ ws = vs := by
  refine ⟨fun h => ?_, congrArg _⟩
  rw [← List.splitOn_intercalate ' ' hws hwsne, ← List.splitOn_intercalate ' ' hvs hvsne]
  exact congrArg _ h

theorem summands_ne_nil {pair : List Char × List Char} {pairs : List (List Char × List Char)} :
    summands (pair :: pairs) ≠ [] := by
  cases pairs <;> simp [summands]

/-- Pairs have two words, so that the plus signs have their places. -/
theorem summands_inj {xs ys : List (List Char × List Char)} : summands xs = summands ys ↔ xs = ys := by
  refine ⟨fun h => ?_, congrArg _⟩
  induction xs generalizing ys with
  | nil =>
    cases ys with
    | nil => rfl
    | cons y ys => exact absurd h.symm summands_ne_nil
  | cons x xs ih =>
    cases ys with
    | nil => exact absurd h summands_ne_nil
    | cons y ys =>
      cases xs with
      | nil =>
        cases ys with
        | nil => simpa [summands, Prod.ext_iff] using h
        | cons y' ys => simp [summands] at h
      | cons x' xs =>
        cases ys with
        | nil => simp [summands] at h
        | cons y' ys =>
          simp only [summands, List.cons.injEq, true_and] at h
          rw [ih h.2.2, Prod.ext h.1 h.2.1]

theorem mem_summands {xs : List (List Char × List Char)} {w : List Char} (h : w ∈ summands xs) :
    w = ['+'] ∨ ∃ x ∈ xs, w = x.1 ∨ w = x.2 := by
  induction xs with
  | nil => cases h
  | cons x xs ih =>
    cases xs with
    | nil => exact .inr ⟨x, by simp, by simpa [summands] using h⟩
    | cons y ys =>
      simp only [summands, List.mem_cons] at h
      rcases h with rfl | rfl | rfl | h
      · exact .inr ⟨x, by simp, .inl rfl⟩
      · exact .inr ⟨x, by simp, .inr rfl⟩
      · exact .inl rfl
      · rcases ih h with rfl | ⟨z, hz, hw⟩
        · exact .inl rfl
        · exact .inr ⟨z, List.mem_cons_of_mem _ hz, hw⟩

lemma blank_not_mem_summands {xs : List (List Char × List Char)} (h : ∀ x ∈ xs, ' ' ∉ x.1 ∧ ' ' ∉ x.2) :
    ∀ w ∈ summands xs, ' ' ∉ w := by
  intro w hw
  rcases mem_summands hw with rfl | ⟨x, hx, rfl | rfl⟩
  · decide
  · exact (h x hx).1
  · exact (h x hx).2

/-- The characters of a summand. -/
def summandChars (x : List Char × List Char) : List Char := x.1 ++ ' ' :: x.2

theorem spaced_summands_append (xs : List (List Char × List Char)) {tail : List (List Char)} (h : tail ≠ []) :
    ['+', ' '].intercalate (xs.map fun x => summandChars x ++ [' ']) ++ spaced tail =
      spaced (summands xs ++ tail) := by
  induction xs with
  | nil => simp [summands]
  | cons x xs ih =>
    cases xs with
    | nil => simp [summands, summandChars, spaced_cons, h]
    | cons y ys =>
      have hne : summands (y :: ys) ++ tail ≠ [] := by simp [h]
      rw [List.map_cons] at ih
      rw [List.map_cons, List.map_cons, List.intercalate_cons_cons, List.append_assoc, ih]
      simp [summands, summandChars, spaced_cons, hne]

theorem spaced_summands_cons (x : List Char × List Char) (xs : List (List Char × List Char)) :
    summandChars x ++ xs.flatMap (fun y => [' ', '+', ' '] ++ summandChars y) =
      spaced (summands (x :: xs)) := by
  induction xs generalizing x with
  | nil => simp [summands, summandChars, spaced]
  | cons y ys ih =>
    rw [List.flatMap_cons, List.append_assoc, ih y]
    simp [summands, summandChars, spaced_cons, summands_ne_nil]

end Words

section Lists
variable {α β : Type}

/-- Lists whose members are told apart by a property are told apart in a row. -/
theorem append_inj_of_forall {P : α → Prop} [DecidablePred P] {xs ys xs' ys' : List α}
    (hxs : ∀ x ∈ xs, P x) (hxs' : ∀ x ∈ xs', P x) (hys : ∀ y ∈ ys, ¬P y) (hys' : ∀ y ∈ ys', ¬P y) :
    xs ++ ys = xs' ++ ys' ↔ xs = xs' ∧ ys = ys' := by
  refine ⟨fun h => ?_, fun ⟨hx, hy⟩ => by rw [hx, hy]⟩
  have hnone : ∀ zs : List α, (∀ z ∈ zs, ¬P z) → zs.filter (P ·) = [] := fun zs hzs =>
    List.filter_eq_nil_iff.mpr fun z hz => by simpa using hzs z hz
  have hall : ∀ zs : List α, (∀ z ∈ zs, P z) → zs.filter (P ·) = zs := fun zs hzs =>
    List.filter_eq_self.mpr fun z hz => by simpa using hzs z hz
  have hfirst := congrArg (List.filter (P ·)) h
  rw [List.filter_append, List.filter_append, hall xs hxs, hall xs' hxs', hnone ys hys, hnone ys' hys',
    List.append_nil, List.append_nil] at hfirst
  exact ⟨hfirst, List.append_cancel_left (hfirst ▸ h)⟩

theorem map_eq_map_iff_forall {f g : α → β} {R : α → Prop} {xs ys : List α}
    (h : ∀ x ∈ xs, ∀ y ∈ ys, f x = g y ↔ x = y ∧ R x) :
    xs.map f = ys.map g ↔ xs = ys ∧ ∀ x ∈ xs, R x := by
  induction xs generalizing ys with
  | nil => cases ys <;> simp
  | cons x xs ih =>
    cases ys with
    | nil => simp
    | cons y ys =>
      have hhead := h x List.mem_cons_self y List.mem_cons_self
      have htail := ih fun x hx y hy => h x (List.mem_cons_of_mem _ hx) y (List.mem_cons_of_mem _ hy)
      simp only [List.map_cons, List.cons.injEq, hhead, htail, List.forall_mem_cons]
      tauto

/-- A term is read from two words, one for its coefficient and one that tells its key and something more. -/
theorem summand_eq_iff {t u : Term α} {b c : List Char} {R : Prop} (h : b = c ↔ t.key = u.key ∧ R) :
    (plainChars t.coefficient, b) = (plainChars u.coefficient, c) ↔ t = u ∧ R := by
  have hterm : t = u ↔ t.key = u.key ∧ t.coefficient = u.coefficient := by
    cases t
    cases u
    simp
  rw [Prod.mk.injEq, plainChars_inj, h, hterm, and_left_comm, and_assoc]

/-- The mark of a square is not in a product. -/
lemma square_ne_product {xs ys zs : List Char} (hy : '^' ∉ ys) (hz : '^' ∉ zs) :
    xs ++ ['^', '2'] ≠ ys ++ '*' :: zs := by
  intro h
  have hmark : '^' ∈ ys ++ '*' :: zs := h ▸ by simp
  simp [hy, hz] at hmark

end Lists

namespace Program
variable {p q : Program}

/-- No variable has an explicit name, or none but the empty one. -/
def Unnamed (p : Program) : Prop := ∀ id name, p.variableName? id = some name → name = ""

/-- Both programs have the variable, and it ranges over the same kind of values. -/
def SameKind (p q : Program) (id : VarId) : Prop :=
  ∃ v w, p.getVariable id = .ok v ∧ q.getVariable id = .ok w ∧ v.domain.name = w.domain.name

section Labels
variable {a b : VarId}

lemma letter_eq_iff {d e : Domain} : d.letter = e.letter ↔ d.name = e.name := by
  cases d <;> cases e <;> simp [Domain.letter, Domain.name]

theorem Consistent.labelText_of_unnamed (h : p.Consistent) (hn : p.Unnamed) (ha : p.hasVariable a = true) :
    ∃ v, p.getVariable a = .ok v ∧ (p.labelText a).toList = v.domain.letter :: Nat.toDigits 10 a.index := by
  obtain ⟨v, hv⟩ := exists_getVariable_iff.mpr (by simpa [hasVariable] using ha)
  have hid : v.id = a := by
    obtain ⟨hi, rfl⟩ := Array.getElem?_eq_some_iff.mp (getVariable_eq_ok.mp hv)
    rw [h.variable_id a.index hi, EntityId.ofIndex_index]
  have hlabel : p.label a = .ok v.defaultLabel := by
    rw [label, hv]
    cases hname : p.variableName? a with
    | none => rfl
    | some name => rw [hn a name hname]; rfl
  refine ⟨v, hv, ?_⟩
  simp [labelText, hlabel, Variable.defaultLabel, Variable.index, hid]

variable (hp : p.Consistent) (hq : q.Consistent) (hpn : p.Unnamed) (hqn : q.Unnamed)
include hp hpn

theorem mem_labelText (ha : p.hasVariable a = true) {c : Char} (hc : c ∈ (p.labelText a).toList) :
    c.isDigit = true ∨ c ∈ ['F', 'I', 'B'] := by
  obtain ⟨v, -, htext⟩ := hp.labelText_of_unnamed hpn ha
  rw [htext] at hc
  rcases List.mem_cons.mp hc with rfl | hc
  · cases v.domain <;> simp [Domain.letter]
  · exact .inl (Number.allDigits_toDigits _ c hc)

include hq hqn

/-- Default labels name the kind and the number of a variable. -/
theorem labelText_eq_iff (ha : p.hasVariable a = true) (hb : q.hasVariable b = true) :
    (p.labelText a).toList = (q.labelText b).toList ↔ a = b ∧ p.SameKind q a := by
  obtain ⟨v, hv, htext⟩ := hp.labelText_of_unnamed hpn ha
  obtain ⟨w, hw, htext'⟩ := hq.labelText_of_unnamed hqn hb
  rw [htext, htext', List.cons.injEq, Number.toDigits_inj, EntityId.index_inj, letter_eq_iff]
  constructor
  · rintro ⟨hkind, rfl⟩
    exact ⟨rfl, v, w, hv, hw, hkind⟩
  · rintro ⟨rfl, v', w', hv', hw', hkind⟩
    obtain rfl := Except.ok.inj (hv.symm.trans hv')
    obtain rfl := Except.ok.inj (hw.symm.trans hw')
    exact ⟨hkind, rfl⟩

end Labels

section Terms

/-- The two words of a linear term. -/
def linearSummand (p : Program) (t : LinearTerm) : List Char × List Char :=
  (plainChars t.coefficient, (p.labelText t.key).toList)

/-- A square or a product of two labels. -/
def pairChars (p : Program) (pair : VarPair) : List Char :=
  if pair.isSquare then (p.labelText pair.first).toList ++ ['^', '2']
  else (p.labelText pair.first).toList ++ '*' :: (p.labelText pair.second).toList

/-- The two words of a quadratic term. -/
def quadraticSummand (p : Program) (t : QuadraticTerm) : List Char × List Char :=
  (plainChars t.coefficient, p.pairChars t.key)

theorem toList_linearTermText (t : LinearTerm) :
    (p.linearTermText t).toList = summandChars (p.linearSummand t) := by
  simp [linearTermText, summandChars, linearSummand, plain]

theorem toList_quadraticTermText (t : QuadraticTerm) :
    (p.quadraticTermText t).toList = summandChars (p.quadraticSummand t) := by
  unfold quadraticTermText summandChars quadraticSummand pairChars
  split_ifs <;> simp [plain]

lemma blank_not_mem_plainChars (x : Float) : ' ' ∉ plainChars x := fun h => by
  rcases Number.mem_plainChars h with h | h
  · exact absurd h (by decide)
  · exact absurd h (by decide)

variable (hp : p.Consistent) (hq : q.Consistent) (hpn : p.Unnamed) (hqn : q.Unnamed)

section Characters
include hp hpn

/-- Neither blanks nor the marks of squares and products are in a default label. -/
lemma not_mem_labelText {a : VarId} (ha : p.hasVariable a = true) {c : Char} (hc : c ∈ [' ', '^', '*']) :
    c ∉ (p.labelText a).toList := by
  intro h
  rcases mem_labelText hp hpn ha h with h | h <;> fin_cases hc <;> exact absurd h (by decide)

lemma blank_not_mem_pairChars {pair : VarPair} (hfirst : p.hasVariable pair.first = true)
    (hsecond : p.hasVariable pair.second = true) : ' ' ∉ p.pairChars pair := by
  have h := not_mem_labelText hp hpn hfirst (c := ' ') (by decide)
  have h' := not_mem_labelText hp hpn hsecond (c := ' ') (by decide)
  unfold pairChars
  split_ifs <;> simp [h, h']

end Characters

include hp hq hpn hqn

theorem linearSummand_eq_iff {t u : LinearTerm} (ht : p.hasVariable t.key = true)
    (hu : q.hasVariable u.key = true) : p.linearSummand t = q.linearSummand u ↔ t = u ∧ p.SameKind q t.key :=
  summand_eq_iff (labelText_eq_iff hp hq hpn hqn ht hu)

/-- Squares and products are told apart by their marks, and read at them. -/
theorem pairChars_eq_iff {a b : VarPair} (hfirst : p.hasVariable a.first = true)
    (hsecond : p.hasVariable a.second = true) (hfirst' : q.hasVariable b.first = true)
    (hsecond' : q.hasVariable b.second = true) :
    p.pairChars a = q.pairChars b ↔ a = b ∧ p.SameKind q a.first ∧ p.SameKind q a.second := by
  have hlabels := labelText_eq_iff hp hq hpn hqn hfirst hfirst'
  have hlabels' := labelText_eq_iff hp hq hpn hqn hsecond hsecond'
  have hpair : a = b ↔ a.first = b.first ∧ a.second = b.second := by
    cases a
    cases b
    simp
  have hnot := @not_mem_labelText p hp hpn
  have hnot' := @not_mem_labelText q hq hqn
  unfold pairChars VarPair.isSquare
  by_cases ha : a.first = a.second <;> by_cases hb : b.first = b.second
  · rw [if_pos (by simpa using ha), if_pos (by simpa using hb), List.append_left_inj, hlabels,
      hpair, ← ha, ← hb]
    constructor
    · rintro ⟨hf, hk⟩
      exact ⟨⟨hf, hf⟩, hk, hk⟩
    · rintro ⟨⟨hf, -⟩, hk, -⟩
      exact ⟨hf, hk⟩
  · rw [if_pos (by simpa using ha), if_neg (by simpa using hb)]
    exact iff_of_false (square_ne_product (hnot' hfirst' (by decide)) (hnot' hsecond' (by decide)))
      fun h => hb (h.1 ▸ ha)
  · rw [if_neg (by simpa using ha), if_pos (by simpa using hb)]
    exact iff_of_false (square_ne_product (hnot hfirst (by decide)) (hnot hsecond (by decide))).symm
      fun h => ha (h.1 ▸ hb)
  · rw [if_neg (by simpa using ha), if_neg (by simpa using hb),
      List.append_cons_inj_of_notMem (hnot hfirst (by decide)) (hnot hsecond (by decide)), hlabels,
      hlabels', hpair]
    constructor
    · rintro ⟨⟨hf, hkf⟩, -, hs, hks⟩
      exact ⟨⟨hf, hs⟩, hkf, hks⟩
    · rintro ⟨⟨hf, hs⟩, hkf, hks⟩
      exact ⟨⟨hf, hkf⟩, rfl, hs, hks⟩

theorem quadraticSummand_eq_iff {t u : QuadraticTerm} (hfirst : p.hasVariable t.key.first = true)
    (hsecond : p.hasVariable t.key.second = true) (hfirst' : q.hasVariable u.key.first = true)
    (hsecond' : q.hasVariable u.key.second = true) : p.quadraticSummand t = q.quadraticSummand u ↔
      t = u ∧ p.SameKind q t.key.first ∧ p.SameKind q t.key.second :=
  summand_eq_iff (pairChars_eq_iff hp hq hpn hqn hfirst hsecond hfirst' hsecond')

end Terms

section Lines

/-- The words of the line of a constraint. -/
def constraintWords (p : Program) (c : Constraint) : List (List Char) :=
  summands (c.form.canonical.map p.linearSummand) ++ [c.relation.symbol.toList, plainChars c.rhs]

def objectiveSummands (p : Program) : List (List Char × List Char) :=
  p.objective.linear.canonical.map p.linearSummand ++ p.objective.quadratic.canonical.map p.quadraticSummand

/-- The words of the line of the objective. Two of them are empty where the first operator is missing. -/
def objectiveWords (p : Program) : List (List Char) :=
  p.objective.direction.name.toList ::
    if p.objectiveSummands = [] then [] else [] :: [] :: summands p.objectiveSummands

theorem toList_constraintText (p : Program) (c : Constraint) :
    (p.constraintText c).toList = spaced (p.constraintWords c) := by
  rw [constraintWords, ← spaced_summands_append _ (by simp)]
  simp [constraintText, toList_linearTermText, plain, spaced, Function.comp_def, List.intercalate_cons_cons]

theorem toList_listObjective (p : Program) : p.listObjective.toList = spaced p.objectiveWords := by
  have hbodies : (p.objective.linear.canonical.map p.linearTermText ++
      p.objective.quadratic.canonical.map p.quadraticTermText).map String.toList =
        p.objectiveSummands.map summandChars := by
    simp [objectiveSummands, toList_linearTermText, toList_quadraticTermText, Function.comp_def]
  unfold listObjective objectiveWords
  dsimp only
  generalize p.objective.linear.canonical.map p.linearTermText ++
    p.objective.quadratic.canonical.map p.quadraticTermText = bodies at hbodies ⊢
  generalize p.objectiveSummands = pairs at hbodies ⊢
  cases bodies with
  | nil =>
    obtain rfl : pairs = [] := by simpa using hbodies.symm
    simp [spaced]
  | cons body rest =>
    cases pairs with
    | nil => simp at hbodies
    | cons x xs =>
      obtain ⟨hbody, hrest⟩ := List.cons.inj hbodies
      rw [if_neg (by simp), spaced_cons (by simp), spaced_cons (by simp), spaced_cons summands_ne_nil,
        ← spaced_summands_cons]
      have hjoin : (rest.map (" + " ++ ·)).flatMap String.toList =
          xs.flatMap fun y => [' ', '+', ' '] ++ summandChars y := by
        have hmap := congrArg (List.flatMap ([' ', '+', ' '] ++ ·)) hrest
        rw [List.flatMap_map, List.flatMap_map] at hmap
        rw [List.flatMap_map, ← hmap]
        simp
      simp [String.toList_join, hjoin, hbody]

/-- The same row, by what its line tells. -/
structure SameRow (p q : Program) (c d : Constraint) : Prop where
  relation : c.relation = d.relation
  rhs : c.rhs = d.rhs
  terms : c.form.canonical = d.form.canonical
  kinds : ∀ t ∈ c.form.canonical, p.SameKind q t.key

/-- The same objective, by what its line tells. -/
structure SameObjective (p q : Program) : Prop where
  direction : p.objective.direction = q.objective.direction
  linear : p.objective.linear.canonical = q.objective.linear.canonical
  quadratic : p.objective.quadratic.canonical = q.objective.quadratic.canonical
  linear_kinds : ∀ t ∈ p.objective.linear.canonical, p.SameKind q t.key
  quadratic_kinds : ∀ t ∈ p.objective.quadratic.canonical,
    p.SameKind q t.key.first ∧ p.SameKind q t.key.second

lemma symbol_eq_iff {r s : Relation} : r.symbol.toList = s.symbol.toList ↔ r = s := by
  cases r <;> cases s <;> decide

lemma directionName_eq_iff {d e : Direction} : d.name.toList = e.name.toList ↔ d = e := by
  cases d <;> cases e <;> decide

lemma blank_not_mem_linearSummand (hp : p.Consistent) (hpn : p.Unnamed) {t : LinearTerm}
    (ht : p.hasVariable t.key = true) : ' ' ∉ (p.linearSummand t).1 ∧ ' ' ∉ (p.linearSummand t).2 :=
  ⟨blank_not_mem_plainChars _, not_mem_labelText hp hpn ht (by decide)⟩

lemma blank_not_mem_constraintWords (hp : p.Consistent) (hpn : p.Unnamed) {c : Constraint}
    (hc : c ∈ p.constraints) : ∀ w ∈ p.constraintWords c, ' ' ∉ w := by
  intro w hw
  rcases List.mem_append.mp hw with hw | hw
  · refine blank_not_mem_summands (fun x hx => ?_) w hw
    obtain ⟨t, ht, rfl⟩ := List.mem_map.mp hx
    exact blank_not_mem_linearSummand hp hpn ((hp.constraint_keys c hc).canonical t ht)
  · rcases List.mem_cons.mp hw with rfl | hw
    · cases c.relation <;> decide
    · obtain rfl := List.mem_singleton.mp hw
      exact blank_not_mem_plainChars _

lemma blank_not_mem_objectiveWords (hp : p.Consistent) (hpn : p.Unnamed) :
    ∀ w ∈ p.objectiveWords, ' ' ∉ w := by
  intro w hw
  rcases List.mem_cons.mp hw with rfl | hw
  · cases p.objective.direction <;> decide
  split_ifs at hw
  · cases hw
  rcases List.mem_cons.mp hw with rfl | hw
  · decide
  rcases List.mem_cons.mp hw with rfl | hw
  · decide
  refine blank_not_mem_summands (fun x hx => ?_) w hw
  rcases List.mem_append.mp hx with hx | hx <;> obtain ⟨t, ht, rfl⟩ := List.mem_map.mp hx
  · exact blank_not_mem_linearSummand hp hpn (hp.linear_keys.canonical t ht)
  · obtain ⟨hfirst, hsecond⟩ := hp.quadratic_keys.canonical t ht
    exact ⟨blank_not_mem_plainChars _, blank_not_mem_pairChars hp hpn hfirst hsecond⟩

/-- The second word of a linear term has no mark of a square or a product. -/
def Unmarked (x : List Char × List Char) : Prop := '^' ∉ x.2 ∧ '*' ∉ x.2

instance : DecidablePred Unmarked := fun _ => inferInstanceAs (Decidable (_ ∧ _))

lemma unmarked_linearSummand (hp : p.Consistent) (hpn : p.Unnamed) :
    ∀ x ∈ p.objective.linear.canonical.map p.linearSummand, Unmarked x := by
  intro x hx
  obtain ⟨t, ht, rfl⟩ := List.mem_map.mp hx
  have hkey := hp.linear_keys.canonical t ht
  exact ⟨not_mem_labelText hp hpn hkey (by decide), not_mem_labelText hp hpn hkey (by decide)⟩

lemma not_unmarked_quadraticSummand (p : Program) :
    ∀ x ∈ p.objective.quadratic.canonical.map p.quadraticSummand, ¬Unmarked x := by
  rintro x hx ⟨hsquare, hproduct⟩
  obtain ⟨t, -, rfl⟩ := List.mem_map.mp hx
  unfold quadraticSummand pairChars at hsquare hproduct
  split_ifs at hsquare hproduct
  · simp at hsquare
  · simp at hproduct

variable (hp : p.Consistent) (hq : q.Consistent) (hpn : p.Unnamed) (hqn : q.Unnamed)
include hp hq hpn hqn

theorem constraintText_eq_iff {c d : Constraint} (hc : c ∈ p.constraints) (hd : d ∈ q.constraints) :
    p.constraintText c = q.constraintText d ↔ p.SameRow q c d := by
  have hkeys := (hp.constraint_keys c hc).canonical
  have hkeys' := (hq.constraint_keys d hd).canonical
  have hterms := map_eq_map_iff_forall (R := fun t => p.SameKind q t.key) fun t ht u hu =>
    linearSummand_eq_iff hp hq hpn hqn (hkeys t ht) (hkeys' u hu)
  rw [← String.toList_inj, toList_constraintText, toList_constraintText,
    spaced_inj (blank_not_mem_constraintWords hp hpn hc) (blank_not_mem_constraintWords hq hqn hd)
      (by simp [constraintWords]) (by simp [constraintWords]), constraintWords, constraintWords]
  constructor
  · intro h
    obtain ⟨hsummands, htail⟩ := List.append_inj' h rfl
    obtain ⟨hform, hkinds⟩ := hterms.mp (summands_inj.mp hsummands)
    simp only [List.cons.injEq, symbol_eq_iff, plainChars_inj, and_true] at htail
    exact ⟨htail.1, htail.2, hform, hkinds⟩
  · rintro ⟨hrelation, hrhs, hform, hkinds⟩
    rw [hterms.mpr ⟨hform, hkinds⟩, hrelation, hrhs]

theorem objectiveSummands_eq_iff : p.objectiveSummands = q.objectiveSummands ↔
    (p.objective.linear.canonical = q.objective.linear.canonical ∧
      ∀ t ∈ p.objective.linear.canonical, p.SameKind q t.key) ∧
    p.objective.quadratic.canonical = q.objective.quadratic.canonical ∧
      ∀ t ∈ p.objective.quadratic.canonical, p.SameKind q t.key.first ∧ p.SameKind q t.key.second := by
  rw [objectiveSummands, objectiveSummands,
    append_inj_of_forall (unmarked_linearSummand hp hpn) (unmarked_linearSummand hq hqn)
      (not_unmarked_quadraticSummand p) (not_unmarked_quadraticSummand q)]
  refine and_congr (map_eq_map_iff_forall fun t ht u hu => ?_) (map_eq_map_iff_forall fun t ht u hu => ?_)
  · exact linearSummand_eq_iff hp hq hpn hqn (hp.linear_keys.canonical t ht) (hq.linear_keys.canonical u hu)
  · obtain ⟨hfirst, hsecond⟩ := hp.quadratic_keys.canonical t ht
    obtain ⟨hfirst', hsecond'⟩ := hq.quadratic_keys.canonical u hu
    exact quadraticSummand_eq_iff hp hq hpn hqn hfirst hsecond hfirst' hsecond'

theorem listObjective_eq_iff : p.listObjective = q.listObjective ↔ p.SameObjective q := by
  have hwords : p.objectiveWords = q.objectiveWords ↔
      p.objective.direction = q.objective.direction ∧ p.objectiveSummands = q.objectiveSummands := by
    unfold objectiveWords
    rw [List.cons.injEq, directionName_eq_iff]
    refine and_congr_right fun _ => ?_
    split_ifs with h h' h'
    · simp [h, h']
    · simp [h, Ne.symm h']
    · simp [h', h]
    · simp [summands_inj]
  rw [← String.toList_inj, toList_listObjective, toList_listObjective,
    spaced_inj (blank_not_mem_objectiveWords hp hpn) (blank_not_mem_objectiveWords hq hqn)
      (List.cons_ne_nil _ _) (List.cons_ne_nil _ _), hwords, objectiveSummands_eq_iff hp hq hpn hqn]
  constructor
  · rintro ⟨hdirection, ⟨hlinear, hkinds⟩, hquadratic, hpairs⟩
    exact ⟨hdirection, hlinear, hquadratic, hkinds, hpairs⟩
  · rintro ⟨hdirection, hlinear, hquadratic, hkinds, hpairs⟩
    exact ⟨hdirection, ⟨hlinear, hkinds⟩, hquadratic, hpairs⟩

end Lines
end Program

/-- As long as no variable is named, the line of a constraint tells its relation, its right-hand side, and the
variables, their kinds and the coefficients of its canonical terms, and the line of an objective tells its
direction and its linear and quadratic terms in this way. -/
theorem listed_lines_lossless {p q : Program} (hp : p.Reachable) (hq : q.Reachable) (hpn : p.Unnamed)
    (hqn : q.Unnamed) :
    (∀ id id' c d, p.getConstraint id = .ok c → q.getConstraint id' = .ok d →
      (p.listConstraint id = q.listConstraint id' ↔ p.SameRow q c d)) ∧
    (p.listObjective = q.listObjective ↔ p.SameObjective q) := by
  refine ⟨fun id id' c d hc hd => ?_, Program.listObjective_eq_iff hp.consistent hq.consistent hpn hqn⟩
  rw [← Program.constraintText_eq_iff hp.consistent hq.consistent hpn hqn
    (Array.mem_of_getElem? (Program.getConstraint_eq_ok.mp hc))
    (Array.mem_of_getElem? (Program.getConstraint_eq_ok.mp hd)), Program.listConstraint,
    Program.listConstraint, hc, hd]
  exact ⟨Except.ok.inj, congrArg _⟩

/-- A bool variable with an empty name, once by itself in the objective and once squared. -/
def Program.single : Program :=
  (Edit.runAll {} [.addBool, .nameVariable (.ofIndex 0) "", .addObjectiveTerm 1.0 (.ofIndex 0)]).2

def Program.squared : Program :=
  (Edit.runAll {} [.addBool, .addQuadraticTerm 1.0 (.ofIndex 0) (.ofIndex 0)]).2

theorem single_lines_lossless :
    Program.single.Reachable ∧ Program.squared.Reachable ∧ Program.single.Unnamed ∧ Program.squared.Unnamed ∧
      Program.single.listObjective ≠ Program.squared.listObjective := by
  have hunnamed : Program.single.Unnamed := by
    intro id name hname
    have htable : Program.single.variableNotes = Annotations.rename {} (.ofIndex 0) "" := rfl
    rw [Program.variableName?, htable, Annotations.name?_rename] at hname
    split_ifs at hname
    · exact (Option.some.inj hname).symm
    · cases hname
  have hunnamed' : Program.squared.Unnamed := fun _ _ hname => by cases hname
  refine ⟨Program.Reachable.empty.runAll _, Program.Reachable.empty.runAll _, hunnamed,
    hunnamed', fun h => ?_⟩
  have hsame := (listed_lines_lossless (Program.Reachable.empty.runAll _) (Program.Reachable.empty.runAll _)
    hunnamed hunnamed').2.mp h
  exact absurd hsame.linear (by decide)

end MixedProgram
