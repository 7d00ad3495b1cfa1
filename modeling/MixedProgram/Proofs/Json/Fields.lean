import MixedProgram.Proofs.Json.Settled

/-! Values compared by their parts.
Objects whose fields have the same names in the same order say the same just when their fields do, numbers
that are not finite counted as one. -/
namespace MixedProgram

section Lists
variable {α β γ : Type} {f : α → β} {g : α → γ}

theorem map_eq_map_iff_of (h : ∀ x y, f x = f y ↔ g x = g y) (xs ys : List α) :
    xs.map f = ys.map f ↔ xs.map g = ys.map g := by
  induction xs generalizing ys with
  | nil => cases ys <;> simp
  | cons x xs ih =>
    cases ys with
    | nil => simp
    | cons y ys => simp [h, ih]

theorem optionMap_eq_optionMap_iff_of (h : ∀ x y, f x = f y ↔ g x = g y) (a b : Option α) :
    a.map f = b.map f ↔ a.map g = b.map g := by
  cases a <;> cases b <;> simp [h]

end Lists

/-- The number, or NaN for any that is not finite. -/
def Number.settled (x : Float) : Float := if (Number.Value.ofFloat x).isFinite then x else 0.0 / 0.0

example : Number.settled 0.0 ≠ Number.settled (-0.0) := by decide
example : Number.settled (1.0 / 0.0) = Number.settled (-1.0 / 0.0) := by decide

namespace Json

theorem settled_object (fields : List (String × Json)) :
    (object fields).settled = object (fields.map fun f => (f.1, f.2.settled)) := by
  rw [settled, settledFields_eq]

theorem settled_array (items : List Json) : (array items).settled = array (items.map settled) := by
  rw [settled, settledItems_eq]

/-- Objects that start with the same field are compared field by field. -/
theorem settled_cons_iff {name : String} {j k : Json} {fields fields' : List (String × Json)} :
    (object ((name, j) :: fields)).settled = (object ((name, k) :: fields')).settled ↔
      j.settled = k.settled ∧ (object fields).settled = (object fields').settled := by
  simp [settled_object]

theorem settled_string_iff {a b : String} : (string a).settled = (string b).settled ↔ a = b := by
  simp [settled]

theorem settled_int_iff {a b : ℤ} : (int a).settled = (int b).settled ↔ a = b := by
  simp [settled]

theorem settled_float_iff {x y : Float} :
    (float x).settled = (float y).settled ↔ Number.settled x = Number.settled y := by
  have hnan : (Number.Value.ofFloat (0.0 / 0.0)).isFinite = false := by decide
  have hne : ∀ {z : Float}, (Number.Value.ofFloat z).isFinite = true → z ≠ 0.0 / 0.0 := by
    rintro _ hz rfl
    rw [hnan] at hz
    cases hz
  rw [settled, settled, Number.settled, Number.settled]
  split_ifs with hx hy hy
  · simp
  · simp [hne hx]
  · simp [(hne hy).symm]
  · simp

theorem settled_list_iff {α β : Type} {f : α → Json} {g : α → β}
    (h : ∀ x y, (f x).settled = (f y).settled ↔ g x = g y) (xs ys : List α) :
    (array (xs.map f)).settled = (array (ys.map f)).settled ↔ xs.map g = ys.map g := by
  simp only [settled_array, List.map_map, array.injEq]
  exact map_eq_map_iff_of h xs ys

/-- A part that may be missing is null then, and nothing else is. -/
theorem settled_elim_iff {α : Type} {f : α → Json} (hnull : ∀ x, (f x).settled ≠ null)
    (h : ∀ x y, (f x).settled = (f y).settled ↔ x = y) {a b : Option α} :
    (a.elim null f).settled = (b.elim null f).settled ↔ a = b := by
  cases a with
  | none =>
    cases b with
    | none => exact iff_of_true rfl rfl
    | some y => exact iff_of_false (hnull y).symm nofun
  | some x =>
    cases b with
    | none => exact iff_of_false (hnull x) nofun
    | some y => exact (h x y).trans Option.some_inj.symm

end Json
end MixedProgram
