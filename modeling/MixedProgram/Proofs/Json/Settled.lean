import MixedProgram.Json.Printer
import Mathlib

/-! What compact JSON text keeps of a value.
A number that is not finite has the text of null and nothing else is lost; here the value that is left is
defined and seen to have the same text. -/
namespace MixedProgram.Json
open Number

section Settled

mutual

/-- The value with null for every number that has no JSON form. -/
def settled : Json → Json
  | null => null
  | bool b => bool b
  | int n => int n
  | float x => if (Value.ofFloat x).isFinite then float x else null
  | string s => string s
  | array items => array (settledItems items)
  | object fields => object (settledFields fields)

def settledItems : List Json → List Json
  | [] => []
  | j :: rest => j.settled :: settledItems rest

def settledFields : List (String × Json) → List (String × Json)
  | [] => []
  | (name, j) :: rest => (name, j.settled) :: settledFields rest

end

theorem settledItems_eq (items : List Json) : settledItems items = items.map settled := by
  induction items with
  | nil => rfl
  | cons j rest ih => rw [settledItems, ih, List.map_cons]

theorem settledFields_eq (fields : List (String × Json)) :
    settledFields fields = fields.map fun f => (f.1, f.2.settled) := by
  induction fields with
  | nil => rfl
  | cons f rest ih => rw [settledFields, ih, List.map_cons]

end Settled

/-- A property of all values, by the parts of which they consist. -/
theorem induction_on_parts {P : Json → Prop} (null : P null) (bool : ∀ b, P (bool b))
    (int : ∀ n, P (int n)) (float : ∀ x, P (float x)) (string : ∀ s, P (string s))
    (array : ∀ items, (∀ j ∈ items, P j) → P (array items))
    (object : ∀ fields, (∀ f ∈ fields, P f.2) → P (object fields)) (j : Json) : P j :=
  @Json.rec P (fun items => ∀ j ∈ items, P j) (fun fields => ∀ f ∈ fields, P f.2) (fun f => P f.2)
    null bool int float string array object (fun _ h => absurd h List.not_mem_nil)
    (fun _ _ hj hrest => List.forall_mem_cons.mpr ⟨hj, hrest⟩) (fun _ h => absurd h List.not_mem_nil)
    (fun _ _ hf hrest => List.forall_mem_cons.mpr ⟨hf, hrest⟩) (fun _ _ hj => hj) j

section Separated

/-- Texts with commas between them. -/
def separated {α : Type} (text : α → List Char) : List α → List Char
  | [] => []
  | x :: xs => text x ++ xs.flatMap fun y => ',' :: text y

theorem compactItems_eq (items : List Json) : compactItems items = separated compactChars items := by
  induction items with
  | nil => rfl
  | cons j rest ih => cases rest with
    | nil => simp [compactItems, separated]
    | cons k rest =>
      rw [compactItems, ih, separated, separated, List.flatMap_cons, List.cons_append]
      simp

def fieldChars (f : String × Json) : List Char := quoted f.1 ++ ':' :: compactChars f.2

theorem compactFields_eq (fields : List (String × Json)) :
    compactFields fields = separated fieldChars fields := by
  induction fields with
  | nil => rfl
  | cons f rest ih => cases rest with
    | nil => simp [compactFields, separated, fieldChars]
    | cons g rest =>
      rw [compactFields, ih, separated, separated, List.flatMap_cons, List.cons_append]
      · simp [fieldChars]
      · simp

theorem separated_map {α β : Type} {f : α → β} {text : β → List Char} {text' : α → List Char}
    {xs : List α} (h : ∀ x ∈ xs, text (f x) = text' x) :
    separated text (xs.map f) = separated text' xs := by
  cases xs with
  | nil => rfl
  | cons x xs =>
    rw [List.forall_mem_cons] at h
    rw [List.map_cons, separated, separated, h.1, List.flatMap_map]
    exact congrArg _ (List.flatMap_congr fun y hy => congrArg _ (h.2 y hy))

end Separated

section Text
variable {x : Float} {negative : Bool} {m : ℕ} {e : ℤ}

theorem floatChars_of_finite (h : Value.ofFloat x = .finite negative m e) :
    floatChars x = numberLayout.finite negative m e := by
  rw [floatChars, h]

theorem floatChars_of_not_finite (h : (Value.ofFloat x).isFinite = false) : floatChars x = "null".toList := by
  unfold floatChars
  split
  case h_1 hx => simp [hx, Value.isFinite] at h
  case h_2 => rfl

theorem compactChars_settled (j : Json) : compactChars j.settled = compactChars j := by
  induction j using induction_on_parts with
  | float x =>
    rw [settled]
    split_ifs with h
    · rfl
    · exact (floatChars_of_not_finite (by simpa using h)).symm
  | array items ih =>
    rw [settled, compactChars, compactChars, compactItems_eq, compactItems_eq, settledItems_eq,
      separated_map ih]
  | object fields ih =>
    have hfields : ∀ f ∈ fields, fieldChars (f.1, f.2.settled) = fieldChars f := by
      intro f hf
      rw [fieldChars, fieldChars, ih f hf]
    rw [settled, compactChars, compactChars, compactFields_eq, compactFields_eq, settledFields_eq,
      separated_map hfields]
  | _ => rfl

end Text

end MixedProgram.Json
