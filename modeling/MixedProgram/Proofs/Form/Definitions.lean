import MixedProgram.Proofs.Form.Canonical

/-! How many terms the keys of a form have.
Every term stands at one place and counts under its own key, so that the counts divide the terms among the
keys. Only an accepted term raises a count, and merging starts the counts anew. -/
namespace MixedProgram

/-- Pairs are the same when they have the same variables, in whichever order, and only then. -/
theorem VarPair.of_eq_of_iff {a b c d : VarId} :
    VarPair.of a b = VarPair.of c d ↔ (a = c ∧ b = d) ∨ (a = d ∧ b = c) := by
  constructor
  · intro h
    unfold VarPair.of at h
    split_ifs at h <;> simp_all
  · rintro (⟨rfl, rfl⟩ | ⟨rfl, rfl⟩)
    · rfl
    · exact VarPair.of_comm a b

/-- A sum and the number of its parts. -/
structure Tally where
  sum : Float
  parts : Nat

def Tally.add (t : Tally) (x : Float) : Tally := ⟨t.sum + x, t.parts + 1⟩

theorem Tally.foldl_add (xs : List Float) (t : Tally) :
    xs.foldl Tally.add t = ⟨xs.foldl (· + ·) t.sum, t.parts + xs.length⟩ := by
  induction xs generalizing t with
  | nil => rfl
  | cons x xs ih =>
    rw [List.foldl_cons, ih]
    simp only [add, List.foldl_cons, List.length_cons, Nat.add_assoc, Nat.add_comm 1]

namespace Form
variable {κ : Type}

section Counts
variable [DecidableEq κ]

def tally (f : Form κ) (key : κ) : Tally := ⟨f.total key, f.definitions key⟩

theorem definitions_append (f : Form κ) (t : Term κ) (key : κ) :
    (f.append t).definitions key = if t.key = key then f.definitions key + 1 else f.definitions key := by
  simp only [definitions, terms_append, Array.countP_push, decide_eq_true_eq]
  split_ifs <;> rfl

theorem tally_append (f : Form κ) (t : Term κ) (key : κ) :
    (f.append t).tally key = if t.key = key then (f.tally key).add t.coefficient else f.tally key := by
  rw [tally, total_append, definitions_append]
  split_ifs <;> rfl

/-- Sum and count of a key, read together in one pass. -/
def scan (f : Form κ) (key : κ) : Tally :=
  f.terms.foldl (fun tally t => if t.key = key then tally.add t.coefficient else tally) ⟨0.0, 0⟩

theorem scan_eq_tally (f : Form κ) (key : κ) : f.scan key = f.tally key := by
  induction f using append_induction with
  | empty => rfl
  | append f t ih =>
    rw [scan, terms_append, Array.foldl_push, tally_append, ← ih]
    rfl

theorem aggregate_eq_of_tally_eq {f g : Form κ} {key : κ} (h : f.tally key = g.tally key) :
    f.aggregate key = g.aggregate key := by
  obtain ⟨hsum, hparts⟩ := Tally.mk.inj h
  rw [aggregate, aggregate, hsum, hparts]

theorem total_of_definitions_eq_zero {f : Form κ} {key : κ} (h : f.definitions key = 0) :
    f.total key = 0.0 := by
  have hnone : f.terms.toList.filter (·.key = key) = [] := by
    simpa [definitions, Array.countP_eq_zero, List.filter_eq_nil_iff] using h
  rw [total_eq_foldl, hnone]
  rfl

/-- The keys that occur, each once. -/
def keys (f : Form κ) : List κ := (f.terms.toList.map (·.key)).dedup

theorem mem_keys_iff {f : Form κ} {key : κ} : key ∈ f.keys ↔ ∃ t ∈ f.terms, t.key = key := by
  simp [keys]

theorem length_keys_le (f : Form κ) : f.keys.length ≤ f.size := by
  simpa [keys, size] using (List.dedup_sublist (f.terms.toList.map (·.key))).length_le

theorem definitions_eq_count (f : Form κ) (key : κ) :
    f.definitions key = (f.terms.toList.map (·.key)).count key := by
  rw [definitions, ← Array.countP_toList, List.count, List.countP_map]
  rfl

theorem definitions_pos_iff {f : Form κ} {key : κ} : 0 < f.definitions key ↔ key ∈ f.keys := by
  rw [definitions_eq_count, List.count_pos_iff, keys, List.mem_dedup]

/-- Every term is counted under its key and under no other. -/
theorem sum_definitions (f : Form κ) : (f.keys.map f.definitions).sum = f.size := by
  have hcount : f.definitions = fun key => (f.terms.toList.map (·.key)).count key :=
    funext f.definitions_eq_count
  rw [hcount, keys, List.sum_map_count_dedup_eq_length]
  simp [size]

end Counts

section Places
variable [DecidableEq κ] {f : Form κ} {key : κ} {i : ℕ}

/-- The places of the terms that have a key. -/
def places (f : Form κ) (key : κ) : Finset ℕ :=
  (Finset.range f.size).filter fun i => f.terms[i]?.map (·.key) = some key

theorem mem_places_iff : i ∈ f.places key ↔ ∃ t, f.terms[i]? = some t ∧ t.key = key := by
  rw [places, Finset.mem_filter, Finset.mem_range, Option.map_eq_some_iff]
  refine and_iff_right_of_imp ?_
  rintro ⟨t, ht, -⟩
  exact (Array.getElem?_eq_some_iff.mp ht).1

theorem lt_size_of_mem_places (h : i ∈ f.places key) : i < f.size :=
  Finset.mem_range.mp (Finset.mem_of_mem_filter i h)

theorem size_notMem_places (f : Form κ) (key : κ) : f.size ∉ f.places key :=
  fun h => (lt_size_of_mem_places h).false

/-- Every place belongs to one key. -/
theorem lt_size_iff_existsUnique : i < f.size ↔ ∃! key, i ∈ f.places key := by
  constructor
  · intro h
    have hterm : f.terms[i]? = some f.terms[i] := Array.getElem?_eq_getElem h
    refine ⟨f.terms[i].key, mem_places_iff.mpr ⟨_, hterm, rfl⟩, fun key hkey => ?_⟩
    obtain ⟨t, ht, rfl⟩ := mem_places_iff.mp hkey
    rw [Option.some.inj (hterm.symm.trans ht)]
  · rintro ⟨key, hkey, -⟩
    exact lt_size_of_mem_places hkey

/-- A term that is added takes the next place, which belongs to its own key. -/
theorem places_append (f : Form κ) (t : Term κ) (key : κ) :
    (f.append t).places key = if t.key = key then insert f.size (f.places key) else f.places key := by
  ext i
  rw [mem_places_iff, terms_append, Array.getElem?_push]
  by_cases hi : i = f.terms.size
  · have hnew : f.terms.size ∉ f.places key := f.size_notMem_places key
    subst hi
    by_cases hkey : t.key = key <;> simp [hkey, hnew, size]
  · rw [if_neg hi, ← mem_places_iff]
    by_cases hkey : t.key = key <;> simp [hkey, hi, size]

/-- The places of a key are as many as its terms were counted. -/
theorem card_places (f : Form κ) (key : κ) : (f.places key).card = f.definitions key := by
  induction f using append_induction with
  | empty => rfl
  | append f t ih =>
    rw [places_append, definitions_append]
    split_ifs
    · rw [Finset.card_insert_of_notMem (f.size_notMem_places key), ih]
    · exact ih

end Places

section Merging
variable [DecidableEq κ] [Ord κ] [Std.TransOrd κ] [Std.LawfulEqOrd κ]

theorem mem_keys_of_mem_canonical {f : Form κ} {t : Term κ} (ht : t ∈ f.canonical) : t.key ∈ f.keys :=
  mem_keys_iff.mpr (exists_key_of_mem_canonical ht)

theorem length_canonical_le (f : Form κ) : f.canonical.length ≤ f.keys.length := by
  have hsubset : f.canonical.map (·.key) ⊆ f.keys := by
    intro key hkey
    obtain ⟨t, ht, rfl⟩ := List.mem_map.mp hkey
    exact mem_keys_of_mem_canonical ht
  simpa using ((nodup_keys_of_ascending f.canonical_ascending).subperm hsubset).length_le

/-- Merging leaves one term of a key, or none if they cancel. -/
theorem definitions_canonicalized (f : Form κ) (key : κ) :
    f.canonicalized.definitions key = if f.total key == 0.0 then 0 else 1 := by
  rw [definitions, canonicalized, List.countP_toArray, List.countP_eq_length_filter, filter_canonical]
  split_ifs <;> rfl

/-- The terms of a form are divided among its keys. -/
structure Divided (f : Form κ) : Prop where
  lt_size_iff : ∀ i, i < f.size ↔ ∃! key, i ∈ f.places key
  aggregate_eq : ∀ key, f.aggregate key = ⟨⟨key, (f.scan key).sum⟩, (f.scan key).parts⟩
  definitions_eq : ∀ key, (f.aggregate key).definitions = (f.places key).card
  nodup_keys : f.keys.Nodup
  mem_keys_iff : ∀ key, key ∈ f.keys ↔ ∃ t ∈ f.terms, t.key = key
  sum_definitions : (f.keys.map fun key => (f.aggregate key).definitions).sum = f.size
  definitions_pos : ∀ t ∈ f.canonical, 0 < (f.aggregate t.key).definitions
  length_canonical_le : f.canonical.length ≤ f.keys.length
  length_keys_le : f.keys.length ≤ f.size
  isEmpty_iff : f.isEmpty = true ↔ f.size = 0

theorem divided (f : Form κ) : f.Divided where
  lt_size_iff _ := lt_size_iff_existsUnique
  aggregate_eq key := by rw [scan_eq_tally, aggregate, tally]
  definitions_eq key := (f.card_places key).symm
  nodup_keys := List.nodup_dedup _
  mem_keys_iff _ := Form.mem_keys_iff
  sum_definitions := f.sum_definitions
  definitions_pos _ ht := definitions_pos_iff.mpr (mem_keys_of_mem_canonical ht)
  length_canonical_le := f.length_canonical_le
  length_keys_le := f.length_keys_le
  isEmpty_iff := by simp [isEmpty, size]

end Merging

section Offers

/-- Offers a term in place. An error does not take back what was changed before it. -/
def offer (x : Float) (key : κ) : ExceptT TermError (StateM (Form κ)) (Term κ) := do
  if x.isNaN then throw .nanCoefficient
  modify (·.append ⟨key, x⟩)
  return ⟨key, x⟩

theorem offer_of_not_isNaN (f : Form κ) {x : Float} (key : κ) (hx : x.isNaN = false) :
    offer x key f = (.ok ⟨key, x⟩, f.append ⟨key, x⟩) := by
  unfold offer
  rw [hx]
  rfl

theorem offer_of_isNaN (f : Form κ) {x : Float} (key : κ) (hx : x.isNaN = true) :
    offer x key f = (.error .nanCoefficient, f) := by
  unfold offer
  rw [hx]
  rfl

variable [DecidableEq κ]

/-- In place or not, an offer has one outcome and leaves one form. An accepted term counts once more under its
own key, and a refused one leaves the form as it was. -/
structure CountsOffer (f : Form κ) (x : Float) (key : κ) : Prop where
  in_place : offer x key f = match f.add x key with
    | .ok (t, g) => (.ok t, g)
    | .error cause => (.error cause, f)
  accepted : x.isNaN = false → (offer x key f).1 = .ok ⟨key, x⟩ ∧ (offer x key f).2.size = f.size + 1 ∧
    ∀ l, ((offer x key f).2.aggregate l).definitions =
      (f.aggregate l).definitions + if key = l then 1 else 0
  refused : x.isNaN = true → (offer x key f).1 = .error .nanCoefficient ∧ (offer x key f).2 = f

theorem countsOffer (f : Form κ) (x : Float) (key : κ) : f.CountsOffer x key where
  in_place := by
    unfold offer add Term.make
    cases x.isNaN <;> rfl
  accepted hx := by
    rw [f.offer_of_not_isNaN key hx]
    refine ⟨rfl, size_append .., fun l => ?_⟩
    simp only [aggregate, definitions_append]
    split_ifs <;> rfl
  refused hx := by
    rw [f.offer_of_isNaN key hx]
    exact ⟨rfl, rfl⟩

end Offers

section Histories

/-- What is done to a form: a term is offered to it, or its terms are merged. -/
inductive Change (κ : Type)
  | offer (coefficient : Float) (key : κ)
  | merge

/-- What a change makes of the tally of a key. Merging leaves the sum, in one part or in none. -/
def Change.tally [DecidableEq κ] (key : κ) (t : Tally) : Change κ → Tally
  | offer x l => if l = key ∧ x.isNaN = false then t.add x else t
  | merge => ⟨t.sum, if t.sum == 0.0 then 0 else 1⟩

variable [Ord κ]

def change (f : Form κ) : Change κ → Form κ
  | .offer x key => (offer x key f).2
  | .merge => f.canonicalized

/-- The form that a history of changes leaves. -/
def after (cs : List (Change κ)) : Form κ := cs.foldl change {}

variable [DecidableEq κ] [Std.TransOrd κ] [Std.LawfulEqOrd κ]

theorem tally_change (f : Form κ) (c : Change κ) (key : κ) :
    (f.change c).tally key = c.tally key (f.tally key) := by
  cases c with
  | offer x l =>
    cases hx : x.isNaN with
    | false => simp only [change, Change.tally, f.offer_of_not_isNaN l hx, tally_append, hx, and_true]
    | true => simp only [change, Change.tally, f.offer_of_isNaN l hx, hx, Bool.true_eq_false,
        and_false, if_false]
  | merge =>
    rw [change, tally, total_canonicalized, definitions_canonicalized]
    rfl

/-- A tally can be kept along the history of its form, without looking at the other keys. -/
theorem tally_after (cs : List (Change κ)) (key : κ) :
    (after cs).tally key = cs.foldl (Change.tally key) ⟨0.0, 0⟩ := by
  -- from the last change, because a merge looks at the whole sum before it
  induction cs using List.reverseRecOn with
  | nil => rfl
  | append_singleton cs c ih =>
    rw [after, List.foldl_concat, List.foldl_concat, tally_change, ← after, ih]

/-- What holds of the counts after a history and of the next offer. -/
structure Accounts (cs : List (Change κ)) : Prop where
  divided : (after cs).Divided
  countsOffer : ∀ x key, (after cs).CountsOffer x key
  definitions_eq : ∀ key, ((after cs).aggregate key).definitions =
    (cs.foldl (Change.tally key) ⟨0.0, 0⟩).parts

theorem accounts (cs : List (Change κ)) : Accounts cs where
  divided := (after cs).divided
  countsOffer := (after cs).countsOffer
  definitions_eq key := congrArg Tally.parts (tally_after cs key)

end Histories

/-- However a form has come about, the counts of its keys divide its terms, and they change with accepted
terms and by merging only. A product counts for its two variables in either order and for no other pair. -/
theorem definitions_divide_terms :
    (∀ cs : List (Change VarId), Accounts cs) ∧ (∀ cs : List (Change VarPair), Accounts cs) ∧
    ∀ (cs : List (Change VarPair)) (x : Float) (a b c d : VarId),
      ((offer x (.of a b) (after cs)).2.aggregate (.of c d)).definitions =
        ((after cs).aggregate (.of c d)).definitions
          + if x.isNaN = false ∧ (a = c ∧ b = d ∨ a = d ∧ b = c) then 1 else 0 := by
  refine ⟨accounts, accounts, fun cs x a b c d => ?_⟩
  have hcounts := (after cs).countsOffer x (.of a b)
  cases hx : x.isNaN with
  | false =>
    rw [(hcounts.accepted hx).2.2]
    simp only [VarPair.of_eq_of_iff, true_and]
  | true =>
    rw [(hcounts.refused hx).2]
    simp only [Bool.true_eq_false, false_and, if_false, Nat.add_zero]

/-- A product is added twice and refused once, merged, and added again with its variables exchanged. -/
example : (after [.offer 2.0 (.of (.ofIndex 1) (.ofIndex 0)), .offer 3.0 (.of (.ofIndex 1) (.ofIndex 0)),
      .offer (0.0 / 0.0) (.of (.ofIndex 1) (.ofIndex 0)), .merge, .offer 4.0 (.of (.ofIndex 0) (.ofIndex 1))]
      : QuadraticForm).definitions (.of (.ofIndex 0) (.ofIndex 1)) = 2 := by
  decide +kernel

end Form
end MixedProgram
