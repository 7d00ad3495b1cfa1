import MixedProgram.Bench.Workload
import MixedProgram.Proofs.Number.Positive
import MixedProgram.Proofs.Program.TermCount

/-! The program of a benchmark case.
Variables are numbered from zero and dealt out to the rows in turn, so that every variable has one row.
Each pass adds every term once; after all passes a key that has terms has as many as there were passes. -/
namespace MixedProgram

namespace Edit
variable {p : Program} {es fs : List Edit}

/-- The program after all edits, unless one of them is refused. -/
def applyAll (p : Program) (es : List Edit) : Except ProgramError Program :=
  es.foldlM (fun p e => (e.apply p).map (·.2)) p

theorem applyAll_append : applyAll p (es ++ fs) = applyAll p es >>= fun q => applyAll q fs :=
  List.foldlM_append

theorem Additions.applyAll_eq (h : Additions p es) : applyAll p es = .ok (runAll p es).2 := by
  induction es generalizing p with
  | nil => rfl
  | cons e es ih =>
    obtain ⟨r, hr⟩ := accepted_run_iff.mp (h.accepted _ List.mem_cons_self)
    have hrun : (e.run p).2 = r.2 := by simp only [run, hr]
    rw [runAll_cons, ← ih h.tail, hrun, applyAll, List.foldlM_cons, hr]
    rfl

theorem addedTo_append (s : Slot) (es fs : List Edit) :
    addedTo s (es ++ fs) = addedTo s es ++ addedTo s fs := by
  simp [addedTo]

theorem addedTo_flatMap {α : Type} (s : Slot) (xs : List α) (f : α → List Edit) :
    addedTo s (xs.flatMap f) = xs.flatMap fun x => addedTo s (f x) := by
  simp [addedTo, List.filter_flatMap, List.map_flatMap]

theorem addedTo_singleton (s : Slot) (e : Edit) :
    addedTo s [e] = if e.slot? = some s then [e.coefficient] else [] := by
  by_cases h : e.slot? = some s <;> simp [addedTo, h]

end Edit

namespace Bench.Workload
open Edit

section Loops
variable {act : Program → Nat → Except ProgramError Program} {p : Program}

theorem each_zero : each 0 act p = .ok p := rfl

theorem each_succ (n : Nat) : each (n + 1) act p = each n act p >>= fun q => act q n := by
  simp [each, List.range_succ]

/-- A loop of edits is one list of edits. -/
theorem each_eq_applyAll {edits : Nat → List Edit} (h : ∀ q i, act q i = applyAll q (edits i)) (n : Nat) :
    each n act p = applyAll p ((List.range n).flatMap edits) := by
  induction n with
  | zero => rfl
  | succ n ih =>
    rw [each_succ, ih, List.range_succ, List.flatMap_append, applyAll_append]
    simp [h]

theorem passes_eq_applyAll {edits : Nat → List Edit} (h : ∀ q i, act q i = applyAll q (edits i))
    (times n : Nat) :
    passes times n act p =
      applyAll p ((List.range times).flatMap fun _ => (List.range n).flatMap edits) :=
  each_eq_applyAll (fun _ _ => each_eq_applyAll h n) times

/-- Only one turn of a loop contributes. -/
theorem flatMap_range_ite {α : Type} (n k : Nat) (xs : List α) :
    ((List.range n).flatMap fun i => if i = k then xs else []) = if k < n then xs else [] := by
  induction n with
  | zero => rfl
  | succ n ih =>
    rw [List.range_succ, List.flatMap_append, ih, List.flatMap_singleton]
    by_cases hlt : k < n
    · simp [hlt, hlt.ne', Nat.lt_succ_of_lt hlt]
    · by_cases heq : n = k
      · simp [heq]
      · simp [hlt, heq, show ¬ k < n + 1 by omega]

theorem flatMap_range_const {α : Type} (n : Nat) (x : α) :
    ((List.range n).flatMap fun _ => [x]) = List.replicate n x := by
  induction n with
  | zero => rfl
  | succ n ih => rw [List.range_succ, List.flatMap_append, ih, List.replicate_succ']; rfl

end Loops

section Entities

def domain (i : Nat) : Domain :=
  match i % 3 with
  | 0 => .float 0.0 1000.0
  | 1 => .int 0 100
  | _ => .bool

theorem addVariable_eq (p : Program) (i : Nat) : addVariable p i = .ok (p.addVariable (domain i)).2 := by
  have hlower : (0.0 : Float).isNaN = false := by decide
  have hupper : (1000.0 : Float).isNaN = false := by decide
  unfold addVariable domain
  rcases i % 3 with _ | _ | k
  · simp only [Program.addFloat, hlower, hupper]
    rfl
  · rfl
  · rfl

/-- A number of variables and rows, still without terms. -/
def skeleton (n rows : Nat) : Program where
  vars := (Array.range n).map fun i => ⟨.ofIndex i, domain i⟩
  constraints := (Array.range rows).map fun j => ⟨.ofIndex j, .lessEqual, 10000.0, {}⟩

theorem each_addVariable (n : Nat) : each n addVariable {} = .ok (skeleton n 0) := by
  induction n with
  | zero => simp [each_zero, skeleton]
  | succ n ih =>
    rw [each_succ, ih]
    change addVariable (skeleton n 0) n = _
    rw [addVariable_eq]
    simp [Program.addVariable, skeleton, Array.range_succ]

theorem each_addRow (n rows : Nat) : each rows addRow (skeleton n 0) = .ok (skeleton n rows) := by
  have hrhs : (10000.0 : Float).isNaN = false := by decide
  induction rows with
  | zero => rfl
  | succ rows ih =>
    rw [each_succ, ih]
    change addRow (skeleton n rows) rows = _
    simp only [addRow, Program.addConstraint, hrhs]
    simp [skeleton, Array.range_succ, Except.map]

end Entities

/-- The sizes at which every variable and every row has an identity of its own, and there is a row. -/
structure Buildable (n rows : Nat) : Prop where
  vars_le : n ≤ UInt32.size
  rows_pos : 0 < rows
  rows_le : rows ≤ UInt32.size

section Terms
variable (quadratic : Bool) (n rows times : Nat)

def rowTerm (i : Nat) : Edit := .addConstraintTerm (.ofIndex (i % rows)) 1.0 (.ofIndex i)

def costTerms (i : Nat) : List Edit :=
  .addObjectiveTerm (Float.ofNat (i % 7 + 1)) (.ofIndex i)
    :: if quadratic then [.addQuadraticTerm 0.5 (.ofIndex i) (.ofIndex i)] else []

theorem addRowTerm_eq (p : Program) (i : Nat) : addRowTerm rows p i = applyAll p [rowTerm rows i] := by
  simp only [addRowTerm, rowTerm, applyAll, List.foldlM_cons, List.foldlM_nil, Edit.apply]
  cases p.addConstraintTerm (.ofIndex (i % rows)) 1.0 (.ofIndex i) <;> rfl

theorem addCost_eq (p : Program) (i : Nat) : addCost quadratic p i = applyAll p (costTerms quadratic i) := by
  simp only [addCost, costTerms, applyAll, List.foldlM_cons, Edit.apply]
  cases p.addObjectiveTerm (Float.ofNat (i % 7 + 1)) (.ofIndex i) with
  | error _ => rfl
  | ok r =>
    cases quadratic with
    | false => rfl
    | true =>
      change (r.2.addQuadraticTerm 0.5 (.ofIndex i) (.ofIndex i)).map (·.2) = _
      cases hq : r.2.addQuadraticTerm 0.5 (.ofIndex i) (.ofIndex i) <;>
        simp [Except.map, bind, Except.bind, hq]
      rfl

/-- The terms of all passes: first those of the rows, then those of the objective. -/
def rowTerms : List Edit :=
  (List.range times).flatMap fun _ => (List.range n).flatMap fun i => [rowTerm rows i]

def objectiveTerms : List Edit :=
  (List.range times).flatMap fun _ => (List.range n).flatMap (costTerms quadratic)

/-- What one pass adds to a slot. -/
def weight? : Slot → Option Float
  | .constraint place var => if var.index < n ∧ var.index % rows = place then some 1.0 else none
  | .linear var => if var.index < n then some (Float.ofNat (var.index % 7 + 1)) else none
  | .quadratic pair => if quadratic ∧ pair.isSquare ∧ pair.first.index < n then some 0.5 else none


variable {n rows}

theorem index_eq_iff {i : Nat} (hi : i < UInt32.size) {var : VarId} : .ofIndex i = var ↔ i = var.index := by
  constructor
  · rintro rfl
    rw [EntityId.index_ofIndex hi]
  · rintro rfl
    exact var.ofIndex_index

theorem addedTo_rowTerms_pass (hsizes : Buildable n rows) (s : Slot) :
    addedTo s ((List.range n).flatMap fun i => [rowTerm rows i]) =
      match s with
      | .constraint .. => (weight? quadratic n rows s).toList
      | _ => [] := by
  have hplace : ∀ i, (EntityId.ofIndex (i % rows) : ConId).index = i % rows := fun i =>
    EntityId.index_ofIndex ((Nat.mod_lt i hsizes.rows_pos).trans_le hsizes.rows_le)
  simp only [addedTo_flatMap, addedTo_singleton]
  cases s with
  | constraint place var =>
    have hturn : ∀ i ∈ List.range n, (if (rowTerm rows i).slot? = some (.constraint place var) then
        [(rowTerm rows i).coefficient] else []) =
        if i = var.index then (if var.index % rows = place then [1.0] else []) else [] := by
      intro i hi
      have hlt : i < UInt32.size := (List.mem_range.mp hi).trans_le hsizes.vars_le
      simp only [rowTerm, slot?, hplace, Option.some.injEq, Slot.constraint.injEq,
        index_eq_iff hlt, coefficient]
      by_cases h : i = var.index <;> simp [h]
    rw [List.flatMap_congr hturn, flatMap_range_ite, weight?]
    by_cases h : var.index < n <;> by_cases h' : var.index % rows = place <;> simp [h, h']
  | _ => simp [rowTerm, slot?]

/-- A pair that is made of one variable is its square. -/
theorem of_self_eq_iff {a : VarId} {pair : VarPair} :
    VarPair.of a a = pair ↔ pair.isSquare = true ∧ a = pair.first := by
  rw [VarPair.isSquare, beq_iff_eq]
  constructor
  · rintro rfl
    unfold VarPair.of
    split_ifs <;> exact ⟨rfl, rfl⟩
  · rintro ⟨hsquare, rfl⟩
    conv_lhs => arg 2; rw [hsquare]
    exact pair.of_first_second

theorem addedTo_costTerms {i : Nat} (hi : i < UInt32.size) (s : Slot) :
    addedTo s (costTerms quadratic i) =
      match s with
      | .constraint .. => []
      | .linear var => if i = var.index then [Float.ofNat (i % 7 + 1)] else []
      | .quadratic pair =>
        if i = pair.first.index then (if quadratic ∧ pair.isSquare then [0.5] else []) else [] := by
  rw [costTerms, ← List.singleton_append, addedTo_append, addedTo_singleton]
  cases s with
  | constraint place var => cases quadratic <;> simp [addedTo, slot?]
  | linear var =>
    simp only [slot?, Option.some.injEq, Slot.linear.injEq, index_eq_iff hi, coefficient]
    cases quadratic <;> simp [addedTo, slot?]
  | quadratic pair =>
    cases quadratic
    · simp [addedTo, slot?]
    · simp only [if_true, addedTo_singleton, slot?, Option.some.injEq, Slot.quadratic.injEq, of_self_eq_iff,
        index_eq_iff hi]
      by_cases h : i = pair.first.index <;> simp [coefficient, h]

variable (rows) in
theorem addedTo_costTerms_pass (hn : n ≤ UInt32.size) (s : Slot) :
    addedTo s ((List.range n).flatMap (costTerms quadratic)) =
      match s with
      | .constraint .. => []
      | _ => (weight? quadratic n rows s).toList := by
  rw [addedTo_flatMap, List.flatMap_congr fun i hi =>
    addedTo_costTerms quadratic ((List.mem_range.mp hi).trans_le hn) s]
  cases s with
  | constraint place var => simp
  | linear var =>
    have hturn : ∀ i ∈ List.range n, (if i = var.index then [Float.ofNat (i % 7 + 1)] else []) =
        if i = var.index then [Float.ofNat (var.index % 7 + 1)] else [] := by
      intro i _
      split_ifs with h <;> simp [h]
    rw [List.flatMap_congr hturn, flatMap_range_ite, weight?]
    by_cases h : var.index < n <;> simp [h]
  | quadratic pair =>
    rw [flatMap_range_ite, weight?]
    by_cases h : pair.first.index < n <;> by_cases h' : pair.isSquare = true <;>
      cases quadratic <;> simp [h, h']

/-- All passes together add the weight of a slot as often as there are passes. -/
theorem addedTo_passes (hsizes : Buildable n rows) (s : Slot) :
    addedTo s (rowTerms n rows times ++ objectiveTerms quadratic n times) =
      (weight? quadratic n rows s).elim [] (List.replicate times) := by
  have hrepeat : ∀ xs : Option Float,
      (List.range times).flatMap (fun _ => xs.toList) = xs.elim [] (List.replicate times) := by
    rintro (_ | x)
    · simp
    · exact flatMap_range_const times x
  rw [addedTo_append, rowTerms, objectiveTerms, addedTo_flatMap s (List.range times),
    addedTo_flatMap s (List.range times)]
  rw [addedTo_rowTerms_pass quadratic hsizes, addedTo_costTerms_pass quadratic rows hsizes.vars_le]
  cases s <;> simp [hrepeat]

theorem isPositive_cost (i : Nat) : Number.isPositive (Float.ofNat (i % 7 + 1)) = true := by
  have hlt : i % 7 < 7 := Nat.mod_lt _ (by decide)
  interval_cases i % 7 <;> decide

theorem isPositive_weight {s : Slot} {x : Float} (h : weight? quadratic n rows s = some x) :
    Number.isPositive x = true := by
  cases s with
  | constraint =>
    obtain ⟨-, rfl⟩ : _ ∧ 1.0 = x := by simpa [weight?] using h
    decide
  | linear var =>
    obtain ⟨-, rfl⟩ : _ ∧ Float.ofNat (var.index % 7 + 1) = x := by simpa [weight?] using h
    exact isPositive_cost var.index
  | quadratic =>
    obtain ⟨-, rfl⟩ : _ ∧ 0.5 = x := by simpa [weight?] using h
    decide

end Terms

section Built
variable (quadratic : Bool) (times : Nat)

/-- The program with the terms of all passes. -/
def built (n rows : Nat) : Program :=
  (runAll (skeleton n rows) (rowTerms n rows times ++ objectiveTerms quadratic n times)).2

variable {n rows : Nat} (hrows : 0 < rows)
include hrows

/-- Beyond the range of the identities they wrap around, and still name what there is. -/
theorem additions_terms :
    Additions (skeleton n rows) (rowTerms n rows times ++ objectiveTerms quadratic n times) := by
  have hvar : ∀ {i}, i ∈ List.range n → (skeleton n rows).hasVariable (.ofIndex i) = true := by
    intro i hi
    have hlt := List.mem_range.mp hi
    simpa [Program.hasVariable, skeleton] using (EntityId.index_ofIndex_le i).trans_lt hlt
  have hcon : ∀ i, (skeleton n rows).hasConstraint (.ofIndex (i % rows)) = true := by
    intro i
    simpa [Program.hasConstraint, skeleton] using
      (EntityId.index_ofIndex_le (i % rows)).trans_lt (Nat.mod_lt i hrows)
  have hone : (1.0 : Float).isNaN = false := by decide
  have hhalf : (0.5 : Float).isNaN = false := by decide
  intro e he
  rcases List.mem_append.mp he with he | he
  · obtain ⟨_, -, he⟩ := List.mem_flatMap.mp he
    obtain ⟨i, hi, he⟩ := List.mem_flatMap.mp he
    obtain rfl := List.mem_singleton.mp he
    exact ⟨.constraint _ _ _ (hvar hi) (hcon i), hone⟩
  · obtain ⟨_, -, he⟩ := List.mem_flatMap.mp he
    obtain ⟨i, hi, he⟩ := List.mem_flatMap.mp he
    rcases List.mem_cons.mp he with rfl | he
    · exact ⟨.linear _ _ (hvar hi), Number.isNaN_of_isPositive (isPositive_cost i)⟩
    · cases quadratic with
      | false => cases he
      | true =>
        obtain rfl := List.mem_singleton.mp he
        exact ⟨.quadratic _ _ _ (hvar hi) (hvar hi), hhalf⟩

theorem passes_eq_built :
    (passes times n (addRowTerm rows) (skeleton n rows) >>= fun p => passes times n (addCost quadratic) p) =
      .ok (built quadratic times n rows) := by
  simp only [passes_eq_applyAll (addRowTerm_eq rows), passes_eq_applyAll (addCost_eq quadratic)]
  exact applyAll_append.symm.trans (additions_terms quadratic times hrows).applyAll_eq

theorem sameFrame_built : (skeleton n rows).SameFrame (built quadratic times n rows) :=
  (additions_terms quadratic times hrows).sameFrame

theorem size_vars_built : (built quadratic times n rows).vars.size = n := by
  rw [← (sameFrame_built quadratic times hrows).vars]
  simp [skeleton]

theorem size_constraints_built : (built quadratic times n rows).constraints.size = rows := by
  rw [← (sameFrame_built quadratic times hrows).sameShape.2]
  simp [skeleton]

theorem rawTermCount_built :
    (built quadratic times n rows).rawTermCount = times * n * (2 + quadratic.toNat) := by
  have hempty : (skeleton n rows).rawTermCount = 0 := by
    simp [Program.rawTermCount_eq, skeleton, Form.size, Function.comp_def]
  rw [built, (additions_terms quadratic times hrows).rawTermCount_runAll, hempty]
  cases quadratic <;> simp [rowTerms, objectiveTerms, costTerms] <;> ring

variable (hsizes : Buildable n rows)
omit hrows
include hsizes

/-- Every slot of a row there is, and of the objective, has its weight once for each pass. -/
theorem tally?_built {s : Slot} {t : MixedProgram.Tally}
    (h : (built quadratic times n rows).tally? s = some t) :
    t = ((weight? quadratic n rows s).elim [] (List.replicate times)).foldl
      MixedProgram.Tally.add ⟨0.0, 0⟩ := by
  have hempty : ∀ u, (skeleton n rows).tally? s = some u → u = ⟨0.0, 0⟩ := by
    intro u hu
    cases s with
    | constraint place var =>
      obtain ⟨c, hc, rfl⟩ := Option.map_eq_some_iff.mp hu
      obtain ⟨-, rfl⟩ : _ ∧ (_ : Constraint) = c := by simpa [skeleton, Array.getElem?_eq_some_iff] using hc
      rfl
    | _ => exact (Option.some.inj hu).symm
  rw [built, (additions_terms quadratic times hsizes.rows_pos).tally?_runAll,
    addedTo_passes quadratic times hsizes] at h
  obtain ⟨u, hu, rfl⟩ := Option.map_eq_some_iff.mp h
  rw [hempty u hu]

variable {κ : Type} [DecidableEq κ] in
/-- Just the keys with a weight occur, and their weights do not cancel. -/
theorem occurring_built {f : Form κ} (slot : κ → Slot) {occurs : κ → Prop}
    (htally : ∀ key, (built quadratic times n rows).tally? (slot key) = some (f.tally key))
    (hweight : ∀ key, (weight? quadratic n rows (slot key)).isSome = true ↔ occurs key)
    (htimes : 0 < times) : f.Occurring occurs times := by
  have hsum := fun key => tally?_built quadratic times hsizes (htally key)
  simp only [MixedProgram.Tally.foldl_add, Form.tally, MixedProgram.Tally.mk.injEq] at hsum
  constructor
  case definitions =>
    intro key hkey
    obtain ⟨x, hx⟩ := Option.isSome_iff_exists.mp ((hweight key).mpr hkey)
    simp [(hsum key).2, hx]
  case total =>
    intro key hkey
    obtain ⟨x, hx⟩ := Option.isSome_iff_exists.mp ((hweight key).mpr hkey)
    rw [(hsum key).1, hx]
    exact Number.beq_zero_of_isPositive
      (Number.isPositive_foldl_replicate (isPositive_weight quadratic hx) htimes)
  case absent =>
    intro key hkey
    rw [← hweight, Option.not_isSome_iff_eq_none] at hkey
    simp [(hsum key).2, hkey]

variable (htimes : 0 < times)
include htimes

theorem occurring_row {c : Constraint} {place : Nat}
    (hc : (built quadratic times n rows).constraints[place]? = some c) :
    c.form.Occurring (fun var => var.index < n ∧ var.index % rows = place) times :=
  occurring_built quadratic times hsizes (.constraint place)
    (fun var => by simp [Program.tally?, hc]) (fun var => by simp [weight?]) htimes

theorem occurring_linear :
    (built quadratic times n rows).objective.linear.Occurring (·.index < n) times :=
  occurring_built quadratic times hsizes .linear (fun _ => rfl)
    (fun var => by simp [weight?]) htimes

theorem occurring_quadratic :
    (built quadratic times n rows).objective.quadratic.Occurring
      (fun pair => quadratic = true ∧ pair.isSquare = true ∧ pair.first.index < n) times :=
  occurring_built quadratic times hsizes .quadratic (fun _ => rfl)
    (fun pair => by simp [weight?]) htimes

end Built

section Counts

/-- Each number has one remainder. -/
theorem sum_length_filter_mod {rows : Nat} (hrows : 0 < rows) (n : Nat) :
    ((List.range rows).map fun j => ((List.range n).filter (· % rows = j)).length).sum = n := by
  have hmod : ∀ i ∈ Finset.range n, i % rows ∈ Finset.range rows := fun i _ =>
    Finset.mem_range.mpr (Nat.mod_lt i hrows)
  exact (Finset.card_eq_sum_card_fiberwise hmod).symm.trans (Finset.card_range n)

section Keys
variable {n : Nat} (hn : n ≤ UInt32.size) (keep : Nat → Bool)
include hn

theorem mem_keys (var : VarId) :
    var ∈ ((List.range n).filter keep).map EntityId.ofIndex ↔ var.index < n ∧ keep var.index = true := by
  simp only [List.mem_map, List.mem_filter, List.mem_range]
  constructor
  · rintro ⟨i, hi, hvar⟩
    rwa [← (index_eq_iff (hi.1.trans_le hn)).mp hvar]
  · exact fun h => ⟨var.index, h, var.ofIndex_index⟩

theorem nodup_keys : (((List.range n).filter keep).map (EntityId.ofIndex : Nat → VarId)).Nodup := by
  refine (List.nodup_map_iff_inj_on (List.nodup_range.filter keep)).mpr fun i hi j hj heq => ?_
  have hlt : ∀ k ∈ (List.range n).filter keep, k < UInt32.size := fun k hk =>
    (List.mem_range.mp (List.mem_of_mem_filter hk)).trans_le hn
  rw [(index_eq_iff (hlt i hi)).mp heq, EntityId.index_ofIndex (hlt j hj)]

end Keys

variable (quadratic : Bool) (times : Nat) {n rows : Nat}
variable (hsizes : Buildable n rows) (htimes : 0 < times)
include hsizes htimes

theorem length_canonical_row {c : Constraint} {place : Nat}
    (hc : (built quadratic times n rows).constraints[place]? = some c) :
    c.form.canonical.length = ((List.range n).filter (· % rows = place)).length := by
  have hlength := (occurring_row quadratic times hsizes htimes hc).length_canonical
    (nodup_keys hsizes.vars_le (· % rows = place)) fun var => by
      rw [mem_keys hsizes.vars_le, decide_eq_true_eq]
  simpa using hlength

theorem length_canonical_linear :
    (built quadratic times n rows).objective.linear.canonical.length = n := by
  have hlength := (occurring_linear quadratic times hsizes htimes).length_canonical
    (nodup_keys hsizes.vars_le fun _ => true) fun var => by rw [mem_keys hsizes.vars_le, and_iff_left rfl]
  simpa using hlength

theorem length_canonical_quadratic :
    (built quadratic times n rows).objective.quadratic.canonical.length = n * quadratic.toNat := by
  have hinj : Function.Injective fun a : VarId => VarPair.of a a := fun a b heq =>
    (of_self_eq_iff.mp heq).2.trans (of_self_eq_iff.mp rfl).2.symm
  have hlength := (occurring_quadratic quadratic times hsizes htimes).length_canonical
    ((nodup_keys hsizes.vars_le fun _ => quadratic).map hinj) fun pair => ?_
  · cases quadratic <;> simpa using hlength
  · rw [List.mem_map (f := fun a => VarPair.of a a)]
    simp only [mem_keys hsizes.vars_le, of_self_eq_iff]
    constructor
    · rintro ⟨a, ⟨hlt, hq⟩, hsquare, rfl⟩
      exact ⟨hq, hsquare, hlt⟩
    · rintro ⟨hq, hsquare, hlt⟩
      exact ⟨pair.first, ⟨hlt, hq⟩, hsquare, rfl⟩

theorem canonicalTermCount_built :
    (built quadratic times n rows).canonicalTermCount = n * (2 + quadratic.toNat) := by
  have hrow : (built quadratic times n rows).constraints.toList.map (·.form.canonical.length) =
      (List.range rows).map fun j => ((List.range n).filter (· % rows = j)).length := by
    refine List.ext_getElem ?_ fun j hj _ => ?_
    · simp [size_constraints_built quadratic times hsizes.rows_pos]
    · rw [List.length_map, Array.length_toList] at hj
      simpa using length_canonical_row quadratic times hsizes htimes
        (Array.getElem?_eq_getElem hj)
  rw [Program.canonicalTermCount_eq, hrow, sum_length_filter_mod hsizes.rows_pos,
    length_canonical_linear quadratic times hsizes htimes,
    length_canonical_quadratic quadratic times hsizes htimes]
  ring

end Counts

end Bench.Workload
end MixedProgram
