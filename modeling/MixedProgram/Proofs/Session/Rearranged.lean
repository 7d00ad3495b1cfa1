import MixedProgram.Proofs.Program.Slot

/-! The order of additions.
Sums of binary numbers depend on their order, but only within one slot: additions to different slots may
change places, and the two variables of a product may be given in either order. -/
namespace MixedProgram

namespace Edit
variable {p : Program} {e f : Edit} {es fs : List Edit}

/-- One edit twice, or one product with its variables in both orders. -/
inductive SameProduct : Edit → Edit → Prop
  | refl (e : Edit) : SameProduct e e
  | swap (x : Float) (a b : VarId) : SameProduct (.addQuadraticTerm x a b) (.addQuadraticTerm x b a)

theorem SameProduct.slot?_eq (h : SameProduct e f) : e.slot? = f.slot? := by
  cases h with
  | refl => rfl
  | swap x a b => exact congrArg (fun pair => some (Slot.quadratic pair)) (VarPair.of_comm a b)

theorem SameProduct.coefficient_eq (h : SameProduct e f) : e.coefficient = f.coefficient := by
  cases h <;> rfl

theorem SameProduct.addsTo (h : SameProduct e f) (he : e.AddsTo p) : f.AddsTo p := by
  cases h with
  | refl => exact he
  | swap x a b => cases he with
    | quadratic _ _ _ ha hb => exact .quadratic x b a hb ha

/-- The same additions in another order that keeps the order within each slot, some products with their
variables the other way round. -/
def Rearranged (es fs : List Edit) : Prop :=
  ∃ gs, es.Perm gs ∧ (∀ s, es.filter (·.slot? = some s) = gs.filter (·.slot? = some s)) ∧
    List.Forall₂ SameProduct gs fs

theorem Rearranged.additions (h : Rearranged es fs) (hes : Additions p es) : Additions p fs := by
  obtain ⟨gs, hperm, -, hsame⟩ := h
  have hgs : Additions p gs := fun e he => hes e (hperm.mem_iff.mpr he)
  clear hperm hes
  induction hsame with
  | nil => exact hgs
  | cons hef _ ih =>
    obtain ⟨⟨hadds, hx⟩, hgs⟩ := List.forall_mem_cons.mp hgs
    exact List.forall_mem_cons.mpr ⟨⟨hef.addsTo hadds, hef.coefficient_eq ▸ hx⟩, ih hgs⟩

/-- Neighbours that add to different slots may change places. -/
theorem filter_swap (h : e.slot? ≠ f.slot?) (s : Slot) (before after : List Edit) :
    (before ++ e :: f :: after).filter (·.slot? = some s) =
      (before ++ f :: e :: after).filter (·.slot? = some s) := by
  by_cases he : e.slot? = some s
  · have hf : f.slot? ≠ some s := fun hf => h (he.trans hf.symm)
    simp [he, hf]
  · simp [List.filter_cons, he]

/-- Each slot is given the same coefficients in the same order. -/
theorem Rearranged.addedTo_eq (h : Rearranged es fs) (s : Slot) : addedTo s es = addedTo s fs := by
  obtain ⟨gs, -, hfilter, hsame⟩ := h
  rw [addedTo, addedTo, hfilter]
  clear hfilter
  induction hsame with
  | nil => rfl
  | cons hef _ ih =>
    rw [List.filter_cons, List.filter_cons, hef.slot?_eq]
    split_ifs
    · rw [List.map_cons, List.map_cons, ih, hef.coefficient_eq]
    · exact ih

end Edit

namespace Program
variable {p q : Program}

/-- Sums and definition counts are the same for every key of every form, and a product is found with its
variables in either order. -/
structure SameAggregates (p q : Program) : Prop where
  constraint : ∀ con var, (Query.constraintTotal con var).answer p = (Query.constraintTotal con var).answer q
  objective : ∀ var, (Query.objectiveTotal var).answer p = (Query.objectiveTotal var).answer q
  quadratic : ∀ a b, (Query.quadraticTotal a b).answer p = (Query.quadraticTotal a b).answer q
  quadratic_swap : ∀ a b, (Query.quadraticTotal a b).answer p = (Query.quadraticTotal b a).answer q

theorem sameAggregates_of_tally?_eq (h : ∀ s, p.tally? s = q.tally? s) : p.SameAggregates q := by
  have hquadratic : ∀ a b, (Query.quadraticTotal a b).answer p = (Query.quadraticTotal a b).answer q := by
    intro a b
    have hpair := Form.aggregate_eq_of_tally_eq (Option.some.inj (h (.quadratic (.of a b))))
    simp only [Query.answer, hpair]
  refine ⟨fun con var => ?_, fun var => ?_, hquadratic, fun a b => ?_⟩
  · have hcon := h (.constraint con.index var)
    simp only [tally?] at hcon
    simp only [Query.answer, getConstraint]
    cases hp : p.constraints[con.index]? with
    | none =>
      rw [hp] at hcon
      rw [Option.map_eq_none_iff.mp hcon.symm]
    | some c =>
      rw [hp] at hcon
      obtain ⟨d, hq, hd⟩ := Option.map_eq_some_iff.mp hcon.symm
      simp only [hq, Except.map, Form.aggregate_eq_of_tally_eq hd]
  · have hvar := Form.aggregate_eq_of_tally_eq (Option.some.inj (h (.linear var)))
    simp only [Query.answer, hvar]
  · rw [hquadratic, Query.answer, Query.answer, VarPair.of_comm]

end Program

namespace Edit

/-- Additions that are accepted in one order are accepted in every other order that keeps the order within
each slot, and the programs they leave cannot be told apart, definition counts included. -/
theorem order_matters_within_slots_only {p : Program} (h : p.Reachable) {es fs : List Edit}
    (hslot : ∀ e ∈ es, e.slot?.isSome = true) (hok : ∀ reply ∈ (runAll p es).1, reply.Accepted)
    (hr : Rearranged es fs) :
    (∀ reply ∈ (runAll p fs).1, reply.Accepted) ∧
      (runAll p es).2.Indistinguishable (runAll p fs).2 ∧
      (runAll p es).2.SameAggregates (runAll p fs).2 := by
  have hes : Additions p es := additions_of_accepted hslot hok
  have hfs : Additions p fs := hr.additions hes
  have htally : ∀ s, (runAll p es).2.tally? s = (runAll p fs).2.tally? s := fun s => by
    rw [hes.tally?_runAll, hfs.tally?_runAll, hr.addedTo_eq]
  have hcopy : (runAll p es).2.copy = (runAll p fs).2.copy :=
    (hes.sameFrame.symm.trans hfs.sameFrame).copy_eq htally
  exact ⟨hfs.accepted, (h.runAll es).consistent.indistinguishable (h.runAll fs).consistent hcopy,
    Program.sameAggregates_of_tally?_eq htally⟩

/-- A large sum swallows the one behind it, so these two must keep their order; the product may move. -/
def absorbing : List Edit :=
  [.addObjectiveTerm 1e16 (.ofIndex 0), .addQuadraticTerm 0.5 (.ofIndex 0) (.ofIndex 1),
    .addObjectiveTerm 1.0 (.ofIndex 0)]

def absorbingRearranged : List Edit :=
  [.addObjectiveTerm 1e16 (.ofIndex 0), .addObjectiveTerm 1.0 (.ofIndex 0),
    .addQuadraticTerm 0.5 (.ofIndex 1) (.ofIndex 0)]

theorem absorbing_rearranged : Rearranged absorbing absorbingRearranged := by
  refine ⟨_, .cons _ (.swap _ _ []), fun s => ?_,
    .cons (.refl _) (.cons (.refl _) (.cons (.swap _ _ _) .nil))⟩
  have hne : slot? (.addQuadraticTerm 0.5 (.ofIndex 0) (.ofIndex 1)) ≠
      slot? (.addObjectiveTerm 1.0 (.ofIndex 0)) := by decide
  exact filter_swap hne s [.addObjectiveTerm 1e16 (.ofIndex 0)] []

theorem absorbing_order_within_slots :
    let p := Program.sample
    ((∀ e ∈ absorbing, e.slot?.isSome = true) ∧ (∀ reply ∈ (runAll p absorbing).1, reply.Accepted) ∧
      Rearranged absorbing absorbingRearranged) ∧
    (∀ reply ∈ (runAll p absorbingRearranged).1, reply.Accepted) ∧
      (runAll p absorbing).2.Indistinguishable (runAll p absorbingRearranged).2 ∧
      (runAll p absorbing).2.SameAggregates (runAll p absorbingRearranged).2 := by
  have hslot : ∀ e ∈ absorbing, e.slot?.isSome = true := by simp [absorbing, slot?]
  have hok : Additions Program.sample absorbing := by
    simp only [Additions, absorbing, List.forall_mem_cons]
    refine ⟨⟨.linear _ _ ?_, ?_⟩, ⟨.quadratic _ _ _ ?_ ?_, ?_⟩, ⟨.linear _ _ ?_, ?_⟩, by simp⟩ <;>
      decide +kernel
  exact ⟨⟨hslot, hok.accepted, absorbing_rearranged⟩, order_matters_within_slots_only
    ((Program.Reachable.empty.runAll _).copy.runAll _) hslot hok.accepted absorbing_rearranged⟩

end Edit
end MixedProgram
