import MixedProgram.Proofs.Program.Copy

/-! What holds of every program that can be reached.
Entities are numbered by their place, everything that refers to an entity refers to one that exists, and no
bound and no right-hand side is NaN. Each operation keeps this on its own. -/
namespace MixedProgram

namespace Form
variable {κ : Type} {f : Form κ} {P Q : κ → Prop}

/-- All keys have a property. -/
def KeysIn (f : Form κ) (P : κ → Prop) : Prop := ∀ t ∈ f.terms, P t.key

theorem KeysIn.mono (h : f.KeysIn P) (hPQ : ∀ key, P key → Q key) : f.KeysIn Q :=
  fun t ht => hPQ _ (h t ht)

theorem KeysIn.append (h : f.KeysIn P) {t : Term κ} (ht : P t.key) : (f.append t).KeysIn P := by
  intro s hs
  rw [terms_append, Array.mem_push] at hs
  rcases hs with hs | rfl
  · exact h s hs
  · exact ht

section Canonical
variable [Ord κ] [Std.TransOrd κ] [DecidableEq κ] [Std.LawfulEqOrd κ]

theorem KeysIn.canonical (h : f.KeysIn P) : ∀ t ∈ f.canonical, P t.key := by
  intro t ht
  obtain ⟨s, hs, hk⟩ := exists_key_of_mem_canonical ht
  rw [← hk]
  exact h s hs

theorem KeysIn.canonicalized (h : f.KeysIn P) : f.canonicalized.KeysIn P := fun t ht =>
  h.canonical t (mem_terms_canonicalized.mp ht)

end Canonical

end Form

namespace Annotations
variable {e : Entity} {a : Annotations e} {P Q : EntityId e → Prop}

/-- All entities that have a name or a note have a property. -/
structure KeysIn (a : Annotations e) (P : EntityId e → Prop) : Prop where
  names : ∀ id ∈ a.names, P id
  notes : ∀ id ∈ a.notes, P id

theorem KeysIn.empty : KeysIn ({} : Annotations e) P :=
  ⟨fun _ h => absurd h Std.TreeMap.not_mem_emptyc, fun _ h => absurd h Std.TreeMap.not_mem_emptyc⟩

theorem KeysIn.mono (h : a.KeysIn P) (hPQ : ∀ id, P id → Q id) : a.KeysIn Q :=
  ⟨fun id hid => hPQ id (h.names id hid), fun id hid => hPQ id (h.notes id hid)⟩

theorem KeysIn.rename (h : a.KeysIn P) {id : EntityId e} (hid : P id) (name : String) :
    (a.rename id name).KeysIn P := by
  refine ⟨fun i hi => ?_, h.notes⟩
  rcases Std.TreeMap.mem_insert.mp hi with hi | hi
  · rw [← Std.LawfulEqOrd.eq_of_compare hi]
    exact hid
  · exact h.names i hi

theorem KeysIn.annotate (h : a.KeysIn P) {id : EntityId e} (hid : P id) (note : Json) :
    (a.annotate id note).KeysIn P := by
  refine ⟨h.names, fun i hi => ?_⟩
  rcases Std.TreeMap.mem_insert.mp hi with hi | hi
  · rw [← Std.LawfulEqOrd.eq_of_compare hi]
    exact hid
  · exact h.notes i hi

end Annotations

/-- No bound is NaN. -/
def Domain.Ordinary (d : Domain) : Prop :=
  ∀ lower upper, d = .float lower upper → lower.isNaN = false ∧ upper.isNaN = false

namespace Program
variable {p : Program}

structure Consistent (p : Program) : Prop where
  variable_id : ∀ i (h : i < p.vars.size), p.vars[i].id = .ofIndex i
  constraint_id : ∀ i (h : i < p.constraints.size), p.constraints[i].id = .ofIndex i
  bounds : ∀ v ∈ p.vars, v.domain.Ordinary
  rhs : ∀ c ∈ p.constraints, c.rhs.isNaN = false
  constraint_keys : ∀ c ∈ p.constraints, c.form.KeysIn (p.hasVariable · = true)
  linear_keys : p.objective.linear.KeysIn (p.hasVariable · = true)
  quadratic_keys : p.objective.quadratic.KeysIn fun pair =>
    p.hasVariable pair.first = true ∧ p.hasVariable pair.second = true
  variable_notes : p.variableNotes.KeysIn (p.hasVariable · = true)
  constraint_notes : p.constraintNotes.KeysIn (p.hasConstraint · = true)

namespace Consistent

theorem empty : Consistent {} := by
  constructor
  case variable_notes => exact .empty
  case constraint_notes => exact .empty
  all_goals simp [Form.KeysIn]

theorem addVariable (h : p.Consistent) {domain : Domain} (hd : domain.Ordinary) :
    (p.addVariable domain).2.Consistent := by
  have hmono : ∀ id, p.hasVariable id = true → (p.addVariable domain).2.hasVariable id = true := by
    intro id hid
    simp only [hasVariable, Program.addVariable, Array.size_push, decide_eq_true_eq] at hid ⊢
    omega
  constructor
  case variable_id =>
    intro i hi
    simp only [Program.addVariable, Array.getElem_push]
    split_ifs with hlt
    · exact h.variable_id i hlt
    · simp only [Program.addVariable, Array.size_push] at hi
      rw [show i = p.vars.size by omega]
  case bounds =>
    intro v hv
    rcases Array.mem_push.mp hv with hv | rfl
    · exact h.bounds v hv
    · exact hd
  case constraint_id => exact h.constraint_id
  case rhs => exact h.rhs
  case constraint_keys => exact fun c hc => (h.constraint_keys c hc).mono hmono
  case linear_keys => exact h.linear_keys.mono hmono
  case quadratic_keys => exact h.quadratic_keys.mono fun _ => And.imp (hmono _) (hmono _)
  case variable_notes => exact h.variable_notes.mono hmono
  case constraint_notes => exact h.constraint_notes

theorem pushConstraint (h : p.Consistent) (relation : Relation) {rhs : Float} (hr : rhs.isNaN = false) :
    (p.pushConstraint relation rhs).Consistent := by
  have hmono : ∀ id, p.hasConstraint id = true → (p.pushConstraint relation rhs).hasConstraint id = true := by
    intro id hid
    simp only [hasConstraint, Program.pushConstraint, Array.size_push, decide_eq_true_eq] at hid ⊢
    omega
  refine { h with constraint_id := ?_, rhs := ?_, constraint_keys := ?_, constraint_notes := ?_ }
  · intro i hi
    simp only [Program.pushConstraint, Array.getElem_push]
    split_ifs with hlt
    · exact h.constraint_id i hlt
    · simp only [Program.pushConstraint, Array.size_push] at hi
      rw [show i = p.constraints.size by omega]
  · intro c hc
    rcases Array.mem_push.mp hc with hc | rfl
    · exact h.rhs c hc
    · exact hr
  · intro c hc
    rcases Array.mem_push.mp hc with hc | rfl
    · exact h.constraint_keys c hc
    · simp [Form.KeysIn]
  · exact h.constraint_notes.mono hmono

theorem appendToConstraint (h : p.Consistent) (con : ConId) {t : LinearTerm}
    (ht : p.hasVariable t.key = true) : (p.appendToConstraint con t).Consistent := by
  have hmem : ∀ c ∈ (p.appendToConstraint con t).constraints,
      ∃ d ∈ p.constraints, c = d ∨ c = d.append t := fun c hc => exists_of_mem_modify hc
  refine { h with constraint_id := ?_, rhs := ?_, constraint_keys := ?_, constraint_notes := ?_ }
  · intro i hi
    simp only [Program.appendToConstraint, Array.size_modify] at hi
    have hid := h.constraint_id i hi
    simp only [Program.appendToConstraint, Array.getElem_modify]
    split_ifs <;> exact hid
  · intro c hc
    obtain ⟨d, hd, rfl | rfl⟩ := hmem c hc
    · exact h.rhs c hd
    · exact h.rhs d hd
  · intro c hc
    obtain ⟨d, hd, rfl | rfl⟩ := hmem c hc
    · exact h.constraint_keys c hd
    · exact (h.constraint_keys d hd).append ht
  · refine h.constraint_notes.mono fun id hid => ?_
    simpa [hasConstraint, Program.appendToConstraint] using hid

theorem appendLinear (h : p.Consistent) {t : LinearTerm} (ht : p.hasVariable t.key = true) :
    (p.appendLinear t).Consistent :=
  { h with linear_keys := h.linear_keys.append ht }

theorem appendQuadratic (h : p.Consistent) {a b : VarId} (ha : p.hasVariable a = true)
    (hb : p.hasVariable b = true) (x : Float) : (p.appendQuadratic ⟨.of a b, x⟩).Consistent := by
  refine { h with quadratic_keys := h.quadratic_keys.append ?_ }
  unfold VarPair.of
  split_ifs
  · exact ⟨ha, hb⟩
  · exact ⟨hb, ha⟩

theorem annotateVariables (h : p.Consistent) {notes : Annotations .var}
    (hn : notes.KeysIn (p.hasVariable · = true)) : (p.annotateVariables notes).Consistent :=
  { h with variable_notes := hn }

theorem annotateConstraints (h : p.Consistent) {notes : Annotations .con}
    (hn : notes.KeysIn (p.hasConstraint · = true)) : (p.annotateConstraints notes).Consistent :=
  { h with constraint_notes := hn }

theorem copy (h : p.Consistent) : p.copy.Consistent := by
  have hvars : ∀ id, p.hasVariable id = true → p.copy.hasVariable id = true := by simp
  have hcons : ∀ id, p.hasConstraint id = true → p.copy.hasConstraint id = true := by simp
  constructor
  case variable_id => simp [vars_copy]
  case constraint_id =>
    intro i hi
    simpa [Constraint.canonicalized] using h.constraint_id i (by simpa using hi)
  case bounds =>
    intro v hv
    have hd : v.domain ∈ p.copy.vars.map (·.domain) := Array.mem_map.mpr ⟨v, hv, rfl⟩
    rw [map_domain_copy, Array.mem_map] at hd
    obtain ⟨w, hw, hd⟩ := hd
    rw [← hd]
    exact h.bounds w hw
  case rhs =>
    intro c hc
    obtain ⟨d, hd, rfl⟩ := Array.mem_map.mp hc
    exact h.rhs d hd
  case constraint_keys =>
    intro c hc
    obtain ⟨d, hd, rfl⟩ := Array.mem_map.mp hc
    exact ((h.constraint_keys d hd).canonicalized).mono hvars
  case linear_keys => exact h.linear_keys.canonicalized.mono hvars
  case quadratic_keys => exact h.quadratic_keys.canonicalized.mono fun _ => And.imp (hvars _) (hvars _)
  case variable_notes => exact h.variable_notes.mono hvars
  case constraint_notes => exact h.constraint_notes.mono hcons

/-- An edit that is accepted leaves a consistent program, whatever ids it was given. -/
theorem apply (h : p.Consistent) {e : Edit} {r : Answer × Program} (he : e.apply p = .ok r) :
    r.2.Consistent := by
  cases Edit.apply_eq_ok.mp he with
  | addFloat lower upper hl hu =>
    refine h.addVariable ?_
    rintro _ _ ⟨⟩
    exact ⟨hl, hu⟩
  | addInt lower upper => exact h.addVariable nofun
  | addBool => exact h.addVariable nofun
  | addConstraint relation rhs hr => exact h.pushConstraint relation hr
  | addConstraintTerm con x var hv hc hx => exact h.appendToConstraint con hv
  | addObjectiveTerm x var hv hx => exact h.appendLinear hv
  | addQuadraticTerm x a b ha hb hx => exact h.appendQuadratic ha hb x
  | setDirection direction => exact { h with }
  | nameVariable id name hv => exact h.annotateVariables (h.variable_notes.rename hv name)
  | noteVariable id note hv => exact h.annotateVariables (h.variable_notes.annotate hv note)
  | nameConstraint id name hc => exact h.annotateConstraints (h.constraint_notes.rename hc name)
  | noteConstraint id note hc => exact h.annotateConstraints (h.constraint_notes.annotate hc note)

end Consistent

theorem Reachable.consistent (h : p.Reachable) : p.Consistent :=
  h.induction .empty (fun _ _ _ hp he => hp.apply he) fun _ hp => hp.copy

section Lookup

theorem getVariable_eq_ok {id : VarId} {v : Variable} :
    p.getVariable id = .ok v ↔ p.vars[id.index]? = some v := by
  unfold getVariable
  cases p.vars[id.index]? <;> simp

theorem getConstraint_eq_ok {id : ConId} {c : Constraint} :
    p.getConstraint id = .ok c ↔ p.constraints[id.index]? = some c := by
  unfold getConstraint
  cases p.constraints[id.index]? <;> simp

theorem exists_getVariable_iff {id : VarId} : (∃ v, p.getVariable id = .ok v) ↔ id.index < p.vars.size := by
  simp only [getVariable_eq_ok, ← Option.isSome_iff_exists, isSome_getElem?]

theorem exists_getConstraint_iff {id : ConId} :
    (∃ c, p.getConstraint id = .ok c) ↔ id.index < p.constraints.size := by
  simp only [getConstraint_eq_ok, ← Option.isSome_iff_exists, isSome_getElem?]

end Lookup

/-- Ids are places in the order of creation, and a lookup finds the entity of the id. -/
structure Dense (p : Program) : Prop where
  variable_index : ∀ i (h : i < p.vars.size), p.vars[i].id.index = i
  constraint_index : ∀ i (h : i < p.constraints.size), p.constraints[i].id.index = i
  exists_getVariable_iff : ∀ id, (∃ v, p.getVariable id = .ok v) ↔ id.index < p.vars.size
  exists_getConstraint_iff : ∀ id, (∃ c, p.getConstraint id = .ok c) ↔ id.index < p.constraints.size
  getVariable_id : ∀ id v, p.getVariable id = .ok v → v.id = id
  getConstraint_id : ∀ id c, p.getConstraint id = .ok c → c.id = id
  created_variable : ∀ e id q, Edit.apply p e = .ok (.variableId id, q) → q.vars.size ≤ UInt32.size →
    id.index = p.vars.size ∧ ∃ domain, q.vars = p.vars.push ⟨id, domain⟩
  created_constraint : ∀ e id q, Edit.apply p e = .ok (.constraintId id, q) →
    q.constraints.size ≤ UInt32.size →
    id.index = p.constraints.size ∧ ∃ relation rhs, q.constraints = p.constraints.push ⟨id, relation, rhs, {}⟩
  quadratic_order : ∀ t ∈ p.objective.quadratic.terms, t.key.first.index ≤ t.key.second.index

/-- The numbers of ids suffice for all entities up to the size of a 32-bit word. -/
theorem Consistent.dense (h : p.Consistent) (hv : p.vars.size ≤ UInt32.size)
    (hc : p.constraints.size ≤ UInt32.size) : p.Dense where
  variable_index i hi := by
    rw [h.variable_id i hi, EntityId.index_ofIndex (by omega)]
  constraint_index i hi := by
    rw [h.constraint_id i hi, EntityId.index_ofIndex (by omega)]
  exists_getVariable_iff _ := Program.exists_getVariable_iff
  exists_getConstraint_iff _ := Program.exists_getConstraint_iff
  getVariable_id id v hget := by
    obtain ⟨hi, rfl⟩ := Array.getElem?_eq_some_iff.mp (getVariable_eq_ok.mp hget)
    rw [h.variable_id _ hi, EntityId.ofIndex_index]
  getConstraint_id id c hget := by
    obtain ⟨hi, rfl⟩ := Array.getElem?_eq_some_iff.mp (getConstraint_eq_ok.mp hget)
    rw [h.constraint_id _ hi, EntityId.ofIndex_index]
  created_variable e id q he hq := by
    have hnew : id = .ofIndex p.vars.size ∧ ∃ domain, q = (p.addVariable domain).2 := by
      cases Edit.apply_eq_ok.mp he with
      | addFloat lower upper => exact ⟨rfl, _, rfl⟩
      | addInt lower upper => exact ⟨rfl, _, rfl⟩
      | addBool => exact ⟨rfl, _, rfl⟩
    obtain ⟨rfl, domain, rfl⟩ := hnew
    simp only [Program.addVariable, Array.size_push] at hq
    exact ⟨EntityId.index_ofIndex (by omega), domain, rfl⟩
  created_constraint e id q he hq := by
    cases Edit.apply_eq_ok.mp he with
    | addConstraint relation rhs =>
      simp only [Program.pushConstraint, Array.size_push] at hq
      exact ⟨EntityId.index_ofIndex (by omega), relation, rhs, rfl⟩
  quadratic_order t _ := t.key.first_le

/-- However a program was reached, its entities are numbered by their places and everything in it refers
to entities that exist. -/
theorem reachable_dense_consistent {p : Program} (h : p.Reachable) (hv : p.vars.size ≤ UInt32.size)
    (hc : p.constraints.size ≤ UInt32.size) : p.Dense ∧ p.Consistent :=
  ⟨h.consistent.dense hv hc, h.consistent⟩

/-- Built, copied and built on, with one edit refused for an id that belongs to no variable. -/
def sample : Program :=
  let built := Edit.runAll {}
    [.addBool, .addInt (-3) 5, .addConstraint .lessEqual 1.5,
      .addConstraintTerm (.ofIndex 0) 2.0 (.ofIndex 1), .addQuadraticTerm 0.5 (.ofIndex 1) (.ofIndex 0),
      .addObjectiveTerm 1.0 (.ofIndex 7)]
  (Edit.runAll built.2.copy [.addFloat 0.0 1.0, .nameVariable (.ofIndex 2) "share"]).2

theorem sample_dense_consistent :
    (sample.vars.size = 3 ∧ sample.constraints.size = 1) ∧ sample.Dense ∧ sample.Consistent := by
  have hsize : sample.vars.size = 3 ∧ sample.constraints.size = 1 := by decide +kernel
  refine ⟨hsize, reachable_dense_consistent ((Reachable.empty.runAll _).copy.runAll _) ?_ ?_⟩
  · rw [hsize.1]; decide
  · rw [hsize.2]; decide

end Program
end MixedProgram
