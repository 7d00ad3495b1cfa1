import MixedProgram.Proofs.Number.Numeral
import MixedProgram.Proofs.Program.Listed

/-! Which variable a label denotes.
Default labels tell variables apart, and so do distinct names. But nothing keeps the two apart from each
other: a variable may be named by the default label of another one, and then both have the same label. -/
namespace MixedProgram

namespace Variable

lemma defaultLabel_ne_empty (v : Variable) : v.defaultLabel ≠ "" := by
  rw [defaultLabel, ← String.toList_inj.ne]
  simp

/-- A default label ends in the number of its variable. -/
theorem id_eq_of_defaultLabel_eq {v w : Variable} (h : v.defaultLabel = w.defaultLabel) : v.id = w.id := by
  rw [defaultLabel, defaultLabel, String.ofList_inj, List.cons.injEq, Number.toDigits_inj] at h
  exact EntityId.index_inj.mp h.2

end Variable

namespace Program

/-- The variable has no explicit name, or none but the empty one. -/
def Nameless (p : Program) (id : VarId) : Prop := ∀ name, p.variableName? id = some name → name = ""

/-- No two variables have the same explicit name, the empty one apart. -/
def DistinctlyNamed (p : Program) : Prop :=
  ∀ a b name, name ≠ "" → p.variableName? a = some name → p.variableName? b = some name → a = b

/-- A variable is named by the default label of another one, which goes by this label. -/
structure Borrows (p : Program) (v w : Variable) : Prop where
  name : p.variableName? v.id = some w.defaultLabel
  nameless : p.Nameless w.id

/-- A variable has a label, and it is the only one to have it unless one variable of the two is named by the
default label of the other. -/
def Labelled (p : Program) (id : VarId) : Prop :=
  ∃ v label, p.getVariable id = .ok v ∧ p.label id = .ok label ∧
    ((∃! other, p.label other = .ok label) ↔ ∀ w ∈ p.vars, w.id ≠ id → ¬p.Borrows v w ∧ ¬p.Borrows w v)

/-- The lines are written with the labels of the variables in them, and all these variables are labelled. -/
structure LabelledLines (p : Program) : Prop where
  constraint_line : ∀ id c, p.getConstraint id = .ok c →
    p.listConstraint id = p.strictConstraint id ∧ ∀ t ∈ c.form.canonical, p.Labelled t.key
  objective_line : p.strictObjective = .ok p.listObjective ∧
    (∀ t ∈ p.objective.linear.canonical, p.Labelled t.key) ∧
    ∀ t ∈ p.objective.quadratic.canonical, p.Labelled t.key.first ∧ p.Labelled t.key.second
  variable_line : ∀ i (h : i < p.vars.size),
    p.strictVariableLine i = .ok (p.variableLine p.vars[i]) ∧ p.Labelled p.vars[i].id

variable {p : Program}

section Labels
variable {id : VarId} {v w : Variable}

theorem nameless_or_named (p : Program) (id : VarId) :
    p.Nameless id ∨ ∃ name, p.variableName? id = some name ∧ name ≠ "" := by
  by_cases h : ∃ name, p.variableName? id = some name ∧ name ≠ ""
  · exact .inr h
  · push Not at h
    exact .inl h

theorem label_of_nameless (hv : p.getVariable id = .ok v) (h : p.Nameless id) :
    p.label id = .ok v.defaultLabel := by
  rw [label, hv]
  cases hname : p.variableName? id with
  | none => rfl
  | some name => rw [h name hname]; rfl

theorem label_of_named (hv : p.getVariable id = .ok v) {name : String}
    (hname : p.variableName? id = some name) (hne : name ≠ "") : p.label id = .ok name := by
  rw [label, hv, hname]
  simp [Except.map, hne]

/-- Who borrows a label has a name. -/
lemma Borrows.not_nameless (h : p.Borrows v w) : ¬p.Nameless v.id := fun hnameless =>
  w.defaultLabel_ne_empty (hnameless _ h.name)

/-- Two variables share a label just when it is the name of one of them and the default label of the other. -/
theorem label_eq_label_iff (hd : p.DistinctlyNamed) (hv : p.getVariable v.id = .ok v)
    (hw : p.getVariable w.id = .ok w) (hne : v.id ≠ w.id) :
    p.label v.id = p.label w.id ↔ p.Borrows v w ∨ p.Borrows w v := by
  rcases p.nameless_or_named v.id with hvn | ⟨a, ha, hane⟩ <;>
    rcases p.nameless_or_named w.id with hwn | ⟨b, hb, hbne⟩
  · rw [label_of_nameless hv hvn, label_of_nameless hw hwn]
    refine iff_of_false (fun h => hne (Variable.id_eq_of_defaultLabel_eq (Except.ok.inj h))) ?_
    rintro (h | h)
    · exact h.not_nameless hvn
    · exact h.not_nameless hwn
  · rw [label_of_nameless hv hvn, label_of_named hw hb hbne]
    constructor
    · intro h
      exact .inr ⟨by rw [hb, Except.ok.inj h], hvn⟩
    · rintro (h | h)
      · exact absurd hvn h.not_nameless
      · rw [Option.some.inj (hb.symm.trans h.name)]
  · rw [label_of_named hv ha hane, label_of_nameless hw hwn]
    constructor
    · intro h
      exact .inl ⟨by rw [ha, Except.ok.inj h], hwn⟩
    · rintro (h | h)
      · rw [Option.some.inj (ha.symm.trans h.name)]
      · exact absurd hwn h.not_nameless
  · rw [label_of_named hv ha hane, label_of_named hw hb hbne]
    refine iff_of_false (fun h => hne (hd _ _ a hane ha (by rw [hb, Except.ok.inj h]))) ?_
    rintro (h | h)
    · exact hbne (h.nameless b hb)
    · exact hane (h.nameless a ha)

end Labels

section Lines
variable {id : VarId} {v w : Variable}

theorem Consistent.of_getVariable_eq_ok (h : p.Consistent) (hv : p.getVariable id = .ok v) :
    v ∈ p.vars ∧ v.id = id := by
  obtain ⟨hlt, rfl⟩ := Array.getElem?_eq_some_iff.mp (getVariable_eq_ok.mp hv)
  exact ⟨Array.getElem_mem hlt, by rw [h.variable_id _ hlt, EntityId.ofIndex_index]⟩

variable (h : p.Consistent) (hsize : p.vars.size ≤ UInt32.size)
include h hsize

theorem Consistent.getVariable_of_mem (hw : w ∈ p.vars) : p.getVariable w.id = .ok w := by
  obtain ⟨i, hi, rfl⟩ := Array.mem_iff_getElem.mp hw
  rw [h.variable_id i hi]
  exact getVariable_ofIndex hi hsize

theorem Consistent.labelled (hd : p.DistinctlyNamed) (hid : p.hasVariable id = true) : p.Labelled id := by
  obtain ⟨v, hv⟩ := exists_getVariable_iff.mpr (by simpa [hasVariable] using hid)
  obtain ⟨-, rfl⟩ := h.of_getVariable_eq_ok hv
  have hlabel := label_eq_ok hid
  refine ⟨v, p.labelText v.id, hv, hlabel, ?_⟩
  constructor
  · rintro ⟨_, -, honly⟩ w hw hne
    have hget := h.getVariable_of_mem hsize hw
    have hshared := (label_eq_label_iff hd hv hget hne.symm).not.mp fun heq =>
      hne ((honly _ (heq.symm.trans hlabel)).trans (honly _ hlabel).symm)
    exact not_or.mp hshared
  · intro hfree
    refine ⟨v.id, hlabel, fun other hother => ?_⟩
    obtain ⟨w, hw, -⟩ := map_eq_ok.mp hother
    obtain ⟨hmem, rfl⟩ := h.of_getVariable_eq_ok hw
    by_contra hne
    have hshared := (label_eq_label_iff hd hv hw (Ne.symm hne)).mp (hlabel.trans hother.symm)
    exact hshared.elim (hfree w hmem hne).1 (hfree w hmem hne).2

theorem Consistent.labelledLines (hd : p.DistinctlyNamed) : p.LabelledLines where
  constraint_line id c hc :=
    have hmem := Array.mem_of_getElem? (getConstraint_eq_ok.mp hc)
    ⟨(h.strictConstraint_eq id).symm, fun t ht =>
      h.labelled hsize hd ((h.constraint_keys c hmem).canonical t ht)⟩
  objective_line := by
    refine ⟨h.strictObjective_eq_ok, fun t ht =>
      h.labelled hsize hd (h.linear_keys.canonical t ht), fun t ht => ?_⟩
    obtain ⟨hfirst, hsecond⟩ := h.quadratic_keys.canonical t ht
    exact ⟨h.labelled hsize hd hfirst, h.labelled hsize hd hsecond⟩
  variable_line i hi := by
    refine ⟨h.strictVariableLine_eq_ok hsize i hi, h.labelled hsize hd ?_⟩
    rw [h.variable_id i hi, hasVariable, decide_eq_true_eq]
    exact (EntityId.index_ofIndex_le i).trans_lt hi

end Lines

/-- If no name is given twice, two variables have the same label just when one of them is named by the default
label of the other, and apart from this every label in a line denotes one variable. -/
theorem label_shared_iff_borrowed (h : p.Reachable) (hsize : p.vars.size ≤ UInt32.size)
    (hd : p.DistinctlyNamed) :
    (∀ i j (hi : i < p.vars.size) (hj : j < p.vars.size), i ≠ j →
      (p.label p.vars[i].id = p.label p.vars[j].id ↔
        p.Borrows p.vars[i] p.vars[j] ∨ p.Borrows p.vars[j] p.vars[i])) ∧
    p.LabelledLines := by
  have hconsistent := h.consistent
  refine ⟨fun i j hi hj hne => ?_, hconsistent.labelledLines hsize hd⟩
  refine label_eq_label_iff hd (hconsistent.getVariable_of_mem hsize (Array.getElem_mem hi))
    (hconsistent.getVariable_of_mem hsize (Array.getElem_mem hj)) fun heq => hne ?_
  rw [hconsistent.variable_id i hi, hconsistent.variable_id j hj] at heq
  rw [← EntityId.index_ofIndex (hi.trans_le hsize), heq, EntityId.index_ofIndex (hj.trans_le hsize)]

/-- Two bool variables, the first of them with the default label of the second as its name. -/
def borrowed : Program :=
  (Edit.runAll {} [.addBool, .addBool, .nameVariable (.ofIndex 0) "B1", .addObjectiveTerm 1.0 (.ofIndex 0),
    .addObjectiveTerm 1.0 (.ofIndex 1)]).2

/-- A copy in which the second variable goes by another name. -/
def unborrowed : Program := (Edit.runAll borrowed.copy [.nameVariable (.ofIndex 1) "x"]).2

lemma reachable_borrowed : borrowed.Reachable := Reachable.empty.runAll _

lemma variableName?_borrowed (id : VarId) :
    borrowed.variableName? id = if .ofIndex 0 = id then some "B1" else none := by
  have htable : borrowed.variableNotes = Annotations.rename {} (.ofIndex 0) "B1" := rfl
  rw [variableName?, htable, Annotations.name?_rename]
  simp [Annotations.name?, Annotations.names]

lemma variableName?_unborrowed (id : VarId) :
    unborrowed.variableName? id = if .ofIndex 1 = id then some "x" else borrowed.variableName? id := by
  have htable : unborrowed.variableNotes = borrowed.variableNotes.rename (.ofIndex 1) "x" := rfl
  rw [variableName?, htable, Annotations.name?_rename]
  rfl

/-- Once the variable has a name of its own, its default label may be used for another one. -/
theorem unborrowed_labels_distinct :
    (unborrowed.Reachable ∧ unborrowed.vars.size = 2 ∧ unborrowed.DistinctlyNamed) ∧
      unborrowed.label (.ofIndex 0) ≠ unborrowed.label (.ofIndex 1) ∧ unborrowed.LabelledLines := by
  have hreachable : unborrowed.Reachable := reachable_borrowed.copy.runAll _
  have hd : unborrowed.DistinctlyNamed := by
    intro a b name hne ha hb
    rw [variableName?_unborrowed, variableName?_borrowed] at ha hb
    split_ifs at ha hb <;> grind
  have hfirst : unborrowed.variableName? (.ofIndex 0) = some "B1" := by
    rw [variableName?_unborrowed, variableName?_borrowed]; rfl
  have hsecond : unborrowed.variableName? (.ofIndex 1) = some "x" := by
    rw [variableName?_unborrowed]; rfl
  obtain ⟨hiff, hlines⟩ := label_shared_iff_borrowed hreachable (by decide : 2 ≤ UInt32.size) hd
  refine ⟨⟨hreachable, rfl, hd⟩, fun heq => ?_, hlines⟩
  rcases (hiff 0 1 (by decide) (by decide) (by decide)).mp heq with hborrows | hborrows
  · exact absurd (hborrows.nameless "x" hsecond) (by decide)
  · exact absurd (hborrows.nameless "B1" hfirst) (by decide)

/-- One label for two variables, though only one of them has a name. -/
theorem borrowed_label_ambiguous :
    borrowed.Reachable ∧ borrowed.vars.size = 2 ∧ borrowed.DistinctlyNamed ∧
      borrowed.label (.ofIndex 0) = .ok "B1" ∧ borrowed.label (.ofIndex 1) = .ok "B1" ∧
      borrowed.listObjective = "minimize   1 B1 + 1 B1" := by
  have hd : borrowed.DistinctlyNamed := by
    intro a b name _ ha hb
    rw [variableName?_borrowed] at ha hb
    split_ifs at ha hb with hzero hzero'
    exact hzero.symm.trans hzero'
  refine ⟨reachable_borrowed, rfl, hd, ?_, ?_, ?_⟩ <;> decide +kernel

end Program
end MixedProgram
