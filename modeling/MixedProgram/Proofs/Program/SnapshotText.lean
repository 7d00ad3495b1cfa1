import MixedProgram.Program.Snapshot
import MixedProgram.Proofs.Json.Compact
import MixedProgram.Proofs.Json.Fields

/-! What the JSON text of a snapshot keeps.
Two snapshots have the same text just when they agree in every field, numbers that are not finite counted
as one. -/
namespace MixedProgram

section Settled
open Number (Value)

def Term.settled {κ : Type} (t : Term κ) : Term κ := { t with coefficient := Number.settled t.coefficient }

def VariableView.settled (v : VariableView) : VariableView :=
  { v with lower := Number.settled v.lower, upper := Number.settled v.upper, note := v.note.map Json.settled }

def ConstraintView.settled (c : ConstraintView) : ConstraintView :=
  { c with
    rhs := Number.settled c.rhs
    terms := c.terms.map (·.map Term.settled)
    note := c.note.map Json.settled }

def ObjectiveView.settled (o : ObjectiveView) : ObjectiveView :=
  { o with terms := o.terms.map Term.settled, quadraticTerms := o.quadraticTerms.map Term.settled }

/-- The snapshot with all numbers that are not finite made one. -/
def Snapshot.settled (s : Snapshot) : Snapshot :=
  { s with
    vars := s.vars.map VariableView.settled
    constraints := s.constraints.map ConstraintView.settled
    objective := s.objective.settled }

end Settled

namespace Snapshot
open Json

section Values

theorem settled_idJson_iff {e : Entity} {a b : EntityId e} :
    (idJson a).settled = (idJson b).settled ↔ a = b := by
  simp [idJson, Json.settled, EntityId.index_inj]

theorem settled_name_iff {a b : Option String} :
    (a.elim null string).settled = (b.elim null string).settled ↔ a = b :=
  settled_elim_iff (fun _ => by simp [Json.settled]) fun _ _ => settled_string_iff

theorem relation_name_inj {a b : Relation} : a.name = b.name ↔ a = b := by
  cases a <;> cases b <;> decide

theorem direction_name_inj {a b : Direction} : a.name = b.name ↔ a = b := by
  cases a <;> cases b <;> decide

theorem settled_optionalField_iff {name : String} {a b : Option Json} :
    (object (optionalField name a)).settled = (object (optionalField name b)).settled ↔
      a.map Json.settled = b.map Json.settled := by
  cases a <;> cases b <;> simp [optionalField, settled_object]

/-- Two fields in a row that may each be left out are told apart by their names. -/
theorem settled_optionalFields_iff {name name' : String} (hname : name ≠ name') {a b a' b' : Option Json} :
    (object (optionalField name a ++ optionalField name' a')).settled =
        (object (optionalField name b ++ optionalField name' b')).settled ↔
      a.map Json.settled = b.map Json.settled ∧ a'.map Json.settled = b'.map Json.settled := by
  cases a <;> cases b <;> cases a' <;> cases b' <;> simp [optionalField, settled_object, hname, hname.symm]

end Values

section Views

theorem settled_linearTermJson_iff (t u : LinearTerm) :
    (linearTermJson t).settled = (linearTermJson u).settled ↔ t.settled = u.settled := by
  simp only [linearTermJson, settled_cons_iff, settled_idJson_iff, settled_float_iff,
    Term.settled, Term.mk.injEq, and_true]

theorem settled_quadraticTermJson_iff (t u : QuadraticTerm) :
    (quadraticTermJson t).settled = (quadraticTermJson u).settled ↔ t.settled = u.settled := by
  obtain ⟨⟨a, b, hab⟩, x⟩ := t
  obtain ⟨⟨c, d, hcd⟩, y⟩ := u
  simp only [quadraticTermJson, settled_cons_iff, settled_idJson_iff, settled_float_iff, Term.settled,
    Term.mk.injEq, VarPair.mk.injEq, and_true, and_assoc]

theorem settled_variableJson_iff (v w : VariableView) :
    (variableJson v).settled = (variableJson w).settled ↔ v.settled = w.settled := by
  obtain ⟨id, kind, name, label, lower, upper, note⟩ := v
  obtain ⟨id', kind', name', label', lower', upper', note'⟩ := w
  simp only [variableJson, List.cons_append, List.nil_append, settled_cons_iff, settled_idJson_iff,
    settled_string_iff, settled_name_iff, settled_float_iff, settled_optionalField_iff, VariableView.settled,
    VariableView.mk.injEq, and_true, and_assoc]

theorem settled_termsJson_iff {a b : Option (List LinearTerm)} :
    (a.map fun ts => array (ts.map linearTermJson)).map Json.settled =
        (b.map fun ts => array (ts.map linearTermJson)).map Json.settled ↔
      a.map (·.map Term.settled) = b.map (·.map Term.settled) := by
  rw [Option.map_map, Option.map_map]
  exact optionMap_eq_optionMap_iff_of (settled_list_iff settled_linearTermJson_iff) a b

theorem settled_constraintJson_iff (c d : ConstraintView) :
    (constraintJson c).settled = (constraintJson d).settled ↔ c.settled = d.settled := by
  obtain ⟨id, name, relation, rhs, nnz, terms, note⟩ := c
  obtain ⟨id', name', relation', rhs', nnz', terms', note'⟩ := d
  simp only [constraintJson, List.cons_append, List.nil_append, settled_cons_iff, settled_idJson_iff,
    settled_string_iff, relation_name_inj, settled_float_iff, settled_int_iff, Nat.cast_inj,
    settled_optionalFields_iff (show "terms" ≠ "metadata" by decide), settled_termsJson_iff,
    ConstraintView.settled, ConstraintView.mk.injEq]

theorem settled_objectiveJson_iff (o q : ObjectiveView) :
    (objectiveJson o).settled = (objectiveJson q).settled ↔ o.settled = q.settled := by
  simp only [objectiveJson, settled_cons_iff, settled_string_iff, direction_name_inj,
    settled_list_iff settled_linearTermJson_iff, settled_list_iff settled_quadraticTermJson_iff,
    ObjectiveView.settled, ObjectiveView.mk.injEq, and_true]

theorem settled_countsJson_iff (c d : SnapshotCounts) :
    (countsJson c).settled = (countsJson d).settled ↔ c = d := by
  obtain ⟨_, _, _, _⟩ := c
  obtain ⟨_, _, _, _⟩ := d
  simp only [countsJson, settled_cons_iff, settled_int_iff, Nat.cast_inj, SnapshotCounts.mk.injEq, and_true]

theorem settled_toJson_iff (s t : Snapshot) : s.toJson.settled = t.toJson.settled ↔
    s.settled = t.settled := by
  simp only [toJson, settled_cons_iff, settled_list_iff settled_variableJson_iff,
    settled_list_iff settled_constraintJson_iff, settled_objectiveJson_iff, settled_countsJson_iff, settled,
    Snapshot.mk.injEq, and_true]

end Views

/-- What is absent in one snapshot is absent in the other, and not just empty or null there. -/
structure SamePresence (s t : Snapshot) : Prop where
  names : s.vars.map (·.name) = t.vars.map (·.name)
  variable_notes : s.vars.map (·.note.isSome) = t.vars.map (·.note.isSome)
  constraint_notes : s.constraints.map (·.note.isSome) = t.constraints.map (·.note.isSome)
  terms : s.constraints.map (·.terms.isSome) = t.constraints.map (·.terms.isSome)

theorem samePresence_of_settled_eq {s t : Snapshot} (h : s.settled = t.settled) : s.SamePresence t := by
  have hvars : s.vars.map VariableView.settled = t.vars.map VariableView.settled := congrArg vars h
  have hconstraints : s.constraints.map ConstraintView.settled = t.constraints.map ConstraintView.settled :=
    congrArg constraints h
  constructor
  case names => simpa [VariableView.settled, Function.comp_def] using congrArg (List.map (·.name)) hvars
  case variable_notes =>
    simpa [VariableView.settled, Function.comp_def] using congrArg (List.map (·.note.isSome)) hvars
  case constraint_notes =>
    simpa [ConstraintView.settled, Function.comp_def] using congrArg (List.map (·.note.isSome)) hconstraints
  case terms =>
    simpa [ConstraintView.settled, Function.comp_def] using congrArg (List.map (·.terms.isSome)) hconstraints

/-- The text of a snapshot loses nothing but which of the numbers that are not finite stood where, and in
particular it shows what is absent. -/
theorem text_eq_iff_settled_eq (s t : Snapshot) :
    (s.toJson.compact = t.toJson.compact ↔ s.settled = t.settled) ∧
      (s.toJson.compact = t.toJson.compact → s.SamePresence t) := by
  have htext : s.toJson.compact = t.toJson.compact ↔ s.settled = t.settled :=
    Json.compact_inj.trans (settled_toJson_iff s t)
  exact ⟨htext, fun h => samePresence_of_settled_eq (htext.mp h)⟩

end Snapshot
end MixedProgram
