import MixedProgram.Json.Printer
import MixedProgram.Program.Basic

/-! Read-only views of a program, and their JSON form. -/
namespace MixedProgram

structure VariableView where
  id : VarId
  kind : String
  name : Option String
  label : String
  lower : Float
  upper : Float
  note : Option Json

/-- `nnz` counts the canonical terms, whether they are included or not. -/
structure ConstraintView where
  id : ConId
  name : String
  relation : Relation
  rhs : Float
  nnz : Nat
  terms : Option (List LinearTerm)
  note : Option Json

structure ObjectiveView where
  direction : Direction
  terms : List LinearTerm
  quadraticTerms : List QuadraticTerm

/-- Counts over the whole program, whatever is filtered out. -/
structure SnapshotCounts where
  vars : Nat
  constraints : Nat
  objectiveTerms : Nat
  objectiveQuadraticTerms : Nat
  deriving DecidableEq

structure Snapshot where
  vars : List VariableView
  constraints : List ConstraintView
  objective : ObjectiveView
  counts : SnapshotCounts

/-- Without a filter everything is shown. -/
structure InspectOptions where
  includeTerms : Bool := true
  vars : Option (List VarId) := none
  constraints : Option (List ConId) := none

/-- Whether a filter lets an entity through. -/
def passes {e : Entity} (filter : Option (List (EntityId e))) (id : EntityId e) : Bool :=
  match filter with
  | none => true
  | some ids => ids.contains id

namespace Program

def viewVariable (p : Program) (v : Variable) : VariableView where
  id := v.id
  kind := v.domain.name
  name := p.variableName? v.id
  label := match p.label v.id with
    | .ok label => label
    | .error _ => v.defaultLabel
  lower := v.lower
  upper := v.upper
  note := p.variableNote? v.id

def viewConstraint (p : Program) (includeTerms : Bool) (c : Constraint) : ConstraintView :=
  let terms := c.form.canonical
  { id := c.id
    name := p.constraintName c.id
    relation := c.relation
    rhs := c.rhs
    nnz := terms.length
    terms := if includeTerms then some terms else none
    note := p.constraintNote? c.id }

def inspect (p : Program) (options : InspectOptions) : Snapshot :=
  let objective : ObjectiveView :=
    { direction := p.objective.direction
      terms := p.objective.linear.canonical
      quadraticTerms := p.objective.quadratic.canonical }
  { vars :=
      (p.vars.toList.filter fun v => passes options.vars v.id).map p.viewVariable
    constraints :=
      (p.constraints.toList.filter fun c => passes options.constraints c.id).map
        (p.viewConstraint options.includeTerms)
    objective
    counts :=
      { vars := p.vars.size
        constraints := p.constraints.size
        objectiveTerms := objective.terms.length
        objectiveQuadraticTerms := objective.quadraticTerms.length } }

end Program

namespace Snapshot

open Json

def idJson {e : Entity} (id : EntityId e) : Json := int id.index

def linearTermJson (t : LinearTerm) : Json :=
  object [("variable", idJson t.key), ("coefficient", float t.coefficient)]

def quadraticTermJson (t : QuadraticTerm) : Json :=
  object [("var1", idJson t.key.first), ("var2", idJson t.key.second),
    ("coefficient", float t.coefficient)]

/-- A field that is left out when there is no value. -/
def optionalField (name : String) (value : Option Json) : List (String × Json) :=
  match value with
  | some j => [(name, j)]
  | none => []

def variableJson (v : VariableView) : Json :=
  object <|
    [("id", idJson v.id), ("kind", string v.kind), ("name", v.name.elim null string),
      ("label", string v.label),
      ("bounds", object [("lower", float v.lower), ("upper", float v.upper)])]
    ++ optionalField "metadata" v.note

def constraintJson (c : ConstraintView) : Json :=
  object <|
    [("id", idJson c.id), ("name", string c.name), ("sense", string c.relation.name),
      ("rhs", float c.rhs), ("nnz", int c.nnz)]
    ++ optionalField "terms" (c.terms.map fun ts => array (ts.map linearTermJson))
    ++ optionalField "metadata" c.note

def objectiveJson (o : ObjectiveView) : Json :=
  object [("sense", string o.direction.name), ("terms", array (o.terms.map linearTermJson)),
    ("quadratic_terms", array (o.quadraticTerms.map quadraticTermJson))]

def countsJson (c : SnapshotCounts) : Json :=
  object [("variables", int c.vars), ("constraints", int c.constraints),
    ("objective_terms", int c.objectiveTerms),
    ("objective_quadratic_terms", int c.objectiveQuadraticTerms)]

def toJson (s : Snapshot) : Json :=
  object [("variables", array (s.vars.map variableJson)),
    ("constraints", array (s.constraints.map constraintJson)),
    ("objective", objectiveJson s.objective), ("metadata", countsJson s.counts)]

end Snapshot
end MixedProgram
