import Std.Data.TreeMap.Lemmas
import MixedProgram.Identity
import MixedProgram.Json.Value

/-! Names and notes, kept in tables apart from the entities they describe. -/
namespace MixedProgram

/-- The last name and the last note given to each entity. There is no table before its first entry. -/
structure Annotations (e : Entity) where
  nameTable : Option (Std.TreeMap (EntityId e) String) := none
  noteTable : Option (Std.TreeMap (EntityId e) Json) := none

namespace Annotations
variable {e : Entity}

def names (a : Annotations e) : Std.TreeMap (EntityId e) String := a.nameTable.getD ∅
def notes (a : Annotations e) : Std.TreeMap (EntityId e) Json := a.noteTable.getD ∅

def name? (a : Annotations e) (id : EntityId e) : Option String := a.names[id]?
def note? (a : Annotations e) (id : EntityId e) : Option Json := a.notes[id]?

def rename (a : Annotations e) (id : EntityId e) (name : String) : Annotations e :=
  { a with nameTable := some (a.names.insert id name) }

def annotate (a : Annotations e) (id : EntityId e) (note : Json) : Annotations e :=
  { a with noteTable := some (a.notes.insert id note) }

/-- The earliest entity whose name is the given one. -/
def find? (a : Annotations e) (name : String) : Option (EntityId e) :=
  (a.names.toList.find? (·.2 == name)).map (·.1)

section Lemmas

@[simp] theorem names_rename (a : Annotations e) (id : EntityId e) (name : String) :
    (a.rename id name).names = a.names.insert id name := rfl

@[simp] theorem notes_annotate (a : Annotations e) (id : EntityId e) (note : Json) :
    (a.annotate id note).notes = a.notes.insert id note := rfl

@[simp] theorem name?_rename (a : Annotations e) (id i : EntityId e) (name : String) :
    (a.rename id name).name? i = if id = i then some name else a.name? i := by
  simp [name?, Std.TreeMap.getElem?_insert]

@[simp] theorem note?_rename (a : Annotations e) (id i : EntityId e) (name : String) :
    (a.rename id name).note? i = a.note? i := rfl

@[simp] theorem note?_annotate (a : Annotations e) (id i : EntityId e) (note : Json) :
    (a.annotate id note).note? i = if id = i then some note else a.note? i := by
  simp [note?, Std.TreeMap.getElem?_insert]

@[simp] theorem name?_annotate (a : Annotations e) (id i : EntityId e) (note : Json) :
    (a.annotate id note).name? i = a.name? i := rfl

end Lemmas

end Annotations
end MixedProgram
