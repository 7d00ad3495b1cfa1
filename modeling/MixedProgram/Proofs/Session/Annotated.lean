import MixedProgram.Proofs.Session.EventLog

/-! Names and notes as a run leaves them.
The tables of a program hold what was written last, by an accepted edit of the program itself or of one that
it was copied from. A name finds the earliest of the entities that have it now. -/
namespace MixedProgram

/-- A name or a note given to an entity. -/
inductive Remark (e : Entity)
  | name (id : EntityId e) (name : String)
  | note (id : EntityId e) (note : Json)

namespace Remark
variable {e : Entity}

def id : Remark e → EntityId e
  | name id _ => id
  | note id _ => id

def nameOf? (id : EntityId e) : Remark e → Option String
  | name i s => if i = id then some s else none
  | note .. => none

def noteOf? (id : EntityId e) : Remark e → Option Json
  | name .. => none
  | note i j => if i = id then some j else none

/-- The name that an entity was given last. -/
def lastName (ws : List (Remark e)) (id : EntityId e) : Option String :=
  (ws.filterMap (nameOf? id)).getLast?

/-- The note that an entity was given last. -/
def lastNote (ws : List (Remark e)) (id : EntityId e) : Option Json :=
  (ws.filterMap (noteOf? id)).getLast?

/-- The answer to a lookup: the earliest entity that was given the name last, if there is one. -/
structure Finds (ws : List (Remark e)) (s : String) (found : Option (EntityId e)) : Prop where
  some_iff : ∀ id, found = some id ↔
    lastName ws id = some s ∧ ∀ other, lastName ws other = some s → id.index ≤ other.index
  none_iff : found = none ↔ ∀ id, lastName ws id ≠ some s

theorem lastName_append (ws : List (Remark e)) (w : Remark e) (id : EntityId e) :
    lastName (ws ++ [w]) id = (w.nameOf? id).or (lastName ws id) := by
  rw [lastName, lastName, List.filterMap_append]
  cases h : w.nameOf? id <;> simp [h]

theorem lastNote_append (ws : List (Remark e)) (w : Remark e) (id : EntityId e) :
    lastNote (ws ++ [w]) id = (w.noteOf? id).or (lastNote ws id) := by
  rw [lastNote, lastNote, List.filterMap_append]
  cases h : w.noteOf? id <;> simp [h]

end Remark

namespace Annotations
variable {e : Entity}

def write (a : Annotations e) : Remark e → Annotations e
  | .name id name => a.rename id name
  | .note id note => a.annotate id note

/-- The tables after some writes. -/
def written (ws : List (Remark e)) : Annotations e := ws.foldl write {}

theorem name?_write (a : Annotations e) (w : Remark e) (id : EntityId e) :
    (a.write w).name? id = (w.nameOf? id).or (a.name? id) := by
  cases w with
  | name i s =>
    simp only [write, name?_rename, Remark.nameOf?]
    split_ifs <;> simp
  | note i j => simp [write, Remark.nameOf?]

theorem note?_write (a : Annotations e) (w : Remark e) (id : EntityId e) :
    (a.write w).note? id = (w.noteOf? id).or (a.note? id) := by
  cases w with
  | name i s => simp [write, Remark.noteOf?]
  | note i j =>
    simp only [write, note?_annotate, Remark.noteOf?]
    split_ifs <;> simp

theorem written_append (ws : List (Remark e)) (w : Remark e) :
    written (ws ++ [w]) = (written ws).write w := by
  simp [written]

/-- The last write wins. -/
theorem name?_written (ws : List (Remark e)) (id : EntityId e) :
    (written ws).name? id = Remark.lastName ws id := by
  induction ws using List.reverseRecOn with
  | nil => simp [written, name?, names, Remark.lastName]
  | append_singleton ws w ih => rw [written_append, name?_write, ih, Remark.lastName_append]

theorem note?_written (ws : List (Remark e)) (id : EntityId e) :
    (written ws).note? id = Remark.lastNote ws id := by
  induction ws using List.reverseRecOn with
  | nil => simp [written, note?, notes, Remark.lastNote]
  | append_singleton ws w ih => rw [written_append, note?_write, ih, Remark.lastNote_append]

section Lookup

theorem mem_toList_names_iff {a : Annotations e} {id : EntityId e} {s : String} :
    (id, s) ∈ a.names.toList ↔ a.name? id = some s := by
  rw [Std.TreeMap.mem_toList_iff_getElem?_eq_some, name?]

lemma index_lt_of_compare {a b : EntityId e} (h : compare a b = .lt) : a.index < b.index :=
  UInt32.lt_iff_toNat_lt.mp (Std.compare_eq_lt.mp (h : compare a.val b.val = .lt))

/-- In the order of a table the first entity with a name is the earliest. -/
lemma index_le_of_find? {a : Annotations e} {s : String} {id : EntityId e} (h : a.find? s = some id) :
    a.name? id = some s ∧ ∀ other, a.name? other = some s → id.index ≤ other.index := by
  obtain ⟨⟨i, t⟩, hfind, rfl⟩ := Option.map_eq_some_iff.mp h
  obtain ⟨hname, before, after, hsplit, hbefore⟩ := List.find?_eq_some_iff_append.mp hfind
  obtain rfl := beq_iff_eq.mp hname
  refine ⟨mem_toList_names_iff.mp (by simp [hsplit]), fun other hother => ?_⟩
  have hmem := mem_toList_names_iff.mpr hother
  have hordered := a.names.ordered_keys_toList
  rw [hsplit] at hmem hordered
  rcases List.mem_append.mp hmem with hmem | hmem
  · simpa using hbefore _ hmem
  · rcases List.mem_cons.mp hmem with heq | hmem
    · rw [(Prod.mk.inj heq).1]
    · exact (index_lt_of_compare ((List.pairwise_cons.mp (List.pairwise_append.mp hordered).2.1).1 _ hmem)).le

theorem find?_eq_none_iff {a : Annotations e} {s : String} :
    a.find? s = none ↔ ∀ id, a.name? id ≠ some s := by
  simp only [find?, Option.map_eq_none_iff, List.find?_eq_none, Prod.forall, mem_toList_names_iff, beq_iff_eq]
  exact ⟨fun h id hid => h id s hid rfl, fun h id t ht hts => h id (hts ▸ ht)⟩

theorem find?_eq_some_iff {a : Annotations e} {s : String} {id : EntityId e} :
    a.find? s = some id ↔ a.name? id = some s ∧ ∀ other, a.name? other = some s → id.index ≤ other.index := by
  refine ⟨index_le_of_find?, fun ⟨hname, hleast⟩ => ?_⟩
  cases hfind : a.find? s with
  | none => exact absurd hname (find?_eq_none_iff.mp hfind id)
  | some i =>
    obtain ⟨hi, hle⟩ := index_le_of_find? hfind
    rw [EntityId.index_inj.mp ((hle id hname).antisymm (hleast i hi))]

theorem finds_written (ws : List (Remark e)) (s : String) : Remark.Finds ws s ((written ws).find? s) where
  some_iff id := by simp only [find?_eq_some_iff, name?_written]
  none_iff := by simp only [find?_eq_none_iff, name?_written, ne_eq]

end Lookup
end Annotations

/-- What an edit writes about the entities of a kind. -/
def Edit.remark? (e : Entity) : Edit → Option (Remark e) :=
  match e with
  | .var => fun
    | nameVariable id name => some (.name id name)
    | noteVariable id note => some (.note id note)
    | _ => none
  | .con => fun
    | nameConstraint id name => some (.name id name)
    | noteConstraint id note => some (.note id note)
    | _ => none

/-- The edit that makes a remark. -/
def Remark.edit {e : Entity} : Remark e → Edit :=
  match e with
  | .var => fun
    | name id s => .nameVariable id s
    | note id j => .noteVariable id j
  | .con => fun
    | name id s => .nameConstraint id s
    | note id j => .noteConstraint id j

theorem Edit.remark?_eq_some {e : Entity} {edit : Edit} {w : Remark e} :
    edit.remark? e = some w ↔ edit = w.edit := by
  constructor
  · intro h
    cases e <;> cases edit <;> cases h <;> rfl
  · rintro rfl
    cases e <;> cases w <;> rfl

namespace Program

def annotations (p : Program) : (e : Entity) → Annotations e
  | .var => p.variableNotes
  | .con => p.constraintNotes

def has (p : Program) : {e : Entity} → EntityId e → Bool
  | .var => p.hasVariable
  | .con => p.hasConstraint

/-- The tables of the program are those that the edits write. -/
def WrittenBy (p : Program) (es : List Edit) : Prop :=
  ∀ kind, p.annotations kind = .written (es.filterMap (Edit.remark? kind))

/-- The program answers by what the edits wrote last. -/
structure Remembers (p : Program) (es : List Edit) : Prop where
  variable_name : ∀ id, p.variableName? id = Remark.lastName (es.filterMap (Edit.remark? .var)) id
  variable_note : ∀ id, p.variableNote? id = Remark.lastNote (es.filterMap (Edit.remark? .var)) id
  constraint_name : ∀ id, p.constraintName id =
    (Remark.lastName (es.filterMap (Edit.remark? .con)) id).getD ""
  constraint_note : ∀ id, p.constraintNote? id = Remark.lastNote (es.filterMap (Edit.remark? .con)) id
  find_variable : ∀ s, Remark.Finds (es.filterMap (Edit.remark? .var)) s (p.findVariable? s)
  find_constraint : ∀ s, Remark.Finds (es.filterMap (Edit.remark? .con)) s (p.findConstraint? s)
  label : ∀ id, p.label id = (p.getVariable id).map fun v =>
    ((Remark.lastName (es.filterMap (Edit.remark? .var)) id).filter (· ≠ "")).getD v.defaultLabel

/-- Another program differs at most in the one name or note that the edit is about. -/
structure AnnotatedBy (p : Program) (edit : Edit) (q : Program) : Prop where
  vars : q.vars = p.vars
  constraints : q.constraints = p.constraints
  objective : q.objective = p.objective
  variable_name : ∀ id, (∀ name, edit ≠ .nameVariable id name) → q.variableName? id = p.variableName? id
  label : ∀ id, (∀ name, edit ≠ .nameVariable id name) → q.label id = p.label id
  variable_note : ∀ id, (∀ note, edit ≠ .noteVariable id note) → q.variableNote? id = p.variableNote? id
  constraint_name : ∀ id, (∀ name, edit ≠ .nameConstraint id name) → q.constraintName id = p.constraintName id
  constraint_note : ∀ id, (∀ note, edit ≠ .noteConstraint id note) →
    q.constraintNote? id = p.constraintNote? id

variable {p : Program}

theorem WrittenBy.remembers {es : List Edit} (h : p.WrittenBy es) : p.Remembers es := by
  have hvar : p.variableNotes = _ := h .var
  have hcon : p.constraintNotes = _ := h .con
  constructor
  case variable_name => intro id; rw [variableName?, hvar, Annotations.name?_written]
  case variable_note => intro id; rw [variableNote?, hvar, Annotations.note?_written]
  case constraint_name => intro id; rw [constraintName, hcon, Annotations.name?_written]
  case constraint_note => intro id; rw [constraintNote?, hcon, Annotations.note?_written]
  case find_variable => intro s; rw [findVariable?, hvar]; exact Annotations.finds_written _ s
  case find_constraint => intro s; rw [findConstraint?, hcon]; exact Annotations.finds_written _ s
  case label =>
    intro id
    rw [label, variableName?, hvar, Annotations.name?_written]
    congr 1
    funext v
    cases Remark.lastName (es.filterMap (Edit.remark? .var)) id with
    | none => rfl
    | some s => by_cases hs : s = "" <;> simp [hs, Option.filter]

end Program

namespace Edit
variable {p : Program} {edit : Edit}

theorem annotations_apply {r : Answer × Program} (h : edit.apply p = .ok r) (kind : Entity) :
    r.2.annotations kind = (edit.remark? kind).toList.foldl Annotations.write (p.annotations kind) := by
  cases apply_eq_ok.mp h <;> cases kind <;> rfl

/-- Naming and noting needs nothing but the entity; the name may be taken already. -/
theorem accepted_remark_iff {kind : Entity} {w : Remark kind} (h : edit.remark? kind = some w) :
    (edit.run p).1.Accepted ↔ p.has w.id = true := by
  rw [accepted_run_iff]
  cases kind <;> cases edit <;> cases h
  all_goals
    constructor
    · rintro ⟨r, hr⟩
      cases apply_eq_ok.mp hr
      assumption
    · exact fun hid => ⟨_, apply_eq_ok.mpr (by constructor; exact hid)⟩

section Kept
variable {r : Answer × Program} (hr : edit.apply p = .ok r) (kind : Entity) {id : EntityId kind}
include hr

/-- An entity keeps its name in an edit that gives it none. -/
theorem name?_apply (h : ∀ name, edit ≠ (Remark.name id name).edit) :
    (r.2.annotations kind).name? id = (p.annotations kind).name? id := by
  rw [annotations_apply hr]
  cases hw : edit.remark? kind with
  | none => rfl
  | some w =>
    have hnone : w.nameOf? id = none := by
      cases w with
      | name i s => exact if_neg fun hi : i = id => h s (hi ▸ remark?_eq_some.mp hw)
      | note => rfl
    simp [Annotations.name?_write, hnone]

theorem note?_apply (h : ∀ note, edit ≠ (Remark.note id note).edit) :
    (r.2.annotations kind).note? id = (p.annotations kind).note? id := by
  rw [annotations_apply hr]
  cases hw : edit.remark? kind with
  | none => rfl
  | some w =>
    have hnone : w.noteOf? id = none := by
      cases w with
      | name => rfl
      | note i j => exact if_neg fun hi : i = id => h j (hi ▸ remark?_eq_some.mp hw)
    simp [Annotations.note?_write, hnone]

end Kept

theorem annotatedBy_run {kind : Entity} {w : Remark kind} (h : edit.remark? kind = some w) :
    p.AnnotatedBy edit (edit.run p).2 := by
  rcases edit.run_cases p with ⟨r, hr, hq⟩ | ⟨_, -, hq⟩ <;> rw [hq]
  · obtain ⟨hvars, hconstraints, hobjective⟩ : r.2.vars = p.vars ∧ r.2.constraints = p.constraints ∧
        r.2.objective = p.objective := by
      cases kind <;> cases edit <;> cases h <;> cases apply_eq_ok.mp hr <;> exact ⟨rfl, rfl, rfl⟩
    have hname : ∀ id, (∀ name, edit ≠ .nameVariable id name) → r.2.variableName? id = p.variableName? id :=
      fun _ => name?_apply hr .var
    refine ⟨hvars, hconstraints, hobjective, hname, fun id hid => ?_, fun _ => note?_apply hr .var,
      fun _ hid => congrArg (Option.getD · "") (name?_apply hr .con hid), fun _ => note?_apply hr .con⟩
    rw [Program.label, Program.label, hname id hid, Program.getVariable, Program.getVariable, hvars]
  · exact ⟨rfl, rfl, rfl, fun _ _ => rfl, fun _ _ => rfl, fun _ _ => rfl, fun _ _ => rfl, fun _ _ => rfl⟩

end Edit

/-- Keeps the accepted edits behind each program. A copy starts with those of the program it was made of. -/
def Turn.record (pasts : Array (List Edit)) (t : Turn) : Array (List Edit) :=
  match t.command, t.result with
  | .create, _ => pasts.push []
  | .edit n e, some (.ok _) => pasts.modify n (· ++ [e])
  | .copy n, some (.ok _) => pasts.push (pasts[n]?.getD [])
  | _, _ => pasts

namespace Session

/-- The accepted edits behind each program of a run. -/
def pasts (cs : List Command) : Array (List Edit) := (turns {} cs).foldl Turn.record #[[]]

/-- The tables of each program are those that the edits behind it have written. -/
structure Recorded (s : Session) (pasts : Array (List Edit)) : Prop where
  size : pasts.size = s.programs.size
  written : ∀ {n : Nat} {p : Program} {es : List Edit}, s.programs[n]? = some p → pasts[n]? = some es →
    p.WrittenBy es

variable {s : Session} {past : Array (List Edit)}

theorem Recorded.push (h : s.Recorded past) {p : Program} {es : List Edit} (hp : p.WrittenBy es) :
    (s.push p).Recorded (past.push es) where
  size := by simp [Session.push, h.size]
  written {n q fs} hq hfs := by
    rw [Session.push, Array.getElem?_push] at hq
    rw [Array.getElem?_push, h.size] at hfs
    split_ifs at hq hfs with hn
    · obtain rfl := Option.some.inj hq
      obtain rfl := Option.some.inj hfs
      exact hp
    · exact h.written hq hfs

/-- An accepted edit is added to the past of its program, and what it writes to the tables. -/
theorem Recorded.edit (h : s.Recorded past) (n : Nat) (e : Edit) :
    (s.step (.edit n e)).2.Recorded ((s.turn (.edit n e)).record past) := by
  cases hn : s.programs[n]? with
  | none =>
    have hstep : s.step (.edit n e) = (⟨none, []⟩, s) := by simp [Session.step, withProgram, hn]
    rw [turn, hstep]
    exact h
  | some p =>
    have hlt := (Array.getElem?_eq_some_iff.mp hn).1
    rw [turn, step_edit hn]
    cases he : e.apply p with
    | error cause =>
      have hrun : e.run p = (⟨some (.error cause), e.events (.error cause)⟩, p) := by rw [Edit.run, he]; rfl
      rw [hrun]
      refine ⟨by simpa [Turn.record] using h.size, fun {m q es} hq hes => h.written ?_ hes⟩
      rw [Array.getElem?_setIfInBounds] at hq
      split_ifs at hq with hm
      · rw [← hm, hn, hq]
      · exact hq
    | ok r =>
      have hrun : e.run p = (⟨some (.ok r.1), e.events (.ok r)⟩, r.2) := by rw [Edit.run, he]; rfl
      rw [hrun]
      refine ⟨by simpa [Turn.record] using h.size, fun {m q fs} hq hfs kind => ?_⟩
      rw [Array.getElem?_setIfInBounds] at hq
      rw [Turn.record, Array.getElem?_modify] at hfs
      split_ifs at hq hfs with hm
      · obtain ⟨es, hes, rfl⟩ := Option.map_eq_some_iff.mp hfs
        obtain rfl := Option.some.inj hq
        rw [Edit.annotations_apply he, h.written (hm ▸ hn) hes]
        cases hkind : e.remark? kind <;> simp [Annotations.written, hkind]
      · exact h.written hq hfs kind

theorem Recorded.step (h : s.Recorded past) (c : Command) :
    (s.step c).2.Recorded ((s.turn c).record past) := by
  cases c with
  | create => exact h.push fun kind => by cases kind <;> rfl
  | edit n e => exact h.edit n e
  | ask n q =>
    rw [turn, Session.step]
    rcases s.withProgram_cases n _ with ⟨_, -, hact⟩ | ⟨-, hact⟩ <;> rw [hact] <;> exact h
  | inspect n options =>
    rw [turn, Session.step]
    rcases s.withProgram_cases n _ with ⟨_, -, hact⟩ | ⟨-, hact⟩ <;> rw [hact] <;> exact h
  | copy n =>
    rw [turn, Session.step]
    rcases s.withProgram_cases n _ with ⟨p, hp, hact⟩ | ⟨-, hact⟩ <;> rw [hact]
    · have hn : n < past.size := h.size ▸ (Array.getElem?_eq_some_iff.mp hp).1
      refine h.push fun kind => ?_
      rw [Array.getElem?_eq_getElem hn, Option.getD_some, ← h.written hp (Array.getElem?_eq_getElem hn)]
      cases kind <;> rfl
    · exact h

theorem Recorded.run (h : s.Recorded past) (cs : List Command) :
    (s.run cs).2.Recorded ((s.turns cs).foldl Turn.record past) := by
  induction cs generalizing s past with
  | nil => exact h
  | cons c cs ih => exact ih (h.step c)

theorem recorded_start : Recorded {} #[[]] where
  size := rfl
  written {n p es} hp hes kind := by
    obtain rfl := eq_empty_of_mem (Array.mem_of_getElem? hp)
    obtain rfl : es = [] := by simpa using Array.mem_of_getElem? hes
    cases kind <;> rfl

end Session

/-- What can be read from a program about names and notes is what was written last, by the edits accepted in
it and in the program it was copied from; and naming or noting an entity does nothing else. -/
theorem last_remark_remembered (cs : List Command) {n : Nat} {p : Program}
    (h : (Session.run {} cs).2.programs[n]? = some p) :
    (∃ es, (Session.pasts cs)[n]? = some es ∧ p.Remembers es) ∧
    ∀ (kind : Entity) (edit : Edit) (w : Remark kind), edit.remark? kind = some w →
      ((edit.run p).1.Accepted ↔ p.has w.id = true) ∧ p.AnnotatedBy edit (edit.run p).2 := by
  have hrecorded : (Session.run {} cs).2.Recorded (Session.pasts cs) := Session.recorded_start.run cs
  have hn : n < (Session.pasts cs).size := hrecorded.size ▸ (Array.getElem?_eq_some_iff.mp h).1
  refine ⟨⟨_, Array.getElem?_eq_getElem hn, ?_⟩, fun kind edit w hw => ?_⟩
  · exact (hrecorded.written h (Array.getElem?_eq_getElem hn)).remembers
  · exact ⟨Edit.accepted_remark_iff hw, Edit.annotatedBy_run hw⟩

/-- Two variables of one name, and a third that does not exist. In a copy the first gets an empty name. -/
def Command.renaming : List Command :=
  [.edit 0 .addBool, .edit 0 .addBool, .edit 0 (.nameVariable (.ofIndex 1) "x"),
    .edit 0 (.nameVariable (.ofIndex 0) "x"), .edit 0 (.nameVariable (.ofIndex 2) "y"), .copy 0,
    .edit 1 (.nameVariable (.ofIndex 0) "")]

theorem renaming_remembered : ∃ p, (Session.run {} Command.renaming).2.programs[1]? = some p ∧
    p.Remembers [.addBool, .addBool, .nameVariable (.ofIndex 1) "x", .nameVariable (.ofIndex 0) "x",
      .nameVariable (.ofIndex 0) ""] ∧
    p.findVariable? "x" = some (.ofIndex 1) ∧ p.label (.ofIndex 0) = .ok "B0" ∧
    ¬((Edit.nameVariable (.ofIndex 2) "y").run p).1.Accepted := by
  obtain ⟨⟨es, hes, hremembers⟩, hwrites⟩ := last_remark_remembered Command.renaming (n := 1) rfl
  obtain rfl := Option.some.inj hes
  refine ⟨_, rfl, hremembers, rfl, (hremembers.label _).trans rfl, ?_⟩
  rw [(hwrites .var (.nameVariable (.ofIndex 2) "y") (.name (.ofIndex 2) "y") rfl).1]
  decide

end MixedProgram
