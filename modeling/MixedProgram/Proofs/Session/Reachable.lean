import MixedProgram.Proofs.Session.Accepted

/-! The programs that runs of a session arrive at.
A property of every such program is shown of the empty program, of what an accepted edit leaves and of a
copy. -/
namespace MixedProgram

theorem exists_of_mem_modify {α : Type} {xs : Array α} {i : Nat} {f : α → α} {x : α}
    (h : x ∈ xs.modify i f) : ∃ y ∈ xs, x = y ∨ x = f y := by
  obtain ⟨j, hj, rfl⟩ := Array.mem_iff_getElem.mp h
  rw [Array.size_modify] at hj
  refine ⟨xs[j], Array.getElem_mem hj, ?_⟩
  rw [Array.getElem_modify]
  split_ifs
  · exact .inr rfl
  · exact .inl rfl

namespace Edit

/-- Edits of one program in order, with all replies. -/
def runAll (p : Program) : List Edit → List Reply × Program
  | [] => ([], p)
  | e :: es => ((e.run p).1 :: (runAll (e.run p).2 es).1, (runAll (e.run p).2 es).2)

@[simp] theorem runAll_nil (p : Program) : runAll p [] = ([], p) := rfl

@[simp] theorem runAll_cons (p : Program) (e : Edit) (es : List Edit) :
    runAll p (e :: es) = ((e.run p).1 :: (runAll (e.run p).2 es).1, (runAll (e.run p).2 es).2) := rfl

/-- An edit leaves the program it was accepted with, or else the one before. -/
theorem run_cases (p : Program) (e : Edit) :
    (∃ r, e.apply p = .ok r ∧ (e.run p).2 = r.2) ∨ ∃ cause, e.apply p = .error cause ∧ (e.run p).2 = p := by
  unfold run
  cases h : e.apply p with
  | ok r => exact .inl ⟨r, rfl, rfl⟩
  | error cause => exact .inr ⟨cause, rfl, rfl⟩

end Edit

namespace Session

/-- A session starts with one program, which is empty. -/
theorem eq_empty_of_mem {p : Program} (h : p ∈ ({} : Session).programs) : p = {} := by
  simpa using h

theorem withProgram_cases (s : Session) (n : Nat) (act : Program → Reply × Session) :
    (∃ p, s.programs[n]? = some p ∧ s.withProgram n act = act p) ∨
      (s.programs[n]? = none ∧ s.withProgram n act = (⟨none, []⟩, s)) := by
  unfold withProgram
  cases h : s.programs[n]? with
  | some p => exact .inl ⟨p, rfl, rfl⟩
  | none => exact .inr ⟨rfl, rfl⟩

theorem programs_step_edit (s : Session) (n : Nat) (e : Edit) :
    (s.step (.edit n e)).2.programs = s.programs.modify n fun p => (e.run p).2 := by
  rw [step]
  rcases s.withProgram_cases n _ with ⟨p, hp, hact⟩ | ⟨hp, hact⟩ <;> rw [hact]
  · obtain ⟨hn, rfl⟩ := Array.getElem?_eq_some_iff.mp hp
    change s.programs.setIfInBounds n (e.run s.programs[n]).2 = _
    refine Array.ext_getElem? fun i => ?_
    rw [Array.getElem?_setIfInBounds, Array.getElem?_modify]
    split_ifs with hi
    · subst hi; simp [hn]
    · rfl
  · refine Array.ext (by simp) fun i hi _ => ?_
    have hne : n ≠ i := by
      rintro rfl
      simp [Array.getElem?_eq_getElem hi] at hp
    rw [Array.getElem_modify, if_neg hne]

/-- Where the programs of a session come from in one step. -/
theorem mem_step {s : Session} {c : Command} {q : Program} (h : q ∈ (s.step c).2.programs) :
    q ∈ s.programs ∨ q = {} ∨ (∃ p ∈ s.programs, ∃ e r, Edit.apply p e = .ok r ∧ q = r.2) ∨
      ∃ p ∈ s.programs, q = p.copy := by
  cases c with
  | create => exact (Array.mem_push.mp h).imp_right .inl
  | edit n e =>
    rw [programs_step_edit] at h
    obtain ⟨p, hp, rfl | rfl⟩ := exists_of_mem_modify h
    · exact .inl hp
    · rcases e.run_cases p with ⟨r, hr, hq⟩ | ⟨_, -, hq⟩ <;> rw [hq]
      · exact .inr (.inr (.inl ⟨p, hp, e, r, hr, rfl⟩))
      · exact .inl hp
  | ask n _ =>
    rw [step] at h
    rcases s.withProgram_cases n _ with ⟨_, -, hact⟩ | ⟨-, hact⟩ <;> rw [hact] at h <;> exact .inl h
  | inspect n _ =>
    rw [step] at h
    rcases s.withProgram_cases n _ with ⟨_, -, hact⟩ | ⟨-, hact⟩ <;> rw [hact] at h <;> exact .inl h
  | copy n =>
    rw [step] at h
    rcases s.withProgram_cases n _ with ⟨p, hp, hact⟩ | ⟨-, hact⟩ <;> rw [hact] at h
    · rcases Array.mem_push.mp h with h | h
      · exact .inl h
      · exact .inr (.inr (.inr ⟨p, Array.mem_of_getElem? hp, h⟩))
    · exact .inl h

/-- What the empty program has, and edits and copies keep, all programs of a session keep. -/
theorem forall_run {P : Program → Prop} (empty : P {})
    (edit : ∀ p e r, P p → Edit.apply p e = .ok r → P r.2) (copy : ∀ p, P p → P p.copy)
    (cs : List Command) (s : Session) (hs : ∀ p ∈ s.programs, P p) :
    ∀ q ∈ (s.run cs).2.programs, P q := by
  induction cs generalizing s with
  | nil => exact hs
  | cons c cs ih =>
    refine ih (s.step c).2 fun q hq => ?_
    rcases mem_step hq with h | rfl | ⟨p, hp, e, r, he, rfl⟩ | ⟨p, hp, rfl⟩
    · exact hs q h
    · exact empty
    · exact edit p e r (hs p hp) he
    · exact copy p (hs p hp)

theorem step_edit {s : Session} {n : Nat} {p : Program} (h : s.programs[n]? = some p) (e : Edit) :
    s.step (.edit n e) = ((e.run p).1, ⟨s.programs.setIfInBounds n (e.run p).2⟩) := by
  simp [step, withProgram, h]

/-- Edits addressed to one program of a session run on that program and leave the others alone. -/
theorem run_edits {s : Session} {n : Nat} {p : Program} (h : s.programs[n]? = some p) (es : List Edit) :
    s.run (es.map (.edit n)) =
      ((Edit.runAll p es).1, ⟨s.programs.setIfInBounds n (Edit.runAll p es).2⟩) := by
  induction es generalizing s p with
  | nil =>
    obtain ⟨hn, rfl⟩ := Array.getElem?_eq_some_iff.mp h
    simp [Array.setIfInBounds, hn]
  | cons e es ih =>
    have hn : (Session.mk (s.programs.setIfInBounds n (e.run p).2)).programs[n]? = some (e.run p).2 := by
      simp [(Array.getElem?_eq_some_iff.mp h).1]
    rw [List.map_cons, run_cons, step_edit h, ih hn]
    simp

end Session

namespace Program

/-- Some run of commands from the start leaves the program in its session. -/
def Reachable (p : Program) : Prop := ∃ cs, p ∈ (Session.run {} cs).2.programs

@[elab_as_elim] theorem Reachable.induction {P : Program → Prop} (empty : P {})
    (edit : ∀ p e r, P p → Edit.apply p e = .ok r → P r.2) (copy : ∀ p, P p → P p.copy)
    {p : Program} (h : p.Reachable) : P p := by
  obtain ⟨cs, h⟩ := h
  refine Session.forall_run empty edit copy cs {} (fun q hq => ?_) p h
  rw [Session.eq_empty_of_mem hq]
  exact empty

theorem Reachable.empty : Reachable {} := ⟨[], by simp⟩

theorem Reachable.copy {p : Program} (h : p.Reachable) : p.copy.Reachable := by
  obtain ⟨cs, h⟩ := h
  obtain ⟨n, hn⟩ := Array.getElem?_of_mem h
  refine ⟨cs ++ [.copy n], ?_⟩
  simp [Session.run_append, Session.run_cons, Session.step, Session.withProgram, hn, Session.push]

theorem Reachable.runAll {p : Program} (h : p.Reachable) (es : List Edit) :
    (Edit.runAll p es).2.Reachable := by
  obtain ⟨cs, h⟩ := h
  obtain ⟨n, hn⟩ := Array.getElem?_of_mem h
  refine ⟨cs ++ es.map (.edit n), ?_⟩
  rw [Session.run_append, Session.run_edits hn]
  exact Array.mem_setIfInBounds (Array.getElem?_eq_some_iff.mp hn).1

end Program
end MixedProgram
