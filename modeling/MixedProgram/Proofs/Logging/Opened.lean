import MixedProgram.Proofs.Logging.Installed

/-! Which log files can be opened.
A path is followed to a file or to a place where there is nothing yet. A path that ends in a slash asks for a
directory, and so stands in the way of every installation. -/
namespace MixedProgram.Logging

theorem ite_error_eq_ok_iff {ε α : Type} {p : Prop} [Decidable p] {cause : ε} {x : Except ε α} {a : α} :
    (if p then .error cause else x) = .ok a ↔ ¬p ∧ x = .ok a := by
  split_ifs with h <;> simp [h]

namespace FileView
variable {v : FileView} {path : String} {place : Place}

theorem not_isDirectory_of_openIn {here : Position} {name : String} (h : v.openIn here name = .ok place) :
    v.isDirectory place = false := by
  rw [openIn] at h
  cases hnext : v.follow here name with
  | error cause => rw [hnext] at h; cases h
  | ok next =>
    simp only [hnext, bind, Except.bind, throw, throwThe, MonadExceptOf.throw, pure, Except.pure,
      ite_error_eq_ok_iff] at h
    obtain ⟨hdirectory, h⟩ := h
    obtain rfl : next.place = place := by
      split at h
      · exact Except.ok.inj h
      · split at h
        · cases h
        · exact Except.ok.inj (ite_error_eq_ok_iff.mp h).2
    simpa using hdirectory

/-- What is opened is not a directory, and the path to it does not end in a slash. -/
theorem of_locate_eq_ok (h : v.locate path = .ok place) :
    Path.endsInSlash path = false ∧ v.isDirectory place = false := by
  simp only [locate, bind, Except.bind, throw, throwThe, MonadExceptOf.throw] at h
  -- the path is not empty and not too long, it has a last name, and the names before that one are found
  split at h
  · cases h
  split at h
  · cases h
  split at h
  · cases h
  split at h
  · cases h
  obtain ⟨hnames, hopen⟩ := ite_error_eq_ok_iff.mp h
  rw [Bool.or_eq_true, not_or, Bool.not_eq_true, Bool.not_eq_true] at hnames
  exact ⟨hnames.2, not_isDirectory_of_openIn hopen⟩

theorem exists_place_of_access (h : v.access path = .ok ()) : ∃ place, v.locate path = .ok place := by
  rw [access, openable] at h
  cases hplace : v.locate path with
  | error cause => rw [hplace] at h; cases h
  | ok place => exact ⟨place, rfl⟩

end FileView

theorem quiet_of_refused {config : Call → Config} {calls : List Call} {attempts : List Attempt}
    (h : List.Forall₂ (fun call => (config call).Refused call.access) calls attempts) :
    ∀ a ∈ attempts, a.Quiet := by
  induction h with
  | nil => exact nofun
  | cons hrefused _ ih => exact List.forall_mem_cons.mpr ⟨hrefused.quiet, ih⟩

/-- Whatever there is where the calls are made, a log file whose path ends in a slash keeps all of them from
installing a logger. -/
theorem quiet_of_slash {e : Environment} {path : String} (hfile : e.logFile = some path)
    (hslash : Path.endsInSlash path = true) {calls : List Call}
    (hviews : ∀ call ∈ calls, ∃ v : FileView, call.access = v.access) :
    ∀ a ∈ enableEach e none calls, a.Quiet := by
  rcases e.formatted_or_unknown with ⟨format, h⟩ | ⟨text, h, hpretty, hjson⟩
  · refine quiet_of_refused ((h.course calls).refused fun call hcall filter hready => ?_)
    obtain ⟨v, hview⟩ := hviews call hcall
    have haccess : v.access path = .ok () := hview ▸ hready.2 path hfile
    obtain ⟨place, hplace⟩ := FileView.exists_place_of_access haccess
    have hname := (FileView.of_locate_eq_ok hplace).1
    rw [hslash] at hname
    cases hname
  · exact quiet_of_unknown h hpretty hjson calls

end MixedProgram.Logging
