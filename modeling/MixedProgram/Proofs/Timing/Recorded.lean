import Mathlib
import MixedProgram.Timing.Recorder

/-! What a recorder holds.
Stages begin and end in any order, overlap, and need not end at all. What a mark is answered with depends only
on the marks before it, and the record is the list of the measurements that were answered. -/
namespace MixedProgram.Timing

section Measurements

/-- A measurement without any memory size. -/
def Measurement.Unmeasured (m : Measurement) : Prop :=
  m.rssBefore = none ∧ m.rssAfter = none ∧ m.rssGrowth = none

/-- The growth is known if both sizes are, and is then their difference as signed words. -/
structure Measurement.Grown (m : Measurement) : Prop where
  known : m.rssGrowth.isSome ↔ m.rssBefore.isSome ∧ m.rssAfter.isSome
  difference : ∀ earlier later, m.rssBefore = some earlier → m.rssAfter = some later →
    m.rssGrowth = some (later.toInt64 - earlier.toInt64)

/-- A stage of the given name that lasts from one reading to another: the time between them, and the sizes at
both ends if memory is tracked. -/
structure Measurement.Spans (tracks : Bool) (stage : String) (before after : Reading)
    (m : Measurement) : Prop where
  name : m.stage = stage
  nanoseconds : m.nanoseconds = after.clock - before.clock
  rssBefore : m.rssBefore = if tracks then before.rss else none
  rssAfter : m.rssAfter = if tracks then after.rss else none
  grown : m.Grown

theorem Measurement.grown_between (tracks : Bool) (stage : String) (before after : Reading) :
    (Measurement.between tracks stage before after).Grown := by
  simp only [between]
  cases (if tracks then before.rss else none) with
  | none => exact ⟨by simp [Memory.growth?], nofun⟩
  | some earlier =>
    cases (if tracks then after.rss else none) with
    | none => exact ⟨by simp [Memory.growth?], nofun⟩
    | some later =>
      refine ⟨by simp [Memory.growth?], ?_⟩
      rintro _ _ ⟨⟩ ⟨⟩
      rfl

theorem Measurement.spans_between (tracks : Bool) (stage : String) (before after : Reading) :
    (Measurement.between tracks stage before after).Spans tracks stage before after :=
  ⟨rfl, rfl, rfl, rfl, grown_between ..⟩

theorem Measurement.Spans.unmeasured {m : Measurement} {stage : String} {before after : Reading}
    (h : m.Spans false stage before after) : m.Unmeasured := by
  refine ⟨h.rssBefore, h.rssAfter, Option.not_isSome_iff_eq_none.mp fun hsome => ?_⟩
  have hbefore := (h.grown.known.mp hsome).1
  rw [h.rssBefore] at hbefore
  cases hbefore

/-- A recorder that does not track memory and has not done so. -/
def Recorder.Untracked (r : Recorder) : Prop := r.trackMemory = false ∧ ∀ m ∈ r.stages.toList, m.Unmeasured

theorem Recorder.Untracked.record {r : Recorder} (h : r.Untracked) (stage : String) (before after : Reading) :
    (r.record (r.measure (r.begin stage before) after)).Untracked := by
  refine ⟨h.1, fun m hm => ?_⟩
  rw [Recorder.record, Array.toList_push, List.mem_append, List.mem_singleton] at hm
  rcases hm with hm | rfl
  · exact h.2 m hm
  · rw [Recorder.measure, h.1]
    exact (Measurement.spans_between ..).unmeasured

theorem Recorder.totalNanoseconds_eq (r : Recorder) :
    r.totalNanoseconds = (r.stages.toList.map (·.nanoseconds)).sum := by
  rw [totalNanoseconds, ← Array.foldl_toList, List.sum_eq_foldl, List.foldl_map]

theorem Recorder.measure_begin (r : Recorder) (stage : String) (before after : Reading) :
    r.measure (r.begin stage before) after = .between r.trackMemory stage before after := by
  rw [measure, begin]
  cases r.trackMemory <;> rfl

end Measurements

section Histories
variable {hs more : List (Reading × Mark)} {now : Reading} {mark : Mark} {h : Nat}

/-- The stages begun with their first readings. The handle of a stage is its place among them. -/
def begun (hs : List (Reading × Mark)) : List (String × Reading) :=
  hs.filterMap fun x => match x.2 with
    | .begin stage => some (stage, x.1)
    | .finish _ => none

/-- A stage with the handle had begun when the handle was ended. -/
def Ended (hs : List (Reading × Mark)) (h : Nat) : Prop :=
  ∃ before now after, hs = before ++ (now, .finish h) :: after ∧ h < (begun before).length

lemma begun_begin (stage : String) : begun (hs ++ [(now, .begin stage)]) = begun hs ++ [(stage, now)] := by
  simp [begun]

lemma begun_finish : begun (hs ++ [(now, .finish h)]) = begun hs := by
  simp [begun]

lemma ended_nil : ¬Ended [] h := by
  rintro ⟨before, _, after, heq, -⟩
  cases before <;> cases heq

lemma ended_snoc : Ended (hs ++ [(now, mark)]) h ↔ Ended hs h ∨ mark = .finish h ∧ h < (begun hs).length := by
  constructor
  · rintro ⟨before, time, after, heq, hlt⟩
    rcases after.eq_nil_or_concat with rfl | ⟨after, last, rfl⟩
    · obtain ⟨rfl, hlast⟩ := List.append_inj' heq rfl
      cases hlast
      exact .inr ⟨rfl, hlt⟩
    · rw [List.concat_eq_append, ← List.cons_append, ← List.append_assoc] at heq
      obtain ⟨rfl, -⟩ := List.append_inj' heq rfl
      exact .inl ⟨before, time, after, rfl, hlt⟩
  · rintro (⟨before, time, after, rfl, hlt⟩ | ⟨rfl, hlt⟩)
    · exact ⟨before, time, after ++ [(now, mark)], by simp, hlt⟩
    · exact ⟨hs, now, [], rfl, hlt⟩

lemma ended_begin {stage : String} : Ended (hs ++ [(now, .begin stage)]) h ↔ Ended hs h := by
  rw [ended_snoc]
  simp

lemma Ended.lt (hended : Ended hs h) : h < (begun hs).length := by
  obtain ⟨before, _, _, rfl, hlt⟩ := hended
  rw [begun, List.filterMap_append, List.length_append]
  exact Nat.lt_add_right _ hlt

/-- The answer to a mark after the marks before it: a handle to a stage that begins, a measurement and one
event to the first end of a stage, and nothing to the end of any other handle. -/
inductive Answers (tracks : Bool) (hs : List (Reading × Mark)) (now : Reading) : Mark → MarkReply → Prop
  | opened (stage : String) : Answers tracks hs now (.begin stage) (.opened (begun hs).length)
  | finished {h : Nat} {stage : String} {start : Reading} {m : Measurement} {event : Event}
      (hbegun : (begun hs)[h]? = some (stage, start)) (hopen : ¬Ended hs h)
      (hspans : m.Spans tracks stage start now) (hevent : event =
        { level := .trace
          component := "measure"
          operation := "end_stage"
          status := .success
          details := [("stage", .string stage)]
          message := "Stage finished" }) :
      Answers tracks hs now (.finish h) (.finished m event)
  | noHandle {h : Nat} (hclosed : (begun hs).length ≤ h ∨ Ended hs h) :
      Answers tracks hs now (.finish h) .noHandle

def MarkReply.measurement? : MarkReply → Option Measurement
  | finished m _ => some m
  | _ => none

/-- The handle that is ended by a mark with the given answer. -/
def ending? : Mark → MarkReply → Option Nat
  | .finish h, .finished .. => some h
  | _, _ => none

/-- The handles that are ended, in order. -/
def endings (hs : List (Reading × Mark)) (replies : List MarkReply) : List Nat :=
  (hs.zip replies).filterMap fun x => ending? x.1.2 x.2

lemma endings_snoc {replies : List MarkReply} {reply : MarkReply} (hlength : replies.length = hs.length) :
    endings (hs ++ [(now, mark)]) (replies ++ [reply]) =
      endings hs replies ++ (ending? mark reply).toList := by
  rw [endings, List.zip_append hlength.symm, List.filterMap_append]
  cases hreply : ending? mark reply <;> simp [endings, hreply]

/-- The measurement of a handle: from its begin to its first end, under the name given at its begin. -/
def Measures (tracks : Bool) (hs : List (Reading × Mark)) (h : Nat) (m : Measurement) : Prop :=
  ∃ before now after stage start, hs = before ++ (now, .finish h) :: after ∧ ¬Ended before h ∧
    (begun before)[h]? = some (stage, start) ∧ m.Spans tracks stage start now

lemma Measures.snoc {tracks : Bool} {m : Measurement} (hm : Measures tracks hs h m) (x : Reading × Mark) :
    Measures tracks (hs ++ [x]) h m := by
  obtain ⟨before, now, after, stage, start, rfl, hopen, hbegun, hspans⟩ := hm
  exact ⟨before, now, after ++ [x], stage, start, by simp, hopen, hbegun, hspans⟩

/-- A mark ends a handle the first time. -/
lemma Answers.ending?_eq_some_iff {tracks : Bool} {reply : MarkReply}
    (ha : Answers tracks hs now mark reply) :
    ending? mark reply = some h ↔ mark = .finish h ∧ h < (begun hs).length ∧ ¬Ended hs h := by
  cases ha with
  | opened stage => simp [ending?]
  | finished hbegun hopen hspans hevent =>
    have hlt := (List.getElem?_eq_some_iff.mp hbegun).1
    simp only [ending?, Option.some.injEq, Mark.finish.injEq]
    exact ⟨fun heq => heq ▸ ⟨rfl, hlt, hopen⟩, fun heq => heq.1⟩
  | noHandle hclosed =>
    simp only [ending?, Mark.finish.injEq, reduceCtorEq, false_iff]
    rintro ⟨rfl, hlt, hopen⟩
    exact hclosed.elim (fun hle => by omega) hopen

end Histories

namespace Recording
variable {tracks : Bool} {hs more : List (Reading × Mark)} {r : Recording}

/-- What a recording knows of its history: which stages have not ended, at their places. -/
structure Keeps (tracks : Bool) (hs : List (Reading × Mark)) (r : Recording) : Prop where
  tracking : r.recorder.trackMemory = tracks
  size : r.starts.size = (begun hs).length
  start : ∀ h stage start, (begun hs)[h]? = some (stage, start) → ¬Ended hs h →
    r.starts[h]? = some (some (r.recorder.begin stage start))
  ended : ∀ h, Ended hs h → r.starts[h]? = some none

/-- One answer is right, what is known stays right, and a measurement that is answered is recorded. -/
structure Advances (tracks : Bool) (hs : List (Reading × Mark)) (now : Reading) (mark : Mark) (r : Recording)
    (reply : MarkReply) (next : Recording) : Prop where
  answers : Answers tracks hs now mark reply
  keeps : next.Keeps tracks (hs ++ [(now, mark)])
  stages : next.recorder.stages.toList = r.recorder.stages.toList ++ reply.measurement?.toList

theorem Keeps.advances_begin (h : r.Keeps tracks hs) (now : Reading) (stage : String) :
    Advances tracks hs now (.begin stage) r (.opened r.starts.size)
      { r with starts := r.starts.push (some (r.recorder.begin stage now)) } where
  answers := h.size ▸ .opened stage
  keeps :=
    { tracking := h.tracking
      size := by simp [begun_begin, h.size]
      start := by
        intro k name start hbegun hopen
        rw [ended_begin] at hopen
        rw [begun_begin, List.getElem?_append] at hbegun
        rw [Array.getElem?_push, h.size]
        split_ifs at hbegun with hlt
        · rw [if_neg hlt.ne]
          exact h.start k name start hbegun hopen
        · cases hk : k - (begun hs).length with
          | zero =>
            rw [hk] at hbegun
            cases hbegun
            rw [if_pos (by omega)]
          | succ n =>
            rw [hk] at hbegun
            cases hbegun
      ended := by
        intro k hended
        rw [ended_begin] at hended
        rw [Array.getElem?_push, h.size, if_neg hended.lt.ne]
        exact h.ended k hended }
  stages := by simp [MarkReply.measurement?]

theorem Keeps.advances_finish {k : Nat} {stage : String} {start : Reading}
    (h : r.Keeps tracks hs) (now : Reading)
    (hbegun : (begun hs)[k]? = some (stage, start)) (hopen : ¬Ended hs k) :
    Advances tracks hs now (.finish k) r (.finished (.between tracks stage start now) (finishedEvent stage))
      ⟨r.recorder.record (.between tracks stage start now), r.starts.setIfInBounds k none⟩ where
  answers := .finished hbegun hopen (Measurement.spans_between ..) rfl
  keeps :=
    { tracking := h.tracking
      size := by simp [begun_finish, h.size]
      start := by
        intro j name first hj hnot
        rw [begun_finish] at hj
        rw [ended_snoc, not_or] at hnot
        have hne : k ≠ j := by
          rintro rfl
          exact hnot.2 ⟨rfl, (List.getElem?_eq_some_iff.mp hj).1⟩
        rw [Array.getElem?_setIfInBounds_ne hne]
        exact h.start j name first hj hnot.1
      ended := by
        intro j hended
        rcases ended_snoc.mp hended with hearlier | ⟨heq, hlt⟩
        · have hne : k ≠ j := by
            rintro rfl
            exact hopen hearlier
          rw [Array.getElem?_setIfInBounds_ne hne]
          exact h.ended j hearlier
        · cases heq
          exact Array.getElem?_setIfInBounds_self_of_lt (h.size ▸ hlt) }
  stages := by simp [MarkReply.measurement?, Recorder.record]

theorem Keeps.advances_noHandle {k : Nat} (h : r.Keeps tracks hs) (now : Reading)
    (hclosed : (begun hs).length ≤ k ∨ Ended hs k) : Advances tracks hs now (.finish k) r .noHandle r where
  answers := .noHandle hclosed
  keeps := by
    have hsame : ∀ j, Ended (hs ++ [(now, .finish k)]) j ↔ Ended hs j := by
      intro j
      rw [ended_snoc, or_iff_left_iff_imp]
      rintro ⟨heq, hlt⟩
      cases heq
      exact hclosed.resolve_left (by omega)
    exact
      { tracking := h.tracking
        size := by rw [begun_finish, h.size]
        start := by
          intro j name first hj hnot
          rw [begun_finish] at hj
          exact h.start j name first hj (mt (hsame j).mpr hnot)
        ended := fun j hended => h.ended j ((hsame j).mp hended) }
  stages := by simp [MarkReply.measurement?]

theorem Keeps.advances (h : r.Keeps tracks hs) (now : Reading) (mark : Mark) :
    Advances tracks hs now mark r (r.step now mark).1 (r.step now mark).2 := by
  cases mark with
  | begin stage => exact h.advances_begin now stage
  | finish k =>
    by_cases hended : Ended hs k
    · have hstep : r.step now (.finish k) = (.noHandle, r) := by rw [step, h.ended k hended]
      rw [hstep]
      exact h.advances_noHandle now (.inr hended)
    · cases hbegun : (begun hs)[k]? with
      | none =>
        have hle := List.getElem?_eq_none_iff.mp hbegun
        have hstep : r.step now (.finish k) = (.noHandle, r) := by
          rw [step, Array.getElem?_eq_none (by rw [h.size]; exact hle)]
        rw [hstep]
        exact h.advances_noHandle now (.inl hle)
      | some first =>
        obtain ⟨stage, start⟩ := first
        have hstep : r.step now (.finish k) =
            (.finished (.between tracks stage start now) (finishedEvent stage),
              ⟨r.recorder.record (.between tracks stage start now), r.starts.setIfInBounds k none⟩) := by
          rw [step, h.start k stage start hbegun hended]
          simp only [Recorder.measure_begin, h.tracking]
          rfl
        rw [hstep]
        exact h.advances_finish now hbegun hended

/-- All answers, and the recording that is left. -/
def run (r : Recording) : List (Reading × Mark) → List MarkReply × Recording
  | [] => ([], r)
  | (now, mark) :: rest =>
    let (reply, next) := r.step now mark
    let (replies, last) := next.run rest
    (reply :: replies, last)

theorem run_append (r : Recording) (hs more : List (Reading × Mark)) :
    r.run (hs ++ more) = ((r.run hs).1 ++ ((r.run hs).2.run more).1, ((r.run hs).2.run more).2) := by
  induction hs generalizing r with
  | nil => rfl
  | cons x rest ih => simp [run, ih]

theorem run_singleton (r : Recording) (now : Reading) (mark : Mark) :
    r.run [(now, mark)] = ([(r.step now mark).1], (r.step now mark).2) := rfl

theorem length_run (r : Recording) (hs : List (Reading × Mark)) : (r.run hs).1.length = hs.length := by
  induction hs generalizing r with
  | nil => rfl
  | cons x rest ih => simp [run, ih]

/-- A recording without any stage. -/
def fresh (tracks : Bool) : Recording := ⟨{ trackMemory := tracks }, #[]⟩

theorem keeps_fresh (tracks : Bool) : (fresh tracks).Keeps tracks [] where
  tracking := rfl
  size := rfl
  start := nofun
  ended _ hended := absurd hended ended_nil

theorem keeps_run (tracks : Bool) (hs : List (Reading × Mark)) :
    ((fresh tracks).run hs).2.Keeps tracks hs := by
  induction hs using List.reverseRecOn with
  | nil => exact keeps_fresh tracks
  | append_singleton hs x ih =>
    rw [run_append]
    exact (ih.advances x.1 x.2).keeps

theorem stages_run (tracks : Bool) (hs : List (Reading × Mark)) :
    ((fresh tracks).run hs).2.recorder.stages.toList =
      ((fresh tracks).run hs).1.filterMap (·.measurement?) := by
  induction hs using List.reverseRecOn with
  | nil => rfl
  | append_singleton hs x ih =>
    have hstages := ((keeps_run tracks hs).advances x.1 x.2).stages
    rw [run_append, run_singleton, List.filterMap_append, ← ih, hstages]
    cases hreply : (((fresh tracks).run hs).2.step x.1 x.2).1.measurement? <;> simp [hreply]

theorem endings_run (tracks : Bool) (hs : List (Reading × Mark)) :
    (endings hs ((fresh tracks).run hs).1).Nodup ∧
      ∀ h, h ∈ endings hs ((fresh tracks).run hs).1 ↔ Ended hs h := by
  induction hs using List.reverseRecOn with
  | nil => exact ⟨List.nodup_nil, fun h => iff_of_false List.not_mem_nil ended_nil⟩
  | append_singleton hs x ih =>
    obtain ⟨now, mark⟩ := x
    obtain ⟨hnodup, hmem⟩ := ih
    have hanswers := ((keeps_run tracks hs).advances now mark).answers
    rw [run_append, run_singleton, endings_snoc (length_run _ hs)]
    generalize (((fresh tracks).run hs).2.step now mark).1 = reply at hanswers ⊢
    have hending := fun h => hanswers.ending?_eq_some_iff (h := h)
    have hone : (ending? mark reply).toList.Nodup := by cases ending? mark reply <;> simp
    refine ⟨hnodup.append hone fun h hin hlast => ?_, fun h => ?_⟩
    · exact ((hending h).mp (Option.mem_toList.mp hlast)).2.2 ((hmem h).mp hin)
    · rw [List.mem_append, hmem, Option.mem_toList, hending, ended_snoc]
      tauto

/-- One entry for each handle that is ended, in the same order. -/
theorem measures_run (tracks : Bool) (hs : List (Reading × Mark)) :
    List.Forall₂ (Measures tracks hs) (endings hs ((fresh tracks).run hs).1)
      ((fresh tracks).run hs).2.recorder.stages.toList := by
  induction hs using List.reverseRecOn with
  | nil => exact .nil
  | append_singleton hs x ih =>
    obtain ⟨now, mark⟩ := x
    have hnext := (keeps_run tracks hs).advances now mark
    have hanswers := hnext.answers
    rw [run_append, run_singleton, endings_snoc (length_run _ hs), hnext.stages]
    generalize (((fresh tracks).run hs).2.step now mark).1 = reply at hanswers ⊢
    refine List.rel_append (ih.imp fun _ _ hm => hm.snoc _) ?_
    cases hanswers with
    | finished hbegun hopen hspans hevent => exact .cons ⟨hs, now, [], _, _, rfl, hopen, hbegun, hspans⟩ .nil
    | _ => exact .nil

theorem spans_of_mem_run {m : Measurement} (hm : m ∈ ((fresh tracks).run hs).2.recorder.stages.toList) :
    ∃ stage before after, m.Spans tracks stage before after := by
  obtain ⟨i, hi, rfl⟩ := List.mem_iff_getElem.mp hm
  obtain ⟨hlength, hentries⟩ := List.forall₂_iff_get.mp (measures_run tracks hs)
  obtain ⟨-, now, -, stage, start, -, -, -, hspans⟩ := hentries i (hlength ▸ hi) hi
  exact ⟨stage, start, now, hspans⟩

/-- What every mark is answered with, which handles are ended, and that the record is the list of the
measurements among the answers, one for each ended handle. -/
structure Faithful (tracks : Bool) (hs : List (Reading × Mark)) (replies : List MarkReply)
    (recorder : Recorder) : Prop where
  length : replies.length = hs.length
  answers : ∀ before now mark after, hs = before ++ (now, mark) :: after →
    ∃ reply, replies[before.length]? = some reply ∧ Answers tracks before now mark reply
  recorder_eq : recorder = ⟨tracks, (replies.filterMap (·.measurement?)).toArray⟩
  nodup_endings : (endings hs replies).Nodup
  mem_endings : ∀ h, h ∈ endings hs replies ↔ Ended hs h
  measures : List.Forall₂ (Measures tracks hs) (endings hs replies) recorder.stages.toList
  total : recorder.totalNanoseconds = ((replies.filterMap (·.measurement?)).map (·.nanoseconds)).sum
  grown : ∀ m ∈ recorder.stages.toList, m.Grown
  unmeasured : tracks = false → ∀ m ∈ recorder.stages.toList, m.Unmeasured

theorem faithful_run (tracks : Bool) (hs : List (Reading × Mark)) :
    Faithful tracks hs ((fresh tracks).run hs).1 ((fresh tracks).run hs).2.recorder where
  length := length_run _ hs
  answers := by
    rintro before now mark after rfl
    refine ⟨_, ?_, ((keeps_run tracks before).advances now mark).answers⟩
    rw [run_append, List.getElem?_append_right (length_run _ before).le, length_run, Nat.sub_self]
    rfl
  recorder_eq := by
    rw [← stages_run, Array.toArray_toList]
    exact congrArg (Recorder.mk · _) (keeps_run tracks hs).tracking
  nodup_endings := (endings_run tracks hs).1
  mem_endings := (endings_run tracks hs).2
  measures := measures_run tracks hs
  total := by rw [Recorder.totalNanoseconds_eq, stages_run]
  grown m hm := by
    obtain ⟨stage, before, after, hspans⟩ := spans_of_mem_run hm
    exact hspans.grown
  unmeasured htracks m hm := by
    subst htracks
    obtain ⟨stage, before, after, hspans⟩ := spans_of_mem_run hm
    exact hspans.unmeasured

/-- However stages are begun and ended, the record is faithful, a stage that begins leaves it as it is, and
what was answered and recorded is never changed. -/
theorem history_recorded (tracks : Bool) (hs more : List (Reading × Mark)) :
    Faithful tracks hs ((fresh tracks).run hs).1 ((fresh tracks).run hs).2.recorder ∧
    (∀ now stage, ((fresh tracks).run (hs ++ [(now, .begin stage)])).2.recorder =
      ((fresh tracks).run hs).2.recorder) ∧
    ((fresh tracks).run hs).1 <+: ((fresh tracks).run (hs ++ more)).1 ∧
    ((fresh tracks).run hs).2.recorder.stages.toList <+:
      ((fresh tracks).run (hs ++ more)).2.recorder.stages.toList := by
  have hreplies : ((fresh tracks).run hs).1 <+: ((fresh tracks).run (hs ++ more)).1 := by
    rw [run_append]
    exact List.prefix_append ..
  refine ⟨faithful_run tracks hs, fun now stage => ?_, hreplies, ?_⟩
  · rw [run_append]
    rfl
  · rw [stages_run, stages_run]
    exact hreplies.filterMap _

/-- The stage that begins last ends first, and no stage ends twice. -/
example :
    let r := (fresh false).run [(⟨1, none⟩, .begin "outer"), (⟨2, none⟩, .begin "inner"),
      (⟨5, none⟩, .finish 1), (⟨9, none⟩, .finish 0), (⟨10, none⟩, .finish 1)]
    r.2.recorder.stages.toList.map (fun m => (m.stage, m.nanoseconds)) =
      [("inner", 3), ("outer", 8)] := by decide

end Recording
end MixedProgram.Timing
