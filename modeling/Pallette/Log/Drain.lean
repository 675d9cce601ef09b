import Mathlib.Data.List.Infix
import Pallette.Log.Rotation

/-!
# Drain — the lines `stop` leaves behind

`stop` clears `running_`, and the backend takes the buffers of the frontend once more only if it has
tested `running_` already and not swapped yet.  Between its swap and its next test, and before its
first one, it does not look at them again: what was appended in that window is never written.
-/

open Reasoning

namespace Pallette.AsyncLogging

variable {s t u : AsyncLogging} {l : Label}

/-- The backend has tested `running_`, and is on its way to the next swap. -/
def ToSwap (s : AsyncLogging) : Prop :=
  s.phase = .locking ∨ s.phase = .waiting

/-- The buffers of the frontend hold no byte. -/
def NothingWaits (s : AsyncLogging) : Prop :=
  contents s.buffers_ ++ contents [s.currentBuffer_] = []

/-- What the backend has taken from the frontend. -/
def taken (s : AsyncLogging) : Bytes :=
  s.output ++ contents s.unwritten

theorem Accounted.taken_append (h : Accounted s) :
    s.taken ++ (contents s.buffers_ ++ contents [s.currentBuffer_]) = s.lines.flatten := by
  unfold taken
  rw [← List.append_assoc]
  exact h

theorem Accounted.taken_prefix (h : Accounted s) : s.taken <+: s.lines.flatten :=
  ⟨_, h.taken_append⟩

/-! ## One step -/

/-- Only a swap takes, and a swap takes everything. -/
theorem taken_of_step (h : Pool s) (hs : Accounted s) (hshort : ShortLine s l)
    (hstep : StepCases s l t) :
    t.taken = s.taken ∧ (s.ToSwap → t.ToSwap) ∨ s.ToSwap ∧ t.taken = t.lines.flatten ∧
    t.lines = s.lines := by
  have ht := accounted_of_step h hs hshort hstep
  cases hstep with
  | start hphase => simp [taken, unwritten, ToSwap, hphase]
  | append happ =>
    left
    obtain ⟨c, hc⟩ := h.current
    rw [append_eq hc] at happ
    cases happ
    split <;> exact ⟨rfl, id⟩
  | test hphase hto =>
    rcases hto with ⟨_, rfl⟩ | ⟨_, rfl⟩ <;> simp [taken, unwritten, ToSwap, hphase]
  | wait hphase => simp [taken, unwritten, ToSwap, hphase]
  | swap hphase hswap =>
    right
    have hready := h.ready_swap hphase
    obtain ⟨b, hb, hempty⟩ := hready.first
    rw [swapBuffers_eq] at hswap
    cases hswap
    -- behind the swap everything is with the consumer
    have hall := ht.taken_append
    change _ ++ (contents s.buffersToWrite ++ contents [s.newBuffer1]) = _ at hall
    rw [hready.cleared, hb, contents_nil, contents_singleton, hempty, List.append_nil,
      List.append_nil] at hall
    exact ⟨hphase, hall, rfl⟩
  | write hphase hb =>
    left
    obtain ⟨hlt, hget⟩ := List.getElem?_eq_some_iff.mp hb
    -- the buffer that is written moves from one part of what is taken to the other
    constructor
    · unfold taken
      rw [unwritten_writing hphase, List.drop_eq_getElem_cons hlt, hget, ← List.singleton_append,
        contents_append, contents_singleton, unwritten_writing rfl, ← List.append_assoc]
    · simp [ToSwap, hphase]
  | recycle hphase hk hrecycle =>
    left
    obtain ⟨b₁, b₂, _, _, heq⟩ := recycle_eq (h.writing hphase)
    rw [heq] at hrecycle
    cases hrecycle
    constructor
    · unfold taken
      rw [unwritten_writing hphase, hk, List.drop_length]
      rfl
    · simp [ToSwap, hphase]
  | stop _ _ | join _ _ => exact .inl ⟨rfl, id⟩

theorem lines_of_step (hstep : StepCases s l t) : s.lines <+: t.lines := by
  cases hstep with
  | append happ =>
    rw [append_lines happ]
    exact List.prefix_append _ _
  | swap _ hswap => rw [swapBuffers_lines hswap]
  | recycle _ _ hrecycle => rw [recycle_lines hrecycle]
  | start _ | test _ _ | wait _ | write _ _ | stop _ _ | join _ _ => exact List.prefix_rfl

/-! ## The thread that stops -/

/-- `join` returns behind the end of the backend. -/
def Joined (s : AsyncLogging) : Prop :=
  s.stopper = .returned → s.phase = .finished

/-- Where a step may lead the two threads. -/
structure Moves (s t : AsyncLogging) : Prop where
  running : t.running_ = true → s.running_ = true ∨ s.phase = .unstarted
  unstarted : t.phase = .unstarted → s.phase = .unstarted
  locking : t.phase = .locking → s.phase = .locking ∨ s.running_ = true
  waiting : t.phase = .waiting → s.phase = .locking ∨ s.phase = .waiting
  finished : s.phase = .finished → t.phase = .finished
  returned : t.stopper = .returned → s.stopper = .returned ∨ s.phase = .finished

theorem moves_of_step (h : Pool s) (hstep : StepCases s l t) : Moves s t := by
  cases hstep with
  | append happ =>
    obtain ⟨c, hc⟩ := h.current
    rw [append_eq hc] at happ
    cases happ
    split <;> constructor <;> simp +contextual
  | test hphase hto =>
    rcases hto with ⟨hrunning, rfl⟩ | ⟨hrunning, rfl⟩ <;> constructor <;> simp_all
  | swap hphase hswap =>
    rw [swapBuffers_eq] at hswap
    cases hswap
    rcases hphase with hphase | hphase <;> constructor <;> simp_all
  | recycle hphase _ hrecycle =>
    obtain ⟨b₁, b₂, _, _, heq⟩ := recycle_eq (h.writing hphase)
    rw [heq] at hrecycle
    cases hrecycle
    constructor <;> simp_all
  | start hphase | wait hphase | write hphase _ | stop hphase _ | join hphase _ =>
    constructor <;> simp_all

/-! ## Runs -/

/-- Lines that are taken, or that the backend is about to take. -/
def Due (lines : List Bytes) (s : AsyncLogging) : Prop :=
  lines.flatten <+: s.taken ∨ s.ToSwap ∧ lines <+: s.lines

/-- The backend takes nothing any more. -/
structure Ended (taken : Bytes) (s : AsyncLogging) : Prop where
  running : s.running_ = false
  started : s.phase ≠ .unstarted
  swapped : ¬ s.ToSwap
  taken : s.taken = taken

theorem due_of_step {lines : List Bytes} (h : Pool s) (hs : Accounted s) (hdue : Due lines s)
    (hshort : ShortLine s l) (hstep : StepCases s l t) : Due lines t := by
  rcases taken_of_step h hs hshort hstep with ⟨hsame, hstill⟩ | ⟨_, hall, hlines⟩
  · rcases hdue with htaken | ⟨hswap, hbefore⟩
    · left
      rw [hsame]
      exact htaken
    · exact .inr ⟨hstill hswap, hbefore.trans (lines_of_step hstep)⟩
  · left
    rw [hall, hlines]
    rcases hdue with htaken | ⟨_, hbefore⟩
    · exact htaken.trans hs.taken_prefix
    · exact hbefore.flatten

theorem ended_of_step {bytes : Bytes} (h : Pool s) (hs : Accounted s) (hended : Ended bytes s)
    (hshort : ShortLine s l) (hstep : StepCases s l t) : Ended bytes t := by
  have hmoves := moves_of_step h hstep
  constructor
  · rw [← Bool.not_eq_true]
    intro hrunning
    rcases hmoves.running hrunning with hold | hold
    · rw [hended.running] at hold
      cases hold
    · exact hended.started hold
  · exact fun hphase ↦ hended.started (hmoves.unstarted hphase)
  · rintro (hlocking | hwaiting)
    · rcases hmoves.locking hlocking with hold | hold
      · exact hended.swapped (.inl hold)
      · rw [hended.running] at hold
        cases hold
    · exact hended.swapped (hmoves.waiting hwaiting)
  · rcases taken_of_step h hs hshort hstep with ⟨hsame, _⟩ | ⟨hswap, _⟩
    · exact hsame.trans hended.taken
    · exact absurd hswap hended.swapped

theorem joined_of_step (h : Pool s) (hs : Joined s) (hstep : StepCases s l t) : Joined t := by
  have hmoves := moves_of_step h hstep
  intro hreturned
  rcases hmoves.returned hreturned with hold | hold
  · exact hmoves.finished (hs hold)
  · exact hmoves.finished hold

theorem joined_run {ls : List Label} (h : Run (Guarded Step ShortLine) s ls t) (hpool : Pool s)
    (hs : Accounted s) (hrunning : s.stopper ≠ .returned) : Joined t := by
  have hjoined : Joined s := fun hreturned ↦ absurd hreturned hrunning
  exact (invariant_run (fun _ _ _ h _ hj _ hstep ↦ joined_of_step h hj hstep) h hpool hs
    hjoined).2.2

/-- **What `stop` drains.**  In every run with lines that fit into a buffer, when `stop` returns,
the lines appended before it was called have been passed to `LogFile::append` exactly if the call
found the backend on its way to a swap, or no byte in the buffers of the frontend. -/
theorem stop_drains_iff {ls ls' : List Label} (h : Run (Guarded Step ShortLine) {} ls s)
    (hstop : Step s .stop t) (h' : Run (Guarded Step ShortLine) t ls' u)
    (hreturned : u.stopper = .returned) :
    s.lines.flatten <+: u.output ↔ s.ToSwap ∨ s.NothingWaits := by
  obtain ⟨hpool, hs⟩ := accounted_run h pool_init accounted_init
  obtain ⟨⟨hstarted, hidle⟩, heq⟩ := Option.ite_none_right_eq_some.mp hstop
  cases heq
  have hpool' : Pool { s with running_ := false, stopper := .joining } :=
    pool_of_step hpool (.stop hstarted hidle)
  have hs' : Accounted { s with running_ := false, stopper := .joining } := hs
  -- when `stop` returns the backend has ended, and has written all it has taken
  have hfinished : u.phase = .finished := by
    apply joined_run h' hpool' hs' _ hreturned
    exact show Stopper.joining ≠ .returned by decide
  obtain ⟨hpool'', hs''⟩ := accounted_run h' hpool' hs'
  have houtput : u.taken = u.output := by
    unfold taken
    rw [hpool''.unwritten_eq (by simp [hfinished]), contents_nil, List.append_nil]
  constructor
  · intro hwritten
    by_contra hmissed
    rw [not_or] at hmissed
    have hstart : Ended s.taken { s with running_ := false, stopper := .joining } :=
      ⟨rfl, hstarted, hmissed.1, rfl⟩
    have hended : Ended s.taken u :=
      (invariant_run (fun _ _ _ h hs hended hshort hstep ↦ ended_of_step h hs hended hshort hstep)
        h' hpool' hs' hstart).2.2
    rw [← houtput, hended.taken, ← hs.taken_append] at hwritten
    have hle := hwritten.length_le
    rw [List.length_append] at hle
    exact hmissed.2 (List.eq_nil_of_length_eq_zero (by omega))
  · intro hcond
    have hstart : Due s.lines { s with running_ := false, stopper := .joining } := by
      rcases hcond with hswap | hnothing
      · exact .inr ⟨hswap, List.prefix_rfl⟩
      · left
        have hall := hs.taken_append
        unfold NothingWaits at hnothing
        rw [hnothing, List.append_nil] at hall
        exact ⟨[], by rw [List.append_nil]; exact hall.symm⟩
    have hdue : Due s.lines u :=
      (invariant_run (fun _ _ _ h hs hdue hshort hstep ↦ due_of_step h hs hdue hshort hstep)
        h' hpool' hs' hstart).2.2
    rcases hdue with htaken | ⟨hswap, _⟩
    · rw [← houtput]
      exact htaken
    · rcases hswap with hphase | hphase <;> rw [hfinished] at hphase <;> cases hphase

/-- A line appended while the backend waits. -/
def appendedWaiting : AsyncLogging where
  running_ := true
  currentBuffer_ := some (LogBuffer.new.append [7])
  newBuffer1 := some .new
  newBuffer2 := some .new
  phase := .waiting
  lines := [[7]]

theorem stop_drains_iff_waiting :
    ∃ t u, Run (Guarded Step ShortLine) {} [.start, .test, .lock, .append [7]] appendedWaiting ∧
      Step appendedWaiting .stop t ∧
      Run (Guarded Step ShortLine) t [.wake, .write, .recycle, .test, .join] u ∧
      u.stopper = .returned ∧
      (appendedWaiting.lines.flatten <+: u.output ↔ appendedWaiting.ToSwap ∨
      appendedWaiting.NothingWaits) := by
  have hrun : Run (Guarded Step ShortLine) {} [.start, .test, .lock, .append [7]] appendedWaiting :=
    .cons ⟨rfl, trivial⟩ <| .cons ⟨rfl, trivial⟩ <| .cons ⟨rfl, trivial⟩ <|
    .cons ⟨rfl, show 1 < kLargeBuffer by decide⟩ <| .nil _
  have hstop : Step appendedWaiting .stop
      { appendedWaiting with running_ := false, stopper := .joining } := rfl
  have hrun' := show Run (Guarded Step ShortLine)
        { appendedWaiting with running_ := false, stopper := .joining }
        [.wake, .write, .recycle, .test, .join] _ from
    .cons ⟨rfl, trivial⟩ <| .cons ⟨rfl, trivial⟩ <| .cons ⟨rfl, trivial⟩ <| .cons ⟨rfl, trivial⟩ <|
    .cons ⟨rfl, trivial⟩ <| .nil _
  exact ⟨_, _, hrun, hstop, hrun', rfl, stop_drains_iff hrun hstop hrun' rfl⟩

/-- A line appended while the backend writes. -/
def appendedWriting : AsyncLogging where
  running_ := true
  currentBuffer_ := some (LogBuffer.new.append [7])
  newBuffer2 := some .new
  buffersToWrite := [some .new]
  phase := .writing 0
  lines := [[7]]

/-- `stop` returns, and the line has not been written. -/
theorem stop_loses_line :
    ¬ ∀ (ls ls' : List Label) (s t u : AsyncLogging), Run (Guarded Step ShortLine) {} ls s →
        Step s .stop t → Run (Guarded Step ShortLine) t ls' u → u.stopper = .returned →
        s.lines.flatten <+: u.output := by
  intro h
  have hrun : Run (Guarded Step ShortLine) {} [.start, .test, .lock, .wake, .append [7]]
      appendedWriting :=
    .cons ⟨rfl, trivial⟩ <| .cons ⟨rfl, trivial⟩ <| .cons ⟨rfl, trivial⟩ <| .cons ⟨rfl, trivial⟩ <|
    .cons ⟨rfl, show 1 < kLargeBuffer by decide⟩ <| .nil _
  have hstop : Step appendedWriting .stop
      { appendedWriting with running_ := false, stopper := .joining } := rfl
  have hrun' := show Run (Guarded Step ShortLine)
        { appendedWriting with running_ := false, stopper := .joining }
        [.write, .recycle, .test, .join] _ from
    .cons ⟨rfl, trivial⟩ <| .cons ⟨rfl, trivial⟩ <| .cons ⟨rfl, trivial⟩ <|
      .cons ⟨rfl, trivial⟩ <| .nil _
  have hlost := h _ _ _ _ _ hrun hstop hrun' rfl
  exact absurd hlost (by decide)

end Pallette.AsyncLogging
