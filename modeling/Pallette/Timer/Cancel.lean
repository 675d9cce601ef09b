import Pallette.Timer.Places
import Pallette.Reasoning.Warranted

/-!
# Cancel — a cancelled timer does not run again

`cancelInLoop` finds a timer that waits, and one whose batch is being run, which is then not armed
again.  It has no effect on the rest of the batch, nor on a timer whose `addTimerInLoop` is still in
the queue: `cancel_stops` holds of the runs in which no timer is cancelled there.
-/

open Reasoning

namespace Pallette.TimerQueue

variable {q q' : TimerQueue} {timer : Nat}

/-- A timer nothing will run again. -/
structure Dead (timer : Nat) (q : TimerQueue) : Prop where
  known : timer = 0 ∨ timer ∈ q.allocated
  added : timer ∉ adds q.pendingFunctors_
  wait : timer ∉ q.waitTimers_
  ahead : timer ∉ q.phase.remaining
  cancelled : timer ∈ q.batch → timer ∈ q.cancelingTimers_

/-- The timer has been inserted, and it is not ahead in the batch. -/
def Reached (q : TimerQueue) (timer : Nat) : Prop :=
  .addTimerInLoop timer ∉ q.pendingFunctors_ ∧ timer ∉ q.phase.remaining

/-- **The cancellation.**  A timer it finds waiting is taken out, one of the batch is marked. -/
theorem dead_of_cancelInLoop (h : Settled q q.batch) {timerId : TimerId}
    (hknown : timerId.timer_ = 0 ∨ timerId.timer_ ∈ q.allocated)
    (hreached : q.Reached timerId.timer_)
    (hok : q.cancelInLoop timerId = .ok q') : Dead timerId.timer_ q' := by
  have hadded : timerId.timer_ ∉ adds q.pendingFunctors_ := fun hmem ↦
    hreached.1 (mem_adds.mp hmem)
  rcases cancelInLoop_ok hok with ⟨hwait, _, rfl⟩ | ⟨hwait, _, _, rfl⟩ | ⟨hwait, hactive, rfl⟩
  -- a timer that waits has no other place, in particular none in the batch
  · rcases List.nodup_append.mp h.once with ⟨hplaces, _, hdisjoint⟩
    have hnodup : q.waitTimers_.Nodup := (List.nodup_append.mp hplaces).2.1
    refine ⟨hknown, hadded, hnodup.not_mem_erase, hreached.2, fun hbatch ↦ ?_⟩
    exact absurd rfl (hdisjoint _ (List.mem_append_right _ hwait) _ hbatch)
  · exact ⟨hknown, hadded, hwait, hreached.2, fun _ ↦ by simp⟩
  -- neither: the timer has run for the last time, or has been cancelled before
  · refine ⟨hknown, hadded, hwait, hreached.2, fun hbatch ↦ ?_⟩
    have hmem : timerId.timer_ ∈ q.batch := hbatch
    unfold batch at hmem
    split at hmem
    next hcalling => exact absurd hmem (hactive hcalling)
    next => cases hmem

/-! ## A dead timer stays dead -/

theorem Dead.of_cancelInLoop (h : Dead timer q) {timerId : TimerId}
    (hok : q.cancelInLoop timerId = .ok q') : Dead timer q' := by
  rcases cancelInLoop_ok hok with ⟨_, _, rfl⟩ | ⟨_, _, _, rfl⟩ | ⟨_, _, rfl⟩
  · exact ⟨h.known, h.added, fun hmem ↦ h.wait (List.mem_of_mem_erase hmem), h.ahead, h.cancelled⟩
  · exact ⟨h.known, h.added, h.wait, h.ahead, fun hmem ↦ List.mem_append_left _ (h.cancelled hmem)⟩
  · exact ⟨h.known, h.added, h.wait, h.ahead, h.cancelled⟩

theorem Dead.of_addTimerInLoop (h : Dead timer q) {other : Nat} (hne : timer ≠ other)
    {clock : Timestamp} (hok : q.addTimerInLoop other clock = .ok q') : Dead timer q' := by
  rcases addTimerInLoop_ok hok with ⟨fd, _, rfl⟩
  refine ⟨h.known, h.added, fun hmem ↦ ?_, h.ahead, h.cancelled⟩
  rcases List.mem_append.mp hmem with hmem | hmem
  · exact h.wait hmem
  · exact hne (List.mem_singleton.mp hmem)

/-- A new address is neither null nor that of a timer there has been. -/
theorem Dead.of_newTimer (h : Dead timer q) {address : Nat} (hpos : 0 < address)
    (hnew : address ∉ q.allocated) (when_ : Timestamp) (interval : Interval) :
    timer ≠ address ∧ Dead timer (q.newTimer address when_ interval) := by
  refine ⟨?_, h.known.imp_right (List.mem_append_left _), h.added, h.wait, h.ahead, h.cancelled⟩
  rintro rfl
  rcases h.known with hzero | hmem
  · omega
  · exact hnew hmem

theorem Dead.queueAdd (h : Dead timer q) {other : Nat} (hne : timer ≠ other) :
    Dead timer (q.queueInLoop (.addTimerInLoop other)) := by
  refine ⟨h.known, fun hmem ↦ ?_, h.wait, h.ahead, h.cancelled⟩
  rcases List.mem_append.mp (mem_adds.mp hmem) with hmem | hmem
  · exact h.added (mem_adds.mpr hmem)
  · exact hne (by simpa using hmem)

theorem Dead.pop (h : Dead timer q) {cb : Functor} {rest : List Functor}
    (hpending : q.pendingFunctors_ = cb :: rest) :
    Dead timer { q with pendingFunctors_ := rest } ∧ cb ≠ .addTimerInLoop timer := by
  have hadded := h.added
  rw [hpending, mem_adds, List.mem_cons, not_or] at hadded
  exact ⟨⟨h.known, fun hmem ↦ hadded.2 (mem_adds.mp hmem), h.wait, h.ahead, h.cancelled⟩,
    fun heq ↦ hadded.1 heq.symm⟩

theorem Dead.of_handleRead (h : Dead timer q) {now : Timestamp}
    (hok : q.handleRead now = .ok q') : Dead timer q' := by
  rcases handleRead_eq hok with ⟨fd, rest, wait, _, hperm, rfl⟩
  -- what expires waits, so the timer does not expire
  have hnone : timer ∉ (q.expired now).map Prod.snd ++ wait := fun hmem ↦
    h.wait (hperm.mem_iff.mpr hmem)
  rw [List.mem_append, not_or] at hnone
  exact ⟨h.known, h.added, hnone.2, hnone.1, fun hmem ↦ absurd hmem hnone.1⟩

theorem Dead.of_finish (h : Dead timer q) (hinv : Inv q) {now clock : Timestamp}
    (hphase : q.phase ≠ .idle) (hok : q.finish now clock = .ok q') : Dead timer q' := by
  rcases hinv.finish hphase hok with ⟨u, fd, hdone, rfl⟩
  refine ⟨?_, ?_, fun hmem ↦ ?_, ?_, fun hmem ↦ ?_⟩
  · show timer = 0 ∨ timer ∈ u.allocated
    rw [hdone.allocated]
    exact h.known
  · show timer ∉ adds u.pendingFunctors_
    rw [hdone.pending]
    exact h.added
  · rcases hdone.wait timer hmem with hwait | ⟨hactive, hcanceling⟩
    · exact h.wait hwait
    -- `rearm` leaves out what is on `cancelingTimers_`
    · exact hcanceling (h.cancelled (by rw [batch_of_calling hinv hphase]; exact hactive))
  · show timer ∉ u.phase.remaining
    rw [hdone.phase]
    exact List.not_mem_nil
  · have hnone : u.batch = [] := by
      unfold batch
      rw [hdone.calling]
      rfl
    have hmem' : timer ∈ u.batch := hmem
    rw [hnone] at hmem'
    cases hmem'

/-! ## Runs -/

/-- The step executes `cancelInLoop` for the timer. -/
def Cancels (q : TimerQueue) (timer : Nat) : Label → Prop
  | .cancel isInLoopThread timerId => isInLoopThread = true ∧ timerId.timer_ = timer
  | .functor _ => ∃ timerId rest, q.pendingFunctors_ = .cancelInLoop timerId :: rest ∧
      timerId.timer_ = timer
  | _ => False

structure Stopped (timer : Nat) (q : TimerQueue) : Prop where
  inv : Inv q
  dead : .cancelInLoop timer ∈ q.trace → Dead timer q
  runs : Warranted (· = .run timer) (.cancelInLoop timer ∉ ·) q.trace

theorem Stopped.keep (h : Stopped timer q) (hinv : Inv q') (htrace : q'.trace = q.trace)
    (hdead : Dead timer q → Dead timer q') : Stopped timer q' := by
  refine ⟨hinv, fun hmem ↦ ?_, ?_⟩
  · rw [htrace] at hmem
    exact hdead (h.dead hmem)
  · rw [htrace]
    exact h.runs

/-- `u` is the state in which `cancelInLoop` runs, with its functor taken from the queue if it had
one. -/
theorem Stopped.cancelInLoop {u : TimerQueue} (h : Stopped timer q) (hinv : Inv q')
    (hu : Settled u u.batch) (htrace : u.trace = q.trace) (hdead : Dead timer q → Dead timer u)
    {timerId : TimerId} (hknown : timerId.timer_ = 0 ∨ timerId.timer_ ∈ u.allocated)
    (hreached : timerId.timer_ = timer → u.Reached timer) (hok : u.cancelInLoop timerId = .ok q') :
    Stopped timer q' := by
  have htrace' := cancelInLoop_trace hok
  rw [htrace] at htrace'
  refine ⟨hinv, fun hmem ↦ ?_, ?_⟩
  -- the cancellation of this timer kills it, one of another timer changes nothing about it
  · by_cases heq : timerId.timer_ = timer
    · subst heq
      exact dead_of_cancelInLoop hu hknown (hreached rfl) hok
    · rw [htrace', List.mem_append] at hmem
      rcases hmem with hmem | hmem
      · exact (hdead (h.dead hmem)).of_cancelInLoop hok
      · exact absurd (by simpa using hmem) (Ne.symm heq)
  · rw [htrace']
    exact h.runs.snoc fun heq ↦ (by cases heq)

theorem addTimerInLoop_trace {other : Nat} {clock : Timestamp}
    (hok : q.addTimerInLoop other clock = .ok q') : q'.trace = q.trace := by
  rcases addTimerInLoop_ok hok with ⟨fd, _, rfl⟩
  rfl

theorem Stopped.step {l : Label} (h : Stopped timer q) (hstep : Step q l q')
    (hreached : q.Cancels timer l → q.Reached timer) : Stopped timer q' := by
  have hinv := h.inv.step hstep
  cases step_cases hstep with
  | @addHere address when_ clock interval _ huser hpos hmax hnew hok =>
    refine h.keep hinv (addTimerInLoop_trace (q := q.newTimer address when_ interval) hok)
      fun hdead ↦ ?_
    rcases hdead.of_newTimer hpos hnew when_ interval with ⟨hne, hdead⟩
    exact hdead.of_addTimerInLoop hne hok
  | @addElsewhere address when_ clock interval hpos hmax hnew =>
    refine h.keep hinv rfl fun hdead ↦ ?_
    rcases hdead.of_newTimer hpos hnew when_ interval with ⟨hne, hdead⟩
    exact hdead.queueAdd hne
  | cancelHere huser hissued hok =>
    exact h.cancelInLoop hinv h.inv.settled rfl (fun hdead ↦ hdead) hissued.known
      (fun heq ↦ hreached ⟨rfl, heq⟩) hok
  | cancelElsewhere hissued =>
    refine h.keep hinv rfl fun hdead ↦
      ⟨hdead.known, fun hmem ↦ ?_, hdead.wait, hdead.ahead, hdead.cancelled⟩
    rcases List.mem_append.mp (mem_adds.mp hmem) with hmem | hmem
    · exact hdead.added (mem_adds.mpr hmem)
    · simp at hmem
  | addQueued hidle hpending hok =>
    have htrace := addTimerInLoop_trace hok
    refine h.keep hinv htrace fun hdead ↦ ?_
    rcases hdead.pop hpending with ⟨hpopped, hne⟩
    exact hpopped.of_addTimerInLoop (fun heq ↦ hne (by rw [heq])) hok
  | @cancelQueued timerId rest clock _ hidle hpending hok =>
    have hknown := h.inv.ids timerId (by rw [hpending]; exact List.mem_cons_self)
    refine h.cancelInLoop hinv (h.inv.settled.pop hpending).1 rfl
      (fun hdead ↦ (hdead.pop hpending).1) hknown (fun heq ↦ ?_) hok
    have hall := hreached ⟨timerId, rest, hpending, heq⟩
    exact ⟨fun hmem ↦ hall.1 (hpending ▸ List.mem_cons_of_mem _ hmem), hall.2⟩
  | expire harmed =>
    exact h.keep hinv rfl fun hdead ↦
      ⟨hdead.known, hdead.added, hdead.wait, hdead.ahead, hdead.cancelled⟩
  | handleRead hidle hok =>
    refine h.keep hinv ?_ fun hdead ↦ hdead.of_handleRead hok
    rcases handleRead_eq hok with ⟨fd, rest, wait, _, _, rfl⟩
    rfl
  | @run now other rest hphase =>
    -- the step that runs a timer, and never a dead one
    have hahead : Dead timer q → timer ≠ other ∧ timer ∉ rest := by
      intro hdead
      have hnone := hdead.ahead
      rw [hphase] at hnone
      exact not_or.mp (fun hmem ↦ hnone (List.mem_cons.mpr hmem))
    refine ⟨hinv, fun hmem ↦ ?_, ?_⟩
    · have hdead := h.dead (by simpa [record] using hmem)
      exact ⟨hdead.known, hdead.added, hdead.wait, (hahead hdead).2, hdead.cancelled⟩
    · refine h.runs.snoc fun heq hmem ↦ (hahead (h.dead hmem)).1 ?_
      cases heq
      rfl
  | ret hphase =>
    refine h.keep hinv rfl fun hdead ↦
      ⟨hdead.known, hdead.added, hdead.wait, ?_, hdead.cancelled⟩
    have hahead := hdead.ahead
    rw [hphase] at hahead
    exact hahead
  | finish hphase hok =>
    have hbusy : q.phase ≠ .idle := by rw [hphase]; simp
    refine h.keep hinv ?_ fun hdead ↦ hdead.of_finish h.inv hbusy hok
    rcases h.inv.finish hbusy hok with ⟨u, fd, hdone, rfl⟩
    exact hdone.trace

/-- **A cancelled timer does not run again.**  In every run in which the timer is never cancelled
ahead in the batch that is being run, nor with its insertion still in the queue. -/
theorem cancel_stops {ls : List Label}
    (h : Run (Guarded Step fun q l ↦ q.Cancels timer l → q.Reached timer) {} ls q) :
    Warranted (· = .run timer) (.cancelInLoop timer ∉ ·) q.trace := by
  have hempty : Stopped timer {} :=
    ⟨inv_empty, fun hmem ↦ (by cases hmem), .of_none fun e he ↦ (by cases he)⟩
  have hstopped : Stopped timer q := by
    refine h.invariant (Stopped timer) ?_ hempty
    rintro q l q' hq ⟨hstep, hreached⟩
    exact hq.step hstep hreached
  exact hstopped.runs

/-- A repeating timer that cancels itself. -/
theorem cancel_stops_itself :
    ∃ q, Run (Guarded Step fun q l ↦ q.Cancels 8 l → q.Reached 8) {}
        [.addTimer true 8 ⟨5⟩ ⟨true, 10⟩ ⟨0⟩, .handleRead ⟨6⟩, .run, .cancel true ⟨8, 0⟩, .ret,
        .finish ⟨7⟩, .handleRead ⟨20⟩, .finish ⟨21⟩] q ∧
      q.trace = [.run 8, .cancelInLoop 8] ∧
      Warranted (· = .run 8) (.cancelInLoop 8 ∉ ·) q.trace := by
  have hrun := show Run (Guarded Step fun q l ↦ q.Cancels 8 l → q.Reached 8) {}
        [.addTimer true 8 ⟨5⟩ ⟨true, 10⟩ ⟨0⟩, .handleRead ⟨6⟩, .run, .cancel true ⟨8, 0⟩, .ret,
        .finish ⟨7⟩, .handleRead ⟨20⟩, .finish ⟨21⟩] _ from
    .cons ⟨rfl, fun h ↦ h.elim⟩ <| .cons ⟨rfl, fun h ↦ h.elim⟩ <| .cons ⟨rfl, fun h ↦ h.elim⟩ <|
    .cons ⟨rfl, fun _ ↦ ⟨by decide, by decide⟩⟩ <| .cons ⟨rfl, fun h ↦ h.elim⟩ <|
    .cons ⟨rfl, fun h ↦ h.elim⟩ <| .cons ⟨rfl, fun h ↦ h.elim⟩ <|
      .cons ⟨rfl, fun h ↦ h.elim⟩ <| .nil _
  exact ⟨_, hrun, rfl, cancel_stops hrun⟩

/-- Two timers of one batch, and the first cancels the second. -/
theorem cancelled_timer_runs :
    ¬ ∀ (timer : Nat) (ls : List Label) (q : TimerQueue), Run Step {} ls q →
        Warranted (· = .run timer) (.cancelInLoop timer ∉ ·) q.trace := by
  intro h
  have hrun := show Run Step {}
        [.addTimer true 8 ⟨5⟩ ⟨false, 0⟩ ⟨0⟩, .addTimer true 16 ⟨6⟩ ⟨false, 0⟩ ⟨0⟩,
        .handleRead ⟨7⟩, .run, .cancel true ⟨16, 1⟩, .ret, .run] _ from
    .cons rfl <| .cons rfl <| .cons rfl <| .cons rfl <| .cons rfl <| .cons rfl <|
      .cons rfl <| .nil _
  exact h 16 _ _ hrun [.run 8, .cancelInLoop 16] (.run 16) [] rfl rfl (by decide)

-- the other way to miss it: the loop cancels a timer that another thread has added but not inserted
-- yet
example :
    (follow {} [.addTimer false 8 ⟨5⟩ ⟨false, 0⟩ ⟨0⟩, .cancel true ⟨8, 0⟩, .functor ⟨0⟩,
    .handleRead ⟨6⟩,
      .run]).trace = [.cancelInLoop 8, .run 8] := rfl

end Pallette.TimerQueue
