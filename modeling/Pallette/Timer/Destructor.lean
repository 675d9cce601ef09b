import Pallette.Timer.Containers

/-!
# Destructor — who deletes the timers

`~TimerQueue` deletes what it finds in three containers.  Between the calls of `handleRead` they
hold each timer once, with one exception: a timer that has been cancelled in its own batch stays on
`cancelingTimers_` although `reset` has put it on `freeTimers_` (`onceEach_iff`).
-/

open Reasoning

namespace Pallette.TimerQueue

variable {q q' : TimerQueue} {timer : Nat}

/-- The timers `~TimerQueue` deletes, one after the other. -/
def deletes (q : TimerQueue) : List Nat :=
  q.timers_.map Prod.snd ++ q.cancelingTimers_ ++ q.freeTimers_

/-- The timer has been made by `addTimer`, and its `addTimerInLoop` has been executed. -/
def Inserted (q : TimerQueue) (timer : Nat) : Prop :=
  timer ∈ q.allocated ∧ .addTimerInLoop timer ∉ q.pendingFunctors_

/-- Each timer ever inserted would be deleted once. -/
def OnceEach (q : TimerQueue) : Prop :=
  q.deletes.Nodup ∧ ∀ timer, timer ∈ q.deletes ↔ q.Inserted timer

/-- What is marked is in the batch, and free behind it. -/
structure Marked (q : TimerQueue) : Prop where
  sound : Sound q
  marked : ∀ timer ∈ q.cancelingTimers_, timer ∈ q.batch ∨ timer ∈ q.freeTimers_

theorem Marked.of_cancelInLoop {timerId : TimerId}
    (hmarked : ∀ timer ∈ q.cancelingTimers_, timer ∈ q.batch ∨ timer ∈ q.freeTimers_)
    (hok : q.cancelInLoop timerId = .ok q') :
    ∀ timer ∈ q'.cancelingTimers_, timer ∈ q'.batch ∨ timer ∈ q'.freeTimers_ := by
  rcases cancelInLoop_ok hok with ⟨_, _, rfl⟩ | ⟨_, hcalling, hactive, rfl⟩ | ⟨_, _, rfl⟩
  · exact fun a ha ↦ (hmarked a ha).imp_right (List.mem_append_left _)
  · intro a ha
    rcases List.mem_append.mp ha with ha | ha
    · exact hmarked a ha
    · rw [List.mem_singleton.mp ha]
      left
      show timerId.timer_ ∈ if q.callingExpiredTimers_ then q.activeTimers_ else []
      rw [if_pos hcalling]
      exact hactive
  · exact hmarked

theorem Marked.step {l : Label} (h : Marked q) (hstep : Step q l q') : Marked q' := by
  refine ⟨h.sound.step hstep, ?_⟩
  cases step_cases hstep with
  | addHere _ _ _ _ hok =>
    rcases addTimerInLoop_ok hok with ⟨fd, _, rfl⟩
    exact h.marked
  | addQueued _ _ hok =>
    rcases addTimerInLoop_ok hok with ⟨fd, _, rfl⟩
    exact h.marked
  | cancelHere _ _ hok => exact Marked.of_cancelInLoop h.marked hok
  | @cancelQueued _ rest _ _ _ _ hok =>
    exact Marked.of_cancelInLoop (q := { q with pendingFunctors_ := rest }) h.marked hok
  | handleRead _ hok =>
    rcases handleRead_ok hok with ⟨u, hexpired, rfl⟩
    exact fun a ha ↦ (by cases ha)
  | finish hphase hok =>
    have hbusy : q.phase ≠ .idle := by rw [hphase]; simp
    rcases h.sound.finish_eq hbusy hok with ⟨fd, rfl⟩
    intro a ha
    right
    rcases h.marked a ha with hbatch | hfree
    -- `reset` looks at the mark and frees the timer, but leaves the mark where it is
    · rw [batch_of_calling h.sound.inv hbusy] at hbatch
      have hmark : a ∈ q.cancelingTimers_ := ha
      exact List.mem_append_right _ (List.mem_filter.mpr ⟨hbatch, by simp [keeps, hmark]⟩)
    · exact List.mem_append_left _ hfree
  | _ => exact h.marked

theorem Sound.deletes_perm (h : Sound q) (hidle : q.phase = .idle)
    (hmarks : q.cancelingTimers_ = []) :
    (adds q.pendingFunctors_ ++ q.deletes).Perm q.allocated := by
  refine List.Perm.trans ?_ h.owners
  rw [batch_of_idle h.inv hidle, deletes, hmarks, List.append_nil, TimerQueue.owners, places,
    List.append_nil, List.append_assoc]
  exact (h.inv.settled.same.append_right _).append_left _

theorem Sound.onceEach (h : Sound q) (hidle : q.phase = .idle) (hmarks : q.cancelingTimers_ = []) :
    OnceEach q := by
  have hperm := h.deletes_perm hidle hmarks
  rcases List.nodup_append.mp (hperm.nodup_iff.mpr h.distinct) with ⟨_, hnodup, hdisjoint⟩
  refine ⟨hnodup, fun timer ↦ ⟨fun hmem ↦ ⟨hperm.subset (List.mem_append_right _ hmem),
    fun hadd ↦ ?_⟩, ?_⟩⟩
  · exact hdisjoint timer (mem_adds.mpr hadd) timer hmem rfl
  · rintro ⟨hknown, hadd⟩
    rcases List.mem_append.mp (hperm.mem_iff.mpr hknown) with hmem | hmem
    · exact absurd (mem_adds.mp hmem) hadd
    · exact hmem

/-- Between the calls of `handleRead` nothing but a mark gets a timer deleted twice. -/
theorem onceEach_iff {ls : List Label} (h : Run Step {} ls q) (hidle : q.phase = .idle) :
    OnceEach q ↔ q.cancelingTimers_ = [] := by
  have hmarked : Marked q :=
    h.invariant Marked (fun _ _ _ hs hstep ↦ hs.step hstep) ⟨sound_empty, fun _ ha ↦ (by cases ha)⟩
  refine ⟨fun honce ↦ ?_, hmarked.sound.onceEach hidle⟩
  rw [List.eq_nil_iff_forall_not_mem]
  intro a ha
  have hfree : a ∈ q.freeTimers_ := by
    have hany := hmarked.marked a ha
    rw [batch_of_idle hmarked.sound.inv hidle] at hany
    exact hany.resolve_left List.not_mem_nil
  exact (List.nodup_append.mp honce.1).2.2 a (List.mem_append_right _ ha) a hfree rfl

/-! ## Runs -/

/-- The step executes `cancelInLoop` for a timer of the batch that is being run. -/
def CancelsActive (q : TimerQueue) : Label → Prop
  | .cancel isInLoopThread timerId => isInLoopThread = true ∧ timerId.timer_ ∈ q.batch
  | _ => False

/-- **Each timer is deleted once.**  In every run in which no timer is cancelled while its batch is
run, the containers hold each inserted timer once whenever `handleRead` is not executing. -/
theorem deletes_once {ls : List Label}
    (h : Run (Guarded Step fun q l ↦ ¬ q.CancelsActive l) {} ls q) (hidle : q.phase = .idle) :
    OnceEach q := by
  have hinv : Sound q ∧ q.cancelingTimers_ = [] := by
    refine h.invariant (fun q ↦ Sound q ∧ q.cancelingTimers_ = []) ?_ ⟨sound_empty, rfl⟩
    rintro q l q' ⟨hsound, hmarks⟩ ⟨hstep, hguard⟩
    refine ⟨hsound.step hstep, ?_⟩
    cases step_cases hstep with
    | addHere _ _ _ _ hok =>
      rcases addTimerInLoop_ok hok with ⟨fd, _, rfl⟩
      exact hmarks
    | addQueued _ _ hok =>
      rcases addTimerInLoop_ok hok with ⟨fd, _, rfl⟩
      exact hmarks
    | cancelHere _ _ hok =>
      rcases cancelInLoop_ok hok with ⟨_, _, rfl⟩ | ⟨_, hcalling, hactive, rfl⟩ | ⟨_, _, rfl⟩
      · exact hmarks
      · refine absurd ⟨rfl, ?_⟩ hguard
        rw [batch, if_pos hcalling]
        exact hactive
      · exact hmarks
    | cancelQueued hidle hpending hok =>
      rcases cancelInLoop_ok hok with ⟨_, _, rfl⟩ | ⟨_, hcalling, hactive, rfl⟩ | ⟨_, _, rfl⟩
      · exact hmarks
      -- functors are run outside `handleRead`
      · exact absurd hidle (hsound.inv.calling.mp hcalling)
      · exact hmarks
    | handleRead _ hok =>
      rcases handleRead_ok hok with ⟨u, hexpired, rfl⟩
      rfl
    | finish hphase hok =>
      rcases hsound.finish_eq (by rw [hphase]; simp) hok with ⟨fd, rfl⟩
      exact hmarks
    | _ => exact hmarks
  exact hinv.1.onceEach hidle hinv.2

/-- A repeating timer that is cancelled outside its callback, after it has run. -/
theorem deletes_once_outside :
    ∃ q, Run (Guarded Step fun q l ↦ ¬ q.CancelsActive l) {}
        [.addTimer true 8 ⟨5⟩ ⟨true, 10⟩ ⟨0⟩, .addTimer true 16 ⟨9⟩ ⟨false, 0⟩ ⟨0⟩,
        .handleRead ⟨6⟩, .run, .ret, .finish ⟨7⟩, .cancel true ⟨8, 0⟩] q ∧
      q.deletes = [16, 8] ∧ OnceEach q := by
  have hrun := show Run (Guarded Step fun q l ↦ ¬ q.CancelsActive l) {}
        [.addTimer true 8 ⟨5⟩ ⟨true, 10⟩ ⟨0⟩, .addTimer true 16 ⟨9⟩ ⟨false, 0⟩ ⟨0⟩,
        .handleRead ⟨6⟩, .run, .ret, .finish ⟨7⟩, .cancel true ⟨8, 0⟩] _ from
    .cons ⟨rfl, fun h ↦ h.elim⟩ <| .cons ⟨rfl, fun h ↦ h.elim⟩ <| .cons ⟨rfl, fun h ↦ h.elim⟩ <|
    .cons ⟨rfl, fun h ↦ h.elim⟩ <| .cons ⟨rfl, fun h ↦ h.elim⟩ <| .cons ⟨rfl, fun h ↦ h.elim⟩ <|
    .cons ⟨rfl, fun h ↦ absurd h.2 (by decide)⟩ <| .nil _
  exact ⟨_, hrun, rfl, deletes_once hrun rfl⟩

/-- A timer that cancels itself is in two of the containers when `handleRead` is over. -/
theorem cancelled_in_callback_deleted_twice :
    ¬ ∀ (ls : List Label) (q : TimerQueue), Run Step {} ls q → q.phase = .idle → OnceEach q := by
  intro h
  have hrun := show Run Step {} [.addTimer true 8 ⟨5⟩ ⟨true, 10⟩ ⟨0⟩, .handleRead ⟨6⟩, .run,
        .cancel true ⟨8, 0⟩, .ret, .finish ⟨7⟩] _ from
    .cons rfl <| .cons rfl <| .cons rfl <| .cons rfl <| .cons rfl <| .cons rfl <| .nil _
  exact absurd (h _ _ hrun rfl).1 (by decide)

end Pallette.TimerQueue
