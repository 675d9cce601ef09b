import Pallette.Timer.Destructor

/-!
# Addresses — a stale `TimerId` names no other timer

`cancelInLoop` compares addresses, so it relies on none being used again.  `Process` keeps the
`Timer` objects that have not been deleted; all that is assumed of `new` is that it returns the
address of none of these.  The only `delete`s are those of the destructor, so no address comes back
while the queue lives.
-/

open Reasoning

namespace Pallette.TimerQueue

variable {q q' : TimerQueue} {timer : Nat}

/-- A queue in its process. -/
structure Process where
  queue : TimerQueue := {}
  /-- the `Timer` objects not yet deleted -/
  live : List Nat := []
  /-- what `addTimer` has returned -/
  ids : List TimerId := []
  destroyed : Bool := false

namespace Process

inductive Label
  | queue (l : TimerQueue.Label)
  | destroy
deriving DecidableEq, Repr

/-- The process goes on with another state of the queue. -/
def withQueue (p : Process) (r : Except TimerQueue.Assertion TimerQueue) :
    Except TimerQueue.Assertion Process :=
  r.map fun queue ↦ { p with queue := queue }

/-- One step; `none` when it cannot be taken. -/
def next (p : Process) : Label → Option (Except TimerQueue.Assertion Process)
  | .queue (.addTimer isInLoopThread address when_ interval clock) =>
      if p.destroyed = false ∧ (isInLoopThread → p.queue.inUserCode) ∧ 0 < address ∧
          address < UINTPTR_MAX ∧ address ∉ p.live then
        some (withQueue
          { p with live := p.live ++ [address], ids := p.ids ++ [⟨address, p.queue.sNumCreated_⟩] }
          (p.queue.addTimer isInLoopThread address when_ interval clock))
      else none
  | .queue (.cancel isInLoopThread timerId) =>
      if p.destroyed = false ∧ (isInLoopThread → p.queue.inUserCode) ∧
          (timerId = {} ∨ timerId ∈ p.ids) then
        some (p.withQueue (p.queue.cancel isInLoopThread timerId))
      else none
  | .queue l => if p.destroyed = false then (p.queue.next l).map p.withQueue else none
  | .destroy =>
      if p.destroyed = false ∧ p.queue.phase = .idle then
        some (.ok { p with destroyed := true, live := p.live.filter (· ∉ p.queue.deletes) })
      else none

def Step (p : Process) (l : Label) (p' : Process) : Prop :=
  p.next l = some (.ok p')

end Process

/-! ## What a cancellation leaves alone -/

/-- The queues agree on everything but the timer. -/
structure SameBut (timer : Nat) (q q' : TimerQueue) : Prop where
  timers : q'.timers_.filter (·.2 ≠ timer) = q.timers_.filter (·.2 ≠ timer)
  wait : q'.waitTimers_.filter (· ≠ timer) = q.waitTimers_.filter (· ≠ timer)
  canceling : q'.cancelingTimers_.filter (· ≠ timer) = q.cancelingTimers_.filter (· ≠ timer)
  free : q'.freeTimers_.filter (· ≠ timer) = q.freeTimers_.filter (· ≠ timer)
  added : adds q'.pendingFunctors_ = adds q.pendingFunctors_
  active : q'.activeTimers_ = q.activeTimers_
  phase : q'.phase = q.phase
  table : q'.timer = q.timer
  timerfd : q'.timerfd_ = q.timerfd_

theorem filter_erase_of_not {α : Type} [BEq α] [LawfulBEq α] {p : α → Bool} {a : α} (l : List α)
    (ha : p a = false) : (l.erase a).filter p = l.filter p := by
  rw [← List.erase_filter, List.erase_of_not_mem]
  simp [ha]

theorem filter_append_of_not {α : Type} {p : α → Bool} {a : α} (l : List α) (ha : p a = false) :
    (l ++ [a]).filter p = l.filter p := by
  rw [List.filter_append, List.filter_cons_of_neg (by simp [ha]), List.filter_nil, List.append_nil]

theorem sameBut_cancelInLoop {timerId : TimerId} (hok : q.cancelInLoop timerId = .ok q') :
    SameBut timerId.timer_ q q' := by
  have hself : decide (timerId.timer_ ≠ timerId.timer_) = false := by simp
  rcases cancelInLoop_ok hok with ⟨_, _, rfl⟩ | ⟨_, _, _, rfl⟩ | ⟨_, _, rfl⟩
  · exact ⟨filter_erase_of_not (p := fun e : Entry ↦ decide (e.2 ≠ timerId.timer_)) _ hself,
      filter_erase_of_not _ hself, rfl,
      filter_append_of_not _ hself, rfl, rfl, rfl, rfl, rfl⟩
  · exact ⟨rfl, rfl, filter_append_of_not _ hself, rfl, rfl, rfl, rfl, rfl, rfl⟩
  · exact ⟨rfl, rfl, rfl, rfl, rfl, rfl, rfl, rfl, rfl⟩

/-! ## Objects keep their sequence numbers -/

/-- The address `new` gives in a step. -/
def Label.news : Label → List Nat
  | .addTimer _ address _ _ _ => [address]
  | _ => []

theorem allocated_step {l : Label} (h : Sound q) (hstep : Step q l q') :
    q'.allocated = q.allocated ++ l.news ∧ ∀ address ∈ l.news, address ∉ q.allocated := by
  have hsame : q.allocated = q.allocated ++ [] ∧ ∀ address ∈ ([] : List Nat),
      address ∉ q.allocated :=
    ⟨(List.append_nil _).symm, fun _ h ↦ (by cases h)⟩
  cases step_cases hstep with
  | addHere huser hpos hmax haddress hok =>
    rcases addTimerInLoop_ok hok with ⟨fd, _, rfl⟩
    exact ⟨rfl, fun a ha ↦ List.mem_singleton.mp ha ▸ haddress⟩
  | addElsewhere hpos hmax haddress => exact ⟨rfl, fun a ha ↦ List.mem_singleton.mp ha ▸ haddress⟩
  | cancelHere huser hissued hok =>
    rcases cancelInLoop_ok hok with ⟨_, _, rfl⟩ | ⟨_, _, _, rfl⟩ | ⟨_, _, rfl⟩ <;> exact hsame
  | addQueued hidle hpending hok =>
    rcases addTimerInLoop_ok hok with ⟨fd, _, rfl⟩
    exact hsame
  | cancelQueued hidle hpending hok =>
    rcases cancelInLoop_ok hok with ⟨_, _, rfl⟩ | ⟨_, _, _, rfl⟩ | ⟨_, _, rfl⟩ <;> exact hsame
  | handleRead hidle hok =>
    rcases handleRead_eq hok with ⟨fd, rest, wait, _, _, rfl⟩
    exact hsame
  | finish hphase hok =>
    rcases h.finish_eq (by rw [hphase]; simp) hok with ⟨fd, rfl⟩
    exact hsame
  | _ => exact hsame

/-- The object `addTimer` makes. -/
theorem addTimer_step {isInLoopThread : Bool} {address : Nat} {when_ clock : Timestamp}
    {interval : Interval}
    (hstep : Step q (.addTimer isInLoopThread address when_ interval clock) q') :
    (q'.timer address).sequence_ = q.sNumCreated_ ∧ (q'.timer address).interval_ = interval := by
  have hnew : (q.newTimer address when_ interval).timer address =
      ⟨when_, interval, interval.positive, q.sNumCreated_⟩ := if_pos rfl
  cases step_cases hstep with
  | addHere huser hpos hmax haddress hok =>
    rcases addTimerInLoop_ok hok with ⟨fd, _, rfl⟩
    exact ⟨congrArg Timer.sequence_ hnew, congrArg Timer.interval_ hnew⟩
  | addElsewhere hpos hmax haddress =>
    exact ⟨congrArg Timer.sequence_ hnew, congrArg Timer.interval_ hnew⟩

/-- A step leaves every object there is what it was made as. -/
theorem sequence_step {l : Label} (h : Sound q) (hstep : Step q l q')
    (hknown : timer ∈ q.allocated) :
    timer ∈ q'.allocated ∧ (q'.timer timer).sequence_ = (q.timer timer).sequence_ ∧
      (q'.timer timer).interval_ = (q.timer timer).interval_ := by
  -- a new timer is at an address of its own
  have hnew : ∀ {address : Nat} (when_ : Timestamp) (interval : Interval), address ∉ q.allocated →
      timer ∈ q.allocated ++ [address] ∧
        (q.newTimer address when_ interval).timer timer = q.timer timer := by
    intro address when_ interval haddress
    refine ⟨List.mem_append_left _ hknown, if_neg ?_⟩
    rintro rfl
    exact haddress hknown
  cases step_cases hstep with
  | @addHere address when_ clock interval _ huser hpos hmax haddress hok =>
    rcases hnew when_ interval haddress with ⟨hmem, hsame⟩
    rcases addTimerInLoop_ok hok with ⟨fd, _, rfl⟩
    exact ⟨hmem, congrArg Timer.sequence_ hsame, congrArg Timer.interval_ hsame⟩
  | @addElsewhere address when_ clock interval hpos hmax haddress =>
    rcases hnew when_ interval haddress with ⟨hmem, hsame⟩
    exact ⟨hmem, congrArg Timer.sequence_ hsame, congrArg Timer.interval_ hsame⟩
  | cancelHere huser hissued hok =>
    rcases cancelInLoop_ok hok with ⟨_, _, rfl⟩ | ⟨_, _, _, rfl⟩ | ⟨_, _, rfl⟩ <;>
      exact ⟨hknown, rfl, rfl⟩
  | addQueued hidle hpending hok =>
    rcases addTimerInLoop_ok hok with ⟨fd, _, rfl⟩
    exact ⟨hknown, rfl, rfl⟩
  | cancelQueued hidle hpending hok =>
    rcases cancelInLoop_ok hok with ⟨_, _, rfl⟩ | ⟨_, _, _, rfl⟩ | ⟨_, _, rfl⟩ <;>
      exact ⟨hknown, rfl, rfl⟩
  | handleRead hidle hok =>
    rcases handleRead_eq hok with ⟨fd, rest, wait, _, _, rfl⟩
    exact ⟨hknown, rfl, rfl⟩
  | @finish now clock _ hphase hok =>
    rcases h.finish_eq (by rw [hphase]; simp) hok with ⟨fd, rfl⟩
    rcases rearmed_timer q now q.activeTimers_ timer with ⟨expiration, htimer⟩
    have hsequence := congrArg Timer.sequence_ htimer
    have hinterval := congrArg Timer.interval_ htimer
    exact ⟨hknown, hsequence, hinterval⟩
  | _ => exact ⟨hknown, rfl, rfl⟩

namespace Process

variable {p p' : Process}

structure Tracked (p : Process) : Prop where
  sound : Sound p.queue
  live : p.destroyed = false → p.live = p.queue.allocated
  ids : ∀ timerId ∈ p.ids, timerId.timer_ ∈ p.queue.allocated ∧
    (p.queue.timer timerId.timer_).sequence_ = timerId.sequence_

theorem tracked_empty : Tracked {} :=
  ⟨sound_empty, fun _ ↦ rfl, fun _ h ↦ (by cases h)⟩

theorem withQueue_ok {r : Except TimerQueue.Assertion TimerQueue} (h : p.withQueue r = .ok p') :
    ∃ u, r = .ok u ∧ p' = { p with queue := u } := by
  cases r with
  | error e => cases h
  | ok u =>
    cases h
    exact ⟨u, rfl, rfl⟩

/-- **The queue in its process is the queue.**  Ids that have been returned are issued, and an
address of no live object has not been allocated. -/
theorem queue_step {l : TimerQueue.Label} (h : Tracked p) (hstep : Step p (.queue l) p') :
    TimerQueue.Step p.queue l p'.queue ∧ p.destroyed = false ∧ p'.live = p.live ++ l.news ∧
      p'.ids = p.ids ++ l.news.map fun address ↦ ⟨address, p.queue.sNumCreated_⟩ := by
  unfold Step at hstep
  unfold TimerQueue.Step
  cases l with
  | addTimer isInLoopThread address when_ interval clock =>
    simp only [next] at hstep
    split at hstep
    next hready =>
      rcases hready with ⟨hqueue, huser, hpos, hmax, hnew⟩
      rcases withQueue_ok (Option.some.inj hstep) with ⟨u, hu, rfl⟩
      rw [h.live hqueue] at hnew
      refine ⟨?_, hqueue, rfl, rfl⟩
      simp only [TimerQueue.next]
      rw [if_pos ⟨huser, hpos, hmax, hnew⟩, hu]
    next => cases hstep
  | cancel isInLoopThread timerId =>
    simp only [next] at hstep
    split at hstep
    next hready =>
      rcases hready with ⟨hqueue, huser, hid⟩
      rcases withQueue_ok (Option.some.inj hstep) with ⟨u, hu, rfl⟩
      -- an id that has been returned names the object it was made for
      have hissued : p.queue.Issued timerId := hid.imp_right fun hmem ↦
        ⟨(h.ids timerId hmem).1, (h.ids timerId hmem).2.symm⟩
      refine ⟨?_, hqueue, (List.append_nil _).symm, (List.append_nil _).symm⟩
      simp only [TimerQueue.next]
      rw [if_pos ⟨huser, hissued⟩, hu]
    next => cases hstep
  | _ =>
    simp only [next] at hstep
    split at hstep
    next hqueue =>
      rcases Option.map_eq_some_iff.mp hstep with ⟨r, hr, hwith⟩
      rcases withQueue_ok hwith with ⟨u, rfl, rfl⟩
      exact ⟨hr, hqueue, (List.append_nil _).symm, (List.append_nil _).symm⟩
    next => cases hstep

theorem destroy_step (hstep : Step p .destroy p') :
    p'.queue = p.queue ∧ p'.ids = p.ids ∧ p'.destroyed = true := by
  simp only [Step, next] at hstep
  split at hstep
  next =>
    cases hstep
    exact ⟨rfl, rfl, rfl⟩
  next => cases hstep

theorem Tracked.step {l : Label} (h : Tracked p) (hstep : Step p l p') : Tracked p' := by
  cases l with
  | destroy =>
    rcases destroy_step hstep with ⟨hqueue, hids, hdestroyed⟩
    refine ⟨hqueue ▸ h.sound, fun hfalse ↦ ?_, ?_⟩
    · rw [hdestroyed] at hfalse
      cases hfalse
    · rw [hqueue, hids]
      exact h.ids
  | queue l =>
    rcases queue_step h hstep with ⟨hqueue, hnot, hlive, hids⟩
    rcases allocated_step h.sound hqueue with ⟨hallocated, hnew⟩
    refine ⟨h.sound.step hqueue, fun _ ↦ ?_, fun timerId hmem ↦ ?_⟩
    · rw [hlive, hallocated, h.live hnot]
    · rw [hids] at hmem
      rcases List.mem_append.mp hmem with hmem | hmem
      · rcases h.ids timerId hmem with ⟨hknown, hsequence⟩
        rcases sequence_step h.sound hqueue hknown with ⟨hknown', hsequence', _⟩
        exact ⟨hknown', hsequence'.trans hsequence⟩
      · cases l with
        | addTimer isInLoopThread address when_ interval clock =>
          rw [List.mem_singleton.mp hmem]
          refine ⟨?_, (addTimer_step hqueue).1⟩
          rw [hallocated]
          exact List.mem_append_right _ List.mem_cons_self
        | _ => cases hmem

theorem Tracked.of_run {ls : List Label} (h : Run Step p ls p') (hp : Tracked p) : Tracked p' :=
  h.invariant Tracked (fun _ _ _ hs hstep ↦ hs.step hstep) hp

/-! ## Runs -/

def Label.news : Label → List Nat
  | .queue l => l.news
  | .destroy => []

/-- What `new` gives in a run was not there before, and stays. -/
theorem news_of_run {ls : List Label} (h : Run Step p ls p') (hp : Tracked p) :
    (∀ address ∈ p.queue.allocated, address ∈ p'.queue.allocated) ∧
      ∀ l ∈ ls, ∀ address ∈ l.news, address ∉ p.queue.allocated ∧ address ∈ p'.queue.allocated := by
  induction h with
  | nil => exact ⟨fun _ hmem ↦ hmem, fun _ h ↦ (by cases h)⟩
  | @cons p u _ l _ hstep _ ih =>
    have hgrow : ∃ news, u.queue.allocated = p.queue.allocated ++ news ∧ news = l.news ∧
        ∀ address ∈ news, address ∉ p.queue.allocated := by
      cases l with
      | destroy => exact ⟨[], by rw [(destroy_step hstep).1, List.append_nil], rfl, fun _ h ↦ (by
          cases h)⟩
      | queue l =>
        have hallocated := allocated_step hp.sound (queue_step hp hstep).1
        exact ⟨l.news, hallocated.1, rfl, hallocated.2⟩
    rcases hgrow with ⟨news, hallocated, rfl, hfresh⟩
    rcases ih (hp.step hstep) with ⟨hkeep, hnews⟩
    rw [hallocated] at hkeep
    refine ⟨fun a ha ↦ hkeep a (List.mem_append_left _ ha), fun l' hl' a ha ↦ ?_⟩
    rcases List.mem_cons.mp hl' with rfl | hl'
    · exact ⟨hfresh a ha, hkeep a (List.mem_append_right _ ha)⟩
    · refine ⟨fun hmem ↦ (hnews l' hl' a ha).1 ?_, (hnews l' hl' a ha).2⟩
      rw [hallocated]
      exact List.mem_append_left _ hmem

/-- An object keeps its sequence number and its interval in a run. -/
theorem sequence_of_run {ls : List Label} (h : Run Step p ls p') (hp : Tracked p)
    (hknown : timer ∈ p.queue.allocated) :
    (p'.queue.timer timer).sequence_ = (p.queue.timer timer).sequence_ ∧
      (p'.queue.timer timer).interval_ = (p.queue.timer timer).interval_ := by
  induction h with
  | nil => exact ⟨rfl, rfl⟩
  | @cons p u _ l _ hstep _ ih =>
    have hone : timer ∈ u.queue.allocated ∧
        (u.queue.timer timer).sequence_ = (p.queue.timer timer).sequence_ ∧
        (u.queue.timer timer).interval_ = (p.queue.timer timer).interval_ := by
      cases l with
      | destroy =>
        rw [(destroy_step hstep).1]
        exact ⟨hknown, rfl, rfl⟩
      | queue l => exact sequence_step hp.sound (queue_step hp hstep).1 hknown
    rcases hone with ⟨hknown', hsequence, hinterval⟩
    rcases ih (hp.step hstep) hknown' with ⟨hsequence', hinterval'⟩
    exact ⟨hsequence'.trans hsequence, hinterval'.trans hinterval⟩

/-- The step cancels the id: it executes `cancelInLoop` for it, or queues that. -/
def Cancels (p : Process) (timerId : TimerId) : Label → Prop
  | .queue (.cancel _ timerId') => timerId' = timerId
  | .queue (.functor _) => ∃ rest, p.queue.pendingFunctors_ = .cancelInLoop timerId :: rest
  | _ => False

theorem sameBut_of_cancels {timerId : TimerId} {l : Label} (hp : Tracked p) (hstep : Step p l p')
    (hcancels : p.Cancels timerId l) : SameBut timerId.timer_ p.queue p'.queue := by
  cases l with
  | destroy => exact hcancels.elim
  | queue l =>
    have hqueue := (queue_step hp hstep).1
    generalize p'.queue = u at hqueue ⊢
    cases step_cases hqueue with
    | cancelHere huser hissued hok =>
      cases hcancels
      exact sameBut_cancelInLoop hok
    | cancelElsewhere hissued =>
      cases hcancels
      exact ⟨rfl, rfl, rfl, rfl, by simp [queueInLoop, adds_append, Functor.added?],
        rfl, rfl, rfl, rfl⟩
    | addQueued hidle hpending hok =>
      rcases hcancels with ⟨rest, hcancel⟩
      cases hpending.symm.trans hcancel
    | @cancelQueued _ rest clock _ hidle hpending hok =>
      rcases hcancels with ⟨rest', hcancel⟩
      cases hpending.symm.trans hcancel
      have hsame := sameBut_cancelInLoop hok
      refine ⟨hsame.timers, hsame.wait, hsame.canceling, hsame.free, ?_, hsame.active, hsame.phase,
        hsame.table, hsame.timerfd⟩
      rw [hsame.added, hpending, adds_cons]
      rfl
    | _ => exact hcancels.elim

/-- **A stale id is harmless.**  Whenever the id that a call of `addTimer` has returned is
cancelled, no other call of the run has got its address, the object there is the one the call has
made, and nothing changes about any other timer. -/
theorem cancel_affects_one {ls₁ ls₂ ls₃ : List Label} {p₁ p₂ p₃ : Process} {isInLoopThread : Bool}
    {address : Nat} {when_ clock : Timestamp} {interval : Interval} {l : Label}
    (h₁ : Run Step {} ls₁ p₁)
    (hadd : Step p₁ (.queue (.addTimer isInLoopThread address when_ interval clock)) p₂)
    (h₂ : Run Step p₂ ls₂ p) (hstep : Step p l p')
    (hcancels : p.Cancels ⟨address, p₁.queue.sNumCreated_⟩ l) (h₃ : Run Step p' ls₃ p₃) :
    (∀ l' ∈ ls₁ ++ ls₂ ++ ls₃, address ∉ l'.news) ∧
      (p.queue.timer address).sequence_ = p₁.queue.sNumCreated_ ∧
      (p.queue.timer address).interval_ = interval ∧ SameBut address p.queue p'.queue := by
  have hp₁ := tracked_empty.of_run h₁
  have hp₂ := hp₁.step hadd
  have hqueue := (queue_step hp₁ hadd).1
  rcases allocated_step hp₁.sound hqueue with ⟨hallocated, hnew⟩
  have hself : address ∈ [address] := List.mem_cons_self
  have hknown : address ∈ p₂.queue.allocated := by
    rw [hallocated]
    exact List.mem_append_right _ hself
  have hmade := addTimer_step hqueue
  have hkept := sequence_of_run h₂ hp₂ hknown
  have hp := hp₂.of_run h₂
  refine ⟨fun l' hl' hmem ↦ ?_, hkept.1.trans hmade.1, hkept.2.trans hmade.2,
    sameBut_of_cancels hp hstep hcancels⟩
  rcases List.mem_append.mp hl' with hl' | hl'
  swap
  -- the object is there still when the id has been cancelled
  · have hstays := (news_of_run h₂ hp₂).1 address hknown
    exact ((news_of_run h₃ (hp.step hstep)).2 l' hl' address hmem).1
      ((news_of_run (.cons hstep (.nil _)) hp).1 address hstays)
  rcases List.mem_append.mp hl' with hl' | hl'
  · exact hnew address hself ((news_of_run h₁ tracked_empty).2 l' hl' address hmem).2
  · exact ((news_of_run h₂ hp₂).2 l' hl' address hmem).1 hknown

/-- A timer that has run, is cancelled when another has been added, and is cancelled once more from
another thread. -/
theorem cancel_affects_one_stale :
    ∃ p p' p₃, Run Step {} [.queue (.addTimer true 8 ⟨5⟩ ⟨false, 0⟩ ⟨0⟩), .queue (.handleRead ⟨6⟩),
      .queue .run, .queue .ret, .queue (.finish ⟨7⟩), .queue (.addTimer true 16 ⟨9⟩ ⟨true, 3⟩ ⟨7⟩),
        .queue (.cancel false ⟨8, 0⟩)] p ∧
      Run Step p [.queue (.functor ⟨8⟩), .destroy] p₃ ∧ p.Cancels ⟨8, 0⟩ (.queue (.functor ⟨8⟩)) ∧
      Step p (.queue (.functor ⟨8⟩)) p' ∧ p'.queue.timers_ = [(⟨9⟩, 16)] ∧
          SameBut 8 p.queue p'.queue := by
  refine ⟨_, _, _, .cons rfl <| .cons rfl <| .cons rfl <| .cons rfl <| .cons rfl <| .cons rfl <|
    .cons rfl <| .nil _, .cons rfl <| .cons rfl <| .nil _, ⟨[], rfl⟩, rfl, rfl, ?_⟩
  exact (cancel_affects_one (.nil _)
    (show Step {} (.queue (.addTimer true 8 ⟨5⟩ ⟨false, 0⟩ ⟨0⟩)) _ from rfl)
    (show Run Step _ [.queue (.handleRead ⟨6⟩), .queue .run, .queue .ret, .queue (.finish ⟨7⟩),
      .queue (.addTimer true 16 ⟨9⟩ ⟨true, 3⟩ ⟨7⟩), .queue (.cancel false ⟨8, 0⟩)] _ from
      .cons rfl <| .cons rfl <| .cons rfl <| .cons rfl <| .cons rfl <| .cons rfl <| .nil _)
    (show Step _ (.queue (.functor ⟨8⟩)) _ from rfl) ⟨[], rfl⟩
    (show Run Step _ [.destroy] _ from .cons rfl (.nil _))).2.2.2

end Process

end Pallette.TimerQueue
