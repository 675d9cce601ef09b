import Pallette.Timer.TimerQueue

/-!
# Steps — what the operations and the steps of a timer queue do

Each operation that can fail gets one lemma with the state it leaves when it does not.  `step_cases`
does the same for the steps of a run: every invariant goes through its cases.
-/

namespace Pallette.TimerQueue

variable {q q' : TimerQueue}

/-! ## What the operations do -/

/-- The entry of a timer. -/
def entry (q : TimerQueue) (timer : Nat) : Entry :=
  ((q.timer timer).expiration_, timer)

theorem entry_injective (q : TimerQueue) : Function.Injective q.entry :=
  fun _ _ h ↦ congrArg Prod.snd h

theorem insertEntry_perm {e : Entry} {es : List Entry} (h : e ∉ es) :
    (insertEntry e es).Perm (e :: es) := by
  induction es with
  | nil => exact .refl _
  | cons e' es ih =>
    rw [List.mem_cons, not_or] at h
    unfold insertEntry
    split
    · exact .refl _
    · rw [if_neg h.1]
      exact ((ih h.2).cons e').trans (.swap e e' es)

theorem insert_ok {timer : Nat} {changed : Bool} (h : q.insert timer = .ok (q', changed)) :
    q.entry timer ∉ q.timers_ ∧ q' = { q with
      timers_ := insertEntry (q.entry timer) q.timers_
      waitTimers_ := q.waitTimers_ ++ [timer] } := by
  unfold insert at h
  dsimp only at h
  split at h
  next => cases h
  next hnew =>
    cases h
    exact ⟨hnew, rfl⟩

theorem activate_ok {es : List Entry} (h : q.activate es = .ok q') :
    ∃ wait, q.waitTimers_.Perm (es.map Prod.snd ++ wait) ∧ q' = { q with
      activeTimers_ := q.activeTimers_ ++ es.map Prod.snd, waitTimers_ := wait } := by
  induction es generalizing q with
  | nil =>
    cases h
    exact ⟨_, .refl _, by simp⟩
  | cons e es ih =>
    unfold activate at h
    split at h
    next hwait =>
      rcases ih h with ⟨wait, hperm, heq⟩
      refine ⟨wait, (List.perm_cons_erase hwait).trans (hperm.cons e.2), ?_⟩
      rw [heq]
      simp
    next => cases h

/-- What `getExpired` takes off the set. -/
def expired (q : TimerQueue) (now : Timestamp) : List Entry :=
  q.timers_.takeWhile fun e ↦ decide (e.lt (now, UINTPTR_MAX))

theorem getExpired_ok {now : Timestamp} (h : q.getExpired now = .ok q') :
    ∃ rest wait, q.timers_ = q.expired now ++ rest ∧
      q.waitTimers_.Perm ((q.expired now).map Prod.snd ++ wait) ∧ q' = { q with
        timers_ := rest, waitTimers_ := wait, activeTimers_ := (q.expired now).map Prod.snd } := by
  simp only [getExpired] at h
  split at h
  next =>
    rcases ok_of_bind h with ⟨u, hu, hsizes⟩
    rcases activate_ok hu with ⟨wait, hperm, rfl⟩
    split at hsizes
    · cases hsizes
      exact ⟨_, wait, List.takeWhile_append_dropWhile.symm, hperm, rfl⟩
    · cases hsizes
  next => cases h

theorem cancelInLoop_ok {timerId : TimerId} (h : q.cancelInLoop timerId = .ok q') :
    let u := q.record (.cancelInLoop timerId.timer_)
    (timerId.timer_ ∈ q.waitTimers_ ∧ q.entry timerId.timer_ ∈ q.timers_ ∧ q' = { u with
        freeTimers_ := q.freeTimers_ ++ [timerId.timer_]
        timers_ := q.timers_.erase (q.entry timerId.timer_)
        waitTimers_ := q.waitTimers_.erase timerId.timer_ }) ∨
      (timerId.timer_ ∉ q.waitTimers_ ∧ q.callingExpiredTimers_ = true ∧
        timerId.timer_ ∈ q.activeTimers_ ∧
        q' = { u with cancelingTimers_ := q.cancelingTimers_ ++ [timerId.timer_] }) ∨
      (timerId.timer_ ∉ q.waitTimers_ ∧
        (q.callingExpiredTimers_ = true → timerId.timer_ ∉ q.activeTimers_) ∧ q' = u) := by
  simp only [cancelInLoop] at h
  split at h
  next hwait =>
    split at h
    next hentry =>
      cases h
      exact .inl ⟨hwait, hentry, rfl⟩
    next => cases h
  next hwait =>
    split at h
    next hactive =>
      cases h
      exact .inr (.inl ⟨hwait, hactive.1, hactive.2, rfl⟩)
    next hactive =>
      cases h
      exact .inr (.inr ⟨hwait, fun hcalling hmem ↦ hactive ⟨hcalling, hmem⟩, rfl⟩)

theorem cancelInLoop_trace {timerId : TimerId} (hok : q.cancelInLoop timerId = .ok q') :
    q'.trace = q.trace ++ [.cancelInLoop timerId.timer_] := by
  rcases cancelInLoop_ok hok with ⟨_, _, rfl⟩ | ⟨_, _, _, rfl⟩ | ⟨_, _, rfl⟩ <;> rfl

theorem addTimerInLoop_ok {timer : Nat} {clock : Timestamp}
    (h : q.addTimerInLoop timer clock = .ok q') :
    ∃ fd, q.entry timer ∉ q.timers_ ∧ q' = { q with
      timers_ := insertEntry (q.entry timer) q.timers_, waitTimers_ := q.waitTimers_ ++ [timer],
      timerfd_ := fd } := by
  rcases ok_of_bind h with ⟨⟨u, changed⟩, hinsert, hrest⟩
  rcases insert_ok hinsert with ⟨hnew, rfl⟩
  dsimp only at hrest
  cases changed with
  | true =>
    cases hrest
    exact ⟨_, hnew, rfl⟩
  | false =>
    cases hrest
    exact ⟨_, hnew, rfl⟩

theorem finish_ok {now clock : Timestamp} (h : q.finish now clock = .ok q') :
    ∃ u fd, rearm { q with callingExpiredTimers_ := false, phase := .idle } now q.activeTimers_ =
      .ok u ∧
      q' = { u with timerfd_ := fd } := by
  rcases ok_of_bind h with ⟨u, hrearm, hrest⟩
  have hreset : ∀ e : Timestamp, ∃ fd,
      (if e.valid then u.resetTimerfd e clock else u) = { u with timerfd_ := fd } := by
    intro e
    split
    · exact ⟨_, rfl⟩
    · exact ⟨_, rfl⟩
  cases hrest
  rcases hreset _ with ⟨fd, hfd⟩
  exact ⟨u, fd, hrearm, hfd⟩

theorem handleRead_ok {now : Timestamp} (h : q.handleRead now = .ok q') :
    ∃ u, q.readTimerfd.getExpired now = .ok u ∧ q' = { u with
      callingExpiredTimers_ := true, cancelingTimers_ := [],
      phase := .calling now u.activeTimers_ } := by
  rcases ok_of_bind h with ⟨u, hexpired, hrest⟩
  cases hrest
  exact ⟨u, hexpired, rfl⟩

theorem readTimerfd_eq (q : TimerQueue) : ∃ fd, q.readTimerfd = { q with timerfd_ := fd } := by
  unfold readTimerfd
  split
  · exact ⟨_, rfl⟩
  · exact ⟨_, rfl⟩

/-- `handleRead` up to its loop, in terms of the entries it takes. -/
theorem handleRead_eq {now : Timestamp} (h : q.handleRead now = .ok q') :
    ∃ fd rest wait, q.timers_ = q.expired now ++ rest ∧
      q.waitTimers_.Perm ((q.expired now).map Prod.snd ++ wait) ∧ q' = { q with
        timerfd_ := fd, timers_ := rest, waitTimers_ := wait
        activeTimers_ := (q.expired now).map Prod.snd, callingExpiredTimers_ := true
        cancelingTimers_ := [], phase := .calling now ((q.expired now).map Prod.snd) } := by
  rcases handleRead_ok h with ⟨u, hexpired, rfl⟩
  rcases readTimerfd_eq q with ⟨fd, hfd⟩
  rw [hfd] at hexpired
  rcases getExpired_ok hexpired with ⟨rest, wait, htimers, hwait, rfl⟩
  exact ⟨fd, rest, wait, htimers, hwait, rfl⟩

/-! ## Steps -/

/-- What a step can be. -/
inductive StepCases (q : TimerQueue) : Label → TimerQueue → Prop
  | addHere {address : Nat} {when_ clock : Timestamp} {interval : Interval} {q' : TimerQueue} :
      q.inUserCode = true → 0 < address → address < UINTPTR_MAX → address ∉ q.allocated →
      (q.newTimer address when_ interval).addTimerInLoop address clock = .ok q' →
      StepCases q (.addTimer true address when_ interval clock) q'
  | addElsewhere {address : Nat} {when_ clock : Timestamp} {interval : Interval} :
      0 < address → address < UINTPTR_MAX → address ∉ q.allocated →
      StepCases q (.addTimer false address when_ interval clock)
        ((q.newTimer address when_ interval).queueInLoop (.addTimerInLoop address))
  | cancelHere {timerId : TimerId} {q' : TimerQueue} :
      q.inUserCode = true → q.Issued timerId → q.cancelInLoop timerId = .ok q' →
      StepCases q (.cancel true timerId) q'
  | cancelElsewhere {timerId : TimerId} :
      q.Issued timerId → StepCases q (.cancel false timerId) (q.queueInLoop (.cancelInLoop timerId))
  | addQueued {timer : Nat} {rest : List Functor} {clock : Timestamp} {q' : TimerQueue} :
      q.phase = .idle → q.pendingFunctors_ = .addTimerInLoop timer :: rest →
      addTimerInLoop { q with pendingFunctors_ := rest } timer clock = .ok q' →
      StepCases q (.functor clock) q'
  | cancelQueued {timerId : TimerId} {rest : List Functor} {clock : Timestamp} {q' : TimerQueue} :
      q.phase = .idle → q.pendingFunctors_ = .cancelInLoop timerId :: rest →
      cancelInLoop { q with pendingFunctors_ := rest } timerId = .ok q' →
      StepCases q (.functor clock) q'
  | expire {expiration : Timestamp} {it_value : Timespec} :
      q.timerfd_ = .armed expiration it_value → StepCases q .expire { q with timerfd_ := .fired }
  | handleRead {now : Timestamp} {q' : TimerQueue} :
      q.phase = .idle → q.handleRead now = .ok q' → StepCases q (.handleRead now) q'
  | run {now : Timestamp} {timer : Nat} {rest : List Nat} :
      q.phase = .calling now (timer :: rest) →
      StepCases q .run
        (record { q with currentActiveTimer_ := some timer, phase := .running now rest }
          (.run timer))
  | ret {now : Timestamp} {remaining : List Nat} :
      q.phase = .running now remaining →
      StepCases q .ret { q with phase := .calling now remaining }
  | finish {now clock : Timestamp} {q' : TimerQueue} :
      q.phase = .calling now [] → q.finish now clock = .ok q' → StepCases q (.finish clock) q'

theorem step_cases {l : Label} (h : Step q l q') : StepCases q l q' := by
  unfold Step at h
  cases l with
  | addTimer isInLoopThread address when_ interval clock =>
    simp only [next] at h
    split at h
    next hready =>
      have hok := Option.some.inj h
      rcases hready with ⟨huser, hpos, hmax, hnew⟩
      unfold addTimer at hok
      cases isInLoopThread with
      | true => exact .addHere (huser rfl) hpos hmax hnew hok
      | false =>
        cases hok
        exact .addElsewhere hpos hmax hnew
    next => cases h
  | cancel isInLoopThread timerId =>
    simp only [next] at h
    split at h
    next hready =>
      have hok := Option.some.inj h
      unfold cancel at hok
      cases isInLoopThread with
      | true => exact .cancelHere (hready.1 rfl) hready.2 hok
      | false =>
        cases hok
        exact .cancelElsewhere hready.2
    next => cases h
  | functor clock =>
    simp only [next] at h
    split at h
    next timer rest hidle hpending => exact .addQueued hidle hpending (Option.some.inj h)
    next timerId rest hidle hpending => exact .cancelQueued hidle hpending (Option.some.inj h)
    next => cases h
  | expire =>
    simp only [next] at h
    split at h
    next hfd =>
      cases h
      exact .expire hfd
    next => cases h
  | handleRead now =>
    simp only [next] at h
    split at h
    next hidle => exact .handleRead hidle (Option.some.inj h)
    next => cases h
  | run =>
    simp only [next] at h
    split at h
    next hphase =>
      cases h
      exact .run hphase
    next => cases h
  | ret =>
    simp only [next] at h
    split at h
    next hphase =>
      cases h
      exact .ret hphase
    next => cases h
  | finish clock =>
    simp only [next] at h
    split at h
    next hphase => exact .finish hphase (Option.some.inj h)
    next => cases h

end Pallette.TimerQueue
