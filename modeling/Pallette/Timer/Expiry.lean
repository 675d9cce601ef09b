import Pallette.Timer.Containers

/-!
# Expiry — which timers a `handleRead` runs, and what becomes of them

`getExpired` cuts the set at the sentry, so it takes the timers that are due (`handleRead_takes`);
the loop runs them one by one, whatever the callbacks add and cancel (`InBatch`); `reset` arms the
repeating ones again.  `Timely` is what that means for one timer over a whole run.
-/

open Reasoning

namespace Pallette.TimerQueue

variable {q q' q₁ : TimerQueue} {timer : Nat} {now : Timestamp}

def Event.ran? : Event → Option Nat
  | .run timer => some timer
  | .cancelInLoop _ => none

/-- The timers that have been run, in order. -/
def ran (trace : List Event) : List Nat :=
  trace.filterMap Event.ran?

theorem ran_append (es es' : List Event) : ran (es ++ es') = ran es ++ ran es' :=
  List.filterMap_append

theorem ran_cancel (es : List Event) (timer : Nat) :
    ran (es ++ [.cancelInLoop timer]) = ran es := by
  rw [ran_append]
  exact List.append_nil _

/-! ## What is taken -/

/-- A property that holds of all predecessors of an element it holds of. -/
theorem takeWhile_eq_filter {α : Type} {r : α → α → Prop} {p : α → Bool} {l : List α}
    (h : l.Pairwise r) (hp : ∀ a b, r a b → p b = true → p a = true) :
    l.takeWhile p = l.filter p ∧ l.dropWhile p = l.filter (!p ·) := by
  induction l with
  | nil => exact ⟨rfl, rfl⟩
  | cons a l ih =>
    rcases List.pairwise_cons.mp h with ⟨hhead, htail⟩
    cases ha : p a with
    | true => simp [ha, ih htail]
    | false =>
      -- nothing behind has the property either
      have hnone : ∀ b ∈ l, p b = false := by
        intro b hb
        by_contra hpb
        rw [hp a b (hhead b hb) (by simpa using hpb)] at ha
        cases ha
      have hempty : l.filter p = [] := List.filter_eq_nil_iff.mpr fun b hb ↦ by simp [hnone b hb]
      have hall : l.filter (!p ·) = l := List.filter_eq_self.mpr fun b hb ↦ by simp [hnone b hb]
      simp [ha, hempty, hall]

/-- What lies below the sentry is due. -/
theorem lt_sentry_iff {e : Entry} (hmax : e.2 < UINTPTR_MAX) :
    e.lt (now, UINTPTR_MAX) ↔ e.1 ≤ now := by
  simp only [Entry.lt, Timestamp.lt_iff, Timestamp.eq_iff, Timestamp.le_iff]
  omega

/-- The timers a `handleRead` at `now` takes, and what it leaves. -/
structure Takes (q : TimerQueue) (now : Timestamp) (q₁ : TimerQueue) : Prop where
  active : q₁.activeTimers_ = (q.timers_.filter fun e ↦ decide (e.1 ≤ now)).map Prod.snd
  left : q₁.timers_ = q.timers_.filter fun e ↦ !decide (e.1 ≤ now)
  once : q₁.activeTimers_.Nodup
  order : q₁.activeTimers_.Pairwise fun a b ↦ (q.timer a).expiration_ ≤ (q.timer b).expiration_
  due : ∀ timer ∈ q₁.activeTimers_, timer ∈ q.allocated ∧ (q.timer timer).expiration_ ≤ now

theorem Sound.entry_address (h : Sound q) {e : Entry} (he : e ∈ q.timers_) :
    e.2 ∈ q.allocated ∧ e.2 < UINTPTR_MAX := by
  have hknown := h.inv.settled.known e.2
    (List.mem_append_left _ (List.mem_append_right _ (h.inv.settled.mem_timers he).1))
  exact ⟨hknown, (h.addresses _ hknown).2⟩

theorem Sound.expired_eq (h : Sound q) (now : Timestamp) :
    q.expired now = q.timers_.filter (fun e ↦ decide (e.1 ≤ now)) ∧
      q.timers_.dropWhile (fun e ↦ decide (e.lt (now, UINTPTR_MAX))) =
        q.timers_.filter fun e ↦ !decide (e.1 ≤ now) := by
  have hsplit := takeWhile_eq_filter (p := fun e : Entry ↦ decide (e.lt (now, UINTPTR_MAX)))
    h.sorted
    fun a b hab hb ↦ decide_eq_true (Entry.lt_trans hab (of_decide_eq_true hb))
  have hsame : ∀ e ∈ q.timers_, decide (e.lt (now, UINTPTR_MAX)) = decide (e.1 ≤ now) :=
    fun e he ↦ decide_eq_decide.mpr (lt_sentry_iff (h.entry_address he).2)
  exact ⟨hsplit.1.trans (List.filter_congr hsame),
    hsplit.2.trans (List.filter_congr fun e he ↦ by rw [hsame e he])⟩

theorem Sound.handleRead_takes (h : Sound q) (hok : q.handleRead now = .ok q') :
    Takes q now q' := by
  rcases h.expired_eq now with ⟨hexpired, hrest⟩
  rcases handleRead_eq hok with ⟨fd, rest, wait, htimers, _, rfl⟩
  have hkeyed : ∀ e ∈ q.expired now, e = q.entry e.2 := fun e he ↦
    (h.inv.settled.mem_timers (htimers ▸ List.mem_append_left _ he)).2
  have hexp : ∀ e ∈ q.expired now, (q.timer e.2).expiration_ = e.1 := fun e he ↦
    (congrArg Prod.fst (hkeyed e he)).symm
  have hnodup : (q.timers_.map Prod.snd).Nodup := h.inv.settled.same.nodup_iff.mpr h.agree.once
  refine ⟨congrArg (List.map Prod.snd) hexpired, ?_, ?_, ?_, fun a ha ↦ ?_⟩
  · show rest = _
    rw [← hrest]
    exact List.append_cancel_left (htimers.symm.trans List.takeWhile_append_dropWhile.symm)
  · exact hnodup.sublist ((List.takeWhile_sublist _).map Prod.snd)
  -- the order of the entries is first of all that of the expirations
  · refine List.pairwise_map.mpr ((h.sorted.sublist (List.takeWhile_sublist _)).imp_of_mem ?_)
    intro a b ha hb hlt
    rw [hexp a ha, hexp b hb]
    simp only [Entry.lt, Timestamp.lt_iff, Timestamp.eq_iff] at hlt
    rw [Timestamp.le_iff]
    omega
  · rcases List.mem_map.mp ha with ⟨e, he, rfl⟩
    have hdue : e.1 ≤ now := by
      rw [hexpired] at he
      exact of_decide_eq_true (List.mem_filter.mp he).2
    refine ⟨(h.entry_address (htimers ▸ List.mem_append_left _ he)).1, ?_⟩
    rw [hexp e he]
    exact hdue

/-! ## What is run -/

/-- `handleRead` has begun in `q₁` and is not over in `q`; `since` is what has happened in
between. -/
structure InBatch (q₁ : TimerQueue) (now : Timestamp) (since : List Event) (q : TimerQueue) :
    Prop where
  sound : Sound q
  phase : q.phase = .calling now q.phase.remaining ∨ q.phase = .running now q.phase.remaining
  trace : q.trace = q₁.trace ++ since
  runs : ran since ++ q.phase.remaining = q₁.activeTimers_
  active : q.activeTimers_ = q₁.activeTimers_
  timers : ∀ timer ∈ q₁.activeTimers_, q.timer timer = q₁.timer timer
  marks : ∀ timer ∈ q.cancelingTimers_, .cancelInLoop timer ∈ since

theorem InBatch.busy {since : List Event} (h : InBatch q₁ now since q) : q.phase ≠ .idle := by
  intro hidle
  rcases h.phase with hphase | hphase <;> rw [hidle] at hphase <;> cases hphase

/-- The loop goes on with the time `handleRead` has begun at. -/
theorem InBatch.now_eq {since : List Event} (h : InBatch q₁ now since q) {now' : Timestamp}
    {remaining : List Nat}
    (hphase : q.phase = .calling now' remaining ∨ q.phase = .running now' remaining) :
    now' = now := by
  rcases hphase with hphase | hphase <;>
    rcases h.phase with hbatch | hbatch <;> rw [hphase] at hbatch <;> cases hbatch <;> rfl

/-- A timer of the batch is not a new one. -/
theorem InBatch.known {since : List Event} (h : InBatch q₁ now since q) :
    ∀ timer ∈ q₁.activeTimers_, timer ∈ q.allocated := by
  intro timer htimer
  rw [← h.active, ← batch_of_calling h.sound.inv h.busy] at htimer
  exact h.sound.inv.settled.known timer (List.mem_append_right _ htimer)

theorem InBatch.newTimer {since : List Event} (h : InBatch q₁ now since q) {address : Nat}
    (hnew : address ∉ q.allocated) (when_ : Timestamp) (interval : Interval) :
    ∀ timer ∈ q₁.activeTimers_, (q.newTimer address when_ interval).timer timer =
      q₁.timer timer := by
  intro timer htimer
  have hne : timer ≠ address := by
    rintro rfl
    exact hnew (h.known timer htimer)
  rw [← h.timers timer htimer]
  exact if_neg hne

/-- **One step** of the loop, or of a callback, or of another thread. -/
theorem InBatch.step {since : List Event} {l : Label} (h : InBatch q₁ now since q)
    (hstep : Step q l q')
    (hl : ∀ clock, l ≠ .finish clock) : ∃ since', InBatch q₁ now since' q' := by
  have hsound := h.sound.step hstep
  cases step_cases hstep with
  | @addHere address when_ clock interval _ huser hpos hmax hnew hok =>
    have htimers := h.newTimer hnew when_ interval
    rcases addTimerInLoop_ok hok with ⟨fd, _, rfl⟩
    exact ⟨since, hsound, h.phase, h.trace, h.runs, h.active, htimers, h.marks⟩
  | @addElsewhere address when_ clock interval hpos hmax hnew =>
    exact ⟨since, hsound, h.phase, h.trace, h.runs, h.active, h.newTimer hnew when_ interval,
      h.marks⟩
  | @cancelHere timerId _ huser hissued hok =>
    have htrace := cancelInLoop_trace hok
    rw [h.trace, List.append_assoc] at htrace
    have hruns : ran (since ++ [.cancelInLoop timerId.timer_]) ++ q.phase.remaining =
        q₁.activeTimers_ := by
      rw [ran_append]
      exact (congrArg (· ++ _) (List.append_nil _)).trans h.runs
    have hmarks : ∀ timer ∈ q.cancelingTimers_, .cancelInLoop timer ∈ since ++
        [Event.cancelInLoop timerId.timer_] := fun timer hmem ↦
          List.mem_append_left _ (h.marks timer hmem)
    refine ⟨since ++ [.cancelInLoop timerId.timer_], ?_⟩
    -- a cancel finds the timer waiting, or marks it in the batch, or finds nothing
    rcases cancelInLoop_ok hok with ⟨_, _, rfl⟩ | ⟨_, _, _, rfl⟩ | ⟨_, _, rfl⟩
    · exact ⟨hsound, h.phase, htrace, hruns, h.active, h.timers, hmarks⟩
    · refine ⟨hsound, h.phase, htrace, hruns, h.active, h.timers, fun timer hmem ↦ ?_⟩
      rcases List.mem_append.mp hmem with hmem | hmem
      · exact hmarks timer hmem
      · rw [List.mem_singleton.mp hmem]
        exact List.mem_append_right _ List.mem_cons_self
    · exact ⟨hsound, h.phase, htrace, hruns, h.active, h.timers, hmarks⟩
  | cancelElsewhere hissued =>
    exact ⟨since, hsound, h.phase, h.trace, h.runs, h.active, h.timers, h.marks⟩
  | addQueued hidle _ _ => exact absurd hidle h.busy
  | cancelQueued hidle _ _ => exact absurd hidle h.busy
  | expire harmed =>
    exact ⟨since, hsound, h.phase, h.trace, h.runs, h.active, h.timers, h.marks⟩
  | handleRead hidle _ => exact absurd hidle h.busy
  | @run now' timer rest hphase =>
    have hnow := h.now_eq (.inl hphase)
    -- one of those that remain moves to those that have run
    have hruns := h.runs
    rw [hphase] at hruns
    refine ⟨since ++ [.run timer], hsound, .inr (by rw [← hnow]; rfl), ?_, ?_, h.active, h.timers,
      fun a ha ↦ List.mem_append_left _ (h.marks a ha)⟩
    · show q.trace ++ _ = _
      rw [h.trace, List.append_assoc]
    · rw [ran_append, ← hruns, List.append_assoc]
      rfl
  | @ret now' remaining hphase =>
    have hnow := h.now_eq (.inr hphase)
    have hruns := h.runs
    rw [hphase] at hruns
    exact ⟨since, hsound, .inl (by rw [← hnow]; rfl), h.trace, hruns, h.active, h.timers, h.marks⟩
  | finish hphase hok => exact absurd rfl (hl _)

theorem InBatch.of_run {since : List Event} {ls : List Label} (h : Run Step q ls q')
    (hq : InBatch q₁ now since q) (hls : ∀ clock, .finish clock ∉ ls) :
    ∃ since', InBatch q₁ now since' q' := by
  induction h generalizing since with
  | nil => exact ⟨since, hq⟩
  | cons hstep _ ih =>
    rcases hq.step hstep fun clock heq ↦ hls clock (heq ▸ List.mem_cons_self) with ⟨since', hq'⟩
    exact ih hq' fun clock hmem ↦ hls clock (List.mem_cons_of_mem _ hmem)

/-- The first state of a `handleRead`. -/
theorem InBatch.begin (h : Sound q) (hstep : Step q (.handleRead now) q₁) :
    InBatch q₁ now [] q₁ := by
  have hsound := h.step hstep
  cases step_cases hstep with
  | handleRead _ hok =>
    rcases handleRead_eq hok with ⟨fd, rest, wait, _, _, rfl⟩
    exact ⟨hsound, .inl rfl, (List.append_nil _).symm, rfl, rfl, fun _ _ ↦ rfl,
      fun _ h ↦ (by cases h)⟩

/-- A repeating timer that has been armed again at `now`. -/
def Armed (q : TimerQueue) (now : Timestamp) (interval : Interval) (timer : Nat) : Prop :=
  (addTime now interval, timer) ∈ q.timers_ ∧ (q.timer timer).expiration_ = addTime now interval

/-- The end: all have been run, and those that repeat wait again. -/
theorem InBatch.finish {since : List Event} {clock : Timestamp} (h : InBatch q₁ now since q)
    (hstep : Step q (.finish clock) q') :
    q'.trace = q.trace ∧ ran since = q₁.activeTimers_ ∧
      ∀ timer ∈ q₁.activeTimers_, (q₁.timer timer).repeat_ = true → .cancelInLoop timer ∉ since →
        Armed q' now (q₁.timer timer).interval_ timer := by
  have hsound := h.sound.step hstep
  cases step_cases hstep with
  | @finish now' _ _ hphase hok =>
    have hnow := h.now_eq (.inl hphase)
    subst hnow
    have hruns := h.runs
    rw [hphase] at hruns
    rcases h.sound.finish_eq h.busy hok with ⟨fd, rfl⟩
    refine ⟨rfl, (List.append_nil _).symm.trans hruns, fun timer htimer hrepeat hcancel ↦ ?_⟩
    have hsame := h.timers timer htimer
    have hkept : timer ∈ q.activeTimers_.filter q.keeps := by
      rw [h.active]
      refine List.mem_filter.mpr ⟨htimer, ?_⟩
      have hmark : timer ∉ q.cancelingTimers_ := fun hmem ↦ hcancel (h.marks timer hmem)
      simp [keeps, hsame, hrepeat, hmark]
    have hexpiration : ((q.timer timer).restart now').expiration_ =
        addTime now' (q₁.timer timer).interval_ := by
      rw [hsame, Timer.restart, if_pos hrepeat]
    have htable : (q.rearmed now' q.activeTimers_).timer timer = (q.timer timer).restart now' :=
      if_pos hkept
    -- it waits, so its entry is in the set
    have hentry := hsound.inv.settled.keyed.mem_iff.mpr
      (List.mem_map_of_mem (List.mem_append_right q.waitTimers_ hkept))
    simp only [entry, htable, hexpiration] at hentry
    refine ⟨hentry, ?_⟩
    show ((q.rearmed now' q.activeTimers_).timer timer).expiration_ = _
    rw [htable, hexpiration]

/-! ## The life of a timer -/

/-- How often the timer has been run, or will be without being armed again. -/
def turns (q : TimerQueue) (timer : Nat) : Nat :=
  (ran q.trace ++ q.phase.remaining ++ adds q.pendingFunctors_ ++ q.waitTimers_).count timer

structure Timely (q : TimerQueue) : Prop where
  sound : Sound q
  repeats : ∀ timer ∈ q.allocated, (q.timer timer).repeat_ = (q.timer timer).interval_.positive
  known : ∀ timer ∈ ran q.trace ++ q.phase.remaining, timer ∈ q.allocated
  once : ∀ timer ∈ q.allocated, (q.timer timer).repeat_ = false → q.turns timer ≤ 1
  due : ∀ now remaining, q.phase = .calling now remaining ∨ q.phase = .running now remaining →
    ∀ timer ∈ remaining, (q.timer timer).expiration_ ≤ now

theorem timely_empty : Timely {} :=
  ⟨sound_empty, fun _ h ↦ (by cases h), fun _ h ↦ (by cases h), fun _ h ↦ (by cases h),
    fun _ _ h ↦ (by rcases h with h | h <;> cases h)⟩

theorem turns_eq (q : TimerQueue) (timer : Nat) :
    q.turns timer = (ran q.trace).count timer + q.phase.remaining.count timer +
      (adds q.pendingFunctors_).count timer + q.waitTimers_.count timer := by
  simp only [turns, List.count_append]

theorem Timely.keep (h : Timely q) (hsound : Sound q') (hallocated : q'.allocated = q.allocated)
    (htimer : q'.timer = q.timer) (hphase : q'.phase = q.phase)
    (htrace : ran q'.trace = ran q.trace)
    (hturns : ∀ timer, q'.turns timer ≤ q.turns timer) : Timely q' := by
  refine ⟨hsound, ?_, ?_, fun timer hmem hrepeat ↦ ?_, ?_⟩
  · rw [hallocated, htimer]
    exact h.repeats
  · rw [hallocated, htrace, hphase]
    exact h.known
  · rw [hallocated] at hmem
    rw [htimer] at hrepeat
    exact (hturns timer).trans (h.once timer hmem hrepeat)
  · rw [hphase, htimer]
    exact h.due

/-- Only what has been allocated has a turn. -/
theorem Timely.turns_of_new (h : Timely q) (hnew : timer ∉ q.allocated) : q.turns timer = 0 := by
  refine List.count_eq_zero.mpr fun hmem ↦ hnew ?_
  rw [List.append_assoc] at hmem
  rcases List.mem_append.mp hmem with hmem | hmem
  · exact h.known timer hmem
  · exact h.sound.inv.settled.known timer (List.mem_append_left _ hmem)

/-- A new timer has one turn. -/
theorem Timely.add (h : Timely q) (hsound : Sound q') {address : Nat} (hnew : address ∉ q.allocated)
    (when_ : Timestamp) (interval : Interval) (hallocated : q'.allocated = q.allocated ++ [address])
    (htimer : q'.timer = (q.newTimer address when_ interval).timer) (hphase : q'.phase = q.phase)
    (htrace : q'.trace = q.trace)
    (hturns : ∀ timer, q'.turns timer = q.turns timer + [address].count timer) : Timely q' := by
  -- the new timer, and all the others, which are what they were
  have hself : q'.timer address = ⟨when_, interval, interval.positive, q.sNumCreated_⟩ := by
    rw [htimer]
    exact if_pos rfl
  have hother : ∀ timer ∈ q.allocated, q'.timer timer = q.timer timer ∧
      [address].count timer = 0 := by
    intro timer hmem
    have hne : timer ≠ address := by
      rintro rfl
      exact hnew hmem
    refine ⟨?_, List.count_eq_zero.mpr fun h ↦ hne (List.mem_singleton.mp h)⟩
    rw [htimer]
    exact if_neg hne
  refine ⟨hsound, fun timer hmem ↦ ?_, fun timer hmem ↦ ?_, fun timer hmem hrepeat ↦ ?_,
    fun now remaining hbusy timer hmem ↦ ?_⟩
  · rw [hallocated] at hmem
    rcases List.mem_append.mp hmem with hmem | hmem
    · rw [(hother timer hmem).1]
      exact h.repeats timer hmem
    · rw [List.mem_singleton.mp hmem, hself]
  · rw [htrace, hphase] at hmem
    rw [hallocated]
    exact List.mem_append_left _ (h.known timer hmem)
  · rw [hallocated] at hmem
    rw [hturns]
    rcases List.mem_append.mp hmem with hmem | hmem
    · rw [(hother timer hmem).1] at hrepeat
      rw [(hother timer hmem).2]
      exact h.once timer hmem hrepeat
    · rw [List.mem_singleton.mp hmem, h.turns_of_new hnew, List.count_singleton_self]
  · rw [hphase] at hbusy
    have hknown : timer ∈ q.allocated := by
      refine h.known timer (List.mem_append_right _ ?_)
      rcases hbusy with hbusy | hbusy <;> rw [hbusy] <;> exact hmem
    rw [(hother timer hknown).1]
    exact h.due now remaining hbusy timer hmem

theorem turns_cancelInLoop {timerId : TimerId} (hok : q.cancelInLoop timerId = .ok q')
    (timer : Nat) :
    q'.turns timer ≤ q.turns timer := by
  have hruns := ran_cancel q.trace timerId.timer_
  rcases cancelInLoop_ok hok with ⟨_, _, rfl⟩ | ⟨_, _, _, rfl⟩ | ⟨_, _, rfl⟩
  · have hle := (List.erase_sublist (a := timerId.timer_) (l := q.waitTimers_)).count_le timer
    simp only [turns_eq, record, hruns]
    omega
  · simp only [turns_eq, record, hruns, le_refl]
  · simp only [turns_eq, record, hruns, le_refl]

theorem Timely.step {l : Label} (h : Timely q) (hstep : Step q l q') : Timely q' := by
  have hsound := h.sound.step hstep
  cases step_cases hstep with
  | @addHere address when_ clock interval _ huser hpos hmax hnew hok =>
    rcases addTimerInLoop_ok hok with ⟨fd, _, rfl⟩
    refine h.add hsound hnew when_ interval rfl rfl rfl rfl fun timer ↦ ?_
    simp only [turns_eq, newTimer, setTimer, List.count_append]
    omega
  | @addElsewhere address when_ clock interval hpos hmax hnew =>
    refine h.add hsound hnew when_ interval rfl rfl rfl rfl fun timer ↦ ?_
    simp only [turns_eq, queueInLoop, newTimer, setTimer, adds_append, Functor.added?,
      Option.toList, List.count_append]
    omega
  | cancelHere huser hissued hok =>
    have hturns := turns_cancelInLoop hok
    rcases cancelInLoop_ok hok with ⟨_, _, rfl⟩ | ⟨_, _, _, rfl⟩ | ⟨_, _, rfl⟩ <;>
      exact h.keep hsound rfl rfl rfl (ran_cancel _ _) hturns
  | cancelElsewhere hissued =>
    refine h.keep hsound rfl rfl rfl rfl fun timer ↦ ?_
    simp only [turns_eq, queueInLoop, adds_append, Functor.added?, Option.toList, List.append_nil,
      le_refl]
  | addQueued hidle hpending hok =>
    rcases addTimerInLoop_ok hok with ⟨fd, _, rfl⟩
    refine h.keep hsound rfl rfl rfl rfl fun timer ↦ ?_
    simp only [turns_eq, hpending, adds_cons, Functor.added?, Option.toList, List.count_append]
    omega
  | @cancelQueued timerId rest _ _ hidle hpending hok =>
    have hturns := turns_cancelInLoop hok
    have hsame : ∀ timer, turns { q with pendingFunctors_ := rest } timer = q.turns timer :=
        fun timer ↦ by
      simp only [turns_eq, hpending, adds_cons, Functor.added?, Option.toList, List.nil_append]
    rcases cancelInLoop_ok hok with ⟨_, _, rfl⟩ | ⟨_, _, _, rfl⟩ | ⟨_, _, rfl⟩ <;>
      exact h.keep hsound rfl rfl rfl (ran_cancel _ _) fun timer ↦
        (hturns timer).trans (hsame timer).le
  | expire harmed => exact h.keep hsound rfl rfl rfl rfl fun _ ↦ le_rfl
  | @handleRead now _ hidle hok =>
    have htakes := h.sound.handleRead_takes hok
    rcases handleRead_eq hok with ⟨fd, rest, wait, _, hperm, rfl⟩
    refine ⟨hsound, h.repeats, fun timer hmem ↦ ?_, fun timer hmem hrepeat ↦ ?_,
      fun now' remaining hbusy timer hmem ↦ ?_⟩
    · rcases List.mem_append.mp hmem with hmem | hmem
      · exact h.known timer (List.mem_append_left _ hmem)
      · exact (htakes.due timer hmem).1
    · have hcount := hperm.count_eq timer
      have honce := h.once timer hmem hrepeat
      rw [turns_eq, hidle] at honce
      rw [turns_eq]
      simp only [List.count_append, Phase.remaining, List.count_nil] at *
      omega
    · rcases hbusy with hbusy | hbusy <;> cases hbusy
      exact (htakes.due timer hmem).2
  | @run now other rest hphase =>
    have hruns : ran (q.trace ++ [.run other]) ++ rest = ran q.trace ++ q.phase.remaining := by
      rw [ran_append, hphase, List.append_assoc]
      rfl
    refine ⟨hsound, h.repeats, ?_, fun timer hmem hrepeat ↦ ?_,
      fun now' remaining hbusy timer hmem ↦ ?_⟩
    · show ∀ timer ∈ ran (q.trace ++ [.run other]) ++ rest, timer ∈ q.allocated
      rw [hruns]
      exact h.known
    · have honce := h.once timer hmem hrepeat
      have hcount : (ran (q.trace ++ [.run other])).count timer + rest.count timer =
          (ran q.trace).count timer + q.phase.remaining.count timer := by
        rw [← List.count_append, hruns, List.count_append]
      rw [turns_eq, ← hcount] at honce
      rw [turns_eq]
      exact honce
    · rcases hbusy with hbusy | hbusy <;> cases hbusy
      exact h.due now _ (.inl hphase) timer (List.mem_cons_of_mem _ hmem)
  | @ret now remaining hphase =>
    have hsame : q.phase.remaining = remaining := by rw [hphase]; rfl
    refine ⟨hsound, h.repeats, fun timer hmem ↦ h.known timer (hsame ▸ hmem),
      fun timer hmem hrepeat ↦ ?_, fun now' remaining' hbusy timer hmem ↦ ?_⟩
    · have honce := h.once timer hmem hrepeat
      rw [turns_eq, hsame] at honce
      rw [turns_eq]
      exact honce
    · rcases hbusy with hbusy | hbusy <;> cases hbusy
      exact h.due now _ (.inr hphase) timer hmem
  | @finish now clock _ hphase hok =>
    rcases h.sound.finish_eq (by rw [hphase]; simp) hok with ⟨fd, rfl⟩
    refine ⟨hsound, fun timer hmem ↦ ?_, ?_, fun timer hmem hrepeat ↦ ?_,
      fun now' remaining hbusy ↦ ?_⟩
    · show ((q.rearmed now q.activeTimers_).timer timer).repeat_ =
        ((q.rearmed now q.activeTimers_).timer timer).interval_.positive
      rcases rearmed_timer q now q.activeTimers_ timer with ⟨expiration, htimer⟩
      rw [htimer]
      exact h.repeats timer hmem
    · intro timer hmem
      have hran : timer ∈ ran q.trace ++ [] := hmem
      rw [List.append_nil] at hran
      exact h.known timer (List.mem_append_left _ hran)
    · rcases rearmed_timer q now q.activeTimers_ timer with ⟨expiration, htimer⟩
      have hrepeat : (q.timer timer).repeat_ = false :=
        (congrArg Timer.repeat_ htimer).symm.trans hrepeat
      have honce := h.once timer hmem hrepeat
      -- a timer that does not repeat is not among those that wait again
      have hnone : (q.activeTimers_.filter q.keeps).count timer = 0 :=
        List.count_eq_zero.mpr fun hkept ↦ by simp [keeps, hrepeat] at hkept
      rw [turns_eq, hphase] at honce
      rw [turns_eq]
      simp only [rearmed, List.count_append, hnone, Phase.remaining, List.count_nil] at *
      omega
    · rcases hbusy with hbusy | hbusy <;> cases hbusy

/-! ## Runs -/

/-- **Expiry.**  Over every run: a `handleRead` at `now` takes the timers that are due, in the order
of their expirations.  Until it ends, those it has run and those it has still to run are, in that
order, the ones it took; when it ends it has run them all, and the repeating ones nobody has
cancelled meanwhile wait again.  No timer is run before its expiration, and one that does not repeat
at most once. -/
theorem runs_expired {ls : List Label} (h : Run Step {} ls q) :
    (∀ now q₁, Step q (.handleRead now) q₁ → Takes q now q₁ ∧
      ∀ ls' q', Run Step q₁ ls' q' → (∀ clock, .finish clock ∉ ls') →
        ∃ since, q'.trace = q.trace ++ since ∧ ran since ++ q'.phase.remaining = q₁.activeTimers_ ∧
          ∀ clock q'', Step q' (.finish clock) q'' →
            q''.trace = q'.trace ∧ ran since = q₁.activeTimers_ ∧
            ∀ timer ∈ q₁.activeTimers_, (q.timer timer).repeat_ = true →
            .cancelInLoop timer ∉ since →
              Armed q'' now (q.timer timer).interval_ timer) ∧
      (∀ now timer rest, q.phase = .calling now (timer :: rest) →
      (q.timer timer).expiration_ ≤ now) ∧
      ∀ timer ∈ q.allocated, (q.timer timer).interval_.positive = false →
      (ran q.trace).count timer ≤ 1 := by
  have htimely : Timely q := h.invariant Timely (fun _ _ _ hs hstep ↦ hs.step hstep) timely_empty
  refine ⟨fun now q₁ hread ↦ ?_, fun now timer rest hphase ↦ ?_, fun timer hmem hinterval ↦ ?_⟩
  · have hbegin := InBatch.begin htimely.sound hread
    have hsame : q₁.trace = q.trace ∧ q₁.timer = q.timer ∧ Takes q now q₁ := by
      cases step_cases hread with
      | handleRead hidle hok =>
        have htakes := htimely.sound.handleRead_takes hok
        rcases handleRead_eq hok with ⟨fd, rest, wait, _, _, rfl⟩
        exact ⟨rfl, rfl, htakes⟩
    rcases hsame with ⟨htrace, htimer, htakes⟩
    refine ⟨htakes, fun ls' q' hrun hls ↦ ?_⟩
    rcases hbegin.of_run hrun hls with ⟨since, hbatch⟩
    refine ⟨since, htrace ▸ hbatch.trace, hbatch.runs, fun clock q'' hfinish ↦ ?_⟩
    rw [← htimer]
    exact hbatch.finish hfinish
  · exact htimely.due now _ (.inl hphase) timer List.mem_cons_self
  · have honce := htimely.once timer hmem ((htimely.repeats timer hmem).trans hinterval)
    rw [turns_eq] at honce
    omega

/-- One timer that repeats, one that does not, and one that the first callback adds and that is due
at once. -/
theorem runs_expired_added :
    ∃ q, Run Step {} [.addTimer true 8 ⟨5⟩ ⟨true, 10⟩ ⟨0⟩, .addTimer true 16 ⟨5⟩ ⟨false, 0⟩ ⟨0⟩,
        .handleRead ⟨7⟩, .run, .addTimer true 24 ⟨6⟩ ⟨false, 0⟩ ⟨8⟩, .ret, .run, .ret,
        .finish ⟨8⟩] q ∧
      ran q.trace = [8, 16] ∧ q.timers_ = [(⟨6⟩, 24), (⟨17⟩, 8)] ∧
      (∀ now q₁, Step q (.handleRead now) q₁ → Takes q now q₁) ∧
      ∀ timer ∈ q.allocated, (q.timer timer).interval_.positive = false →
          (ran q.trace).count timer ≤ 1 := by
  have hrun := show Run Step {} [.addTimer true 8 ⟨5⟩ ⟨true, 10⟩ ⟨0⟩,
        .addTimer true 16 ⟨5⟩ ⟨false, 0⟩ ⟨0⟩, .handleRead ⟨7⟩, .run,
        .addTimer true 24 ⟨6⟩ ⟨false, 0⟩ ⟨8⟩, .ret, .run, .ret, .finish ⟨8⟩] _ from
    .cons rfl <| .cons rfl <| .cons rfl <| .cons rfl <| .cons rfl <| .cons rfl <| .cons rfl <|
      .cons rfl <|
    .cons rfl <| .nil _
  have hexpired := runs_expired hrun
  exact ⟨_, hrun, rfl, rfl, fun now q₁ hread ↦ (hexpired.1 now q₁ hread).1, hexpired.2.2⟩

end Pallette.TimerQueue
