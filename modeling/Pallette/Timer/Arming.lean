import Pallette.Timer.Containers

/-!
# Arming — a queue that has timers gets woken

The timerfd is set when a timer becomes the earliest, and at the end of each `handleRead`.  In
between it may be early, because a cancellation leaves it alone, but never late.
-/

open Reasoning

namespace Pallette.TimerQueue

variable {q q' : TimerQueue} {timer : Nat}

/-- The timerfd is due at `t` or before, or has been due and not been read. -/
def Timerfd.By : Timerfd → Timestamp → Prop
  | .disarmed, _ => False
  | .armed expiration _, t => expiration ≤ t
  | .fired, _ => True

theorem Timerfd.By.mono {fd : Timerfd} {s t : Timestamp} (h : fd.By s) (hle : s ≤ t) : fd.By t := by
  cases fd with
  | disarmed => exact h
  | armed expiration it_value =>
    simp only [Timerfd.By, Timestamp.le_iff] at *
    omega
  | fired => trivial

/-- What `timerfd_settime` takes for a time, and not for the wish to disarm. -/
def Timespec.Arms (ts : Timespec) : Prop :=
  ¬ (ts.tv_sec = 0 ∧ ts.tv_nsec = 0) ∧ 0 ≤ ts.tv_sec ∧ 0 ≤ ts.tv_nsec ∧ ts.tv_nsec < 10 ^ 9

def Timespec.nanoseconds (ts : Timespec) : Int :=
  ts.tv_sec * 10 ^ 9 + ts.tv_nsec

/-- The kernel is asked to wait until `expiration`, seen from `now`, and for 100 microseconds at
least. -/
def Timespec.Until (ts : Timespec) (expiration now : Timestamp) : Prop :=
  ts.nanoseconds = 1000 * max 100 (expiration.microSeconds_ - now.microSeconds_)

theorem howMuchTimeFromNow_eq (when_ now : Timestamp) :
    howMuchTimeFromNow when_ now =
      { tv_sec := max 100 (when_.microSeconds_ - now.microSeconds_) / 1000000
        tv_nsec := max 100 (when_.microSeconds_ - now.microSeconds_) % 1000000 * 1000 } := by
  have hleast : ∀ d : Int, (if d < 100 then 100 else d) = max 100 d := by
    intro d
    split <;> omega
  unfold howMuchTimeFromNow
  dsimp only
  rw [hleast, Int.tdiv_eq_ediv_of_nonneg (by omega), Int.tmod_eq_emod_of_nonneg (by omega)]
  rfl

theorem howMuchTimeFromNow_arms (when_ now : Timestamp) : (howMuchTimeFromNow when_ now).Arms := by
  rw [howMuchTimeFromNow_eq]
  -- whatever the clock says there are 100 microseconds to go at least
  have hleast := le_max_left 100 (when_.microSeconds_ - now.microSeconds_)
  generalize max 100 (when_.microSeconds_ - now.microSeconds_) = microseconds at hleast
  simp only [Timespec.Arms]
  omega

theorem howMuchTimeFromNow_until (when_ now : Timestamp) :
    (howMuchTimeFromNow when_ now).Until when_ now := by
  rw [Timespec.Until, howMuchTimeFromNow_eq]
  simp only [Timespec.nanoseconds]
  omega

/-! ## The two places that set the timerfd -/

theorem head_le {first : Entry} {rest : List Entry} (h : (first :: rest).Pairwise Entry.lt)
    {e : Entry} (he : e ∈ first :: rest) : first.1 ≤ e.1 := by
  rcases List.mem_cons.mp he with rfl | he
  · rw [Timestamp.le_iff]
  · have hlt := (List.pairwise_cons.mp h).1 e he
    simp only [Entry.lt, Timestamp.lt_iff, Timestamp.eq_iff] at hlt
    rw [Timestamp.le_iff]
    omega

/-- An insertion sets it anew only for a timer that comes before all others. -/
theorem addTimerInLoop_by {clock : Timestamp} (hok : q.addTimerInLoop timer clock = .ok q')
    (hsorted : q.timers_.Pairwise Entry.lt) (h : ∀ e ∈ q.timers_, q.timerfd_.By e.1) :
    ∀ e ∈ q'.timers_, q'.timerfd_.By e.1 := by
  rcases ok_of_bind hok with ⟨⟨u, changed⟩, hinsert, hrest⟩
  unfold insert at hinsert
  dsimp only at hinsert
  split at hinsert
  next => cases hinsert
  next =>
    cases hinsert
    have hmem : ∀ e ∈ insertEntry (q.entry timer) q.timers_, e = q.entry timer ∨ e ∈ q.timers_ :=
      fun e he ↦ mem_insertEntry he
    cases htimers : q.timers_ with
    | nil =>
      rw [htimers] at hrest hmem
      cases hrest
      intro e he
      rcases hmem e he with rfl | he
      · exact Int.lt_irrefl _
      · cases he
    | cons first rest =>
      rw [htimers] at hrest hmem hsorted h
      by_cases hearlier : (q.timer timer).expiration_ < first.1
      · simp only [hearlier, decide_true, if_true] at hrest
        cases hrest
        intro e he
        show (q.timer timer).expiration_ ≤ e.1
        rcases hmem e he with rfl | he
        · exact Int.lt_irrefl _
        · have hle := head_le hsorted he
          simp only [Timestamp.lt_iff, Timestamp.le_iff] at *
          omega
      · simp only [hearlier, decide_false, Bool.false_eq_true, if_false] at hrest
        cases hrest
        intro e he
        rcases hmem e he with rfl | he
        · exact (h first List.mem_cons_self).mono hearlier
        · exact h e he

/-- `reset` sets it to the first timer, if that has an expiration. -/
theorem finish_by {now clock : Timestamp} (hok : q.finish now clock = .ok q')
    (hsorted : q'.timers_.Pairwise Entry.lt) (hvalid : ∀ e ∈ q'.timers_, e.1.valid = true) :
    ∀ e ∈ q'.timers_, q'.timerfd_.By e.1 := by
  rcases ok_of_bind hok with ⟨u, _, hrest⟩
  cases htimers : u.timers_ with
  | nil =>
    have hsame : q' = u := by
      rw [htimers] at hrest
      exact (Except.ok.inj hrest).symm
    rw [hsame, htimers]
    exact fun e he ↦ (by cases he)
  | cons first rest =>
    have hset : q' = if first.1.valid then u.resetTimerfd first.1 clock else u := by
      rw [htimers] at hrest
      exact (Except.ok.inj hrest).symm
    by_cases hfirst : first.1.valid = true
    · rw [if_pos hfirst] at hset
      subst hset
      intro e he
      have hentries : (u.resetTimerfd first.1 clock).timers_ = first :: rest := htimers
      rw [hentries] at hsorted he
      exact head_le hsorted he
    · rw [if_neg hfirst] at hset
      subst hset
      exact absurd (hvalid first (htimers ▸ List.mem_cons_self)) hfirst

/-! ## What the timerfd has been set to -/

/-- The clock reading of a step that calls `resetTimerfd`, if it does. -/
def Label.clock? : Label → Option Timestamp
  | .addTimer true _ _ _ clock | .functor clock | .finish clock => some clock
  | _ => none

/-- The timerfd is armed as it was, or for a time reckoned from one clock reading. -/
def ArmedFrom (q q' : TimerQueue) (clocks : List Timestamp) : Prop :=
  ∀ expiration it_value, q'.timerfd_ = .armed expiration it_value →
    q.timerfd_ = .armed expiration it_value ∨ ∃ now ∈ clocks, it_value.Until expiration now

theorem ArmedFrom.of_eq {clocks : List Timestamp} (h : q'.timerfd_ = q.timerfd_) :
    ArmedFrom q q' clocks :=
  fun _ _ harmed ↦ .inl (h ▸ harmed)

theorem ArmedFrom.of_reset {u : TimerQueue} {expiration clock : Timestamp}
    (h : q'.timerfd_ = (u.resetTimerfd expiration clock).timerfd_) : ArmedFrom q q' [clock] := by
  intro expiration' it_value harmed
  rw [h] at harmed
  cases harmed
  exact .inr ⟨clock, List.mem_cons_self, howMuchTimeFromNow_until _ _⟩

theorem addTimerInLoop_armedFrom {u : TimerQueue} {clock : Timestamp}
    (hok : u.addTimerInLoop timer clock = .ok q') (hsame : u.timerfd_ = q.timerfd_) :
    ArmedFrom q q' [clock] := by
  rcases ok_of_bind hok with ⟨⟨v, changed⟩, hinsert, hrest⟩
  rcases insert_ok hinsert with ⟨-, rfl⟩
  cases changed with
  | true =>
    cases hrest
    exact .of_reset rfl
  | false =>
    cases hrest
    exact .of_eq hsame

theorem rearm_timerfd {now : Timestamp} {timers : List Nat} (hok : q.rearm now timers = .ok q') :
    q'.timerfd_ = q.timerfd_ := by
  induction timers generalizing q with
  | nil =>
    cases hok
    rfl
  | cons timer rest ih =>
    unfold rearm at hok
    split at hok
    next =>
      rcases ok_of_bind hok with ⟨⟨u, changed⟩, hinsert, hrest⟩
      rcases insert_ok hinsert with ⟨-, rfl⟩
      dsimp only at hrest
      rw [ih hrest]
      rfl
    next => rw [ih hok]

theorem finish_armedFrom {now clock : Timestamp} (hok : q.finish now clock = .ok q') :
    ArmedFrom q q' [clock] := by
  rcases ok_of_bind hok with ⟨u, hrearm, hrest⟩
  have hsame : u.timerfd_ = q.timerfd_ := by rw [rearm_timerfd hrearm]
  have hreset : ∀ e : Timestamp,
      ArmedFrom q (if e.valid then u.resetTimerfd e clock else u) [clock] := by
    intro e
    split
    · exact .of_reset rfl
    · exact .of_eq hsame
  cases hrest
  exact hreset _

theorem step_armedFrom {l : Label} (h : Step q l q') : ArmedFrom q q' l.clock?.toList := by
  cases step_cases h with
  | addHere huser hpos hmax hnew hok => exact addTimerInLoop_armedFrom hok rfl
  | addElsewhere hpos hmax hnew => exact .of_eq rfl
  | addQueued hidle hpending hok => exact addTimerInLoop_armedFrom hok rfl
  | cancelHere huser hissued hok =>
    rcases cancelInLoop_ok hok with ⟨_, _, rfl⟩ | ⟨_, _, _, rfl⟩ | ⟨_, _, rfl⟩ <;> exact .of_eq rfl
  | cancelQueued hidle hpending hok =>
    rcases cancelInLoop_ok hok with ⟨_, _, rfl⟩ | ⟨_, _, _, rfl⟩ | ⟨_, _, rfl⟩ <;> exact .of_eq rfl
  | cancelElsewhere hissued => exact .of_eq rfl
  | expire harmed => exact fun _ _ hfired ↦ (by cases hfired)
  | handleRead hidle hok =>
    rcases handleRead_ok hok with ⟨u, hexpired, rfl⟩
    rcases getExpired_ok hexpired with ⟨rest, wait, -, -, rfl⟩
    -- reading the timerfd may leave it disarmed
    intro expiration it_value harmed
    by_cases hfired : q.timerfd_ = .fired
    · simp only [readTimerfd, if_pos hfired, reduceCtorEq] at harmed
    · simp only [readTimerfd, if_neg hfired] at harmed
      exact .inl harmed
  | run hphase => exact .of_eq rfl
  | ret hphase => exact .of_eq rfl
  | finish hphase hok => exact finish_armedFrom hok

theorem run_armedFrom {ls : List Label} (h : Run Step q ls q') :
    ArmedFrom q q' (ls.filterMap Label.clock?) := by
  induction h with
  | nil => exact .of_eq rfl
  | @cons s t u l ls hl hrun ih =>
    intro expiration it_value harmed
    rcases ih expiration it_value harmed with hbefore | ⟨now, hnow, huntil⟩
    · rcases step_armedFrom hl expiration it_value hbefore with hbefore | ⟨now, hnow, huntil⟩
      · exact .inl hbefore
      · refine .inr ⟨now, ?_, huntil⟩
        exact List.mem_filterMap.mpr ⟨l, List.mem_cons_self, Option.mem_toList.mp hnow⟩
    · obtain ⟨l', hl', hclock⟩ := List.mem_filterMap.mp hnow
      exact .inr ⟨now, List.mem_filterMap.mpr ⟨l', List.mem_cons_of_mem _ hl', hclock⟩, huntil⟩

/-! ## Runs -/

/-- All timers have an expiration the code takes for one. -/
def Positive (q : TimerQueue) : Prop :=
  ∀ timer ∈ q.allocated, (q.timer timer).expiration_.valid = true

instance (q : TimerQueue) : Decidable (Positive q) :=
  inferInstanceAs (Decidable (∀ timer ∈ q.allocated, _))

structure Watched (q : TimerQueue) : Prop where
  sound : Sound q
  watched : q.phase = .idle → ∀ e ∈ q.timers_, q.timerfd_.By e.1

theorem Watched.step {l : Label} (h : Watched q) (hstep : Step q l q') (hpositive : Positive q') :
    Watched q' := by
  have hsound := h.sound.step hstep
  refine ⟨hsound, ?_⟩
  cases step_cases hstep with
  | @addHere address when_ clock interval _ huser hpos hmax hnew hok =>
    intro hidle
    have hidle' : q.phase = .idle := by
      rcases addTimerInLoop_ok hok with ⟨fd, _, rfl⟩
      exact hidle
    exact addTimerInLoop_by hok h.sound.sorted (h.watched hidle')
  | addElsewhere hpos hmax hnew => exact h.watched
  | addQueued hidle hpending hok =>
    intro _
    exact addTimerInLoop_by hok h.sound.sorted (h.watched hidle)
  | cancelHere huser hissued hok =>
    rcases cancelInLoop_ok hok with ⟨_, _, rfl⟩ | ⟨_, _, _, rfl⟩ | ⟨_, _, rfl⟩
    -- the timerfd may now be early
    · exact fun hidle e he ↦ h.watched hidle e (List.mem_of_mem_erase he)
    · exact h.watched
    · exact h.watched
  | cancelQueued hidle hpending hok =>
    rcases cancelInLoop_ok hok with ⟨_, _, rfl⟩ | ⟨_, _, _, rfl⟩ | ⟨_, _, rfl⟩
    · exact fun _ e he ↦ h.watched hidle e (List.mem_of_mem_erase he)
    · exact h.watched
    · exact h.watched
  | cancelElsewhere hissued => exact h.watched
  | expire harmed => exact fun _ _ _ ↦ trivial
  | handleRead hidle hok =>
    rcases handleRead_eq hok with ⟨fd, rest, wait, _, _, rfl⟩
    exact fun hphase ↦ (by cases hphase)
  | run hphase => exact fun hidle ↦ (by cases hidle)
  | ret hphase => exact fun hidle ↦ (by cases hidle)
  | finish hphase hok =>
    intro _
    refine finish_by hok hsound.sorted fun e he ↦ ?_
    rcases hsound.inv.settled.mem_timers he with ⟨hwait, heq⟩
    rw [heq]
    exact hpositive e.2 (hsound.inv.settled.known _
      (List.mem_append_left _ (List.mem_append_right _ hwait)))

/-- **No timer is lost.**  While the timers have positive expirations, a queue that holds some and
does not execute `handleRead` has a timerfd that is due for each of them in time or has been due.
What it is armed with is the time up to the expiration from a clock reading of the run; and no call
of `resetTimerfd` disarms it, or asks for another time. -/
theorem no_timer_lost {ls : List Label} (h : Run (Into Step Positive) {} ls q)
    (hidle : q.phase = .idle) :
    (∀ e ∈ q.timers_, q.timerfd_.By e.1) ∧
      (∀ expiration it_value, q.timerfd_ = .armed expiration it_value →
        ∃ now ∈ ls.filterMap Label.clock?, it_value.Until expiration now) ∧
      ∀ expiration now : Timestamp, ∃ it_value : Timespec,
        it_value.Arms ∧ it_value.Until expiration now ∧
          (q.resetTimerfd expiration now).timerfd_ = .armed expiration it_value := by
  have hwatched : Watched q := by
    refine h.invariant Watched ?_ ⟨sound_empty, fun _ e he ↦ (by cases he)⟩
    rintro q l q' hs ⟨hstep, hpositive⟩
    exact hs.step hstep hpositive
  refine ⟨hwatched.watched hidle, ?_, fun expiration now ↦ ?_⟩
  · intro expiration it_value harmed
    have hsteps := h.mono fun _ _ _ hstep ↦ hstep.1
    rcases run_armedFrom hsteps expiration it_value harmed with hnone | hnow
    · cases hnone
    · exact hnow
  · exact ⟨_, howMuchTimeFromNow_arms expiration now, howMuchTimeFromNow_until expiration now, rfl⟩

/-- The earliest of two timers is cancelled, the timerfd fires for it, and the clock has been set
back. -/
theorem no_timer_lost_spurious :
    ∃ q, Run (Into Step Positive) {} [.addTimer true 8 ⟨5⟩ ⟨false, 0⟩ ⟨1⟩,
        .addTimer true 16 ⟨909⟩ ⟨false, 0⟩ ⟨1⟩, .cancel true ⟨8, 0⟩, .expire, .handleRead ⟨4⟩,
        .finish ⟨2⟩] q ∧
      q.timers_ = [(⟨909⟩, 16)] ∧ q.timerfd_ = .armed ⟨909⟩ ⟨0, 907000⟩ ∧
      (∀ e ∈ q.timers_, q.timerfd_.By e.1) ∧
      (∀ expiration it_value, q.timerfd_ = .armed expiration it_value →
        ∃ now ∈ [⟨1⟩, ⟨1⟩, ⟨2⟩], it_value.Until expiration now) ∧
      ∀ expiration now : Timestamp, ∃ it_value : Timespec,
        it_value.Arms ∧ it_value.Until expiration now ∧
          (q.resetTimerfd expiration now).timerfd_ = .armed expiration it_value := by
  have hrun := show Run (Into Step Positive) {} [.addTimer true 8 ⟨5⟩ ⟨false, 0⟩ ⟨1⟩,
        .addTimer true 16 ⟨909⟩ ⟨false, 0⟩ ⟨1⟩, .cancel true ⟨8, 0⟩, .expire, .handleRead ⟨4⟩,
        .finish ⟨2⟩] _ from
    .cons ⟨rfl, by decide⟩ <| .cons ⟨rfl, by decide⟩ <| .cons ⟨rfl, by decide⟩ <|
    .cons ⟨rfl, by decide⟩ <| .cons ⟨rfl, by decide⟩ <| .cons ⟨rfl, by decide⟩ <| .nil _
  exact ⟨_, hrun, rfl, rfl, no_timer_lost hrun rfl⟩

end Pallette.TimerQueue
