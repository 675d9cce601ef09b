import Mathlib.Data.List.Perm.Subperm
import Pallette.Timer.Steps
import Pallette.Reasoning.Run

/-!
# Places — where the timers of a queue are

A timer that may still run is on its way into the queue, waits, or is in the batch that `handleRead`
has taken: it has one place.  A step moves a timer from place to place or drops it; only `addTimer`,
which gets a new address, adds one (`Settled`, `settled_step`).
-/

open Reasoning

namespace Pallette.TimerQueue

variable {q q' : TimerQueue}

/-! ## Places -/

def Functor.added? : Functor → Option Nat
  | .addTimerInLoop timer => some timer
  | .cancelInLoop _ => none

/-- The timers that other threads have added and that are not inserted yet. -/
def adds (cbs : List Functor) : List Nat :=
  cbs.filterMap Functor.added?

theorem mem_adds {cbs : List Functor} {timer : Nat} :
    timer ∈ adds cbs ↔ .addTimerInLoop timer ∈ cbs := by
  simp only [adds, List.mem_filterMap]
  constructor
  · rintro ⟨cb, hcb, hadded⟩
    cases cb with
    | addTimerInLoop a =>
      cases hadded
      exact hcb
    | cancelInLoop timerId => cases hadded
  · intro hmem
    exact ⟨_, hmem, rfl⟩

/-- The timers `handleRead` has taken, while it runs them. -/
def batch (q : TimerQueue) : List Nat :=
  if q.callingExpiredTimers_ then q.activeTimers_ else []

/-- All places, with `taken` for the batch. -/
def places (q : TimerQueue) (taken : List Nat) : List Nat :=
  adds q.pendingFunctors_ ++ q.waitTimers_ ++ taken

structure Settled (q : TimerQueue) (taken : List Nat) : Prop where
  once : (q.places taken).Nodup
  known : ∀ timer ∈ q.places taken, timer ∈ q.allocated
  keyed : q.timers_.Perm (q.waitTimers_.map q.entry)

namespace Settled

variable {taken taken' : List Nat}

/-- Timers may be dropped, and moved. -/
theorem of_places (h : Settled q taken) (hplaces : (q'.places taken').Subperm (q.places taken))
    (hallocated : q'.allocated = q.allocated)
    (hkeyed : q'.timers_.Perm (q'.waitTimers_.map q'.entry)) :
    Settled q' taken' := by
  refine ⟨?_, fun timer hmem ↦ ?_, hkeyed⟩
  · rcases hplaces with ⟨l, hperm, hsub⟩
    exact hperm.nodup_iff.mp (h.once.sublist hsub)
  · rw [hallocated]
    exact h.known timer (hplaces.subset hmem)

/-- What is in the set is the entry of a timer that waits. -/
theorem mem_timers (h : Settled q taken) {e : Entry} (he : e ∈ q.timers_) :
    e.2 ∈ q.waitTimers_ ∧ e = q.entry e.2 := by
  rcases List.mem_map.mp (h.keyed.mem_iff.mp he) with ⟨timer, hwait, rfl⟩
  exact ⟨hwait, rfl⟩

theorem setTimer (h : Settled q taken) {timer : Nat} (hwait : timer ∉ q.waitTimers_) (t : Timer) :
    Settled (q.setTimer timer t) taken := by
  refine ⟨h.once, h.known, ?_⟩
  have hsame : q.waitTimers_.map (q.setTimer timer t).entry = q.waitTimers_.map q.entry := by
    apply List.map_congr_left
    intro a ha
    -- no timer that waits changes, so neither does an entry
    have hne : a ≠ timer := fun heq ↦ hwait (heq ▸ ha)
    simp [entry, TimerQueue.setTimer, hne]
  show q.timers_.Perm (q.waitTimers_.map (q.setTimer timer t).entry)
  rw [hsame]
  exact h.keyed

/-- A timer without a place gets one among those that wait. -/
theorem insert (h : Settled q taken) {timer : Nat} (hnew : timer ∉ q.places taken)
    (hknown : timer ∈ q.allocated) {changed : Bool} (hok : q.insert timer = .ok (q', changed)) :
    Settled q' taken := by
  rcases insert_ok hok with ⟨hentry, rfl⟩
  have hplaces : (places { q with
      timers_ := insertEntry (q.entry timer) q.timers_, waitTimers_ := q.waitTimers_ ++ [timer] }
      taken).Perm (timer :: q.places taken) := by
    simp only [places]
    rw [← List.append_assoc, List.append_assoc _ [timer] taken]
    exact List.perm_middle
  refine ⟨hplaces.nodup_iff.mpr (List.nodup_cons.mpr ⟨hnew, h.once⟩), fun a ha ↦ ?_, ?_⟩
  · rcases List.mem_cons.mp (hplaces.mem_iff.mp ha) with rfl | ha
    · exact hknown
    · exact h.known a ha
  · show (insertEntry (q.entry timer) q.timers_).Perm ((q.waitTimers_ ++ [timer]).map q.entry)
    rw [List.map_append]
    exact ((insertEntry_perm hentry).trans (h.keyed.cons _)).trans
      (List.perm_append_singleton _ _).symm

theorem addTimerInLoop (h : Settled q taken) {timer : Nat} (hnew : timer ∉ q.places taken)
    (hknown : timer ∈ q.allocated) {clock : Timestamp}
    (hok : q.addTimerInLoop timer clock = .ok q') :
    Settled q' taken := by
  rcases ok_of_bind hok with ⟨⟨u, changed⟩, hinsert, _⟩
  have hu := h.insert hnew hknown hinsert
  rcases insert_ok hinsert with ⟨_, rfl⟩
  rcases addTimerInLoop_ok hok with ⟨fd, _, rfl⟩
  exact ⟨hu.once, hu.known, hu.keyed⟩

theorem cancelInLoop (h : Settled q taken) {timerId : TimerId}
    (hok : q.cancelInLoop timerId = .ok q') :
    Settled q' taken := by
  rcases cancelInLoop_ok hok with ⟨hwait, _, rfl⟩ | ⟨_, _, _, rfl⟩ | ⟨_, _, rfl⟩
  · refine h.of_places ?_ rfl ?_
    · exact (((List.Sublist.refl _).append List.erase_sublist).append (.refl _)).subperm
    -- the timer goes from the list, and its one entry from the set
    · show (q.timers_.erase (q.entry timerId.timer_)).Perm
        ((q.waitTimers_.erase timerId.timer_).map q.entry)
      rw [List.map_erase q.entry_injective]
      exact h.keyed.erase _
  · exact ⟨h.once, h.known, h.keyed⟩
  · exact ⟨h.once, h.known, h.keyed⟩

theorem getExpired (h : Settled q []) {now : Timestamp} (hok : q.getExpired now = .ok q') :
    Settled q' q'.activeTimers_ := by
  rcases getExpired_ok hok with ⟨rest, wait, htimers, hwait, rfl⟩
  -- each entry is that of its timer, so the entries can be had back from the timers
  have hentries : ((q.expired now).map Prod.snd).map q.entry = q.expired now := by
    rw [List.map_map, List.map_congr_left (g := id), List.map_id]
    intro e he
    exact (h.mem_timers (htimers ▸ List.mem_append_left rest he)).2.symm
  refine h.of_places ?_ rfl ?_
  · have hperm : (adds q.pendingFunctors_ ++ wait ++ (q.expired now).map Prod.snd).Perm
        (adds q.pendingFunctors_ ++ q.waitTimers_ ++ []) := by
      rw [List.append_nil, List.append_assoc]
      exact (List.perm_append_comm.trans hwait.symm).append_left _
    exact hperm.subperm
  · show rest.Perm (wait.map q.entry)
    -- the set and the entries of those that wait lose the same part
    have hall := h.keyed.trans (hwait.map q.entry)
    rw [htimers, List.map_append, hentries] at hall
    exact (List.perm_append_left_iff _).mp hall

theorem queueInLoop (h : Settled q taken) {cb : Functor} (hcb : cb.added? = none) :
    Settled (q.queueInLoop cb) taken := by
  have hadds : adds (q.pendingFunctors_ ++ [cb]) = adds q.pendingFunctors_ := by
    simp [adds, hcb]
  refine h.of_places ?_ rfl h.keyed
  show (adds (q.pendingFunctors_ ++ [cb]) ++ q.waitTimers_ ++ taken).Subperm (q.places taken)
  rw [hadds]
  exact .refl _

/-- A timer at a new address. -/
theorem newTimer (h : Settled q taken) {address : Nat} (hnew : address ∉ q.allocated)
    (when_ : Timestamp) (interval : Interval) :
    Settled (q.newTimer address when_ interval) taken ∧
      address ∉ (q.newTimer address when_ interval).places taken := by
  -- whatever has a place has been allocated
  have hnone : address ∉ q.places taken := fun hmem ↦ hnew (h.known address hmem)
  have hwait : address ∉ q.waitTimers_ := fun hmem ↦
    hnone (List.mem_append_left _ (List.mem_append_right _ hmem))
  have hallocated : Settled { q with
      allocated := q.allocated ++ [address], sNumCreated_ := q.sNumCreated_ + 1 } taken :=
    ⟨h.once, fun timer hmem ↦ List.mem_append_left _ (h.known timer hmem), h.keyed⟩
  exact ⟨hallocated.setTimer hwait _, hnone⟩

/-- Another thread has added the timer. -/
theorem queueAdd (h : Settled q taken) {timer : Nat} (hnew : timer ∉ q.places taken)
    (hknown : timer ∈ q.allocated) : Settled (q.queueInLoop (.addTimerInLoop timer)) taken := by
  have hplaces : ((q.queueInLoop (.addTimerInLoop timer)).places taken).Perm
      (timer :: q.places taken) := by
    show (adds (q.pendingFunctors_ ++ [.addTimerInLoop timer]) ++ q.waitTimers_ ++ taken).Perm _
    have hadds : adds (q.pendingFunctors_ ++ [.addTimerInLoop timer]) =
        adds q.pendingFunctors_ ++ [timer] := by
      simp [adds, Functor.added?]
    rw [hadds, List.append_assoc, List.append_assoc, places, List.append_assoc]
    exact List.perm_middle
  refine ⟨hplaces.nodup_iff.mpr (List.nodup_cons.mpr ⟨hnew, h.once⟩), fun a ha ↦ ?_, h.keyed⟩
  rcases List.mem_cons.mp (hplaces.mem_iff.mp ha) with rfl | ha
  · exact hknown
  · exact h.known a ha

/-- The loop takes a functor from the queue; a timer it is to insert has no other place. -/
theorem pop (h : Settled q taken) {cb : Functor} {rest : List Functor}
    (hpending : q.pendingFunctors_ = cb :: rest) :
    Settled { q with pendingFunctors_ := rest } taken ∧
      ∀ timer, cb.added? = some timer →
        timer ∉ places { q with pendingFunctors_ := rest } taken ∧ timer ∈ q.allocated := by
  have hplaces : q.places taken =
      cb.added?.toList ++ places { q with pendingFunctors_ := rest } taken := by
    simp only [places, hpending]
    rw [← List.append_assoc, ← List.append_assoc]
    congr 2
    cases hadded : cb.added? <;> simp [adds, hadded]
  have hsub : (places { q with pendingFunctors_ := rest } taken).Sublist (q.places taken) := by
    rw [hplaces]
    exact List.sublist_append_right _ _
  refine ⟨h.of_places hsub.subperm rfl h.keyed, fun timer htimer ↦ ?_⟩
  have honce := h.once
  rw [hplaces, htimer] at honce
  refine ⟨(List.nodup_cons.mp honce).1, h.known timer ?_⟩
  rw [hplaces, htimer]
  exact List.mem_cons_self

end Settled

/-- What `rearm` leaves: no timer of the batch has kept its place there, and those that wait again
are repeating timers nobody has cancelled. -/
structure Rearmed (q : TimerQueue) (taken : List Nat) (q' : TimerQueue) : Prop where
  settled : Settled q' []
  wait : ∀ timer ∈ q'.waitTimers_,
    timer ∈ q.waitTimers_ ∨ (timer ∈ taken ∧ timer ∉ q.cancelingTimers_)
  pending : q'.pendingFunctors_ = q.pendingFunctors_
  allocated : q'.allocated = q.allocated
  calling : q'.callingExpiredTimers_ = q.callingExpiredTimers_
  phase : q'.phase = q.phase
  trace : q'.trace = q.trace

theorem Settled.rearm {taken : List Nat} (h : Settled q taken) {now : Timestamp}
    (hok : q.rearm now taken = .ok q') : Rearmed q taken q' := by
  induction taken generalizing q with
  | nil =>
    cases hok
    exact ⟨h, fun _ hmem ↦ .inl hmem, rfl, rfl, rfl, rfl, rfl⟩
  | cons timer rest ih =>
    -- the timer leaves the batch; if it is armed again its only place is among those that wait
    have hmiddle : (q.places (timer :: rest)).Perm (timer :: q.places rest) := List.perm_middle
    have hsplit := List.nodup_cons.mp (hmiddle.nodup_iff.mp h.once)
    have hknown : timer ∈ q.allocated := h.known timer (hmiddle.mem_iff.mpr List.mem_cons_self)
    have hrest : Settled q rest :=
      h.of_places ((List.sublist_cons_self _ _).subperm.trans hmiddle.symm.subperm) rfl h.keyed
    unfold TimerQueue.rearm at hok
    split at hok
    next hrepeat =>
      rcases ok_of_bind hok with ⟨⟨u, changed⟩, hinsert, hrearm⟩
      have hwait : timer ∉ q.waitTimers_ := fun hmem ↦
        hsplit.1 (List.mem_append_left _ (List.mem_append_right _ hmem))
      have hu := (hrest.setTimer hwait ((q.timer timer).restart now)).insert hsplit.1 hknown hinsert
      rcases insert_ok hinsert with ⟨_, rfl⟩
      have hdone := ih hu hrearm
      refine ⟨hdone.settled, fun a ha ↦ ?_, hdone.pending, hdone.allocated, hdone.calling,
        hdone.phase, hdone.trace⟩
      rcases hdone.wait a ha with hmem | ⟨hmem, hno⟩
      -- it waited before, or it is the one just armed again
      · rcases List.mem_append.mp hmem with hmem | hmem
        · exact .inl hmem
        · rw [List.mem_singleton] at hmem
          subst hmem
          exact .inr ⟨List.mem_cons_self, hrepeat.2⟩
      · exact .inr ⟨List.mem_cons_of_mem _ hmem, hno⟩
    next =>
      have hfreed : Settled { q with freeTimers_ := q.freeTimers_ ++ [timer] } rest :=
        ⟨hrest.once, hrest.known, hrest.keyed⟩
      have hdone := ih hfreed hok
      refine ⟨hdone.settled, fun a ha ↦ ?_, hdone.pending, hdone.allocated, hdone.calling,
        hdone.phase, hdone.trace⟩
      rcases hdone.wait a ha with hmem | ⟨hmem, hno⟩
      · exact .inl hmem
      · exact .inr ⟨List.mem_cons_of_mem _ hmem, hno⟩

/-! ## The steps -/

/-- `Settled` does not depend on the timerfd. -/
theorem Settled.withTimerfd {taken : List Nat} (h : Settled q taken) (fd : Timerfd) :
    Settled { q with timerfd_ := fd } taken :=
  ⟨h.once, h.known, h.keyed⟩

/-- An id is the default one or has been returned by `addTimer`. -/
theorem Issued.known {timerId : TimerId} (h : q.Issued timerId) :
    timerId.timer_ = 0 ∨ timerId.timer_ ∈ q.allocated :=
  h.imp (fun hnull ↦ (by rw [hnull])) And.left

structure Inv (q : TimerQueue) : Prop where
  settled : Settled q q.batch
  calling : q.callingExpiredTimers_ = true ↔ q.phase ≠ .idle
  ids : ∀ timerId, .cancelInLoop timerId ∈ q.pendingFunctors_ →
    timerId.timer_ = 0 ∨ timerId.timer_ ∈ q.allocated

theorem inv_empty : Inv {} :=
  ⟨⟨List.nodup_nil, fun _ h ↦ (by cases h), .nil⟩, by simp, fun _ h ↦ (by cases h)⟩

theorem batch_of_idle (h : Inv q) (hidle : q.phase = .idle) : q.batch = [] := by
  unfold batch
  rw [if_neg]
  exact fun hcalling ↦ h.calling.mp hcalling hidle

theorem batch_of_calling (h : Inv q) (hphase : q.phase ≠ .idle) : q.batch = q.activeTimers_ := by
  unfold batch
  rw [if_pos (h.calling.mpr hphase)]

/-- A new timer, with its insertion. -/
theorem settled_addHere (h : Settled q q.batch) {address : Nat} {when_ clock : Timestamp}
    {interval : Interval} (hnew : address ∉ q.allocated)
    (hok : (q.newTimer address when_ interval).addTimerInLoop address clock = .ok q') :
    Settled q' q.batch := by
  rcases h.newTimer hnew when_ interval with ⟨hsettled, hnone⟩
  have hknown : address ∈ (q.newTimer address when_ interval).allocated := by
    simp [newTimer, setTimer]
  exact hsettled.addTimerInLoop hnone hknown hok

theorem readTimerfd_settled {taken : List Nat} (h : Settled q taken) :
    Settled q.readTimerfd taken := by
  rcases readTimerfd_eq q with ⟨fd, hfd⟩
  rw [hfd]
  exact h.withTimerfd fd

theorem Inv.finish (h : Inv q) (hphase : q.phase ≠ .idle) {now clock : Timestamp}
    (hok : q.finish now clock = .ok q') :
    ∃ u fd, Rearmed { q with callingExpiredTimers_ := false, phase := .idle } q.activeTimers_ u ∧
      q' = { u with timerfd_ := fd } := by
  rcases finish_ok hok with ⟨u, fd, hrearm, rfl⟩
  have hsettled := h.settled
  rw [batch_of_calling h hphase] at hsettled
  have hended : Settled { q with callingExpiredTimers_ := false, phase := .idle } q.activeTimers_ :=
    ⟨hsettled.once, hsettled.known, hsettled.keyed⟩
  exact ⟨u, fd, hended.rearm hrearm, rfl⟩

/-- **One step.** -/
theorem Inv.step {l : Label} (h : Inv q) (hstep : Step q l q') : Inv q' := by
  cases step_cases hstep with
  | @addHere address when_ clock interval _ huser hpos hmax hnew hok =>
    have hsettled := settled_addHere h.settled hnew hok
    rcases addTimerInLoop_ok hok with ⟨fd, _, rfl⟩
    exact ⟨hsettled, h.calling, fun timerId hmem ↦
      (h.ids timerId hmem).imp_right (List.mem_append_left [address])⟩
  | @addElsewhere address when_ clock interval hpos hmax hnew =>
    rcases h.settled.newTimer hnew when_ interval with ⟨hsettled, hnone⟩
    refine ⟨hsettled.queueAdd hnone (by simp [newTimer, setTimer]), h.calling,
      fun timerId hmem ↦ ?_⟩
    have hold : .cancelInLoop timerId ∈ q.pendingFunctors_ := by
      simpa [queueInLoop, newTimer, setTimer] using hmem
    exact (h.ids timerId hold).imp_right (List.mem_append_left [address])
  | cancelHere huser hissued hok =>
    have hsettled := h.settled.cancelInLoop hok
    rcases cancelInLoop_ok hok with ⟨_, _, rfl⟩ | ⟨_, _, _, rfl⟩ | ⟨_, _, rfl⟩ <;>
      exact ⟨hsettled, h.calling, h.ids⟩
  | cancelElsewhere hissued =>
    refine ⟨h.settled.queueInLoop rfl, h.calling, fun other hmem ↦ ?_⟩
    rcases List.mem_append.mp hmem with hmem | hmem
    · exact h.ids other hmem
    · rw [Functor.cancelInLoop.inj (List.mem_singleton.mp hmem)]
      exact hissued.known
  | addQueued hidle hpending hok =>
    rcases h.settled.pop hpending with ⟨hpopped, hplace⟩
    rcases hplace _ rfl with ⟨hnew, hknown⟩
    have hsettled := hpopped.addTimerInLoop hnew hknown hok
    rcases addTimerInLoop_ok hok with ⟨fd, _, rfl⟩
    exact ⟨hsettled, h.calling, fun timerId hmem ↦
      h.ids timerId (hpending ▸ List.mem_cons_of_mem _ hmem)⟩
  | cancelQueued hidle hpending hok =>
    have hids : ∀ other, .cancelInLoop other ∈ q.pendingFunctors_.tail →
        other.timer_ = 0 ∨ other.timer_ ∈ q.allocated := fun other hmem ↦
      h.ids other (List.mem_of_mem_tail hmem)
    rw [hpending] at hids
    have hsettled := (h.settled.pop hpending).1.cancelInLoop hok
    rcases cancelInLoop_ok hok with ⟨_, _, rfl⟩ | ⟨_, _, _, rfl⟩ | ⟨_, _, rfl⟩ <;>
      exact ⟨hsettled, h.calling, hids⟩
  | expire harmed => exact ⟨h.settled.withTimerfd _, h.calling, h.ids⟩
  | handleRead hidle hok =>
    rcases handleRead_ok hok with ⟨u, hexpired, rfl⟩
    have hsettled := h.settled
    rw [batch_of_idle h hidle] at hsettled
    -- outside `handleRead` the batch is empty: the new one is all there is
    have hu := (readTimerfd_settled hsettled).getExpired hexpired
    rcases getExpired_ok hexpired with ⟨rest, wait, _, _, rfl⟩
    refine ⟨⟨hu.once, hu.known, hu.keyed⟩, by simp, ?_⟩
    rcases readTimerfd_eq q with ⟨fd, hfd⟩
    rw [hfd]
    exact h.ids
  | run hphase =>
    have hcalling := h.calling.mpr (by rw [hphase]; simp)
    exact ⟨⟨h.settled.once, h.settled.known, h.settled.keyed⟩,
      iff_of_true hcalling (by simp [record]), h.ids⟩
  | ret hphase =>
    have hcalling := h.calling.mpr (by rw [hphase]; simp)
    exact ⟨⟨h.settled.once, h.settled.known, h.settled.keyed⟩,
      iff_of_true hcalling (by simp), h.ids⟩
  | finish hphase hok =>
    rcases h.finish (by rw [hphase]; simp) hok with ⟨u, fd, hdone, rfl⟩
    have hcalling : u.callingExpiredTimers_ = false := hdone.calling
    have hbatch : u.batch = [] := by
      unfold batch
      rw [hcalling]
      rfl
    refine ⟨?_, ?_, ?_⟩
    · show Settled { u with timerfd_ := fd } u.batch
      rw [hbatch]
      exact hdone.settled.withTimerfd fd
    · show u.callingExpiredTimers_ = true ↔ u.phase ≠ .idle
      rw [hcalling, hdone.phase]
      simp
    · show ∀ timerId, .cancelInLoop timerId ∈ u.pendingFunctors_ →
        timerId.timer_ = 0 ∨ timerId.timer_ ∈ u.allocated
      rw [hdone.pending, hdone.allocated]
      exact h.ids

end Pallette.TimerQueue
