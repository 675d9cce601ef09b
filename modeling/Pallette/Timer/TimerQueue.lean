import Mathlib.Tactic.Common
import Pallette.Basic

/-!
# TimerQueue — timers of one loop

Timers are known by their address.  `new` never returns the address of a timer it has returned
before, as none is deleted while the queue lives.  `handleRead` runs user code between its steps, so
it is cut at each callback: `phase` says where it stands.  Other threads only push functors.  Every
reading of the clock is part of a label.
-/

namespace Pallette

/-- What the code makes of an interval in seconds: whether it is above `0.0`, and the microseconds
that `addTime` adds for it. -/
structure Interval where
  positive : Bool
  micros : Int
deriving DecidableEq, Repr

def addTime (timestamp : Timestamp) (seconds : Interval) : Timestamp :=
  ⟨timestamp.microSeconds_ + seconds.micros⟩

structure Timer where
  expiration_ : Timestamp
  interval_ : Interval
  repeat_ : Bool
  sequence_ : Int
deriving DecidableEq, Repr

def Timer.restart (timer : Timer) (now : Timestamp) : Timer :=
  if timer.repeat_ then { timer with expiration_ := addTime now timer.interval_ }
  else { timer with expiration_ := .invalid }

structure TimerId where
  timer_ : Nat := 0
  sequence_ : Int := 0
deriving DecidableEq, Repr

namespace TimerQueue

abbrev Entry := Timestamp × Nat

/-- The order of `std::pair`. -/
def Entry.lt (a b : Entry) : Prop :=
  a.1 < b.1 ∨ (a.1 = b.1 ∧ a.2 < b.2)

instance (a b : Entry) : Decidable (a.lt b) :=
  inferInstanceAs (Decidable (_ ∨ _))

def UINTPTR_MAX : Nat := 2 ^ 64 - 1

structure Timespec where
  tv_sec : Int
  tv_nsec : Int
deriving DecidableEq, Repr

/-- The kernel's timer: what it has been set to, or that it is due and has not been read. -/
inductive Timerfd
  | disarmed
  | armed (expiration : Timestamp) (it_value : Timespec)
  | fired
deriving DecidableEq, Repr

inductive Functor
  | addTimerInLoop (timer : Nat)
  | cancelInLoop (timerId : TimerId)
deriving DecidableEq, Repr

/-- Where `handleRead` stands: outside, ahead of the timers it still has to run, or in a
callback. -/
inductive Phase
  | idle
  | calling (now : Timestamp) (remaining : List Nat)
  | running (now : Timestamp) (remaining : List Nat)
deriving DecidableEq, Repr

def Phase.remaining : Phase → List Nat
  | .idle => []
  | .calling _ remaining | .running _ remaining => remaining

/-- The assertions of `cancelInLoop`, `insert` and `getExpired`. -/
inductive Assertion
  | erased
  | inserted
  | sentry
  | waiting
  | sizes
deriving DecidableEq, Repr

inductive Event
  | run (timer : Nat)
  | cancelInLoop (timer : Nat)
deriving DecidableEq, Repr

end TimerQueue

open TimerQueue

structure TimerQueue where
  timerfd_ : Timerfd := .disarmed
  timers_ : List Entry := []
  activeTimers_ : List Nat := []
  currentActiveTimer_ : Option Nat := none
  callingExpiredTimers_ : Bool := false
  waitTimers_ : List Nat := []
  cancelingTimers_ : List Nat := []
  freeTimers_ : List Nat := []
  /-- the addresses `new` has returned, and what is stored there -/
  allocated : List Nat := []
  timer : Nat → Timer := fun _ ↦ ⟨.invalid, ⟨false, 0⟩, false, 0⟩
  sNumCreated_ : Int := 0
  pendingFunctors_ : List TimerQueue.Functor := []
  phase : Phase := .idle
  trace : List TimerQueue.Event := []

namespace TimerQueue

/-! ## The timerfd -/

def howMuchTimeFromNow (when_ now : Timestamp) : Timespec :=
  let microseconds := when_.microSeconds_ - now.microSeconds_
  let microseconds := if microseconds < 100 then 100 else microseconds
  { tv_sec := microseconds.tdiv Timestamp.kMicroSecondsPerSecond
    tv_nsec := microseconds.tmod Timestamp.kMicroSecondsPerSecond * 1000 }

def resetTimerfd (q : TimerQueue) (expiration now : Timestamp) : TimerQueue :=
  { q with timerfd_ := .armed expiration (howMuchTimeFromNow expiration now) }

def readTimerfd (q : TimerQueue) : TimerQueue :=
  if q.timerfd_ = .fired then { q with timerfd_ := .disarmed } else q

/-! ## The set of entries -/

/-- `std::set::insert` -/
def insertEntry (e : Entry) : List Entry → List Entry
  | [] => [e]
  | e' :: es => if e.lt e' then e :: e' :: es else if e = e' then e' :: es
      else e' :: insertEntry e es

def insert (q : TimerQueue) (timer : Nat) : Except TimerQueue.Assertion (TimerQueue × Bool) :=
  let when_ := (q.timer timer).expiration_
  let earliestChanged :=
    match q.timers_ with
    | [] => true
    | first :: _ => decide (when_ < first.1)
  -- `result.second` is false when the set has the entry
  if (when_, timer) ∈ q.timers_ then .error .inserted
  else .ok ({ q with
    timers_ := insertEntry (when_, timer) q.timers_, waitTimers_ := q.waitTimers_ ++ [timer] },
    earliestChanged)

/-- The entries `getExpired` takes, one after the other. -/
def activate (q : TimerQueue) : List Entry → Except TimerQueue.Assertion TimerQueue
  | [] => .ok q
  | e :: es =>
      if e.2 ∈ q.waitTimers_ then
        activate { q with
          activeTimers_ := q.activeTimers_ ++ [e.2], waitTimers_ := q.waitTimers_.erase e.2 } es
      else .error .waiting

def getExpired (q : TimerQueue) (now : Timestamp) : Except TimerQueue.Assertion TimerQueue :=
  -- no address is above the second component, so the entries below are those due at `now`
  let sentry : Entry := (now, UINTPTR_MAX)
  let expired := q.timers_.takeWhile fun e ↦ decide (e.lt sentry)
  let rest := q.timers_.dropWhile fun e ↦ decide (e.lt sentry)
  if rest.head?.all fun e ↦ decide (now < e.1) then do
    let q ← { q with activeTimers_ := [] }.activate expired
    let q : TimerQueue := { q with timers_ := rest }
    if q.timers_.length = q.waitTimers_.length then return q else .error .sizes
  else .error .sentry

def setTimer (q : TimerQueue) (timer : Nat) (t : Timer) : TimerQueue :=
  { q with timer := fun a ↦ if a = timer then t else q.timer a }

/-- The loop of `reset` -/
def rearm (q : TimerQueue) (now : Timestamp) : List Nat → Except TimerQueue.Assertion TimerQueue
  | [] => .ok q
  | expireTimer :: rest =>
      if (q.timer expireTimer).repeat_ ∧ expireTimer ∉ q.cancelingTimers_ then do
        let (q, _) ← (q.setTimer expireTimer ((q.timer expireTimer).restart now)).insert expireTimer
        q.rearm now rest
      -- cancelled, or to run once
      else { q with freeTimers_ := q.freeTimers_ ++ [expireTimer] }.rearm now rest

/-- `clock` is what `resetTimerfd` reads. -/
def reset (q : TimerQueue) (now clock : Timestamp) : Except TimerQueue.Assertion TimerQueue := do
  let q ← q.rearm now q.activeTimers_
  let nextExpire :=
    match q.timers_ with
    | [] => .invalid
    | first :: _ => first.1
  -- an expiration that is not positive is taken for none
  return if nextExpire.valid then q.resetTimerfd nextExpire clock else q

/-! ## The calls -/

def record (q : TimerQueue) (e : TimerQueue.Event) : TimerQueue :=
  { q with trace := q.trace ++ [e] }

def queueInLoop (q : TimerQueue) (cb : TimerQueue.Functor) : TimerQueue :=
  { q with pendingFunctors_ := q.pendingFunctors_ ++ [cb] }

def addTimerInLoop (q : TimerQueue) (timer : Nat) (clock : Timestamp) :
    Except TimerQueue.Assertion TimerQueue := do
  let (q, earliestChanged) ← q.insert timer
  return if earliestChanged then q.resetTimerfd (q.timer timer).expiration_ clock else q

def cancelInLoop (q : TimerQueue) (timerId : TimerId) : Except TimerQueue.Assertion TimerQueue :=
  let q := q.record (.cancelInLoop timerId.timer_)
  -- only the address is looked at, never the sequence number
  if timerId.timer_ ∈ q.waitTimers_ then
    let entry := ((q.timer timerId.timer_).expiration_, timerId.timer_)
    if entry ∈ q.timers_ then
      .ok { q with
        freeTimers_ := q.freeTimers_ ++ [timerId.timer_]
        timers_ := q.timers_.erase entry
        waitTimers_ := q.waitTimers_.erase timerId.timer_ }
    else .error .erased
  -- `activeTimers_` keeps the last batch, so it counts only while the batch is run
  else if q.callingExpiredTimers_ ∧ timerId.timer_ ∈ q.activeTimers_ then
    .ok { q with cancelingTimers_ := q.cancelingTimers_ ++ [timerId.timer_] }
  else .ok q

/-- `new Timer` at the address `new` gives. -/
def newTimer (q : TimerQueue) (address : Nat) (when_ : Timestamp) (interval : Interval) :
    TimerQueue :=
  { q with
    allocated := q.allocated ++ [address]
    sNumCreated_ := q.sNumCreated_ + 1 }.setTimer address
    { expiration_ := when_, interval_ := interval, repeat_ := interval.positive
      sequence_ := q.sNumCreated_ }

def addTimer (q : TimerQueue) (isInLoopThread : Bool) (address : Nat) (when_ : Timestamp)
    (interval : Interval) (clock : Timestamp) : Except TimerQueue.Assertion TimerQueue :=
  let q := q.newTimer address when_ interval
  -- `runInLoop`
  if isInLoopThread then q.addTimerInLoop address clock
  else .ok (q.queueInLoop (.addTimerInLoop address))

def cancel (q : TimerQueue) (isInLoopThread : Bool) (timerId : TimerId) :
    Except TimerQueue.Assertion TimerQueue :=
  if isInLoopThread then q.cancelInLoop timerId else .ok (q.queueInLoop (.cancelInLoop timerId))

/-! ## `handleRead` -/

/-- `handleRead` up to its loop. -/
def handleRead (q : TimerQueue) (now : Timestamp) : Except TimerQueue.Assertion TimerQueue := do
  let q ← q.readTimerfd.getExpired now
  return { q with
    -- what was marked in the last batch has been dealt with by `reset`
    callingExpiredTimers_ := true, cancelingTimers_ := [], phase := .calling now q.activeTimers_ }

/-- The end of `handleRead`. -/
def finish (q : TimerQueue) (now clock : Timestamp) : Except TimerQueue.Assertion TimerQueue :=
  { q with callingExpiredTimers_ := false, phase := .idle }.reset now clock

/-! ## Runs -/

inductive Label
  | addTimer (isInLoopThread : Bool) (address : Nat) (when_ : Timestamp) (interval : Interval)
      (clock : Timestamp)
  | cancel (isInLoopThread : Bool) (timerId : TimerId)
  | functor (clock : Timestamp)
  | expire
  | handleRead (now : Timestamp)
  | run
  | ret
  | finish (clock : Timestamp)
deriving DecidableEq, Repr

/-- User code runs in the loop thread in a callback, and outside `handleRead`. -/
def inUserCode (q : TimerQueue) : Bool :=
  match q.phase with
  | .calling _ _ => false
  | _ => true

/-- The ids there are: those `addTimer` has returned, and the default one. -/
def Issued (q : TimerQueue) (timerId : TimerId) : Prop :=
  timerId = {} ∨
    (timerId.timer_ ∈ q.allocated ∧ timerId.sequence_ = (q.timer timerId.timer_).sequence_)

instance (q : TimerQueue) (timerId : TimerId) : Decidable (q.Issued timerId) :=
  inferInstanceAs (Decidable (_ ∨ _))

/-- One step, with the assertion that fails in it; `none` when it cannot be taken. -/
def next (q : TimerQueue) : Label → Option (Except TimerQueue.Assertion TimerQueue)
  | .addTimer isInLoopThread address when_ interval clock =>
      if (isInLoopThread → q.inUserCode) ∧ 0 < address ∧ address < UINTPTR_MAX ∧
          address ∉ q.allocated then
        some (q.addTimer isInLoopThread address when_ interval clock)
      else none
  | .cancel isInLoopThread timerId =>
      if (isInLoopThread → q.inUserCode) ∧ q.Issued timerId then
        some (q.cancel isInLoopThread timerId)
      else none
  | .functor clock =>
      match q.phase, q.pendingFunctors_ with
      | .idle, .addTimerInLoop timer :: rest =>
          some ({ q with pendingFunctors_ := rest }.addTimerInLoop timer clock)
      | .idle, .cancelInLoop timerId :: rest =>
          some ({ q with pendingFunctors_ := rest }.cancelInLoop timerId)
      | _, _ => none
  | .expire =>
      match q.timerfd_ with
      | .armed _ _ => some (.ok { q with timerfd_ := .fired })
      | _ => none
  | .handleRead now => if q.phase = .idle then some (q.handleRead now) else none
  | .run =>
      match q.phase with
      | .calling now (timer :: rest) =>
          -- whether the timer is on `cancelingTimers_` is not looked at
          some (.ok ({ q with currentActiveTimer_ := some timer, phase := .running now rest }.record
            (.run timer)))
      | _ => none
  | .ret =>
      match q.phase with
      | .running now remaining => some (.ok { q with phase := .calling now remaining })
      | _ => none
  | .finish clock =>
      match q.phase with
      | .calling now [] => some (q.finish now clock)
      | _ => none

def Step (q : TimerQueue) (l : Label) (q' : TimerQueue) : Prop :=
  q.next l = some (.ok q')

/-- Where the labels lead, up to the first that cannot be taken. -/
def follow (q : TimerQueue) : List Label → TimerQueue
  | [] => q
  | l :: ls =>
      match q.next l with
      | some (.ok q') => q'.follow ls
      | _ => q

end TimerQueue

end Pallette
