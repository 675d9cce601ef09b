import Mathlib.Algebra.Group.Nat.Defs
import Mathlib.Tactic.Common

/-!
# EventLoop — the owner thread in `loop()`, and what other threads do to it

The phases are the places where the owner thread stands between two accesses to what it shares with
other threads: `quit_`, `looping_`, the queue under its mutex, and the counter of `wakeupFd_`.
Functors are not looked into; what they call on the loop are steps of their own.  A call of the
owner is one step: nobody but the owner itself could see the difference.
-/

namespace Pallette

namespace EventLoop

inductive Phase
  -- before `loop()` or behind it, and between its first two stores
  | outside
  | entered
  -- at the head of the `while`, in `poll`, and in the handlers, that of `wakeupFd_` still to come
  -- or not
  | testing
  | polling
  | handling (woken : Bool)
  -- the parts of `doPendingFunctors`: before the swap, between two functors, in one, and behind the
  -- last, where the functors themselves are destroyed
  | swapping
  | running
  | functor
  | releasing
  -- behind the `while`
  | leaving
deriving DecidableEq, Repr

/-- What another thread has left to do of `queueInLoop` or of `quit`. -/
inductive ThreadState
  | idle
  | wakeup
  | quitStore (looping : Bool)
  | quitWakeup
deriving DecidableEq, Repr

/-- What another thread may call. -/
inductive ThreadCall (α : Type*)
  | queueInLoop (cb : α)
  | quit
deriving DecidableEq, Repr

inductive Label (α : Type*)
  | loop
  | clearQuit
  | test
  | pollReturn (woken : Bool)
  | handleRead
  | startFunctors
  | swap
  | run
  | ret
  | endFunctors
  | release
  | leave
  | queueInLoop (cb : α)
  | quit
  | thread (n : Nat) (call : ThreadCall α)
  | proceed (n : Nat)
deriving DecidableEq, Repr

/-- The largest count an eventfd holds; a write beyond it fails and leaves it. -/
def maxCount : Nat := 2 ^ 64 - 2

end EventLoop

open EventLoop

/-- `functors` is the local of `doPendingFunctors`, without those that have been run.  What has been
queued and run so far is noted with the number of batches begun by then. -/
structure EventLoop (α : Type*) where
  looping_ : Bool := false
  quit_ : Bool := false
  callingPendingFunctors_ : Bool := false
  wakeupFd_ : Nat := 0
  pendingFunctors_ : List α := []
  functors : List α := []
  phase : Phase := .outside
  threads : Nat → ThreadState := fun _ ↦ .idle
  batches : Nat := 0
  queued : List (α × Nat) := []
  executed : List (α × Nat) := []

namespace EventLoop

variable {α : Type*}

def wakeup (s : EventLoop α) : EventLoop α :=
  { s with wakeupFd_ := if s.wakeupFd_ < maxCount then s.wakeupFd_ + 1 else s.wakeupFd_ }

def handleRead (s : EventLoop α) : EventLoop α :=
  { s with wakeupFd_ := 0 }

/-- The part of `queueInLoop` under the mutex. -/
def push (s : EventLoop α) (cb : α) : EventLoop α :=
  { s with pendingFunctors_ := s.pendingFunctors_ ++ [cb], queued := s.queued ++ [(cb, s.batches)] }

/-- `queueInLoop`, called by the owner. -/
def queueInLoop (s : EventLoop α) (cb : α) : EventLoop α :=
  let s := s.push cb
  if s.callingPendingFunctors_ then s.wakeup else s

/-- `quit`, called by the owner. -/
def quit (s : EventLoop α) : EventLoop α :=
  { s with quit_ := s.looping_ }

/-- The swap under the mutex. -/
def swap (s : EventLoop α) : EventLoop α :=
  { s with functors := s.pendingFunctors_, pendingFunctors_ := [], batches := s.batches + 1 }

def setThread (s : EventLoop α) (n : Nat) (st : ThreadState) : EventLoop α :=
  { s with threads := fun m ↦ if m = n then st else s.threads m }

/-- The first step of a call by another thread: the push, or the load of `looping_`. -/
def threadCall (s : EventLoop α) (n : Nat) : ThreadCall α → EventLoop α
  | .queueInLoop cb => (s.push cb).setThread n .wakeup
  | .quit => s.setThread n (.quitStore s.looping_)

/-- The next step of the call the thread is in. -/
def threadProceed (s : EventLoop α) (n : Nat) : EventLoop α :=
  match s.threads n with
  | .idle => s
  | .wakeup => s.wakeup.setThread n .idle
  | .quitStore looping => { s with quit_ := looping }.setThread n .quitWakeup
  | .quitWakeup => s.wakeup.setThread n .idle

/-- The owner runs code that is not of the loop: outside of it, in an event handler, in a functor or
in the destructor of one. -/
def inUserCode (s : EventLoop α) : Bool :=
  match s.phase with
  | .outside | .handling _ | .functor | .releasing => true
  | _ => false

/-- One step; `none` when it cannot be taken. -/
def next (s : EventLoop α) : Label α → Option (EventLoop α)
  | .loop => if s.phase = .outside then some { s with looping_ := true, phase := .entered }
      else none
  | .clearQuit => if s.phase = .entered then some { s with quit_ := false, phase := .testing }
      else none
  | .test =>
      if s.phase = .testing then some { s with phase := if s.quit_ then .leaving else .polling }
        else none
  | .pollReturn woken =>
      -- `wakeupFd_` is reported only with a count in it; `poll` may return without it, at the
      -- latest after `kPollTimeMs`
      if s.phase = .polling ∧ (woken = true → s.wakeupFd_ ≠ 0)
        then some { s with phase := .handling woken }
      else none
  | .handleRead =>
      if s.phase = .handling true then some { s.handleRead with phase := .handling false } else none
  | .startFunctors =>
      if s.phase = .handling false then
        some { s with callingPendingFunctors_ := true, phase := .swapping }
      else none
  | .swap => if s.phase = .swapping then some { s.swap with phase := .running } else none
  | .run =>
      match s.phase, s.functors with
      | .running, cb :: rest =>
          some { s with
            functors := rest, executed := s.executed ++ [(cb, s.batches)], phase := .functor }
      | _, _ => none
  | .ret => if s.phase = .functor then some { s with phase := .running } else none
  | .endFunctors =>
      if s.phase = .running ∧ s.functors = [] then
        some { s with callingPendingFunctors_ := false, phase := .releasing }
      else none
  | .release => if s.phase = .releasing then some { s with phase := .testing } else none
  | .leave => if s.phase = .leaving then some { s with looping_ := false, phase := .outside }
      else none
  | .queueInLoop cb => if s.inUserCode then some (s.queueInLoop cb) else none
  | .quit => if s.inUserCode then some s.quit else none
  | .thread n call => if s.threads n = .idle then some (s.threadCall n call) else none
  | .proceed n => if s.threads n = .idle then none else some (s.threadProceed n)

def Step (s : EventLoop α) (l : Label α) (t : EventLoop α) : Prop :=
  s.next l = some t

/-- What a step can be. -/
inductive StepCases (s : EventLoop α) : Label α → EventLoop α → Prop
  | loop : s.phase = .outside → StepCases s .loop { s with looping_ := true, phase := .entered }
  | clearQuit : s.phase = .entered → StepCases s .clearQuit { s with
      quit_ := false, phase := .testing }
  | test : s.phase = .testing → StepCases s .test { s with phase := if s.quit_ then .leaving
      else .polling }
  | pollReturn {woken : Bool} : s.phase = .polling → (woken = true → s.wakeupFd_ ≠ 0) →
      StepCases s (.pollReturn woken) { s with phase := .handling woken }
  | handleRead : s.phase = .handling true →
      StepCases s .handleRead { s.handleRead with phase := .handling false }
  | startFunctors : s.phase = .handling false →
      StepCases s .startFunctors { s with callingPendingFunctors_ := true, phase := .swapping }
  | swap : s.phase = .swapping → StepCases s .swap { s.swap with phase := .running }
  | run {cb : α} {rest : List α} : s.phase = .running → s.functors = cb :: rest →
      StepCases s .run { s with
        functors := rest, executed := s.executed ++ [(cb, s.batches)], phase := .functor }
  | ret : s.phase = .functor → StepCases s .ret { s with phase := .running }
  | endFunctors : s.phase = .running → s.functors = [] →
      StepCases s .endFunctors { s with callingPendingFunctors_ := false, phase := .releasing }
  | release : s.phase = .releasing → StepCases s .release { s with phase := .testing }
  | leave : s.phase = .leaving → StepCases s .leave { s with looping_ := false, phase := .outside }
  | queueInLoop {cb : α} : s.inUserCode = true → StepCases s (.queueInLoop cb) (s.queueInLoop cb)
  | quit : s.inUserCode = true → StepCases s .quit s.quit
  | thread {n : Nat} {call : ThreadCall α} : s.threads n = .idle →
      StepCases s (.thread n call) (s.threadCall n call)
  | proceed {n : Nat} : s.threads n ≠ .idle → StepCases s (.proceed n) (s.threadProceed n)

theorem step_cases {s t : EventLoop α} {l : Label α} (h : Step s l t) : StepCases s l t := by
  unfold Step at h
  cases l with
  | run =>
    simp only [next] at h
    split at h
    next cb rest hphase hfunctors =>
      cases h
      exact .run hphase hfunctors
    next => cases h
  | loop =>
    rcases Option.ite_none_right_eq_some.mp h with ⟨hready, heq⟩
    cases heq
    exact .loop hready
  | clearQuit =>
    rcases Option.ite_none_right_eq_some.mp h with ⟨hready, heq⟩
    cases heq
    exact .clearQuit hready
  | test =>
    rcases Option.ite_none_right_eq_some.mp h with ⟨hready, heq⟩
    cases heq
    exact .test hready
  | handleRead =>
    rcases Option.ite_none_right_eq_some.mp h with ⟨hready, heq⟩
    cases heq
    exact .handleRead hready
  | startFunctors =>
    rcases Option.ite_none_right_eq_some.mp h with ⟨hready, heq⟩
    cases heq
    exact .startFunctors hready
  | swap =>
    rcases Option.ite_none_right_eq_some.mp h with ⟨hready, heq⟩
    cases heq
    exact .swap hready
  | ret =>
    rcases Option.ite_none_right_eq_some.mp h with ⟨hready, heq⟩
    cases heq
    exact .ret hready
  | release =>
    rcases Option.ite_none_right_eq_some.mp h with ⟨hready, heq⟩
    cases heq
    exact .release hready
  | leave =>
    rcases Option.ite_none_right_eq_some.mp h with ⟨hready, heq⟩
    cases heq
    exact .leave hready
  | queueInLoop cb =>
    rcases Option.ite_none_right_eq_some.mp h with ⟨hready, heq⟩
    cases heq
    exact .queueInLoop hready
  | quit =>
    rcases Option.ite_none_right_eq_some.mp h with ⟨hready, heq⟩
    cases heq
    exact .quit hready
  | thread n call =>
    rcases Option.ite_none_right_eq_some.mp h with ⟨hready, heq⟩
    cases heq
    exact .thread hready
  | pollReturn woken =>
    rcases Option.ite_none_right_eq_some.mp h with ⟨hready, heq⟩
    cases heq
    exact .pollReturn hready.1 hready.2
  | endFunctors =>
    rcases Option.ite_none_right_eq_some.mp h with ⟨hready, heq⟩
    cases heq
    exact .endFunctors hready.1 hready.2
  | proceed n =>
    rcases Option.ite_none_left_eq_some.mp h with ⟨hbusy, heq⟩
    cases heq
    exact .proceed hbusy

end EventLoop

end Pallette
