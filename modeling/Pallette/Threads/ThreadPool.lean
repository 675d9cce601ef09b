import Pallette.Reasoning.CondVar
import Pallette.Reasoning.Run

/-!
# ThreadPool — the workers, the callers of `run` and the queue between them

The steps are the parts under the mutex, a notification included where it is made with the mutex
held; the tests of `running_`; and the wakeups without a reason.  A call of `run` is an entry of
`callers`, with its task, for as long as the pool exists.  What a task does is not looked into.
-/

open Reasoning

namespace Pallette

namespace ThreadPool

inductive Worker
  -- in `threadInitCallback_` or in a task
  | busy
  -- at the head of the `while`
  | testing
  -- before the lock in `take`
  | taking
  -- in `notEmpty_.wait`, and on the way back from it
  | waiting
  | notified
  | exited
deriving DecidableEq, Repr

inductive CallerPhase
  -- before the lock in `run`
  | entering
  -- in `notFull_.wait`, and on the way back from it
  | waiting
  | notified
  | returned
deriving DecidableEq, Repr

structure Caller (α : Type) where
  task : α
  phase : CallerPhase
deriving DecidableEq, Repr

/-- Where the thread that calls `stop` is. -/
inductive Stopper
  | idle
  | joining
  | returned
deriving DecidableEq, Repr

/-- `choice` is the thread that is notified, if one waits. -/
inductive Label (α : Type)
  | run (task : α)
  | push (caller : Nat) (choice : Option Nat)
  | wakeCaller (caller : Nat)
  | test (worker : Nat)
  | take (worker : Nat) (choice : Option Nat)
  | finish (worker : Nat)
  | wakeWorker (worker : Nat)
  | stop
  | join
deriving DecidableEq, Repr

def notEmpty_ : CondVar Worker where
  sleeping w := decide (w = .waiting)
  woken w := decide (w = .notified)
  wake _ := .notified
  wake_sleeping _ := rfl
  wake_woken _ _ := rfl
  woken_of_sleeping w h := by
    rw [of_decide_eq_true h]
    rfl

def notFull_ {α : Type} : CondVar (Caller α) where
  sleeping c := decide (c.phase = .waiting)
  woken c := decide (c.phase = .notified)
  wake c := { c with phase := .notified }
  wake_sleeping _ := rfl
  wake_woken _ _ := rfl
  woken_of_sleeping c h := by
    rw [of_decide_eq_true h]
    rfl

end ThreadPool

open ThreadPool

/-- In the queue a task goes with the number of the call that brought it.  What has been accepted
and taken so far is noted in order. -/
structure ThreadPool (α : Type) where
  maxQueueSize_ : Nat
  queue_ : List (Nat × α) := []
  running_ : Bool := true
  threads_ : List Worker
  callers : List (Caller α) := []
  stopper : Stopper := .idle
  accepted : List (Nat × α) := []
  taken : List (Nat × α) := []
deriving DecidableEq, Repr

namespace ThreadPool

variable {α : Type}

/-- A pool behind `setMaxQueueSize` and `start`. -/
def started (maxQueueSize numThreads : Nat) : ThreadPool α where
  maxQueueSize_ := maxQueueSize
  threads_ := List.replicate numThreads .busy

variable (s : ThreadPool α)

def isFull : Bool :=
  decide (0 < s.maxQueueSize_ ∧ s.maxQueueSize_ ≤ s.queue_.length)

def setCaller (i : Nat) (task : α) (phase : CallerPhase) : ThreadPool α :=
  { s with callers := s.callers.set i ⟨task, phase⟩ }

def setWorker (i : Nat) (w : Worker) : ThreadPool α :=
  { s with threads_ := s.threads_.set i w }

/-- The call of `run`, up to the lock. -/
def call (task : α) : ThreadPool α :=
  -- without workers the caller runs the task itself
  { s with callers := s.callers ++ [⟨task, if s.threads_ = [] then .returned else .entering⟩] }

/-- The part of `run` under the mutex, up to the wait or to the end. -/
def push (i : Nat) (task : α) (choice : Option Nat) : Option (ThreadPool α) :=
  if s.isFull then some (s.setCaller i task .waiting)
  else
    let s := { s with queue_ := s.queue_ ++ [(i, task)], accepted := s.accepted ++ [(i, task)] }
    (notEmpty_.notifyOne s.threads_ choice).map fun threads ↦
      { s.setCaller i task .returned with threads_ := threads }

/-- `take`, up to the wait or to the end. -/
def take (i : Nat) (choice : Option Nat) : Option (ThreadPool α) :=
  match s.queue_ with
  -- the task that is returned when the pool has stopped is empty, and is not run
  | [] => some (s.setWorker i (if s.running_ then .waiting else .testing))
  | task :: rest =>
      let s := { s with queue_ := rest, taken := s.taken ++ [task] }
      if 0 < s.maxQueueSize_ then
        (notFull_.notifyOne s.callers choice).map fun callers ↦
          { s.setWorker i .busy with callers := callers }
      else some (s.setWorker i .busy)

/-- The part of `stop` under the mutex. -/
def stop : ThreadPool α :=
  { s with running_ := false, threads_ := notEmpty_.notifyAll s.threads_, stopper := .joining }

/-- One step; `none` when it cannot be taken. -/
def next : Label α → Option (ThreadPool α)
  | .run task => some (s.call task)
  | .push i choice =>
      match s.callers[i]? with
      | some ⟨task, .entering⟩ | some ⟨task, .notified⟩ => s.push i task choice
      | _ => none
  | .wakeCaller i =>
      match s.callers[i]? with
      | some ⟨task, .waiting⟩ => some (s.setCaller i task .notified)
      | _ => none
  | .test i =>
      if s.threads_[i]? = some .testing then
        some (s.setWorker i (if s.running_ then .taking else .exited))
      else none
  | .take i choice =>
      if s.threads_[i]? = some .taking ∨ s.threads_[i]? = some .notified then s.take i choice
        else none
  | .finish i => if s.threads_[i]? = some .busy then some (s.setWorker i .testing) else none
  | .wakeWorker i => if s.threads_[i]? = some .waiting then some (s.setWorker i .notified) else none
  | .stop => if s.stopper = .idle then some s.stop else none
  | .join =>
      if s.stopper = .joining ∧ s.threads_.all (fun w ↦ decide (w = .exited)) then
        some { s with stopper := .returned }
      else none

def Step (s : ThreadPool α) (l : Label α) (t : ThreadPool α) : Prop :=
  s.next l = some t

/-- What a step can be. -/
inductive StepCases (s : ThreadPool α) : Label α → ThreadPool α → Prop
  | run {task : α} : StepCases s (.run task) (s.call task)
  | full {i : Nat} {choice : Option Nat} {c : Caller α} : s.callers[i]? = some c →
      c.phase = .entering ∨ c.phase = .notified → s.isFull = true →
      StepCases s (.push i choice) (s.setCaller i c.task .waiting)
  | push {i : Nat} {choice : Option Nat} {c : Caller α} {threads : List Worker} :
      s.callers[i]? = some c → c.phase = .entering ∨ c.phase = .notified → s.isFull = false →
      notEmpty_.notifyOne s.threads_ choice = some threads →
      StepCases s (.push i choice) { s.setCaller i c.task .returned with
        queue_ := s.queue_ ++ [(i, c.task)], accepted := s.accepted ++ [(i, c.task)],
        threads_ := threads }
  | wakeCaller {i : Nat} {c : Caller α} : s.callers[i]? = some c → c.phase = .waiting →
      StepCases s (.wakeCaller i) (s.setCaller i c.task .notified)
  | test {i : Nat} : s.threads_[i]? = some .testing →
      StepCases s (.test i) (s.setWorker i (if s.running_ then .taking else .exited))
  | wait {i : Nat} {choice : Option Nat} {w : Worker} : s.threads_[i]? = some w →
      w = .taking ∨ w = .notified → s.queue_ = [] →
      StepCases s (.take i choice) (s.setWorker i (if s.running_ then .waiting else .testing))
  | take {i : Nat} {choice : Option Nat} {w : Worker} {task : Nat × α} {rest : List (Nat × α)}
      {callers : List (Caller α)} : s.threads_[i]? = some w → w = .taking ∨ w = .notified →
      s.queue_ = task :: rest →
      (0 < s.maxQueueSize_ ∧ notFull_.notifyOne s.callers choice = some callers ∨
        s.maxQueueSize_ = 0 ∧ callers = s.callers) →
      StepCases s (.take i choice) { s.setWorker i .busy with
        queue_ := rest, taken := s.taken ++ [task], callers := callers }
  | finish {i : Nat} : s.threads_[i]? = some .busy →
      StepCases s (.finish i) (s.setWorker i .testing)
  | wakeWorker {i : Nat} : s.threads_[i]? = some .waiting →
      StepCases s (.wakeWorker i) (s.setWorker i .notified)
  | stop : s.stopper = .idle → StepCases s .stop s.stop
  | join : s.stopper = .joining → (∀ w ∈ s.threads_, w = .exited) →
      StepCases s .join { s with stopper := .returned }

theorem push_cases {s t : ThreadPool α} {i : Nat} {c : Caller α} {choice : Option Nat}
    (hc : s.callers[i]? = some c) (hphase : c.phase = .entering ∨ c.phase = .notified)
    (h : s.push i c.task choice = some t) : StepCases s (.push i choice) t := by
  unfold push at h
  by_cases hfull : s.isFull = true
  · rw [if_pos hfull] at h
    cases h
    exact .full hc hphase hfull
  · rw [if_neg hfull] at h
    obtain ⟨threads, hone, heq⟩ := Option.map_eq_some_iff.mp h
    subst heq
    exact .push hc hphase (Bool.not_eq_true _ ▸ hfull) hone

theorem take_cases {s t : ThreadPool α} {i : Nat} {w : Worker} {choice : Option Nat}
    (hw : s.threads_[i]? = some w) (hphase : w = .taking ∨ w = .notified)
    (h : s.take i choice = some t) : StepCases s (.take i choice) t := by
  unfold take at h
  split at h
  next hempty =>
    cases h
    exact .wait hw hphase hempty
  next task rest hqueue =>
    by_cases hbounded : 0 < s.maxQueueSize_
    · rw [if_pos hbounded] at h
      obtain ⟨callers, hone, heq⟩ := Option.map_eq_some_iff.mp h
      subst heq
      exact .take hw hphase hqueue (.inl ⟨hbounded, hone⟩)
    · rw [if_neg hbounded] at h
      cases h
      exact .take hw hphase hqueue (.inr ⟨by omega, rfl⟩)

theorem step_cases {s t : ThreadPool α} {l : Label α} (h : Step s l t) : StepCases s l t := by
  unfold Step at h
  cases l with
  | run task =>
    cases h
    exact .run
  | push i choice =>
    simp only [next] at h
    split at h
    next task hc => exact push_cases hc (.inl rfl) h
    next task hc => exact push_cases hc (.inr rfl) h
    next => cases h
  | wakeCaller i =>
    simp only [next] at h
    split at h
    next task hc =>
      cases h
      exact .wakeCaller hc rfl
    next => cases h
  | test i =>
    obtain ⟨hw, heq⟩ := Option.ite_none_right_eq_some.mp h
    cases heq
    exact .test hw
  | take i choice =>
    obtain ⟨hw, heq⟩ := Option.ite_none_right_eq_some.mp h
    rcases hw with hw | hw
    · exact take_cases hw (.inl rfl) heq
    · exact take_cases hw (.inr rfl) heq
  | finish i =>
    obtain ⟨hw, heq⟩ := Option.ite_none_right_eq_some.mp h
    cases heq
    exact .finish hw
  | wakeWorker i =>
    obtain ⟨hw, heq⟩ := Option.ite_none_right_eq_some.mp h
    cases heq
    exact .wakeWorker hw
  | stop =>
    obtain ⟨hidle, heq⟩ := Option.ite_none_right_eq_some.mp h
    cases heq
    exact .stop hidle
  | join =>
    obtain ⟨⟨hjoining, hall⟩, heq⟩ := Option.ite_none_right_eq_some.mp h
    cases heq
    exact .join hjoining fun w hw ↦ of_decide_eq_true (List.all_eq_true.mp hall w hw)

end ThreadPool

end Pallette
