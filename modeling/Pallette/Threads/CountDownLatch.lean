import Pallette.Reasoning.CondVar
import Pallette.Reasoning.Run

/-!
# CountDownLatch — waiting until a count is down

The steps are the parts under the mutex and the wakeups without a reason.  Whoever is asked to wait
is an entry of `waiters` from then on.
-/

open Reasoning

namespace Pallette

namespace CountDownLatch

inductive Waiter
  -- before the lock in `wait`
  | entering
  -- in `condition_.wait`, and on the way back from it
  | waiting
  | notified
  | returned
deriving DecidableEq, Repr

def condition_ : CondVar Waiter where
  sleeping w := decide (w = .waiting)
  woken w := decide (w = .notified)
  wake _ := .notified
  wake_sleeping _ := rfl
  wake_woken _ _ := rfl
  woken_of_sleeping w h := by
    rw [of_decide_eq_true h]
    rfl

inductive Label
  | wait
  -- the test of `count_` with the mutex held
  | test (waiter : Nat)
  | wakeWaiter (waiter : Nat)
  | countDown
deriving DecidableEq, Repr

end CountDownLatch

open CountDownLatch

structure CountDownLatch where
  count_ : Int
  waiters : List Waiter := []
deriving DecidableEq, Repr

namespace CountDownLatch

variable (s : CountDownLatch)

/-- What follows the test of the `while`. -/
def verdict : Waiter :=
  if 0 < s.count_ then .waiting else .returned

def countDown : CountDownLatch :=
  { count_ := s.count_ - 1
    waiters := if s.count_ - 1 = 0 then condition_.notifyAll s.waiters else s.waiters }

def next : Label → Option CountDownLatch
  | .wait => some { s with waiters := s.waiters ++ [.entering] }
  | .test i =>
      match s.waiters[i]? with
      | some .entering => some { s with waiters := s.waiters.set i s.verdict }
      | some .notified => some { s with waiters := s.waiters.set i s.verdict }
      | _ => none
  | .wakeWaiter i =>
      match s.waiters[i]? with
      | some .waiting => some { s with waiters := s.waiters.set i .notified }
      | _ => none
  | .countDown => some s.countDown

def Step (s : CountDownLatch) (l : Label) (t : CountDownLatch) : Prop :=
  s.next l = some t

/-- Nobody has returned before the count is down, and nobody sleeps behind that. -/
structure Fair (s : CountDownLatch) : Prop where
  returned : .returned ∈ s.waiters → s.count_ ≤ 0
  waiting : .waiting ∈ s.waiters → 0 < s.count_

variable {s} {t : CountDownLatch}

theorem fair_new (count : Int) : Fair { count_ := count } :=
  ⟨nofun, nofun⟩

theorem Fair.wait (h : Fair s) : Fair { s with waiters := s.waiters ++ [.entering] } := by
  constructor
  · intro hmem
    apply h.returned
    simpa using hmem
  · intro hmem
    apply h.waiting
    simpa using hmem

/-- A waiter that goes on as it should. -/
theorem Fair.set (h : Fair s) {w : Waiter} (i : Nat) (hreturned : w = .returned → s.count_ ≤ 0)
    (hwaiting : w = .waiting → 0 < s.count_) : Fair { s with waiters := s.waiters.set i w } := by
  constructor
  · intro hmem
    obtain hold | hnew := List.mem_or_eq_of_mem_set hmem
    · exact h.returned hold
    · exact hreturned hnew.symm
  · intro hmem
    obtain hold | hnew := List.mem_or_eq_of_mem_set hmem
    · exact h.waiting hold
    · exact hwaiting hnew.symm

theorem Fair.test (h : Fair s) (i : Nat) :
    Fair { s with waiters := s.waiters.set i s.verdict } := by
  unfold verdict
  split
  next hpos => exact h.set i nofun fun _ ↦ hpos
  next hdown => exact h.set i (fun _ ↦ by omega) nofun

/-- The one that takes the count down to zero wakes all that sleep. -/
theorem Fair.countDown (h : Fair s) : Fair s.countDown := by
  unfold CountDownLatch.countDown
  split
  next hzero =>
    constructor
    · intro _
      show s.count_ - 1 ≤ 0
      omega
    · intro hmem
      obtain ⟨w, -, hw⟩ := List.mem_map.mp hmem
      split at hw
      · cases hw
      next hawake =>
        subst hw
        exact absurd rfl hawake
  next hne =>
    constructor
    · intro hmem
      have hdown := h.returned hmem
      show s.count_ - 1 ≤ 0
      omega
    · intro hmem
      have hpos := h.waiting hmem
      show 0 < s.count_ - 1
      omega

theorem Fair.step (h : Fair s) {l : Label} (hstep : Step s l t) : Fair t := by
  unfold Step at hstep
  cases l with
  | wait =>
    cases hstep
    exact h.wait
  | test i =>
    simp only [next] at hstep
    split at hstep
    next =>
      cases hstep
      exact h.test i
    next =>
      cases hstep
      exact h.test i
    next => cases hstep
  | wakeWaiter i =>
    simp only [next] at hstep
    split at hstep
    next =>
      cases hstep
      exact h.set i nofun nofun
    next => cases hstep
  | countDown =>
    cases hstep
    exact h.countDown

theorem count_of_step {l : Label} (hstep : Step s l t) :
    t.count_ = s.count_ - if l = .countDown then 1 else 0 := by
  unfold Step at hstep
  cases l with
  | wait =>
    cases hstep
    exact (Int.sub_zero _).symm
  | test i =>
    simp only [next] at hstep
    split at hstep
    next =>
      cases hstep
      exact (Int.sub_zero _).symm
    next =>
      cases hstep
      exact (Int.sub_zero _).symm
    next => cases hstep
  | wakeWaiter i =>
    simp only [next] at hstep
    split at hstep
    next =>
      cases hstep
      exact (Int.sub_zero _).symm
    next => cases hstep
  | countDown =>
    cases hstep
    rfl

theorem count_of_run {ls : List Label} (h : Run Step s ls t) :
    t.count_ = s.count_ - ls.count .countDown := by
  induction h with
  | nil => simp
  | @cons s t u l ls hstep _ ih =>
    rw [ih, count_of_step hstep, List.count_cons]
    by_cases hl : l = .countDown
    · simp only [hl, if_true, beq_self_eq_true]
      omega
    · simp only [hl, if_false, beq_iff_eq]
      omega

/-- **The latch.**  In every run of any number of waiters: who has returned has seen as many calls
of `countDown` as the count says, and once there are so many nobody sleeps any more, whoever came
when and whatever woke him. -/
theorem released_iff {count : Int} {ls : List Label} (h : Run Step { count_ := count } ls s) :
    (.returned ∈ s.waiters → count ≤ ls.count .countDown) ∧
      (count ≤ ls.count .countDown → ∀ w ∈ s.waiters, w ≠ .waiting ∧
      (w = .entering ∨ w = .notified → s.verdict = .returned)) := by
  have hfair := h.invariant Fair (fun s l t hs hstep ↦ hs.step hstep) (fair_new count)
  have hcount := count_of_run h
  dsimp only at hcount
  constructor
  · intro hreturned
    have hdown := hfair.returned hreturned
    omega
  · intro henough w hw
    refine ⟨?_, fun _ ↦ ?_⟩
    · rintro rfl
      have hpos := hfair.waiting hw
      omega
    · unfold verdict
      rw [if_neg (by omega)]

end CountDownLatch

end Pallette
