import Pallette.Loop.EventLoop
import Pallette.Reasoning.Run

/-!
# Wakeup — whether the loop goes to sleep on functors that wait

Another thread writes to `wakeupFd_` behind every push, and so does the owner in a functor.  In an
event handler it need not: the swap comes before the next `poll`.  But the owner is in neither
before `loop()` is entered, nor in the destructors of the functors at the end of a batch, where
`callingPendingFunctors_` is off again.  What it queues there lies in the queue while the loop
sleeps.
-/

open Reasoning

namespace Pallette.EventLoop

variable {α : Type*} {s t : EventLoop α}

/-- The owner queues only where a wakeup or the swap follows before the next `poll`. -/
def SwapFollows (s : EventLoop α) : Label α → Prop
  | .queueInLoop _ => s.phase ≠ .outside ∧ s.phase ≠ .releasing
  | _ => True

/-- With functors in the queue, `poll` returns at once, or some thread is about to see to that. -/
def Awake (s : EventLoop α) : Prop :=
  s.pendingFunctors_ ≠ [] → s.wakeupFd_ ≠ 0 ∨ ∃ n, s.threads n = .wakeup

theorem wakeup_ne_zero (s : EventLoop α) : s.wakeup.wakeupFd_ ≠ 0 := by
  simp only [wakeup]
  split
  · omega
  next hfull =>
    have hpos : 0 < maxCount := by decide
    omega

theorem awake_setThread (h : s.Awake) {n : Nat} (hn : s.threads n ≠ .wakeup) (st : ThreadState) :
    (s.setThread n st).Awake := by
  intro hpending
  rcases h hpending with hcount | ⟨m, hm⟩
  · exact .inl hcount
  · refine .inr ⟨m, ?_⟩
    have hne : m ≠ n := by
      rintro rfl
      exact hn hm
    simp only [setThread]
    rw [if_neg hne]
    exact hm

/-- The counter is drained only while events are handled, and the queue is emptied before the next
`poll`. -/
structure Watched (s : EventLoop α) : Prop where
  calling : s.phase = .swapping ∨ s.phase = .running ∨ s.phase = .functor →
    s.callingPendingFunctors_ = true
  awake : (∀ woken, s.phase ≠ .handling woken) → s.phase ≠ .swapping → s.Awake

theorem Watched.queueInLoop (h : Watched s) (cb : α) (hl : SwapFollows s (.queueInLoop cb))
    (huser : s.inUserCode = true) : Watched (s.queueInLoop cb) := by
  simp only [EventLoop.queueInLoop]
  split
  next hcalling => exact ⟨fun _ ↦ hcalling, fun _ _ _ ↦ .inl (wakeup_ne_zero _)⟩
  next hcalling =>
    refine ⟨h.calling, fun hhandling _ ↦ ?_⟩
    -- of the places where the owner can call, only the handlers are left
    exfalso
    unfold inUserCode at huser
    split at huser
    next hphase => exact hl.1 hphase
    next woken hphase => exact hhandling woken hphase
    next hphase => exact hcalling (h.calling (.inr (.inr hphase)))
    next hphase => exact hl.2 hphase
    next => cases huser

theorem Watched.threadCall (h : Watched s) {n : Nat} (hidle : s.threads n = .idle)
    (call : ThreadCall α) :
    Watched (s.threadCall n call) := by
  cases call with
  | queueInLoop cb =>
    refine ⟨h.calling, fun _ _ _ ↦ .inr ⟨n, ?_⟩⟩
    simp [EventLoop.threadCall, setThread]
  | quit =>
    refine ⟨h.calling, fun hhandling hswapping ↦ ?_⟩
    exact awake_setThread (h.awake hhandling hswapping) (by rw [hidle]; decide) _

theorem Watched.threadProceed (h : Watched s) (n : Nat) : Watched (s.threadProceed n) := by
  unfold EventLoop.threadProceed
  cases hthread : s.threads n with
  | idle => exact h
  | wakeup | quitWakeup =>
    exact ⟨h.calling, fun _ _ _ ↦ .inl (wakeup_ne_zero s)⟩
  | quitStore looping =>
    refine ⟨h.calling, fun hhandling hswapping ↦ ?_⟩
    have hawake : Awake { s with quit_ := looping } := h.awake hhandling hswapping
    exact awake_setThread hawake (by rw [hthread]; simp) _

theorem watched_of_step {l : Label α} (h : Watched s) (hstep : Step s l t) (hl : SwapFollows s l) :
    Watched t := by
  cases step_cases hstep with
  | loop hphase | clearQuit hphase | release hphase | leave hphase =>
    have hawake := h.awake (by simp [hphase]) (by simp [hphase])
    exact ⟨by simp, fun _ _ ↦ hawake⟩
  | test hphase =>
    have hawake := h.awake (by simp [hphase]) (by simp [hphase])
    refine ⟨fun hcalling ↦ ?_, fun _ _ ↦ hawake⟩
    dsimp only at hcalling
    split at hcalling <;> simp at hcalling
  | pollReturn _ _ => exact ⟨by simp, fun hhandling ↦ absurd rfl (hhandling _)⟩
  | handleRead _ => exact ⟨by simp, fun hhandling ↦ absurd rfl (hhandling _)⟩
  | startFunctors _ => exact ⟨fun _ ↦ rfl, fun _ hne ↦ absurd rfl hne⟩
  | swap hphase =>
    refine ⟨fun _ ↦ h.calling (.inl hphase), fun _ _ hpending ↦ ?_⟩
    exact absurd rfl hpending
  | run hphase _ | ret hphase =>
    have hawake := h.awake (by simp [hphase]) (by simp [hphase])
    exact ⟨fun _ ↦ h.calling (by simp [hphase]), fun _ _ ↦ hawake⟩
  | endFunctors hphase _ =>
    have hawake := h.awake (by simp [hphase]) (by simp [hphase])
    exact ⟨by simp, fun _ _ ↦ hawake⟩
  | queueInLoop huser => exact h.queueInLoop _ hl huser
  | quit _ => exact ⟨h.calling, h.awake⟩
  | thread hidle => exact h.threadCall hidle _
  | proceed _ => exact h.threadProceed _

/-- **No lost wakeup.**  As long as the owner queues nothing outside of `loop()` and in the
destructors of functors, functors that wait when the loop is in `poll` have it return at once: the
counter of `wakeupFd_` is not zero, or some other thread is between its push and its wakeup. -/
theorem no_lost_wakeup {ls : List (Label α)} (h : Run (Guarded Step SwapFollows) {} ls s)
    (hpolling : s.phase = .polling) (hpending : s.pendingFunctors_ ≠ []) :
    s.wakeupFd_ ≠ 0 ∨ ∃ n, s.threads n = .wakeup := by
  have hinv : Watched s := by
    refine h.invariant Watched ?_ ⟨by simp, fun _ _ hne ↦ absurd rfl hne⟩
    rintro s l t hs ⟨hstep, hl⟩
    exact watched_of_step hs hstep hl
  exact hinv.awake (by simp [hpolling]) (by simp [hpolling]) hpending

/-- A thread between its push and its wakeup, with the loop in `poll`. -/
theorem no_lost_wakeup_pushed :
    ∃ s : EventLoop Nat, Run (Guarded Step SwapFollows) {}
        [.loop, .clearQuit, .test, .thread 0 (.queueInLoop 7)] s ∧
      (s.phase = .polling ∧ s.pendingFunctors_ ≠ []) ∧
          (s.wakeupFd_ ≠ 0 ∨ ∃ n, s.threads n = .wakeup) := by
  have hrun := show Run (Guarded Step SwapFollows) ({} : EventLoop Nat)
        [.loop, .clearQuit, .test, .thread 0 (.queueInLoop 7)] _ from
    .cons ⟨rfl, trivial⟩ <| .cons ⟨rfl, trivial⟩ <| .cons ⟨rfl, trivial⟩ <|
    .cons ⟨rfl, trivial⟩ <| .nil _
  exact ⟨_, hrun, ⟨rfl, by decide⟩, no_lost_wakeup hrun rfl (by decide)⟩

/-- What the owner queues before it enters `loop()` waits for an event or for the timeout of
`poll`. -/
theorem queued_before_loop_sleeps :
    ¬ ∀ (ls : List (Label Nat)) (s : EventLoop Nat), Run Step {} ls s → s.phase = .polling →
        s.pendingFunctors_ ≠ [] → s.wakeupFd_ ≠ 0 ∨ ∃ n, s.threads n = .wakeup := by
  intro h
  have hrun := show Run Step ({} : EventLoop Nat) [.queueInLoop 7, .loop, .clearQuit, .test] _ from
    .cons rfl <| .cons rfl <| .cons rfl <| .cons rfl <| .nil _
  rcases h _ _ hrun rfl (by decide) with hcount | ⟨n, hn⟩
  · exact hcount rfl
  · cases hn

end Pallette.EventLoop
