import Pallette.Loop.EventLoop
import Pallette.Reasoning.Run

/-!
# Functors — what is queued runs once, in order, and in the next batch

Everything queued so far, with the number of the batch it belongs to, is what has been executed with
the number of the batch it ran in, the rest of the current batch, and what waits for the next one.
What is queued is what the calls of `queueInLoop` are given.
-/

open Reasoning

namespace Pallette.EventLoop

variable {α : Type*} {s t : EventLoop α}

structure InOrder (s : EventLoop α) : Prop where
  batches : s.queued.map (fun q ↦ (q.1, q.2 + 1)) =
    s.executed ++ s.functors.map (·, s.batches) ++ s.pendingFunctors_.map (·, s.batches + 1)
  idle : s.phase ≠ .running → s.phase ≠ .functor → s.functors = []

theorem InOrder.push (h : InOrder s) (cb : α) : InOrder (s.push cb) := by
  refine ⟨?_, h.idle⟩
  simp only [EventLoop.push, List.map_append, List.map_cons, List.map_nil]
  rw [h.batches, List.append_assoc]

/-- What moves neither a functor nor the count of the batches. -/
theorem InOrder.move (h : InOrder s) (hqueued : t.queued = s.queued)
    (hexecuted : t.executed = s.executed)
    (hfunctors : t.functors = s.functors) (hpending : t.pendingFunctors_ = s.pendingFunctors_)
    (hbatches : t.batches = s.batches)
    (hphase : t.phase ≠ .running → t.phase ≠ .functor → s.functors = []) : InOrder t := by
  refine ⟨?_, ?_⟩
  · rw [hqueued, hexecuted, hfunctors, hpending, hbatches]
    exact h.batches
  · rw [hfunctors]
    exact hphase

theorem InOrder.idle_of_eq (h : InOrder s) {phase : Phase} (hphase : s.phase = phase)
    (hrunning : phase ≠ .running) (hfunctor : phase ≠ .functor) : s.functors = [] :=
  h.idle (by rwa [hphase]) (by rwa [hphase])

theorem InOrder.swap (h : InOrder s) (hphase : s.phase = .swapping) :
    InOrder { s.swap with phase := .running } := by
  have hnone := h.idle_of_eq hphase (by decide) (by decide)
  refine ⟨?_, fun hne ↦ absurd rfl hne⟩
  simp only [EventLoop.swap]
  rw [h.batches, hnone]
  simp

theorem InOrder.run (h : InOrder s) {cb : α} {rest : List α} (hfunctors : s.functors = cb :: rest) :
    InOrder { s with functors := rest, executed := s.executed ++ [(cb, s.batches)], phase :=
      .functor } := by
  refine ⟨?_, fun _ hne ↦ absurd rfl hne⟩
  have hbatches := h.batches
  rw [hfunctors] at hbatches
  simpa using hbatches

theorem inOrder_of_step {l : Label α} (h : InOrder s) (hstep : Step s l t) : InOrder t := by
  cases step_cases hstep with
  | loop hphase | clearQuit hphase | test hphase | handleRead hphase | startFunctors hphase
  | release hphase | leave hphase =>
    exact h.move rfl rfl rfl rfl rfl fun _ _ ↦ h.idle_of_eq hphase (by decide) (by decide)
  | pollReturn hphase _ =>
    exact h.move rfl rfl rfl rfl rfl fun _ _ ↦ h.idle_of_eq hphase (by decide) (by decide)
  | swap hphase => exact h.swap hphase
  | run _ hfunctors => exact h.run hfunctors
  | ret _ => exact h.move rfl rfl rfl rfl rfl fun hne ↦ absurd rfl hne
  | endFunctors _ hnone => exact h.move rfl rfl rfl rfl rfl fun _ _ ↦ hnone
  | @queueInLoop cb _ =>
    have hpushed := h.push cb
    simp only [EventLoop.queueInLoop]
    split
    · exact hpushed.move rfl rfl rfl rfl rfl hpushed.idle
    · exact hpushed
  | quit _ => exact h.move rfl rfl rfl rfl rfl h.idle
  | @thread n call _ =>
    cases call with
    | queueInLoop cb =>
      have hpushed := h.push cb
      exact hpushed.move rfl rfl rfl rfl rfl hpushed.idle
    | quit => exact h.move rfl rfl rfl rfl rfl h.idle
  | @proceed n _ =>
    unfold threadProceed
    cases s.threads n with
    | idle => exact h
    | wakeup | quitStore | quitWakeup => exact h.move rfl rfl rfl rfl rfl h.idle

/-- The functor a step queues: in a call of the owner, or the push of another thread. -/
def Label.queues? : Label α → Option α
  | .queueInLoop cb | .thread _ (.queueInLoop cb) => some cb
  | _ => none

theorem queued_of_step {l : Label α} (hstep : Step s l t) :
    t.queued.map Prod.fst = s.queued.map Prod.fst ++ l.queues?.toList := by
  have hnone : t.queued = s.queued → l.queues? = none →
      t.queued.map Prod.fst = s.queued.map Prod.fst ++ l.queues?.toList := by
    intro hsame hentry
    rw [hsame, hentry, Option.toList_none, List.append_nil]
  have hpush : ∀ cb, t.queued = (s.push cb).queued → l.queues? = some cb →
      t.queued.map Prod.fst = s.queued.map Prod.fst ++ l.queues?.toList := by
    intro cb hsame hentry
    rw [hsame, hentry, EventLoop.push, List.map_append]
    rfl
  cases step_cases hstep with
  | loop _ | clearQuit _ | test _ | pollReturn _ _ | handleRead _ | startFunctors _ | swap _
  | run _ _ | ret _ | endFunctors _ _ | release _ | leave _ | quit _ => exact hnone rfl rfl
  | @queueInLoop cb _ =>
    refine hpush cb ?_ rfl
    simp only [EventLoop.queueInLoop]
    split <;> rfl
  | @thread n call _ =>
    cases call with
    | queueInLoop cb => exact hpush cb rfl rfl
    | quit => exact hnone rfl rfl
  | @proceed n _ =>
    refine hnone ?_ rfl
    unfold threadProceed
    cases s.threads n <;> rfl

/-- **Functors run once and in order.**  In every run, whoever queues and whenever, what has been
executed, the rest of the current batch and `pendingFunctors_` are together the functors of all
calls of `queueInLoop`, in this order; and what was queued when `k` batches had begun runs, if it
does, in batch `k + 1`. -/
theorem functors_in_order {ls : List (Label α)} (h : Run Step {} ls s) :
    s.queued.map Prod.fst = ls.filterMap Label.queues? ∧
      s.executed.map Prod.fst ++ s.functors ++ s.pendingFunctors_ = ls.filterMap Label.queues? ∧
      ∀ (i : Nat) (e q : α × Nat), s.executed[i]? = some e → s.queued[i]? = some q →
        e.1 = q.1 ∧ e.2 = q.2 + 1 := by
  have hinv : InOrder s :=
    h.invariant InOrder (fun _ _ _ hs hstep ↦ inOrder_of_step hs hstep) ⟨rfl, fun _ _ ↦ rfl⟩
  have hqueued : s.queued.map Prod.fst = ls.filterMap Label.queues? :=
    h.history (fun s ↦ s.queued.map Prod.fst) Label.queues? fun _ _ _ ↦ queued_of_step
  have hbatches := hinv.batches
  refine ⟨hqueued, ?_, fun i e q he hq ↦ ?_⟩
  · have hfst := congrArg (List.map Prod.fst) hbatches
    rw [← hqueued]
    simpa [Function.comp_def] using hfst.symm
  · have hlt : i < s.executed.length := (List.getElem?_eq_some_iff.mp he).1
    have hat := congrArg (fun l ↦ l[i]?) hbatches
    simp only [List.append_assoc] at hat
    rw [List.getElem?_append_left hlt, he, List.getElem?_map, hq] at hat
    cases hat
    exact ⟨rfl, rfl⟩

/-- A functor of another thread, which queues one more while it is run. -/
theorem functors_in_order_reentrant :
    ∃ s : EventLoop Nat, Run Step {} [.loop, .clearQuit, .test, .thread 0 (.queueInLoop 7),
        .proceed 0, .pollReturn true, .handleRead, .startFunctors, .swap, .run, .queueInLoop 8,
        .ret] s ∧
      s.queued = [(7, 0), (8, 1)] ∧ s.executed = [(7, 1)] ∧ s.pendingFunctors_ = [8] ∧
      s.queued.map Prod.fst = [7, 8] ∧
      s.executed.map Prod.fst ++ s.functors ++ s.pendingFunctors_ = [7, 8] ∧
      ∀ (i : Nat) (e q : Nat × Nat), s.executed[i]? = some e → s.queued[i]? = some q →
        e.1 = q.1 ∧ e.2 = q.2 + 1 := by
  have hrun := show Run Step ({} : EventLoop Nat) [.loop, .clearQuit, .test,
        .thread 0 (.queueInLoop 7), .proceed 0, .pollReturn true, .handleRead, .startFunctors,
        .swap, .run, .queueInLoop 8, .ret] _ from
    .cons rfl <| .cons rfl <| .cons rfl <| .cons rfl <| .cons rfl <| .cons rfl <| .cons rfl <|
    .cons rfl <| .cons rfl <| .cons rfl <| .cons rfl <| .cons rfl <| .nil _
  exact ⟨_, hrun, rfl, rfl, rfl, functors_in_order hrun⟩

end Pallette.EventLoop
