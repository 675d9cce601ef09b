import Pallette.Net.Lifecycle
import Pallette.Reasoning.Run

/-!
# Disconnected — whether a closed connection stays closed

`shutdown`, `forceClose` and `forceCloseWithDelay` test `state_` and set it in two steps.  Where the
loop closes the connection in between, the store makes it `kDisconnecting` again, and
`forceCloseInLoop` closes it a second time.  Without such a store a closed connection stays closed,
and it is closed once.  The two loads of the test in `forceClose` count as one: only a close can
fall between them, and the test then comes out as it does behind it.
-/

open Reasoning

namespace Pallette.TcpConnection

/-- What may happen to a connection that closes once: a closed one stays closed, and only one that
is not closed is. -/
def ClosesOnly (s t : TcpConnection) : Prop :=
  (s.state_ = .kDisconnected → t.state_ = .kDisconnected) ∧
    (t.closes = s.closes ∨
      (s.state_ ≠ .kDisconnected ∧ t.state_ = .kDisconnected ∧ t.closes = s.closes + 1))

variable {s t : TcpConnection}

theorem Turns.closesOnly (h : Turns s t) : ClosesOnly s t := by
  cases h with
  | remains hsame => exact ⟨fun hs ↦ hsame.state.trans hs, .inl hsame.closes⟩
  | disconnecting hopen _ hcloses _ => exact ⟨fun hs ↦ absurd hs hopen, .inl hcloses⟩
  | closed hopen hclosed hone _ => exact ⟨fun _ ↦ hclosed, .inr ⟨hopen, hclosed, hone⟩⟩
  | destroyed _ hclosed hcloses _ => exact ⟨fun _ ↦ hclosed, .inl hcloses⟩

/-! ## Runs -/

/-- A connection that has not closed yet has not called `closeCallback_`, and one that has calls it
once. -/
def ClosedOnceAtMost (s : TcpConnection) : Prop :=
  s.closes ≤ if s.state_ = .kDisconnected then 1 else 0

theorem ClosesOnly.atMostOnce (h : ClosesOnly s t) (hs : ClosedOnceAtMost s) :
    ClosedOnceAtMost t := by
  unfold ClosedOnceAtMost at hs ⊢
  rcases h.2 with heq | ⟨hopen, hclosed, hone⟩
  · rw [heq]
    by_cases hd : s.state_ = .kDisconnected
    · rw [if_pos (h.1 hd)]
      rwa [if_pos hd] at hs
    · rw [if_neg hd] at hs
      omega
  · rw [if_neg hopen] at hs
    rw [if_pos hclosed]
    omega

theorem stays_disconnected {ls : List Label} (h : Run (Guarded Step NoLateStore) s ls t)
    (hs : s.state_ = .kDisconnected) : t.state_ = .kDisconnected := by
  apply h.invariant (fun s ↦ s.state_ = .kDisconnected) _ hs
  rintro s l t hclosed ⟨hstep, hl⟩
  exact (turns_of_step hstep hl).closesOnly.1 hclosed

/-- **Once closed, closed for good.**  In every run in which no thread sets the state of a
connection that has been closed since the thread tested it, `closeCallback_` is called at most once,
and a connection that has reached `kDisconnected` never leaves it. -/
theorem disconnected_for_good {mark : Nat} {wc hw : Bool} {ls : List Label}
    (h : Run (Guarded Step NoLateStore) (established mark wc hw) ls s) :
    s.trace.count .close ≤ 1 ∧
      (s.state_ = .kDisconnected → ∀ ls t, Run (Guarded Step NoLateStore) s ls t →
        t.state_ = .kDisconnected) := by
  have hinv : ClosedOnceAtMost s := by
    refine h.invariant ClosedOnceAtMost ?_ (by simp [ClosedOnceAtMost, closes, established, fresh])
    rintro s l t hs ⟨hstep, hl⟩
    exact (turns_of_step hstep hl).closesOnly.atMostOnce hs
  refine ⟨?_, fun hs ls t hrun ↦ stays_disconnected hrun hs⟩
  have hcount : s.trace.count .close ≤ s.closes := Nat.le_add_right _ _
  unfold ClosedOnceAtMost at hinv
  split at hinv
  · omega
  · omega

/-- A thread closes by force, with the store and the push ahead of the close. -/
theorem disconnected_for_good_forceClose :
    ∃ s, Run (Guarded Step NoLateStore) (established 1 false false)
        [.ret, .thread 0 .forceClose, .proceed 0, .proceed 0, .functor (.count 0), .ret,
        .resume] s ∧
      s.trace.count .close ≤ 1 ∧
      (s.state_ = .kDisconnected → ∀ ls t, Run (Guarded Step NoLateStore) s ls t →
        t.state_ = .kDisconnected) := by
  have hrun := show Run (Guarded Step NoLateStore) (established 1 false false)
        [.ret, .thread 0 .forceClose, .proceed 0, .proceed 0, .functor (.count 0), .ret,
        .resume] _ from
    .cons ⟨rfl, trivial⟩ <| .cons ⟨rfl, trivial⟩ <| .cons ⟨rfl, fun _ ↦ by decide⟩ <|
    .cons ⟨rfl, fun _ ↦ by decide⟩ <| .cons ⟨rfl, trivial⟩ <| .cons ⟨rfl, trivial⟩ <|
    .cons ⟨rfl, trivial⟩ <| .nil _
  exact ⟨_, hrun, disconnected_for_good hrun⟩

/-- The peer closes between the test in another thread's `forceClose` and its store: the connection
is `kDisconnecting` again, and `closeCallback_` is called a second time. -/
theorem forceClose_resurrects :
    ¬ ∀ (mark : Nat) (wc hw : Bool) (ls : List Label) (s : TcpConnection),
        Run Step (established mark wc hw) ls s →
        s.trace.count .close ≤ 1 ∧
          (s.state_ = .kDisconnected → ∀ ls t, Run Step s ls t → t.state_ = .kDisconnected) := by
  intro h
  -- `closeCallback_` queues `connectDestroyed` behind the first close
  have hrun := show Run Step (established 1 false false)
        [.ret, .thread 0 .forceClose, .poll { EPOLLIN := true }, .handleEvent,
        .readStage (.data []),
          .ret, .resume, .destroy, .ret, .writeStage (.count 0), .proceed 0, .proceed 0,
          .functor (.count 0), .resume, .functor (.count 0), .ret, .resume] _ from
    .cons rfl <| .cons rfl <| .cons rfl <| .cons rfl <| .cons rfl <| .cons rfl <| .cons rfl <|
    .cons rfl <| .cons rfl <| .cons rfl <| .cons rfl <| .cons rfl <| .cons rfl <| .cons rfl <|
    .cons rfl <| .cons rfl <| .cons rfl <| .nil _
  exact absurd (h _ _ _ _ _ hrun).1 (by decide)

end Pallette.TcpConnection
