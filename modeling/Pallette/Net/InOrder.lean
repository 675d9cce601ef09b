import Pallette.Net.Offers

/-!
# InOrder — what callers send reaches the kernel, and in order

At the end of any run of an open connection `Sending` says where the messages are that `send` has
taken: these are all it was called with, because it takes every one while the connection is up.
-/

open Reasoning

namespace Pallette.TcpConnection

/-- The messages `send` is called with in a run, each with its caller. -/
def sends (ls : List Label) : List (Caller × Bytes) :=
  ls.filterMap Label.send?

/-- What is true of the bytes and the messages of an open connection: every message `send` was
called with has been taken; the kernel has those processed, one behind the other, up to what is left
in the output buffer; what a caller sent has been processed, waits in the queue or is on its way
there, in this order; and interest in writing is there, in the channel and at the kernel, exactly if
there is something left. -/
structure InOrder (ls : List Label) (s : TcpConnection) : Prop where
  sent : sent s.trace = sends ls
  bytes : accepted s.trace ++ s.outputBuffer_ = concat (processed s.trace)
  order : ∀ caller, ofCaller caller (sends ls) =
    ofCaller caller (processed s.trace) ++ ofCaller caller (queued s.pendingFunctors_) ++
      s.inFlight caller
  writing : s.channel_.isWriting = true ↔ s.outputBuffer_ ≠ []
  registered : (∃ interest, s.channel_.registered = some interest ∧ interest.EPOLLOUT = true) ↔
    s.outputBuffer_ ≠ []

/-- The steps of a run that stays in `kConnected`. -/
def StaysUp (s : TcpConnection) (l : Label) : Prop :=
  s.state_ = .kConnected ∧ l.Soft

variable {s t : TcpConnection} {ls : List Label}

theorem Sending.inOrder (h : Sending s) (hsent : sent s.trace = sends ls) : InOrder ls s where
  sent := hsent
  bytes := h.bytes
  order caller := by
    rw [← hsent, ← ofCaller_append]
    exact h.order caller
  writing := by
    rw [h.interest.writing]
    exact decide_eq_true_iff
  registered := by
    rw [h.interest.registered_iff]
    exact decide_eq_true_iff

theorem sent_of_run (h : Run (Guarded Step StaysUp) s ls t) :
    sent t.trace = sent s.trace ++ sends ls := by
  apply h.history (fun s ↦ sent s.trace) Label.send?
  rintro s l t ⟨hstep, hconnected, -⟩
  rw [sent_of_step hstep, sending, if_pos hconnected]

/-- **Messages leave in order.**  In every run that stays in `kConnected`, whatever the socket takes
at each write and however the calls of the loop thread and of others interleave. -/
theorem sends_in_order {mark : Nat} {wc hw : Bool}
    (h : Run (Guarded Step StaysUp) (established mark wc hw) ls s) (hs : s.state_ = .kConnected) :
    InOrder ls s := by
  -- a step may close the connection, and then nothing is said any more; the condition on the next
  -- one excludes that
  have hinv : s.Alive → Sending s := by
    refine h.invariant (fun s ↦ s.Alive → Sending s) ?_ fun _ ↦ sending_established mark wc hw
    rintro s l t hsending ⟨hstep, hconnected, hsoft⟩ ht
    have halive : s.Alive := .inl hconnected
    exact (hsending halive).step (by rw [hconnected]; decide) hsoft hstep ht
  exact (hinv (.inl hs)).inOrder (sent_of_run h)

/-- A message cut short by the socket, with one of another thread behind it. -/
theorem sends_in_order_twoCallers :
    ∃ s, Run (Guarded Step StaysUp) (established 1024 true false)
        [.thread 1 (.send [1, 2]), .call (.send [3, 4, 5]) (.count 2), .ret, .proceed 1,
          .functor (.error .EWOULDBLOCK)] s ∧
      s.state_ = .kConnected ∧ accepted s.trace = [3, 4] ∧ s.outputBuffer_ = [5, 1, 2] ∧
      InOrder [.thread 1 (.send [1, 2]), .call (.send [3, 4, 5]) (.count 2), .ret, .proceed 1,
        .functor (.error .EWOULDBLOCK)] s := by
  have hsoft : ∀ n, (WriteResult.count n).Soft := by simp [WriteResult.Soft]
  have hrun := show Run (Guarded Step StaysUp) (established 1024 true false)
        [.thread 1 (.send [1, 2]), .call (.send [3, 4, 5]) (.count 2), .ret, .proceed 1,
          .functor (.error .EWOULDBLOCK)] _ from
    .cons ⟨rfl, rfl, trivial⟩ <| .cons ⟨rfl, rfl, hsoft 2⟩ <| .cons ⟨rfl, rfl, trivial⟩ <|
    .cons ⟨rfl, rfl, trivial⟩ <| .cons ⟨rfl, rfl, by decide, by decide⟩ <| .nil _
  exact ⟨_, hrun, rfl, rfl, rfl, sends_in_order hrun rfl⟩

end Pallette.TcpConnection
