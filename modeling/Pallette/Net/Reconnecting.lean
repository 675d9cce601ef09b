import Pallette.Net.Settled

/-!
# Reconnecting — when the assertions of the connector hold

In a client used from its loop thread alone they fail where `connect` starts the connector again
while its state is not `kDisconnected`, an old channel waits for `resetChannel`, or a retry timer is
on; and where a retry timer connects with such a channel.  Without that every assertion holds in
every run.
-/

open Reasoning

namespace Pallette

open Connector

namespace TcpClient

variable {s : TcpClient}

/-! ## The assertions -/

theorem map_ne_error {α : Type} {x : Except Fault α} (h : ∃ a, x = .ok a) (f : α → TcpClient)
    (fault : Fault) : some (x.map f) ≠ some (.error fault) := by
  rcases h with ⟨a, rfl⟩
  intro heq
  cases heq

theorem Settled.channel_connecting (h : Settled s) :
    s.connector_.state_ = .kConnecting → s.connector_.channel_ ≠ none :=
  fun hstate ↦ (h.attempts.channel.connecting hstate).1

theorem Settled.resetChannel_ok (h : Settled s) {functors : List Functor}
    (hfunctors : s.functors = .resetChannel :: functors) :
    ∃ c, s.connector_.resetChannel = .ok c := by
  have hstate := not_connecting_of_reset h.attempts.channel hfunctors
  unfold resetChannel
  rcases h.attempts.channel.idle hstate with ⟨hnone, _⟩ | ⟨sockfd, channel, hsome, hremoved, _⟩
  · rw [hnone]
    exact ⟨_, rfl⟩
  · rw [hsome]
    dsimp only
    rw [if_neg (by simp [hremoved.1, hremoved.2.1])]
    exact ⟨_, rfl⟩

theorem Settled.functor_ok (h : Settled s) (k : Kernel) (fault : Fault) :
    s.next (.functor k) ≠ some (.error fault) := by
  simp only [next]
  split
  next f functors hphase htodo hfunctors =>
    cases f with
    | startInLoop => exact absurd hfunctors h.no_start
    | stopInLoop => exact map_ne_error (stopInLoop_ok h.channel_connecting) _ fault
    | resetChannel => exact map_ne_error (h.resetChannel_ok hfunctors) _ fault
    | forceCloseInLoop conn =>
      simp only [runFunctor]
      split
      next hconn => simp [handleClose, hconn]
      next => simp
    | connectDestroyed conn => simp [runFunctor]
  next => simp

theorem Settled.frame_ok (h : Settled s) (k : Kernel) (fault : Fault) :
    s.next (.resume k) ≠ some (.error fault) := by
  simp only [next]
  split
  next => simp
  next frame todo htodo =>
    have hat := h.head htodo
    cases frame with
    | call step =>
      cases step with
      | runStartInLoop => exact map_ne_error (startInLoop_ok k hat.state
          fun _ ↦ hat.channel) _ fault
      | storeConnect | storeStart | storeStop | queueStopInLoop => simp [runFrame]
    | rest rest =>
      cases rest with
      | retry => simp [runFrame]
      | connected sockfd =>
        simp only [runFrame]
        split
        · simp
        · simp
    | handleError => exact map_ne_error (handleError_ok h.channel_connecting) _ fault
    | handleWrite => exact map_ne_error (handleWrite_ok k h.channel_connecting hat.1) _ fault
    | startInLoop => exact map_ne_error (startInLoop_ok k hat.state fun _ ↦ hat.channel) _ fault
    | removeConnection conn => simp [runFrame, TcpClient.removeConnection, hat.1]
    | callback | testRetry | testConnect | restart => simp [runFrame]

/-- **The assertions hold.**  In every run of a client used from its loop thread in which `connect`
starts the connector only when it is idle, and a retry timer connects only when the old channel is
gone, no assertion fails: whatever `connect`, `disconnect` and `stop` are called, whatever the
kernel answers, and however connections are lost. -/
theorem assertions_hold {ls : List Label}
    (h : Run (Guarded Step fun s l ↦ l.InLoop ∧ s.StartsIdle l) {} ls s) {l : Label}
    (hin : l.InLoop) (hl : s.StartsIdle l) (fault : Fault) : s.next l ≠ some (.error fault) := by
  have hs : Settled s := by
    refine h.invariant Settled ?_ settled_init
    rintro s l t hs ⟨hstep, hin, hl⟩
    exact settled_of_step hs hin hl hstep
  cases l with
  | functor k => exact hs.functor_ok k fault
  | resume k => exact hs.frame_ok k fault
  | thread n call | proceed n => exact hin.elim
  | poll active | swap | call call =>
    simp only [next]
    split
    · simp
    · simp
  | timer timer k =>
    simp only [next]
    split
    next hready =>
      have hstate := hs.timers.idle (List.ne_nil_of_mem hready.2.2)
      exact map_ne_error (startInLoop_ok (c := s.connector_.expire timer) k hstate hl) _ fault
    next => simp
  | event error write lost =>
    simp only [next]
    split
    next source active hphase htodo hactive =>
      cases source with
      | connector => simp [handle]
      | connection conn =>
        have hconn := (hs.actives.connection conn (by rw [hactive]; exact List.mem_cons_self)).1
        cases lost with
        | false => simp [handle]
        | true => simp [handle, handleClose, hconn]
    next => simp

/-- A connection that is lost, with retry enabled: `restart` finds what `startInLoop` asks for. -/
theorem assertions_hold_restart :
    ∃ s, Run (Guarded Step fun s l ↦ l.InLoop ∧ s.StartsIdle l) {}
        [.call .enableRetry, .call .connect, .resume {}, .resume {},
        .resume { savedErrno := .EINPROGRESS },
          .poll [.connector], .event false true false, .resume {}, .resume {}, .resume {}, .swap,
          .functor {}, .poll [.connection 1], .event false false true, .resume {}, .resume {},
          .resume {}, .resume {}, .resume {}] s ∧
      (s.todo = [.startInLoop] ∧ Label.InLoop (.resume {}) ∧ s.StartsIdle (.resume {})) ∧
      s.next (.resume {}) ≠ some (.error .startInLoop) := by
  have hrun := show Run (Guarded Step fun s l ↦ l.InLoop ∧ s.StartsIdle l) {}
        [.call .enableRetry, .call .connect, .resume {}, .resume {},
        .resume { savedErrno := .EINPROGRESS },
          .poll [.connector], .event false true false, .resume {}, .resume {}, .resume {}, .swap,
          .functor {}, .poll [.connection 1], .event false false true, .resume {}, .resume {},
          .resume {}, .resume {}, .resume {}] _ from
    .cons ⟨rfl, trivial, trivial⟩ <| .cons ⟨rfl, trivial, fun _ ↦ ⟨rfl, rfl, rfl⟩⟩ <|
    .cons ⟨rfl, trivial, trivial⟩ <| .cons ⟨rfl, trivial, trivial⟩ <|
      .cons ⟨rfl, trivial, trivial⟩ <|
    .cons ⟨rfl, trivial, trivial⟩ <| .cons ⟨rfl, trivial, trivial⟩ <|
      .cons ⟨rfl, trivial, trivial⟩ <|
    .cons ⟨rfl, trivial, trivial⟩ <| .cons ⟨rfl, trivial, trivial⟩ <|
      .cons ⟨rfl, trivial, trivial⟩ <|
    .cons ⟨rfl, trivial, trivial⟩ <| .cons ⟨rfl, trivial, trivial⟩ <|
      .cons ⟨rfl, trivial, trivial⟩ <|
    .cons ⟨rfl, trivial, trivial⟩ <| .cons ⟨rfl, trivial, trivial⟩ <|
      .cons ⟨rfl, trivial, trivial⟩ <|
    .cons ⟨rfl, trivial, trivial⟩ <| .cons ⟨rfl, trivial, trivial⟩ <| .nil _
  exact ⟨_, hrun, ⟨rfl, trivial, trivial⟩, assertions_hold hrun (l := .resume {}) trivial trivial _⟩

/-- The client where `connect` is about to run `startInLoop`. -/
def starting (s : TcpClient) : TcpClient :=
  { s with connect_ := true, connector_ := { s.connector_ with connect_ := true } }.push
    [.call .runStartInLoop]

theorem run_starting (huser : s.inUserCode = true) (hconnect : s.connect_ = false) (k : Kernel) :
    Run Step s [.call .connect, .resume k, .resume k] s.starting := by
  refine .cons (t := s.push [.call .storeConnect, .call .storeStart, .call .runStartInLoop]) ?_ <|
    .cons rfl <| .cons rfl <| .nil _
  simp only [Step, next, huser, if_true, TcpClient.call, hconnect]
  rfl

/-- What the condition on `connect` leaves out does fail: with a state other than `kDisconnected`,
or with an old channel and an attempt that the kernel lets go on. -/
theorem start_fails (huser : s.inUserCode = true) (hconnect : s.connect_ = false) {k : Kernel}
    (hk : k.savedErrno.outcome = .connecting)
    (hbusy : s.connector_.state_ ≠ .kDisconnected ∨ s.connector_.channel_ ≠ none) :
    Run Step s [.call .connect, .resume k, .resume k] s.starting ∧
      ∃ fault, s.starting.next (.resume k) = some (.error fault) := by
  refine ⟨run_starting huser hconnect k, ?_⟩
  by_cases hstate : s.connector_.state_ = .kDisconnected
  · have hchannel := hbusy.resolve_left (not_not.mpr hstate)
    refine ⟨.connecting, ?_⟩
    simp [starting, push, next, runFrame, Connector.startInLoop, Connector.connect,
      Connector.connecting, emit, setState, hstate, hk, hchannel]
    rfl
  · refine ⟨.startInLoop, ?_⟩
    simp [starting, push, next, runFrame, Connector.startInLoop, hstate]
    rfl

/-- `disconnect` and `connect` on a client that is connected: `startInLoop` finds `kConnected`. -/
theorem reconnect_fails :
    ¬ ∀ (ls : List Label) (s : TcpClient), Run (Guarded Step fun _ l ↦ l.InLoop) {} ls s →
        ∀ l : Label, l.InLoop → ∀ fault, s.next l ≠ some (.error fault) := by
  intro h
  have hrun := show Run (Guarded Step fun _ l ↦ l.InLoop) {}
        [.call .connect, .resume {}, .resume {}, .resume { savedErrno := .EINPROGRESS },
        .poll [.connector],
          .event false true false, .resume {}, .resume {}, .resume {}, .call .disconnect,
          .call .connect, .resume {}, .resume {}] _ from
    .cons ⟨rfl, trivial⟩ <| .cons ⟨rfl, trivial⟩ <| .cons ⟨rfl, trivial⟩ <| .cons ⟨rfl, trivial⟩ <|
    .cons ⟨rfl, trivial⟩ <| .cons ⟨rfl, trivial⟩ <| .cons ⟨rfl, trivial⟩ <| .cons ⟨rfl, trivial⟩ <|
    .cons ⟨rfl, trivial⟩ <| .cons ⟨rfl, trivial⟩ <| .cons ⟨rfl, trivial⟩ <| .cons ⟨rfl, trivial⟩ <|
    .cons ⟨rfl, trivial⟩ <| .nil _
  exact h _ _ hrun (.resume {}) trivial .startInLoop rfl

end TcpClient

end Pallette
