import Pallette.Net.Attempts

/-!
# Settled — a connector that is started only when it is idle

What holds of a client used from its loop thread alone when `connect` finds nothing left of an
attempt: where the loop thread stands, which timers are on, what `poll` has reported, and in which
order the queue has the end of an attempt and the end of its connection.
-/

open Reasoning

namespace Pallette

open Connector

namespace Connector

variable {c c' : Connector} {k : Kernel} {rest : Option Rest}

/-- `startInLoop` on a connector that has no timer on. -/
theorem startInLoop_begins (h : c.startInLoop k = .ok (c', rest)) (htimers : c.timers = []) :
    c'.timers = [] ∧ c'.pendingFunctors_ = c.pendingFunctors_ ∧ c'.state_ ≠ .kConnected ∧
      (rest = none ∨ (rest = some .retry ∧ c'.state_ = .kDisconnected)) := by
  rcases startInLoop_acts h with ⟨hstate, hacts⟩
  cases hacts with
  | nothing => exact ⟨htimers, rfl, by simp [hstate], .inl rfl⟩
  | connecting _ _ => exact ⟨htimers, rfl, by simp, .inl rfl⟩
  | refused _ hrest =>
    exact ⟨htimers, rfl, by simp [hstate], hrest.imp id fun hrest ↦ ⟨hrest, hstate⟩⟩
  | dropped hconnecting | connected hconnecting =>
    rw [hstate] at hconnecting
    cases hconnecting

/-- The other functions leave the connector, or end the attempt that is on. -/
inductive Ends (c : Connector) : Connector → Option Rest → Prop
  | nothing : Ends c c none
  | ended {c' : Connector} {rest : Option Rest} : c.state_ = .kConnecting →
      c'.pendingFunctors_ = c.pendingFunctors_ ++ [.resetChannel] → c'.timers = c.timers →
      (c'.state_ = .kDisconnected ∧ rest = some .retry) ∨
        (c'.state_ = .kConnected ∧ ∃ sockfd, rest = some (.connected sockfd)) → Ends c c' rest

theorem ends_of_acts (hacts : Acts c c' rest) (hstate : c.state_ ≠ .kDisconnected) :
    Ends c c' rest := by
  cases hacts with
  | nothing => exact .nothing
  | connecting hdisconnected _ | refused hdisconnected _ => exact absurd hdisconnected hstate
  | dropped hconnecting _ _ => exact .ended hconnecting rfl rfl (.inl ⟨rfl, rfl⟩)
  | connected hconnecting _ _ => exact .ended hconnecting rfl rfl (.inr ⟨rfl, _, rfl⟩)

theorem handleError_ends (h : c.handleError = .ok (c', rest)) : Ends c c' rest := by
  by_cases hstate : c.state_ = .kConnecting
  · exact ends_of_acts (handleError_acts h) (by simp [hstate])
  · rw [handleError, if_neg hstate] at h
    cases h
    exact .nothing

theorem handleWrite_ends (h : c.handleWrite k = .ok (c', rest)) : Ends c c' rest := by
  by_cases hstate : c.state_ = .kConnecting
  · exact ends_of_acts (handleWrite_acts h) (by simp [hstate])
  · rw [handleWrite, if_neg hstate] at h
    split at h
    · cases h
      exact .nothing
    · cases h

theorem stopInLoop_ends (h : c.stopInLoop = .ok (c', rest)) : Ends c.cancelRetry c' rest := by
  by_cases hstate : c.cancelRetry.state_ = .kConnecting
  · exact ends_of_acts (stopInLoop_acts h) (by simp [hstate])
  · rw [stopInLoop, if_neg hstate] at h
    cases h
    exact .nothing

theorem cancelRetry_timers (c : Connector) : c.cancelRetry.timers ⊆ c.timers ∧
    c.cancelRetry.timers.length ≤ c.timers.length := by
  unfold cancelRetry
  split
  · exact ⟨List.filter_sublist.subset, List.length_filter_le _ _⟩
  · exact ⟨fun _ h ↦ h, le_rfl⟩

end Connector

namespace TcpClient

/-- Nothing of an attempt is left. -/
structure Idle (s : TcpClient) : Prop where
  state : s.connector_.state_ = .kDisconnected
  channel : s.connector_.channel_ = none
  timers : s.connector_.timers = []

/-- The steps of a client that no other thread calls. -/
def Label.InLoop : Label → Prop
  | .thread _ _ | .proceed _ => False
  | _ => True

/-- `connect` starts the connector only when it is idle, and a retry timer that is to connect is run
only when the old channel is gone. -/
def StartsIdle (s : TcpClient) : Label → Prop
  | .call .connect => s.connect_ = false → s.Idle
  | .timer _ _ => s.connector_.connect_ = true → s.connector_.channel_ = none
  | _ => True

/-- What holds where the loop thread is about to take up a frame. -/
def At (s : TcpClient) : Frame → Prop
  | .call .storeConnect | .call .storeStart | .call .runStartInLoop | .startInLoop => s.Idle
  | .rest .retry => s.connector_.state_ = .kDisconnected ∧ s.connector_.timers = []
  | .handleError => .connector ∉ s.active
  | .handleWrite => s.connector_.state_ ≠ .kConnected ∧ .connector ∉ s.active ∧ s.phase = .handling
  | .removeConnection conn => s.connection_ = some conn ∧ s.connector_.channel_ = none
  | .testRetry | .testConnect | .restart => s.connector_.channel_ = none
  | _ => True

/-- A retry timer is on only between two attempts, and only one. -/
structure Timers (c : Connector) : Prop where
  idle : c.timers ≠ [] → c.state_ = .kDisconnected
  one : c.timers.length ≤ 1

/-- Of what `poll` has reported the connector is still at its attempt, or the connection is up and
the channel of the attempt is gone. -/
structure Actives (s : TcpClient) : Prop where
  nodup : s.active.Nodup
  calling : s.phase = .calling → s.active = []
  connector : .connector ∈ s.active → s.connector_.state_ = .kConnecting
  connection : ∀ conn, .connection conn ∈ s.active → conn ∈ s.established ∧
    s.connector_.channel_ = none

/-- What waits to be run, in order. -/
def queue (s : TcpClient) : List Functor :=
  s.functors ++ s.connector_.pendingFunctors_

/-- The channel of an attempt that has become a connection is reset in the iteration in which the
connection came up, and before anything closes it. -/
structure Queue (s : TcpClient) : Prop where
  noStart : .startInLoop ∉ s.queue
  known : ∀ conn, .forceCloseInLoop conn ∈ s.queue → conn < s.nextConnId_
  ordered : ∀ conn ∈ s.established, ¬ List.Sublist [.forceCloseInLoop conn, .resetChannel] s.queue
  reset : s.phase = .calling → s.connector_.state_ = .kConnected →
    .resetChannel ∉ s.connector_.pendingFunctors_

structure Settled (s : TcpClient) : Prop where
  attempts : Attempts s
  timers : Timers s.connector_
  frames : ∀ f ∈ s.todo, s.At f
  actives : Actives s
  queue : Queue s
  connection : ∀ conn ∈ s.established, s.connection_ = some conn ∧ conn < s.nextConnId_

theorem settled_init : Settled {} where
  attempts := attempts_init
  timers := ⟨fun h ↦ absurd rfl h, Nat.zero_le _⟩
  frames _ h := by cases h
  actives := {
    nodup := .nil
    calling _ := rfl
    connector h := by cases h
    connection _ h := by cases h }
  queue := {
    noStart h := by cases h
    known _ h := by cases h
    ordered _ h := by cases h
    reset _ h := by cases h }
  connection _ h := by cases h

variable {s t : TcpClient}

/-! ## Timers -/

theorem timers_nil {c : Connector} (h : c.timers = []) : Timers c :=
  ⟨fun hne ↦ absurd h hne, by simp [h]⟩

theorem Timers.same {c c' : Connector} (h : Timers c) (htimers : c'.timers = c.timers)
    (hstate : c'.state_ = c.state_) : Timers c' := by
  refine ⟨?_, ?_⟩
  · rw [htimers, hstate]
    exact h.idle
  · rw [htimers]
    exact h.one

theorem Timers.marks (h : Timers s.connector_) (hmarks : Marks s t) : Timers t.connector_ := by
  rcases hmarks.attempt with ⟨hstate, _, htimers⟩
  exact h.same htimers hstate

/-- While an attempt is on, or a connection up, no timer is. -/
theorem Timers.nil {c : Connector} (h : Timers c) (hstate : c.state_ ≠ .kDisconnected) :
    c.timers = [] := by
  by_contra hne
  exact hstate (h.idle hne)

theorem Timers.ends {c c' : Connector} {rest : Option Rest} (h : Timers c)
    (hends : Ends c c' rest) :
    Timers c' := by
  cases hends with
  | nothing => exact h
  | ended hstate _ htimers _ => exact timers_nil (htimers.trans (h.nil (by simp [hstate])))

theorem Timers.cancelRetry {c : Connector} (h : Timers c) : Timers c.cancelRetry := by
  rcases cancelRetry_timers c with ⟨hsubset, hlength⟩
  refine ⟨fun hne ↦ ?_, hlength.trans h.one⟩
  rw [(cancelRetry_same c).1]
  refine h.idle fun hnil ↦ hne ?_
  rw [hnil] at hsubset
  exact List.subset_nil.mp hsubset

/-- The only timer expires. -/
theorem Timers.expire {c : Connector} (h : Timers c) {timer : Nat} (htimer : timer ∈ c.timers) :
    (c.expire timer).timers = [] := by
  have hlength := List.length_erase_of_mem htimer
  have hone := h.one
  rw [← List.length_eq_zero_iff]
  change (c.timers.erase timer).length = 0
  omega

/-- `retry` arms one. -/
theorem timers_retryIfConnect {c : Connector} (hstate : c.state_ = .kDisconnected)
    (htimers : c.timers = []) :
    Timers c.retryIfConnect := by
  refine ⟨fun _ ↦ (retryIfConnect_same c).1.trans hstate, ?_⟩
  unfold retryIfConnect
  split
  · simp [runAfter, htimers]
  · simp [htimers]

theorem Settled.head (h : Settled s) {frame : Frame} {todo : List Frame}
    (htodo : s.todo = frame :: todo) :
    s.At frame :=
  h.frames frame (htodo ▸ List.mem_cons_self)

theorem Settled.idle (h : Settled s) {frame : Frame} {todo : List Frame}
    (htodo : s.todo = frame :: todo)
    (hframe : frame = .call .runStartInLoop ∨ frame = .startInLoop) : s.Idle := by
  have hat := h.head htodo
  rcases hframe with rfl | rfl
  · exact hat
  · exact hat

theorem Settled.no_start (h : Settled s) {functors : List Functor} :
    s.functors ≠ .startInLoop :: functors := by
  intro hfunctors
  exact h.queue.noStart (by simp [TcpClient.queue, hfunctors])

theorem timers_of_step {l : Label} (h : Settled s) (hin : l.InLoop) (hstep : Step s l t) :
    Timers t.connector_ := by
  cases step_cases hstep with
  | poll _ _ _ _ _ | connectorEvent _ _ _ | connectionEvent _ _ _ | lost _ _ _ _ => exact h.timers
  | forceCloseFunctor _ _ _ _ | idleFunctor _ _ _ _ | callback _ => exact h.timers
  | testRetry _ | testConnect _ => exact h.timers
  | swap _ _ _ | newConnection _ _ | closed _ _
      | removeConnection _ _ => exact h.timers.same rfl rfl
  | startFunctor _ _ hfunctors _ => exact absurd hfunctors h.no_start
  | stopFunctor _ _ _ hc => exact h.timers.cancelRetry.ends (stopInLoop_ends hc)
  | resetFunctor _ _ _ hc =>
    cases resetChannel_eq hc
    exact h.timers.same rfl rfl
  | timer _ _ htimer hc => exact timers_nil (startInLoop_begins hc (h.timers.expire htimer)).1
  | @callStep todo _ step _ _ =>
    exact Timers.marks (s := { s with todo := todo }) h.timers (marks_callStep _ step)
  | startInLoop htodo hframe hc =>
      exact timers_nil (startInLoop_begins hc (h.idle htodo hframe).timers).1
  | retry htodo =>
    have hat := h.head htodo
    exact timers_retryIfConnect hat.1 hat.2
  | handleError _ hc => exact h.timers.ends (handleError_ends hc)
  | handleWrite _ hc => exact h.timers.ends (handleWrite_ends hc)
  | restart htodo =>
    have hconnected := (h.attempts.head htodo trivial).1
    exact timers_nil (h.timers.nil (by simp [hconnected]))
  | @call call _ =>
    have hmarked := h.timers.marks (marks_call s call)
    exact hmarked
  | thread _ | proceed _ => exact hin.elim

/-! ## Frames -/

theorem At.same {f : Frame} (h : s.At f) (hstate : t.connector_.state_ = s.connector_.state_)
    (hchannel : t.connector_.channel_ = s.connector_.channel_)
    (htimers : t.connector_.timers = s.connector_.timers)
    (hconnection : t.connection_ = s.connection_)
    (hactive : t.active = s.active) (hphase : t.phase = s.phase) : t.At f := by
  have hidle : s.Idle → t.Idle := fun hs ↦
    ⟨hstate.trans hs.state, hchannel.trans hs.channel, htimers.trans hs.timers⟩
  cases f with
  | call step =>
    cases step with
    | storeConnect | storeStart | runStartInLoop => exact hidle h
    | storeStop | queueStopInLoop => trivial
  | startInLoop => exact hidle h
  | rest rest =>
    cases rest with
    | retry => exact ⟨hstate.trans h.1, htimers.trans h.2⟩
    | connected _ => trivial
  | handleError =>
    change .connector ∉ t.active
    rw [hactive]
    exact h
  | handleWrite =>
    refine ⟨?_, ?_, hphase.trans h.2.2⟩
    · rw [hstate]
      exact h.1
    · rw [hactive]
      exact h.2.1
  | removeConnection conn => exact ⟨hconnection.trans h.1, hchannel.trans h.2⟩
  | testRetry | testConnect | restart => exact hchannel.trans h
  | callback => trivial

theorem At.marks {f : Frame} (h : s.At f) (hmarks : Marks s t) : t.At f := by
  rcases hmarks.attempt with ⟨hstate, hchannel, htimers⟩
  exact h.same hstate hchannel htimers hmarks.connection hmarks.active hmarks.phase

/-- `connect` begins where the connector is idle. -/
theorem at_call {call : Call} (hl : s.StartsIdle (.call call)) :
    ∀ f ∈ (s.call call).2.map Frame.call, s.At f := by
  cases call with
  | connect =>
    simp only [TcpClient.call]
    split
    · simp
    next hconnect =>
      have hidle := hl (by simpa using hconnect)
      intro f hf
      simp only [List.map_cons, List.map_nil, List.mem_cons, List.not_mem_nil, or_false] at hf
      rcases hf with rfl | rfl | rfl
      · exact hidle
      · exact hidle
      · exact hidle
  | stop =>
    intro f hf
    simp only [TcpClient.call, List.map_cons, List.map_nil, List.mem_cons, List.not_mem_nil,
      or_false] at hf
    rcases hf with rfl | rfl
    · trivial
    · trivial
  | disconnect | enableRetry | forceClose _ => simp [TcpClient.call]

/-- The frames a function leaves that ends an attempt. -/
theorem at_rest {rest : Option Rest}
    (h : rest = some .retry → t.connector_.state_ = .kDisconnected ∧ t.connector_.timers = []) :
    ∀ f ∈ rest.toList.map Frame.rest, t.At f := by
  intro f hf
  cases rest with
  | none => cases hf
  | some rest =>
    rw [List.mem_singleton.mp hf]
    cases rest with
    | retry => exact h rfl
    | connected _ => trivial

theorem retry_of_ends {c c' : Connector} {rest : Option Rest} (hends : Ends c c' rest)
    (h : Timers c) :
    rest = some .retry → c'.state_ = .kDisconnected ∧ c'.timers = [] := by
  intro hrest
  cases hends with
  | nothing => cases hrest
  | ended hstate _ htimers hend =>
    rcases hend with ⟨hdisconnected, _⟩ | ⟨_, sockfd, hconnected⟩
    · exact ⟨hdisconnected, htimers.trans (h.nil (by simp [hstate]))⟩
    · rw [hrest] at hconnected
      cases hconnected

theorem retry_of_begins {c c' : Connector} {k : Kernel} {rest : Option Rest}
    (hc : c.startInLoop k = .ok (c', rest)) (htimers : c.timers = []) :
    rest = some .retry → c'.state_ = .kDisconnected ∧ c'.timers = [] := by
  intro hrest
  rcases startInLoop_begins hc htimers with ⟨hnil, _, _, hnone | ⟨_, hstate⟩⟩
  · rw [hrest] at hnone
    cases hnone
  · exact ⟨hstate, hnil⟩

/-- In the batch, what closes a connection comes behind the `resetChannel` of its attempt. -/
theorem Settled.reset_done (h : Settled s) {conn : Nat} {functors : List Functor}
    (hfunctors : s.functors = .forceCloseInLoop conn :: functors) (hconn : conn ∈ s.established) :
    s.connector_.channel_ = none := by
  have hstate := h.attempts.established (List.ne_nil_of_mem hconn)
  rcases h.attempts.channel.idle (by simp [hstate]) with ⟨hnone, _⟩ | ⟨_, _, _, _, hresets⟩
  · exact hnone
  · exfalso
    have hmem : Functor.resetChannel ∈ functors ++ s.connector_.pendingFunctors_ := by
      have hqueue : Functor.resetChannel ∈ s.functors ++ s.connector_.pendingFunctors_ := by
        rw [← List.count_pos_iff]
        change 0 < s.connector_.resets s.functors
        omega
      simpa [hfunctors] using hqueue
    refine h.queue.ordered conn hconn ?_
    rw [TcpClient.queue, hfunctors]
    exact (List.singleton_sublist.mpr hmem).cons_cons _

/-- No frame of a call is below a `retry`. -/
theorem below_retry {todo : List Frame} (h : Stack.Over (.rest .retry) todo) : ∀ f ∈ todo,
    f = .callback ∨ f = .handleWrite ∨ ∃ conn, f = .removeConnection conn := by
  intro f hf
  cases h with
  | call hcalls hbelow =>
    cases hcalls with
    | retry =>
      cases hbelow with
      | nothing => cases hf
      | callback => exact .inl (List.mem_singleton.mp hf)
      | closing conn =>
        rcases List.mem_cons.mp hf with rfl | hf
        · exact .inl rfl
        · exact .inr (.inr ⟨conn, List.mem_singleton.mp hf⟩)
  | nothing => cases hf
  | event _ => exact .inr (.inl (List.mem_singleton.mp hf))

/-- Nor is there anything but code of the user below a frame that runs `startInLoop`: while a
connection is being removed the connector is not idle. -/
theorem Settled.below_start (h : Settled s) {frame : Frame} {todo : List Frame}
    (htodo : s.todo = frame :: todo)
    (hframe : frame = .call .runStartInLoop ∨ frame = .startInLoop) :
    ∀ f ∈ todo, f = .callback := by
  intro f hf
  cases (htodo ▸ h.attempts.stack).over.below hframe with
  | nothing => cases hf
  | callback => exact List.mem_singleton.mp hf
  | closing conn =>
    have hconnected := (h.attempts.closing (.removeConnection conn) (by simp [htodo]) trivial).1
    rw [(h.idle htodo hframe).state] at hconnected
    cases hconnected

theorem frames_of_step {l : Label} (h : Settled s) (hin : l.InLoop) (hl : s.StartsIdle l)
    (hstep : Step s l t) : ∀ f ∈ t.todo, t.At f := by
  have halone {frame : Frame} {todo : List Frame} (htodo : s.todo = frame :: todo)
      (hframe : frame.Alone) : todo = [] := (htodo ▸ h.attempts.stack).over.alone hframe
  have hold {frame : Frame} {todo : List Frame} (htodo : s.todo = frame :: todo) :
      ∀ f ∈ todo, s.At f :=
    fun f hf ↦ h.frames f (by simp [htodo, hf])
  intro f hf
  cases step_cases hstep with
  | poll _ _ htodo _ _ | swap _ _ htodo | resetFunctor _ htodo _ _ | idleFunctor _ htodo _ _ =>
    change f ∈ s.todo at hf
    rw [htodo] at hf
    cases hf
  | @connectorEvent active error write lost hphase htodo hactive =>
    -- a channel is active once: handling its event takes it off the list
    have hconnecting := h.actives.connector (by rw [hactive]; exact List.mem_cons_self)
    have hnodup := h.actives.nodup
    rw [hactive, List.nodup_cons] at hnodup
    rcases mem_eventFrames hf with rfl | rfl
    · exact hnodup.1
    · exact ⟨by simp [hconnecting], hnodup.1, hphase⟩
  | connectionEvent _ _ _ =>
    rw [List.mem_singleton.mp hf]
    trivial
  | @lost active conn _ _ _ _ hactive hconn =>
    have hdone := h.actives.connection conn (by rw [hactive]; exact List.mem_cons_self)
    rcases List.mem_cons.mp hf with rfl | hf
    · trivial
    · rw [List.mem_singleton.mp hf]
      exact ⟨(h.connection conn hconn).1, hdone.2⟩
  | startFunctor _ _ hfunctors _ => exact absurd hfunctors h.no_start
  | stopFunctor _ _ _ hc =>
      exact at_rest (retry_of_ends (stopInLoop_ends hc) h.timers.cancelRetry) f hf
  | forceCloseFunctor _ _ hfunctors hconn =>
    rcases List.mem_cons.mp hf with rfl | hf
    · trivial
    · rw [List.mem_singleton.mp hf]
      exact ⟨(h.connection _ hconn).1, h.reset_done hfunctors hconn⟩
  | timer _ _ htimer hc => exact at_rest (retry_of_begins hc (h.timers.expire htimer)) f hf
  | @callStep todo _ step htodo _ =>
    have hmarks := marks_callStep { s with todo := todo } step
    rw [hmarks.todo] at hf
    have hat : At { s with todo := todo } f := (hold htodo f hf).same rfl rfl rfl rfl rfl rfl
    exact hat.marks hmarks
  | @startInLoop todo _ _ c rest htodo hframe hc =>
    have hidle := h.idle htodo hframe
    rcases List.mem_append.mp hf with hf | hf
    · exact at_rest (retry_of_begins hc hidle.timers) f hf
    · rw [h.below_start htodo hframe f hf]
      trivial
  | @retry todo _ htodo =>
    have hat := hold htodo f hf
    have hretry := h.head htodo
    rcases retryIfConnect_same s.connector_ with ⟨hstate, hchannel, _⟩
    rcases below_retry (htodo ▸ h.attempts.stack).over f hf with rfl | rfl | ⟨conn, rfl⟩
    · trivial
    · exact ⟨by simp [hstate, hretry.1], hat.2⟩
    · exact ⟨hat.1, hchannel.trans hat.2⟩
  | newConnection htodo _ =>
    have hnil := halone htodo trivial
    simp only [TcpClient.newConnection, push, hnil, List.append_nil] at hf
    rw [List.mem_singleton.mp hf]
    trivial
  | closed htodo _ =>
    cases halone htodo trivial
    cases hf
  | @handleError todo _ c rest htodo hc =>
    rcases List.mem_append.mp hf with hf | hf
    · exact at_rest (retry_of_ends (handleError_ends hc) h.timers) f hf
    · have hat := hold htodo f hf
      rcases (htodo ▸ h.attempts.stack).over.error with rfl | rfl
      · cases hf
      · cases List.mem_singleton.mp hf
        rcases handleError_leaves hc with ⟨rfl, _⟩ | ⟨hstate, _⟩
        · exact hat
        · exact ⟨by simp [hstate], hat.2⟩
  | @handleWrite todo _ c rest htodo hc =>
    cases halone htodo trivial
    rw [List.append_nil] at hf
    exact at_rest (retry_of_ends (handleWrite_ends hc) h.timers) f hf
  | callback htodo => exact (hold htodo f hf).same rfl rfl rfl rfl rfl rfl
  | removeConnection htodo _ =>
    have hat := h.head htodo
    cases halone htodo trivial
    rw [List.mem_singleton.mp hf]
    exact hat.2
  | testRetry htodo | testConnect htodo =>
    have hat := h.head htodo
    cases halone htodo trivial
    rw [List.append_nil] at hf
    split at hf
    · rw [List.mem_singleton.mp hf]
      exact hat
    · cases hf
  | restart htodo =>
    have hat := h.head htodo
    have hconnected := (h.attempts.head htodo trivial).1
    cases halone htodo trivial
    rw [List.mem_singleton.mp hf]
    exact ⟨rfl, hat, h.timers.nil (by simp [hconnected])⟩
  | @call call _ =>
    have hmarks := marks_call s call
    have hat : ∀ f, s.At f → At ((s.call call).1.push ((s.call call).2.map .call)) f :=
      fun f hs ↦ (hs.marks hmarks).same rfl rfl rfl rfl rfl rfl
    rcases List.mem_append.mp hf with hf | hf
    · exact hat f (at_call hl f hf)
    · exact hat f (h.frames f (hmarks.todo ▸ hf))
  -- only calls in the loop are in such a run
  | thread _ | proceed _ => exact hin.elim

/-! ## What `poll` has reported -/

theorem actives_nil (h : t.active = []) : Actives t where
  nodup := by simp [h]
  calling _ := h
  connector hmem := by simp [h] at hmem
  connection _ hmem := by simp [h] at hmem

theorem Actives.same (h : Actives s) (hactive : t.active = s.active) (hphase : t.phase = s.phase)
    (hstate : t.connector_.state_ = s.connector_.state_)
    (hchannel : t.connector_.channel_ = s.connector_.channel_)
    (hestablished : t.established = s.established) : Actives t := by
  refine ⟨?_, ?_, ?_, ?_⟩
  · rw [hactive]
    exact h.nodup
  · rw [hphase, hactive]
    exact h.calling
  · rw [hactive, hstate]
    exact h.connector
  · rw [hactive, hestablished, hchannel]
    exact h.connection

theorem Actives.marks (h : Actives s) (hmarks : Marks s t) : Actives t := by
  rcases hmarks.attempt with ⟨hstate, hchannel, _⟩
  exact h.same hmarks.active hmarks.phase hstate hchannel hmarks.established

/-- Of a connector between its attempts and a client without a connection nothing is reported. -/
theorem Settled.active_nil (h : Settled s) (hconnector : .connector ∉ s.active)
    (hnil : s.established = []) :
    s.active = [] := by
  rw [List.eq_nil_iff_forall_not_mem]
  intro source hmem
  cases source with
  | connector => exact hconnector hmem
  | connection conn =>
    have hconn := (h.actives.connection conn hmem).1
    rw [hnil] at hconn
    cases hconn

theorem Settled.not_active (h : Settled s) (hstate : s.connector_.state_ ≠ .kConnecting) :
    .connector ∉ s.active :=
  fun hmem ↦ hstate (h.actives.connector hmem)

/-- The sources that are left when the first one is being handled. -/
theorem Settled.active_tail (h : Settled s) {source : Source} {active : List Source}
    (hactive : s.active = source :: active) (hphase : s.phase = .handling) (todo : List Frame) :
    Actives { s with active := active, todo := todo } := by
  have hold : ∀ a ∈ active, a ∈ s.active := fun a ha ↦ by simp [hactive, ha]
  have hnodup := h.actives.nodup
  rw [hactive, List.nodup_cons] at hnodup
  refine ⟨hnodup.2, fun hcalling ↦ ?_, fun hmem ↦ h.actives.connector (hold _ hmem),
    fun conn hmem ↦ h.actives.connection conn (hold _ hmem)⟩
  rw [hphase] at hcalling
  cases hcalling

/-- A connection that is lost was the only thing to be reported. -/
theorem Settled.active_lost (h : Settled s) {conn : Nat} {active : List Source}
    (hactive : s.active = .connection conn :: active) (hconn : conn ∈ s.established) :
    active = [] := by
  have hnodup := h.actives.nodup
  rw [hactive, List.nodup_cons] at hnodup
  rcases h.attempts.erase_nil hconn with ⟨hconnected, hnil⟩
  rw [List.eq_nil_iff_forall_not_mem]
  intro source hmem
  have hold : source ∈ s.active := by simp [hactive, hmem]
  cases source with
  | connector => exact h.not_active (by simp [hconnected]) hold
  | connection other =>
    have hother := (h.actives.connection other hold).1
    by_cases heq : other = conn
    · subst heq
      exact hnodup.1 hmem
    · rw [← List.mem_erase_of_ne heq, hnil] at hother
      cases hother

/-- While a connection is up, the channel of its attempt is still there only until the batch has
been run. -/
theorem Settled.channel_polled (h : Settled s) (hphase : s.phase = .calling)
    (hfunctors : s.functors = [])
    (hstate : s.connector_.state_ = .kConnected) : s.connector_.channel_ = none := by
  rcases h.attempts.channel.idle (by simp [hstate]) with ⟨hnone, _⟩ | ⟨_, _, _, _, hresets⟩
  · exact hnone
  · have hreset := h.queue.reset hphase hstate
    rw [resets, hfunctors, List.nil_append, List.count_eq_zero_of_not_mem hreset] at hresets
    cases hresets

theorem Settled.actives_polled (h : Settled s) (hphase : s.phase = .calling)
    (hfunctors : s.functors = [])
    {active : List Source} (hnodup : active.Nodup) (hregistered : ∀ a ∈ active, s.Registered a) :
    Actives { s with phase := .handling, active := active } := by
  refine ⟨hnodup, fun hcalling ↦ (by cases hcalling), fun hmem ↦ ?_, fun conn hmem ↦ ?_⟩
  · rcases hregistered _ hmem with ⟨entry, hentry, hset⟩
    by_contra hstate
    rcases h.attempts.channel.idle hstate with ⟨hnone, _⟩ | ⟨sockfd, channel, hsome, hremoved, _⟩
    · rw [hnone] at hentry
      cases hentry
    · rw [hsome] at hentry
      cases hentry
      exact hset hremoved.2.2
  · have hconn : conn ∈ s.established := hregistered _ hmem
    have hstate := h.attempts.established (List.ne_nil_of_mem hconn)
    exact ⟨hconn, h.channel_polled hphase hfunctors hstate⟩

theorem Settled.actives_ends (h : Settled s) {c : Connector} {rest : Option Rest}
    (hends : Ends s.connector_ c rest) (hconnector : .connector ∉ s.active) (todo : List Frame) :
    Actives { s with connector_ := c, todo := todo } := by
  cases hends with
  | nothing => exact h.actives.same rfl rfl rfl rfl rfl
  | ended hstate _ _ _ =>
    exact actives_nil (h.active_nil hconnector (h.attempts.established_nil (by simp [hstate])))

theorem actives_of_step {l : Label} (h : Settled s) (hin : l.InLoop) (hstep : Step s l t) :
    Actives t := by
  have hidle (hstate : s.connector_.state_ = .kDisconnected) : s.active = [] :=
    h.active_nil (h.not_active (by simp [hstate])) (h.attempts.established_nil (by simp [hstate]))
  have hclosing {frame : Frame} {todo : List Frame} (htodo : s.todo = frame :: todo)
      (hframe : frame.Closing) : s.active = [] := by
    rcases h.attempts.head htodo hframe with ⟨hstate, hnil⟩
    exact h.active_nil (h.not_active (by simp [hstate])) hnil
  cases step_cases hstep with
  | poll hphase hfunctors _ hnodup hregistered =>
      exact h.actives_polled hphase hfunctors hnodup hregistered
  | connectorEvent hphase _ hactive | connectionEvent hphase _ hactive =>
      exact h.active_tail hactive hphase _
  | lost _ _ hactive hconn => exact actives_nil (h.active_lost hactive hconn)
  | swap _ hactive _ => exact actives_nil hactive
  | startFunctor hphase _ _ _ | stopFunctor hphase _ _ _ | resetFunctor hphase _ _ _ =>
    exact actives_nil (h.actives.calling hphase)
  | forceCloseFunctor hphase _ _ _ | idleFunctor hphase _ _ _ =>
      exact actives_nil (h.actives.calling hphase)
  | timer _ _ _ hc => exact actives_nil (hidle (startInLoop_acts hc).1)
  | @callStep todo _ step _ _ =>
    have hactives : Actives { s with todo := todo } := h.actives.same rfl rfl rfl rfl rfl
    exact hactives.marks (marks_callStep _ step)
  | startInLoop htodo hframe hc => exact actives_nil (hidle (h.idle htodo hframe).state)
  | retry _ =>
    rcases retryIfConnect_same s.connector_ with ⟨hstate, hchannel, _⟩
    exact h.actives.same rfl rfl hstate hchannel rfl
  | newConnection htodo _ | restart htodo => exact actives_nil (hclosing htodo trivial)
  | closed _ _ | callback _ | removeConnection _ _ => exact h.actives.same rfl rfl rfl rfl rfl
  | testRetry _ | testConnect _ => exact h.actives.same rfl rfl rfl rfl rfl
  | handleError htodo hc => exact h.actives_ends (handleError_ends hc) (h.head htodo) _
  | handleWrite htodo hc => exact h.actives_ends (handleWrite_ends hc) (h.head htodo).2.1 _
  | @call call _ => exact (h.actives.marks (marks_call s call)).same rfl rfl rfl rfl rfl
  | thread _ | proceed _ => exact hin.elim

/-! ## The queue -/

theorem sublist_of_append {α : Type} {a b : α} {l₁ l₂ : List α} (h : List.Sublist [a, b] (l₁ ++ l₂))
    (hb : b ∉ l₂) : List.Sublist [a, b] l₁ := by
  rcases List.sublist_append_iff.mp h with ⟨r₁, r₂, hsplit, h₁, h₂⟩
  -- the second of the two is in the part in front
  match r₁ with
  | [] =>
    cases hsplit
    exact absurd (h₂.subset (by simp)) hb
  | [x] =>
    cases hsplit
    exact absurd (h₂.subset (by simp)) hb
  | x :: y :: r =>
    simp only [List.cons_append, List.cons.injEq, List.nil_eq_append_iff] at hsplit
    rcases hsplit with ⟨rfl, rfl, rfl, _⟩
    exact h₁

/-- Functors are taken from the front of the queue and put behind it. -/
theorem Queue.next (h : Queue s) {kept : List Functor} (functors : List Functor)
    (hkept : kept <:+ s.queue)
    (hqueue : t.queue = kept ++ functors) (hnext : s.nextConnId_ ≤ t.nextConnId_)
    (hfunctors : ∀ f ∈ functors, f ≠ .startInLoop ∧ ∀ conn, f = .forceCloseInLoop conn →
    conn < t.nextConnId_)
    (hestablished : t.established = [] ∨
      (t.established ⊆ s.established ∧ .resetChannel ∉ functors))
    (hreset : t.phase = .calling → t.connector_.state_ = .kConnected →
      .resetChannel ∉ t.connector_.pendingFunctors_) : Queue t := by
  refine ⟨fun hmem ↦ ?_, fun conn hmem ↦ ?_, fun conn hconn hsublist ↦ ?_, hreset⟩
  · rw [hqueue, List.mem_append] at hmem
    rcases hmem with hmem | hmem
    · exact h.noStart (hkept.subset hmem)
    · exact (hfunctors _ hmem).1 rfl
  · rw [hqueue, List.mem_append] at hmem
    rcases hmem with hmem | hmem
    · exact (h.known conn (hkept.subset hmem)).trans_le hnext
    · exact (hfunctors _ hmem).2 conn rfl
  · rcases hestablished with hnil | ⟨hsubset, hnot⟩
    · rw [hnil] at hconn
      cases hconn
    · rw [hqueue] at hsublist
      exact h.ordered conn (hsubset hconn) ((sublist_of_append hsublist hnot).trans hkept.sublist)

/-- The queue is as it was. -/
theorem Queue.same (h : Queue s) (hqueue : t.queue = s.queue)
    (hnext : t.nextConnId_ = s.nextConnId_) (hestablished : t.established ⊆ s.established)
    (hreset : t.phase = .calling → t.connector_.state_ = .kConnected →
      .resetChannel ∉ t.connector_.pendingFunctors_) : Queue t :=
  h.next [] List.suffix_rfl (hqueue.trans (List.append_nil _).symm) hnext.ge (by simp)
    (.inr ⟨hestablished, by simp⟩) hreset

theorem suffix_of_functors {f : Functor} {functors : List Functor}
    (h : s.functors = f :: functors) :
    functors ++ s.connector_.pendingFunctors_ <:+ s.queue :=
  ⟨[f], by simp [TcpClient.queue, h]⟩

theorem callStep_functors (s : TcpClient) {step : CallStep} (hstep : step ≠ .runStartInLoop) :
    ∃ functors, (∀ f ∈ functors, f = .stopInLoop) ∧
      (s.callStep step).connector_.pendingFunctors_ = s.connector_.pendingFunctors_ ++
        functors := by
  cases step with
  | runStartInLoop => exact absurd rfl hstep
  | storeConnect | storeStart | storeStop => exact ⟨[], by simp, (List.append_nil _).symm⟩
  | queueStopInLoop => exact ⟨[.stopInLoop], by simp, rfl⟩

theorem call_functors (s : TcpClient) (call : Call) :
    ∃ functors, (∀ f ∈ functors, ∃ conn ∈ s.established, f = .forceCloseInLoop conn) ∧
      (s.call call).1.connector_.pendingFunctors_ = s.connector_.pendingFunctors_ ++ functors := by
  cases call with
  | connect =>
    simp only [TcpClient.call]
    split
    · exact ⟨[], by simp, (List.append_nil _).symm⟩
    · exact ⟨[], by simp, (List.append_nil _).symm⟩
  | disconnect | stop | enableRetry => exact ⟨[], by simp, (List.append_nil _).symm⟩
  | forceClose conn =>
    simp only [TcpClient.call]
    split
    next hconn => exact ⟨[.forceCloseInLoop conn], by simpa using hconn, rfl⟩
    next => exact ⟨[], by simp, (List.append_nil _).symm⟩

/-- Calls in the loop thread queue no `startInLoop`, and close what they know. -/
theorem Settled.queue_marks (h : Settled s) {functors : List Functor}
    (hfunctors : t.functors = s.functors)
    (hpending : t.connector_.pendingFunctors_ = s.connector_.pendingFunctors_ ++ functors)
    (hnext : t.nextConnId_ = s.nextConnId_) (hestablished : t.established = s.established)
    (hphase : t.phase = s.phase) (hstate : t.connector_.state_ = s.connector_.state_)
    (hall : ∀ f ∈ functors, f = .stopInLoop ∨ ∃ conn ∈ s.established, f = .forceCloseInLoop conn) :
    Queue t := by
  have hnot : .resetChannel ∉ functors := by
    intro hmem
    rcases hall _ hmem with heq | ⟨_, _, heq⟩ <;> cases heq
  refine h.queue.next functors List.suffix_rfl ?_ hnext.ge (fun f hf ↦ ?_) (.inr ⟨?_, hnot⟩) ?_
  · rw [TcpClient.queue, TcpClient.queue, hfunctors, hpending, List.append_assoc]
  · rcases hall f hf with rfl | ⟨conn, hconn, rfl⟩
    · simp
    · refine ⟨by simp, fun conn' heq ↦ ?_⟩
      cases heq
      rw [hnext]
      exact (h.connection conn hconn).2
  · rw [hestablished]
    exact fun _ hconn ↦ hconn
  · intro hcalling hconnected hmem
    rw [hpending, List.mem_append] at hmem
    rcases hmem with hmem | hmem
    · exact h.queue.reset (hphase ▸ hcalling) (hstate ▸ hconnected) hmem
    · exact hnot hmem

theorem Settled.queue_begins (h : Settled s) {c c' : Connector} {k : Kernel} {rest : Option Rest}
    (hc : c.startInLoop k = .ok (c', rest)) (htimers : c.timers = [])
    (hpending : c.pendingFunctors_ = s.connector_.pendingFunctors_) (todo : List Frame) :
    Queue { s with connector_ := c', todo := todo } := by
  rcases startInLoop_begins hc htimers with ⟨_, hpending', hstate, _⟩
  refine h.queue.same ?_ rfl (fun _ hconn ↦ hconn) fun _ hconnected ↦ absurd hconnected hstate
  rw [TcpClient.queue, TcpClient.queue, hpending', hpending]

theorem Settled.queue_ends (h : Settled s) {c c' : Connector} {rest : Option Rest}
    (hends : Ends c c' rest) (hstate : c.state_ = s.connector_.state_)
    (hpending : c.pendingFunctors_ = s.connector_.pendingFunctors_)
    {functors : List Functor} (hkept : functors ++ s.connector_.pendingFunctors_ <:+ s.queue)
    (hphase : s.phase = .handling ∨ rest = none ∨ rest = some .retry) (todo : List Frame) :
    Queue { s with functors := functors, connector_ := c', todo := todo } := by
  cases hends with
  | nothing =>
    refine h.queue.next [] hkept ?_ le_rfl (by simp) (.inr ⟨fun _ hconn ↦ hconn, by simp⟩) ?_
    · rw [TcpClient.queue, List.append_nil, hpending]
    · intro hcalling hconnected
      rw [hpending]
      exact h.queue.reset hcalling (hstate ▸ hconnected)
  | ended hconnecting hpending' _ hend =>
    have hnil := h.attempts.established_nil (by simp [← hstate, hconnecting])
    refine h.queue.next [.resetChannel] hkept ?_ le_rfl (by simp) (.inl hnil) ?_
    · rw [TcpClient.queue, hpending', hpending, List.append_assoc]
    · intro hcalling hconnected
      rcases hend with ⟨hdisconnected, _⟩ | ⟨_, sockfd, hrest⟩
      · rw [hdisconnected] at hconnected
        cases hconnected
      · rcases hphase with hphase | hphase | hphase
        · rw [hphase] at hcalling
          cases hcalling
        · rw [hrest] at hphase
          cases hphase
        · rw [hrest] at hphase
          cases hphase

theorem queue_of_step {l : Label} (h : Settled s) (hin : l.InLoop) (hstep : Step s l t) :
    Queue t := by
  have hself : s.established ⊆ s.established := fun _ hconn ↦ hconn
  cases step_cases hstep with
  | poll _ _ _ _ _ => exact h.queue.same rfl rfl hself fun hcalling ↦ (by cases hcalling)
  | connectorEvent _ _ _ | connectionEvent _ _ _ => exact h.queue.same rfl rfl hself h.queue.reset
  | lost _ _ _ _ => exact h.queue.same rfl rfl (List.erase_subset) h.queue.reset
  | swap hphase _ _ =>
    refine h.queue.same ?_ rfl hself fun _ _ hmem ↦ by cases hmem
    simp [TcpClient.queue, h.attempts.handling hphase]
  | startFunctor _ _ hfunctors _ => exact absurd hfunctors h.no_start
  | stopFunctor _ _ hfunctors hc =>
    rcases cancelRetry_same s.connector_ with ⟨hstate, _, hpending⟩
    exact h.queue_ends (stopInLoop_ends hc) hstate hpending (suffix_of_functors hfunctors)
      (.inr (stopInLoop_rest hc)) _
  | resetFunctor _ _ hfunctors hc =>
    cases resetChannel_eq hc
    exact h.queue.next [] (suffix_of_functors hfunctors) (List.append_nil _).symm le_rfl (by simp)
      (.inr ⟨hself, by simp⟩) h.queue.reset
  | forceCloseFunctor _ _ hfunctors _ =>
    exact h.queue.next [] (suffix_of_functors hfunctors) (List.append_nil _).symm le_rfl (by simp)
      (.inr ⟨List.erase_subset, by simp⟩) h.queue.reset
  | idleFunctor _ _ hfunctors _ =>
    exact h.queue.next [] (suffix_of_functors hfunctors) (List.append_nil _).symm le_rfl (by simp)
      (.inr ⟨hself, by simp⟩) h.queue.reset
  | timer _ _ htimer hc => exact h.queue_begins hc (h.timers.expire htimer) rfl _
  | @callStep todo _ step _ hne =>
    have hmarks := marks_callStep { s with todo := todo } step
    rcases callStep_functors { s with todo := todo } hne with ⟨functors, hstop, hpending⟩
    exact h.queue_marks hmarks.functors hpending hmarks.nextConnId hmarks.established hmarks.phase
      hmarks.attempt.1 fun f hf ↦ .inl (hstop f hf)
  | startInLoop htodo hframe hc => exact h.queue_begins hc (h.idle htodo hframe).timers rfl _
  | retry _ =>
    rcases retryIfConnect_same s.connector_ with ⟨hstate, _, hpending⟩
    refine h.queue.same ?_ rfl hself fun hcalling hconnected ↦ ?_
    · rw [TcpClient.queue, TcpClient.queue, hpending]
    · rw [hpending]
      exact h.queue.reset hcalling (hstate ▸ hconnected)
  | newConnection htodo _ =>
    have hnil := (h.attempts.head htodo trivial).2
    refine ⟨h.queue.noStart, fun conn hmem ↦ Nat.lt_succ_of_lt (h.queue.known conn hmem), ?_,
      h.queue.reset⟩
    intro conn hconn hsublist
    -- nothing that is queued is about a connection that is new
    have hnew : conn = s.nextConnId_ := by
      simpa [TcpClient.newConnection, push, hnil] using hconn
    have hknown := h.queue.known conn (hsublist.subset (by simp))
    omega
  | closed _ _ => exact h.queue.same rfl rfl hself h.queue.reset
  | handleError htodo hc =>
    exact h.queue_ends (handleError_ends hc) rfl rfl List.suffix_rfl (.inr (handleError_rest hc)) _
  | handleWrite htodo hc =>
    exact h.queue_ends (handleWrite_ends hc) rfl rfl List.suffix_rfl (.inl (h.head htodo).2.2) _
  | callback _ | testRetry _ | testConnect _ => exact h.queue.same rfl rfl hself h.queue.reset
  | @removeConnection _ _ conn _ _ =>
    refine h.queue.next [.connectDestroyed conn] List.suffix_rfl ?_ le_rfl (by simp)
      (.inr ⟨hself, by simp⟩) ?_
    · simp [TcpClient.queue, Connector.queueInLoop]
    · intro hcalling hconnected
      simpa [Connector.queueInLoop] using h.queue.reset hcalling hconnected
  | restart _ => exact h.queue.same rfl rfl hself fun _ hconnected ↦ by cases hconnected
  | @call call _ =>
    have hmarks := marks_call s call
    rcases call_functors s call with ⟨functors, hclose, hpending⟩
    have hmarked : Queue (s.call call).1 :=
      h.queue_marks hmarks.functors hpending hmarks.nextConnId hmarks.established hmarks.phase
        hmarks.attempt.1 fun f hf ↦ .inr (hclose f hf)
    exact hmarked.same rfl rfl (fun _ hconn ↦ hconn) hmarked.reset
  | thread _ | proceed _ => exact hin.elim

theorem connection_of_step {l : Label} (h : Settled s) (hstep : Step s l t) :
    ∀ conn ∈ t.established, t.connection_ = some conn ∧ conn < t.nextConnId_ := by
  intro conn hconn
  cases step_cases hstep with
  | poll _ _ _ _ _ | connectorEvent _ _ _ | connectionEvent _ _ _ | swap _ _ _ =>
    exact h.connection conn hconn
  | startFunctor _ _ _ _ | stopFunctor _ _ _ _ | resetFunctor _ _ _ _ =>
      exact h.connection conn hconn
  | idleFunctor _ _ _ _ | timer _ _ _ _ | startInLoop _ _ _ => exact h.connection conn hconn
  | retry _ | closed _ _ | handleError _ _ | handleWrite _ _ => exact h.connection conn hconn
  | callback _ | testRetry _ | testConnect _ | restart _ => exact h.connection conn hconn
  | lost _ _ _ hlost | forceCloseFunctor _ _ _ hlost =>
    rw [(h.attempts.erase_nil hlost).2] at hconn
    cases hconn
  | @callStep todo _ step _ _ =>
    have hmarks := marks_callStep { s with todo := todo } step
    rw [hmarks.established] at hconn
    rw [hmarks.connection, hmarks.nextConnId]
    exact h.connection conn hconn
  | newConnection htodo _ =>
    have hnew : conn = s.nextConnId_ := by
      simpa [TcpClient.newConnection, push, (h.attempts.head htodo trivial).2] using hconn
    exact ⟨congrArg some hnew.symm, by simp [TcpClient.newConnection, push, hnew]⟩
  | removeConnection htodo _ =>
    have hnil := (h.attempts.head htodo trivial).2
    change conn ∈ s.established at hconn
    rw [hnil] at hconn
    cases hconn
  | @call call _ | @thread _ call _ =>
    have hmarks := marks_call s call
    change conn ∈ (s.call call).1.established at hconn
    change (s.call call).1.connection_ = _ ∧ _ < (s.call call).1.nextConnId_
    rw [hmarks.established] at hconn
    rw [hmarks.connection, hmarks.nextConnId]
    exact h.connection conn hconn
  | @proceed _ step _ _ =>
    have hmarks := marks_callStep s step
    change conn ∈ (s.callStep step).established at hconn
    change (s.callStep step).connection_ = _ ∧ _ < (s.callStep step).nextConnId_
    rw [hmarks.established] at hconn
    rw [hmarks.connection, hmarks.nextConnId]
    exact h.connection conn hconn

theorem settled_of_step {l : Label} (h : Settled s) (hin : l.InLoop) (hl : s.StartsIdle l)
    (hstep : Step s l t) : Settled t where
  attempts := attempts_of_step h.attempts hstep
  timers := timers_of_step h hin hstep
  frames := frames_of_step h hin hl hstep
  actives := actives_of_step h hin hstep
  queue := queue_of_step h hin hstep
  connection := connection_of_step h hstep

end TcpClient

end Pallette
