import Pallette.Net.TcpClient

/-!
# Attempts — the state of the connector, its channel and the connection

In every run, whatever threads call, an attempt that is on has a channel and no `resetChannel` in
the queue; otherwise the queue has one exactly if a removed channel is still there.  Only in
`kConnected` is there a connection that has not been closed, and never more than one.
-/

open Reasoning

namespace Pallette

open Connector

namespace Connector

/-- How many `resetChannel` wait, in the batch and in the queue. -/
def resets (c : Connector) (functors : List Functor) : Nat :=
  (functors ++ c.pendingFunctors_).count .resetChannel

/-- The channel is in the poller while an attempt is on, and after that until it is reset just
there. -/
def ChannelOk (c : Connector) (functors : List Functor) : Prop :=
  if c.state_ = .kConnecting then c.channel_ ≠ none ∧ c.resets functors = 0
  else (c.channel_ = none ∧ c.resets functors = 0) ∨
    ∃ sockfd channel, c.channel_ = some (sockfd, channel) ∧ Removed channel ∧ c.resets functors = 1

variable {c c' : Connector} {functors : List Functor} {rest : Option Rest}

theorem ChannelOk.connecting (h : c.ChannelOk functors) (hstate : c.state_ = .kConnecting) :
    c.channel_ ≠ none ∧ c.resets functors = 0 := by
  rwa [ChannelOk, if_pos hstate] at h

theorem ChannelOk.idle (h : c.ChannelOk functors) (hstate : c.state_ ≠ .kConnecting) :
    (c.channel_ = none ∧ c.resets functors = 0) ∨
      ∃ sockfd channel, c.channel_ = some (sockfd, channel) ∧ Removed channel ∧
        c.resets functors = 1 := by
  rwa [ChannelOk, if_neg hstate] at h

/-- What does not touch state, channel and queue keeps them in agreement. -/
theorem ChannelOk.same {functors' : List Functor} (h : c.ChannelOk functors)
    (hstate : c'.state_ = c.state_ ∨ (c.state_ ≠ .kConnecting ∧ c'.state_ ≠ .kConnecting))
    (hchannel : c'.channel_ = c.channel_)
    (hresets : c'.resets functors' = c.resets functors) : c'.ChannelOk functors' := by
  unfold ChannelOk at h ⊢
  rw [hchannel, hresets]
  rcases hstate with hstate | ⟨hne, hne'⟩
  · rwa [hstate]
  · rw [if_neg hne] at h
    rwa [if_neg hne']

/-- Behind `removeAndResetChannel`. -/
theorem channelOk_removed {sockfd : Nat} {channel' : Channel} (h : c.ChannelOk functors)
    (hstate : c.state_ = .kConnecting) (hremoved : Removed channel')
    (hstate' : c'.state_ ≠ .kConnecting) (hchannel' : c'.channel_ = some (sockfd, channel'))
    (hpending : c'.pendingFunctors_ = c.pendingFunctors_ ++ [.resetChannel]) :
    c'.ChannelOk functors := by
  have hresets := (h.connecting hstate).2
  rw [ChannelOk, if_neg hstate']
  refine .inr ⟨sockfd, channel', hchannel', hremoved, ?_⟩
  rw [resets] at hresets ⊢
  rw [hpending, ← List.append_assoc, List.count_append, hresets]
  rfl

theorem channelOk_of_acts (h : c.ChannelOk functors) (hacts : Acts c c' rest) :
    c'.ChannelOk functors := by
  cases hacts with
  | nothing => exact h
  | connecting hstate hchannel =>
    rcases h.idle (by simp [hstate]) with ⟨_, hresets⟩ | ⟨sockfd, channel, hsome, _⟩
    · rw [ChannelOk, if_pos rfl]
      exact ⟨by simp, hresets⟩
    · rw [hchannel] at hsome
      cases hsome
  | refused hstate _ => exact h.same (.inl rfl) rfl rfl
  | dropped hstate hchannel hremoved =>
    exact channelOk_removed h hstate hremoved (by simp) rfl rfl
  | connected hstate hchannel hremoved =>
    exact channelOk_removed h hstate hremoved (by simp) rfl rfl

theorem resetChannel_eq (h : c.resetChannel = .ok c') : c' = { c with channel_ := none } := by
  unfold resetChannel at h
  split at h
  next hnone =>
    cases h
    rw [← hnone]
  next =>
    split at h
    · cases h
    · cases h
      rfl

theorem resets_cons {functors' : List Functor} (hfunctors : functors = .resetChannel :: functors') :
    c.resets functors = c.resets functors' + 1 := by
  rw [resets, hfunctors, List.cons_append, List.count_cons_self]
  rfl

theorem not_connecting_of_reset {functors' : List Functor} (h : c.ChannelOk functors)
    (hfunctors : functors = .resetChannel :: functors') : c.state_ ≠ .kConnecting := by
  intro hconnecting
  have hnone := (h.connecting hconnecting).2
  rw [resets_cons hfunctors] at hnone
  omega

/-- The one `resetChannel` of the queue is run. -/
theorem channelOk_reset {functors' : List Functor} (h : c.ChannelOk functors)
    (hfunctors : functors = .resetChannel :: functors') :
    ChannelOk { c with channel_ := none } functors' := by
  have hcount := resets_cons (c := c) hfunctors
  have hstate := not_connecting_of_reset h hfunctors
  rw [ChannelOk, if_neg hstate]
  refine .inl ⟨rfl, ?_⟩
  change c.resets functors' = 0
  rcases h.idle hstate with ⟨_, hresets⟩ | ⟨_, _, _, _, hresets⟩
  · omega
  · omega

theorem cancelRetry_same (c : Connector) : c.cancelRetry.state_ = c.state_ ∧
    c.cancelRetry.channel_ = c.channel_ ∧ c.cancelRetry.pendingFunctors_ = c.pendingFunctors_ := by
  unfold cancelRetry
  split
  · exact ⟨rfl, rfl, rfl⟩
  · exact ⟨rfl, rfl, rfl⟩

theorem retryIfConnect_same (c : Connector) : c.retryIfConnect.state_ = c.state_ ∧
    c.retryIfConnect.channel_ = c.channel_ ∧ c.retryIfConnect.pendingFunctors_ =
      c.pendingFunctors_ := by
  unfold retryIfConnect
  split
  · exact ⟨rfl, rfl, rfl⟩
  · exact ⟨rfl, rfl, rfl⟩

theorem retryIfConnect_trace (c : Connector) :
    ∃ events, c.retryIfConnect.trace = c.trace ++ events ∧
    (∀ e ∈ events, ∃ delayMs, e = .runAfter delayMs) ∧
    c.retryIfConnect.nextSocket = c.nextSocket := by
  unfold retryIfConnect
  split
  · exact ⟨[.runAfter c.retryDelayMs_], rfl, by simp, rfl⟩
  · exact ⟨[], (List.append_nil _).symm, by simp, rfl⟩

end Connector

namespace TcpClient

/-- The frames with which a connection comes or goes. -/
def Frame.Closing : Frame → Prop
  | .rest (.connected _) | .removeConnection _ | .testRetry | .testConnect | .restart => True
  | _ => False

structure Attempts (s : TcpClient) : Prop where
  channel : s.connector_.ChannelOk s.functors
  handling : s.phase = .handling → s.functors = []
  established : s.established ≠ [] → s.connector_.state_ = .kConnected
  one : s.established.length ≤ 1
  closing : ∀ f ∈ s.todo, f.Closing → s.connector_.state_ = .kConnected ∧ s.established = []
  stack : Stack s.todo

theorem attempts_init : Attempts {} where
  channel := .inl ⟨rfl, rfl⟩
  handling _ := rfl
  established h := absurd rfl h
  one := Nat.zero_le _
  closing _ h := by cases h
  stack := Below.nothing.stack

variable {s t : TcpClient}

theorem closing_of_rest {rest : Option Rest} (h : rest = none ∨ rest = some .retry) :
    ∀ f ∈ rest.toList.map Frame.rest, ¬ f.Closing := by
  rcases h with rfl | rfl
  · simp
  · simp [Frame.Closing]

theorem mem_eventFrames {error write : Bool} {f : Frame}
    (h : f ∈ (if error then [.handleError] else []) ++ (if write then [.handleWrite] else [])) :
    f = .handleError ∨ f = .handleWrite := by
  rcases List.mem_append.mp h with h | h
  · split at h
    · exact .inl (List.mem_singleton.mp h)
    · cases h
  · split at h
    · exact .inr (List.mem_singleton.mp h)
    · cases h

theorem Attempts.established_nil (h : Attempts s) (hstate : s.connector_.state_ ≠ .kConnected) :
    s.established = [] := by
  by_contra hne
  exact hstate (h.established hne)

/-- The only connection that is up goes down. -/
theorem Attempts.erase_nil (h : Attempts s) {conn : Nat} (hconn : conn ∈ s.established) :
    s.connector_.state_ = .kConnected ∧ s.established.erase conn = [] := by
  refine ⟨h.established (List.ne_nil_of_mem hconn), ?_⟩
  have hone := h.one
  have hlength := List.length_erase_of_mem hconn
  rw [← List.length_eq_zero_iff]
  omega

/-- With an attempt on, or none, no connection comes or goes. -/
theorem Attempts.not_closing (h : Attempts s) (hstate : s.connector_.state_ ≠ .kConnected) :
    ∀ f ∈ s.todo, ¬ f.Closing :=
  fun f hf hclosing ↦ hstate (h.closing f hf hclosing).1

theorem Attempts.head (h : Attempts s) {frame : Frame} {todo : List Frame}
    (htodo : s.todo = frame :: todo)
    (hframe : frame.Closing) : s.connector_.state_ = .kConnected ∧ s.established = [] :=
  h.closing frame (htodo ▸ List.mem_cons_self) hframe

theorem resets_marks (h : Marks s t) :
    t.connector_.resets t.functors = s.connector_.resets s.functors := by
  rcases h.connector with ⟨connect, functors, hqueues, hconnector⟩
  have hnot : .resetChannel ∉ functors := fun hmem ↦ hqueues _ hmem
  rw [h.functors, hconnector, resets, ← List.append_assoc, List.count_append,
    List.count_eq_zero_of_not_mem hnot]
  rfl

theorem Attempts.marks (h : Attempts s) (hmarks : Marks s t) {u : TcpClient}
    (hconnector : u.connector_ = t.connector_) (hfunctors : u.functors = t.functors)
    (hphase : u.phase = t.phase) (hestablished : u.established = t.established)
    (hstack : Stack u.todo) (htodo : ∀ f ∈ u.todo, f ∈ s.todo ∨ ¬ f.Closing) : Attempts u := by
  have hresets := resets_marks hmarks
  have hattempt := hmarks.attempt
  rw [← hconnector] at hattempt
  rcases hattempt with ⟨hstate, hchannel, _⟩
  refine ⟨h.channel.same (.inl hstate) hchannel (by rw [hconnector, hfunctors, hresets]), ?_,
    ?_, ?_, ?_, hstack⟩
  · rw [hphase, hfunctors, hmarks.phase, hmarks.functors]
    exact h.handling
  · rw [hestablished, hmarks.established, hstate]
    exact h.established
  · rw [hestablished, hmarks.established]
    exact h.one
  · intro f hf hclosing
    rw [hstate, hestablished, hmarks.established]
    rcases htodo f hf with hold | hnot
    · exact h.closing f hold hclosing
    · exact absurd hclosing hnot

/-- A function of the connector, with what is left of it on top of frames that were there. -/
theorem Attempts.acts (h : Attempts s) (todo : List Frame) {c c' : Connector} {rest : Option Rest}
    {functors : List Functor} (hc : c.ChannelOk functors) (hstate : c.state_ = s.connector_.state_)
    (hacts : Acts c c' rest) (hfunctors : s.phase = .handling → functors = [])
    (htodo : ∀ f ∈ todo, f ∈ s.todo) (hstack : Stack (rest.toList.map .rest ++ todo)) :
    Attempts { s with functors := functors, connector_ := c', todo := rest.toList.map .rest ++
      todo } := by
  have hchannel := channelOk_of_acts hc hacts
  -- nothing but an attempt that is on can become a connection
  cases hacts with
  | nothing =>
    refine ⟨hchannel, hfunctors, ?_, h.one, fun f hf hclosing ↦ ?_, hstack⟩
    · rw [hstate]
      exact h.established
    · rw [hstate]
      exact h.closing f (htodo f hf) hclosing
  | connecting hdisconnected _ =>
    have hnil := h.established_nil (by simp [← hstate, hdisconnected])
    refine ⟨hchannel, hfunctors, fun hne ↦ absurd hnil hne, h.one, fun f hf hclosing ↦ ?_, hstack⟩
    exact absurd hclosing (h.not_closing (by simp [← hstate, hdisconnected]) f (htodo f hf))
  | refused hdisconnected hrest =>
    have hnil := h.established_nil (by simp [← hstate, hdisconnected])
    refine ⟨hchannel, hfunctors, fun hne ↦ absurd hnil hne, h.one, fun f hf hclosing ↦ ?_, hstack⟩
    rcases List.mem_append.mp hf with hf | hf
    · exact absurd hclosing (closing_of_rest hrest f hf)
    · exact absurd hclosing (h.not_closing (by simp [← hstate, hdisconnected]) f (htodo f hf))
  | dropped hconnecting _ _ =>
    have hnil := h.established_nil (by simp [← hstate, hconnecting])
    refine ⟨hchannel, hfunctors, fun hne ↦ absurd hnil hne, h.one, fun f hf hclosing ↦ ?_, hstack⟩
    rcases List.mem_append.mp hf with hf | hf
    · exact absurd hclosing (closing_of_rest (.inr rfl) f hf)
    · exact absurd hclosing (h.not_closing (by simp [← hstate, hconnecting]) f (htodo f hf))
  | connected hconnecting _ _ =>
    have hnil := h.established_nil (by simp [← hstate, hconnecting])
    exact ⟨hchannel, hfunctors, fun hne ↦ absurd hnil hne, h.one, fun _ _ _ ↦ ⟨rfl, hnil⟩, hstack⟩

/-- Fewer frames, or others that are not about a connection. -/
theorem Attempts.todo (h : Attempts s) {todo : List Frame} (hstack : Stack todo)
    (htodo : ∀ f ∈ todo, f ∈ s.todo ∨ ¬ f.Closing) : Attempts { s with todo := todo } := by
  refine ⟨h.channel, h.handling, h.established, h.one, fun f hf hclosing ↦ ?_, hstack⟩
  rcases htodo f hf with hold | hnot
  · exact h.closing f hold hclosing
  · exact absurd hclosing hnot

theorem Attempts.startInLoop (h : Attempts s) (todo : List Frame) {c c' : Connector} {k : Kernel}
    {rest : Option Rest} {functors : List Functor} (hc : c.ChannelOk functors)
    (hstate : c.state_ = s.connector_.state_) (hstart : c.startInLoop k = .ok (c', rest))
    (hfunctors : s.phase = .handling → functors = []) (htodo : ∀ f ∈ todo, f ∈ s.todo)
    (hstack : Stack (rest.toList.map .rest ++ todo)) :
    Attempts { s with functors := functors, connector_ := c', todo := rest.toList.map .rest ++
      todo } := by
  have hready : ChannelOk { c with retryConnector_ := false } functors := hc.same (.inl rfl) rfl rfl
  exact h.acts todo hready hstate (startInLoop_acts hstart).2 hfunctors htodo hstack

/-- The connection `conn` is closed. -/
theorem Attempts.close (h : Attempts s) {conn : Nat} (hconn : conn ∈ s.established)
    {functors : List Functor} (hc : s.connector_.ChannelOk functors)
    (hfunctors : s.phase = .handling → functors = []) (active : List Source) : Attempts
      { s with
        functors := functors, active := active, established := s.established.erase conn
        todo := [.callback, .removeConnection conn] } := by
  rcases h.erase_nil hconn with ⟨hstate, hnil⟩
  exact ⟨hc, hfunctors, fun hne ↦ absurd hnil hne, by simp [hnil], fun _ _ _ ↦ ⟨hstate, hnil⟩,
    (Below.closing conn).stack⟩

theorem attempts_of_step {l : Label} (h : Attempts s) (hstep : Step s l t) : Attempts t := by
  have hstack := stack_of_step h.stack hstep
  -- another functor that leaves the queue leaves the `resetChannel` of the connector in it
  have hsame {functors : List Functor} {f : Functor} (hf : s.functors = f :: functors)
      (hne : f ≠ .resetChannel) : s.connector_.ChannelOk functors := by
    refine h.channel.same (.inl rfl) rfl ?_
    rw [resets, resets, hf, List.cons_append, List.count_cons_of_ne hne]
  cases step_cases hstep with
  | poll _ hfunctors htodo _ _ =>
    exact ⟨h.channel, fun _ ↦ hfunctors, h.established, h.one, h.closing, hstack⟩
  | @connectorEvent _ error write _ _ _ _ =>
    refine ⟨h.channel, h.handling, h.established, h.one, fun f hf hclosing ↦ ?_, hstack⟩
    rcases mem_eventFrames hf with rfl | rfl
    · exact hclosing.elim
    · exact hclosing.elim
  | connectionEvent _ _ _ =>
    refine ⟨h.channel, h.handling, h.established, h.one, fun f hf hclosing ↦ ?_, hstack⟩
    rw [List.mem_singleton.mp hf] at hclosing
    exact hclosing.elim
  | lost hphase _ _ hconn => exact h.close hconn h.channel h.handling _
  | swap hphase _ htodo =>
    -- the queue moves as a whole, so a `resetChannel` in it is still to come
    have hswapped : ChannelOk { s.connector_ with pendingFunctors_ := [] }
        s.connector_.pendingFunctors_ := by
      refine h.channel.same (.inl rfl) rfl ?_
      rw [resets, resets, h.handling hphase, List.append_nil, List.nil_append]
    exact ⟨hswapped, by simp, h.established, h.one, h.closing, hstack⟩
  | startFunctor hphase htodo hfunctors hc =>
    have hacts := h.startInLoop [] (hsame hfunctors (by simp)) rfl hc (by simp [hphase]) (by simp)
      (by simpa using hstack)
    simpa using hacts
  | stopFunctor hphase htodo hfunctors hc =>
    rcases cancelRetry_same s.connector_ with ⟨hstate, hchannel, hpending⟩
    have hcancel := (hsame hfunctors (by simp)).same (.inl hstate) hchannel
      (by rw [resets, resets, hpending])
    have hacts := h.acts [] hcancel hstate (stopInLoop_acts hc) (by simp [hphase]) (by simp)
      (by simpa using hstack)
    simpa using hacts
  | resetFunctor hphase htodo hfunctors hc =>
    cases resetChannel_eq hc
    exact ⟨channelOk_reset h.channel hfunctors, by
      simp [hphase], h.established, h.one, h.closing, hstack⟩
  | forceCloseFunctor hphase _ hfunctors hconn =>
    exact h.close hconn (hsame hfunctors (by simp)) (by simp [hphase]) _
  | idleFunctor hphase htodo hfunctors hidle =>
    have hne := hsame hfunctors (by rcases hidle with ⟨conn, _, rfl⟩ | ⟨conn, rfl⟩ <;> simp)
    exact ⟨hne, by simp [hphase], h.established, h.one, h.closing, hstack⟩
  | @timer timer _ _ _ hphase htodo _ hc =>
    have hready : (s.connector_.expire timer).ChannelOk s.functors :=
      h.channel.same (.inl rfl) rfl rfl
    have hacts := h.startInLoop [] hready rfl hc h.handling (by simp) (by simpa using hstack)
    simpa using hacts
  | @callStep todo _ step htodo _ =>
    have hrest := h.todo (htodo ▸ h.stack).over.done fun f hf ↦ .inl (by simp [htodo, hf])
    have hmarks := marks_callStep { s with todo := todo } step
    exact hrest.marks hmarks rfl rfl rfl rfl hstack fun f hf ↦ .inl (by rwa [hmarks.todo] at hf)
  | startInLoop htodo hframe hc =>
    exact h.startInLoop _ h.channel rfl hc h.handling (fun f hf ↦ by simp [htodo, hf]) hstack
  | @retry todo _ htodo =>
    rcases retryIfConnect_same s.connector_ with ⟨hstate, hchannel, hpending⟩
    have hc : s.connector_.retryIfConnect.ChannelOk s.functors :=
      h.channel.same (.inl hstate) hchannel (by rw [resets, resets, hpending])
    refine ⟨hc, h.handling, ?_, h.one, fun f hf hclosing ↦ ?_, hstack⟩
    · rw [hstate]
      exact h.established
    · rw [hstate]
      exact h.closing f (by simp [htodo, hf]) hclosing
  | newConnection htodo _ =>
    have hclosing := h.head htodo trivial
    have hnil := (htodo ▸ h.stack).over.alone trivial
    -- there was no connection, so there is exactly one now
    refine ⟨h.channel.same (.inl rfl) rfl rfl, h.handling, fun _ ↦ hclosing.1, ?_,
      fun f hf hf' ↦ ?_, hstack⟩
    · simp [TcpClient.newConnection, push, hclosing.2]
    · simp only [TcpClient.newConnection, push, hnil, List.append_nil] at hf
      rw [List.mem_singleton.mp hf] at hf'
      exact hf'.elim
  | @closed _ _ sockfd htodo _ =>
    have hc : ChannelOk (s.connector_.emit (.close sockfd)) s.functors :=
      h.channel.same (.inl rfl) rfl rfl
    exact ⟨hc, h.handling, h.established, h.one, fun f hf ↦
      h.closing f (by simp [htodo, hf]), hstack⟩
  | handleError htodo hc =>
    exact h.acts _ h.channel rfl (handleError_acts hc) h.handling
      (fun f hf ↦ by simp [htodo, hf]) hstack
  | handleWrite htodo hc =>
    exact h.acts _ h.channel rfl (handleWrite_acts hc) h.handling
      (fun f hf ↦ by simp [htodo, hf]) hstack
  | callback htodo => exact h.todo hstack fun f hf ↦ .inl (by simp [htodo, hf])
  | @removeConnection _ _ conn htodo _ =>
    have hclosing := h.head htodo trivial
    have hc : ChannelOk (s.connector_.queueInLoop (.connectDestroyed conn)) s.functors := by
      refine h.channel.same (.inl rfl) rfl ?_
      simp [resets, Connector.queueInLoop]
    exact ⟨hc, h.handling, h.established, h.one, fun _ _ _ ↦ hclosing, hstack⟩
  | testRetry htodo | testConnect htodo =>
    have hclosing := h.head htodo trivial
    exact ⟨h.channel, h.handling, h.established, h.one, fun _ _ _ ↦ hclosing, hstack⟩
  | restart htodo =>
    have hclosing := h.head htodo trivial
    have hnil := (htodo ▸ h.stack).over.alone trivial
    have hc : ChannelOk s.connector_.restart s.functors :=
      h.channel.same (.inr ⟨by simp [hclosing.1], by simp [Connector.restart, setState]⟩) rfl rfl
    -- `restart` leaves `kConnected` with no connection established any more
    refine ⟨hc, h.handling, fun hne ↦ absurd hclosing.2 hne, h.one, fun f hf hf' ↦ ?_, hstack⟩
    rw [hnil] at hf
    rw [List.mem_singleton.mp hf] at hf'
    exact hf'.elim
  | @call call _ =>
    have hmarks := marks_call s call
    refine h.marks hmarks rfl rfl rfl rfl hstack fun f hf ↦ ?_
    rcases List.mem_append.mp hf with hf | hf
    · rcases List.mem_map.mp hf with ⟨step, _, rfl⟩
      exact .inr id
    · exact .inl (by rwa [hmarks.todo] at hf)
  | @thread n call _ =>
    have hmarks := marks_call s call
    exact h.marks hmarks rfl rfl rfl rfl hstack fun f hf ↦ .inl (hmarks.todo ▸ hf)
  | @proceed n step _ _ =>
    have hmarks := marks_callStep s step
    exact h.marks hmarks rfl rfl rfl rfl hstack fun f hf ↦ .inl (hmarks.todo ▸ hf)

end TcpClient

end Pallette
