import Pallette.Net.Effects
import Pallette.Net.Sending
import Pallette.Reasoning.Warranted

/-!
# Shutdown — the write side is shut down behind the messages sent before

`shutdown` stores `kDisconnecting` at once and queues `shutdownInLoop` behind the messages.  `Turn`
says what a step does to the two.  Besides the queue, `handleWrite` shuts the socket down by itself
when it has emptied the buffer of a connection in `kDisconnecting` (`Drains`), with messages still
in the queue or not: `shutdown_after_sends` holds of every run in which it finds none of those sent
before.
-/

open Reasoning

namespace Pallette.TcpConnection

def Event.isShutdown : Event → Bool
  | .shutdownWrite | .shutdownCalled _ => true
  | _ => false

/-! ## What a step does about the shutdown -/

/-- `t` comes from `s` by something that has nothing to do with a shutdown; `done` has been
processed. -/
structure Mute (s t : TcpConnection) (done : List (Caller × Bytes)) : Prop where
  state : t.state_ = s.state_ ∨ t.state_ ≠ .kConnected
  trace : ∃ es, t.trace = s.trace ++ es ∧ ∀ e ∈ es, e.isShutdown = false
  processed : processed t.trace = processed s.trace ++ done
  pending : ∃ cbs, t.pendingFunctors_ = s.pendingFunctors_ ++ cbs ∧ .shutdownInLoop ∉ cbs
  threads : ∀ n, t.threads n = .shutdownQueue → s.threads n = .shutdownQueue

namespace Mute

variable {s t u : TcpConnection} {done done' : List (Caller × Bytes)}

theorem silent (hstate : t.state_ = s.state_ ∨ t.state_ ≠ .kConnected) (htrace : t.trace = s.trace)
    (hpending : t.pendingFunctors_ = s.pendingFunctors_) (hthreads : t.threads = s.threads) :
    Mute s t [] :=
  ⟨hstate, ⟨[], by simp [htrace]⟩, by rw [htrace, List.append_nil], ⟨[], by simp [hpending]⟩,
    fun n h ↦ (by rw [hthreads] at h; exact h)⟩

theorem refl (s : TcpConnection) : Mute s s [] :=
  .silent (.inl rfl) rfl rfl rfl

theorem trans (h : Mute s t done) (h' : Mute t u done') : Mute s u (done ++ done') := by
  rcases h.trace with ⟨es, hes, hquiet⟩
  rcases h'.trace with ⟨es', hes', hquiet'⟩
  rcases h.pending with ⟨cbs, hcbs, hno⟩
  rcases h'.pending with ⟨cbs', hcbs', hno'⟩
  refine ⟨?_, ⟨es ++ es', ?_, ?_⟩, ?_, ⟨cbs ++ cbs', ?_, ?_⟩,
    fun n hn ↦ h.threads n (h'.threads n hn)⟩
  · rcases h'.state with heq | hne
    · rw [heq]
      exact h.state
    · exact .inr hne
  · rw [hes', hes, List.append_assoc]
  · intro e he
    exact (List.mem_append.mp he).elim (hquiet e) (hquiet' e)
  · rw [h'.processed, h.processed, List.append_assoc]
  · rw [hcbs', hcbs, List.append_assoc]
  · intro hmem
    exact (List.mem_append.mp hmem).elim hno hno'

theorem record (s : TcpConnection) {e : Event} (he : e.isShutdown = false) :
    Mute s (s.record e) e.processed?.toList := by
  refine ⟨.inl rfl, ⟨[e], rfl, by simpa using he⟩, ?_, ⟨[], by simp [TcpConnection.record]⟩,
    fun _ h ↦ h⟩
  show TcpConnection.processed (s.trace ++ [e]) = _
  rw [processed_append]
  congr 1

theorem queueInLoop (s : TcpConnection) {cb : Functor} (hcb : .shutdownInLoop ≠ cb) :
    Mute s (s.queueInLoop cb) [] :=
  ⟨.inl rfl, ⟨[], by simp [TcpConnection.queueInLoop]⟩, by simp [TcpConnection.queueInLoop],
    ⟨[cb], rfl, by simpa using hcb⟩, fun _ h ↦ h⟩

theorem setThread (s : TcpConnection) (n : Nat) {st : ThreadState} (hst : st ≠ .shutdownQueue) :
    Mute s (s.setThread n st) [] := by
  refine ⟨.inl rfl, ⟨[], by simp [TcpConnection.setThread]⟩, by simp [TcpConnection.setThread],
    ⟨[], by simp [TcpConnection.setThread]⟩, fun m hm ↦ ?_⟩
  simp only [TcpConnection.setThread] at hm
  split at hm
  · exact absurd hm hst
  · exact hm

theorem of_emits {ev : Event → Prop} {fn : Functor → Prop} (h : Emits ev fn s t)
    (hev : ∀ e, ev e → e.isShutdown = false ∧ e.processed? = none)
    (hfn : ∀ cb, fn cb → cb ≠ .shutdownInLoop) : Mute s t [] := by
  rcases h.trace with ⟨es, hes, hall⟩
  rcases h.pending with ⟨cbs, hcbs, hall'⟩
  refine ⟨.inl h.state, ⟨es, hes, fun e he ↦ (hev e (hall e he)).1⟩, ?_,
    ⟨cbs, hcbs, fun hmem ↦ hfn _ (hall' _ hmem) rfl⟩, fun n hn ↦
      (by rw [h.threads] at hn; exact hn)⟩
  have hnone := processed_eq_nil fun e he ↦ (hev e (hall e he)).2
  rw [hes, processed_append, hnone]

end Mute

variable {s t : TcpConnection}

theorem isWritten_mute (e : Event) (he : e.isWritten) :
    e.isShutdown = false ∧ e.processed? = none := by
  cases e with
  | written data => exact ⟨rfl, rfl⟩
  | _ => cases he

theorem isNotice_mute (cb : Functor) (hcb : cb.isNotice) : cb ≠ .shutdownInLoop := by
  rintro rfl
  exact hcb

theorem mute_sendInLoop (hs : s.state_ ≠ .kDisconnected) (caller : Caller) (message : Bytes)
    (result : WriteResult) : Mute s (s.sendInLoop caller message result) [(caller, message)] :=
  (Mute.record s (e := .processed caller message) rfl).trans
    (.of_emits (emits_sendInLoop hs caller message result) isWritten_mute isNotice_mute)

theorem mute_startReadInLoop (s : TcpConnection) : Mute s s.startReadInLoop [] :=
  .of_emits (emits_startReadInLoop s) (fun _ h ↦ h.elim) fun _ h ↦ h.elim

theorem mute_stopReadInLoop (s : TcpConnection) : Mute s s.stopReadInLoop [] :=
  .of_emits (emits_stopReadInLoop s) (fun _ h ↦ h.elim) fun _ h ↦ h.elim

/-- `handleWrite` empties the buffer of a connection that is to be shut down. -/
def Drains (s : TcpConnection) : Label → Prop
  | .writeStage (.count n) =>
      s.revents_.EPOLLOUT = true ∧ s.state_ = .kDisconnecting ∧ s.outputBuffer_ ≠ [] ∧
        s.outputBuffer_.length ≤ n
  | _ => False

/-- One step of an open connection, as a shutdown sees it. -/
inductive Turn (s : TcpConnection) (l : Label) (t : TcpConnection) : Prop
  | mute : Mute s t [] → Turn s l t
  | sendNow (message : Bytes) : Mute s t [(.loop, message)] → Turn s l t
  | popped (cb : Functor) (rest : List Functor) :
      s.pendingFunctors_ = cb :: rest → cb ≠ .shutdownInLoop →
      Mute { s with pendingFunctors_ := rest } t cb.send?.toList → Turn s l t
  | functor (rest : List Functor) :
      s.pendingFunctors_ = .shutdownInLoop :: rest →
      t = shutdownInLoop { s with pendingFunctors_ := rest } → Turn s l t
  | drain (u : TcpConnection) :
      s.Drains l → Mute s u [] → u.trace = s.trace ++ [.written s.outputBuffer_] →
      t = u.record .shutdownWrite → Turn s l t
  | call :
      s.state_ = .kConnected →
      t = ({ s with state_ := .kDisconnecting }.record (.shutdownCalled .loop)).shutdownInLoop →
      Turn s l t
  | store (n : Nat) :
      t = ({ s with state_ := .kDisconnecting }.record (.shutdownCalled (.thread n))).setThread n
        .shutdownQueue → Turn s l t
  | queue (n : Nat) :
      s.threads n = .shutdownQueue → t = (s.queueInLoop .shutdownInLoop).setThread n .idle →
      Turn s l t

theorem mute_handleRead {result : ReadResult} (h : s.handleRead result = .ok t) (ht : t.Alive) :
    Mute s t [] := by
  unfold handleRead at h
  split at h
  · exact absurd ht (not_alive_of_disconnected (handleClose_state h))
  next bytes _ =>
    cases h
    have hread : Mute s { s with
        inputBuffer_ := s.inputBuffer_ ++ bytes
        bytesReceived_ := s.bytesReceived_ + bytes.length } [] :=
      .silent (.inl rfl) rfl rfl rfl
    have hreported := hread.trans (.record _ (e := .message) rfl)
    exact hreported.trans (.silent (.inl rfl) rfl rfl rfl)
  · cases h
    exact .refl s

theorem mute_afterWrite (s : TcpConnection) (n : Nat) : Mute s (s.afterWrite n) [] := by
  have hretrieved : Mute s { s with outputBuffer_ := s.outputBuffer_.drop n } [] :=
    .silent (.inl rfl) rfl rfl rfl
  exact hretrieved.trans (.record _ (e := .written (s.outputBuffer_.take n)) rfl)

/-- Behind the last byte: what is left to do, up to the test of `state_`. -/
def written (s : TcpConnection) (n : Nat) : TcpConnection :=
  { s with channel_ := s.channel_.disableWriting }.notifyWriteComplete n

theorem mute_written (s : TcpConnection) (n : Nat) : Mute s (s.written n) [] := by
  have hdisabled : Mute s { s with channel_ := s.channel_.disableWriting } [] :=
    .silent (.inl rfl) rfl rfl rfl
  have hnotified : Emits (fun _ ↦ False) Functor.isNotice
      { s with channel_ := s.channel_.disableWriting } (s.written n) :=
      emits_notifyWriteComplete _ n
  exact hdisabled.trans (.of_emits hnotified (fun _ h ↦ h.elim) isNotice_mute)

theorem drained_eq (s : TcpConnection) (n : Nat) :
    s.drained n =
      if s.state_ = .kDisconnecting then (s.written n).record .shutdownWrite else s.written n := by
  have hnotified : Emits (fun _ ↦ False) Functor.isNotice
      { s with channel_ := s.channel_.disableWriting } (s.written n) :=
      emits_notifyWriteComplete _ n
  have hstate : (s.written n).state_ = s.state_ := hnotified.state
  have hchannel : (s.written n).channel_ = s.channel_.disableWriting :=
    (notifyWriteComplete_frame _ n).2.2
  -- interest in writing is off, so `shutdownInLoop` does shut the socket down
  have hwriting : (s.written n).channel_.isWriting = false := by
    rw [hchannel]
    exact s.channel_.disableWriting_tracks.writing
  show (if (s.written n).state_ = .kDisconnecting then (s.written n).shutdownInLoop
    else s.written n) = _
  rw [hstate, shutdownInLoop, hwriting]
  rfl

theorem turn_handleWrite (hout : s.revents_.EPOLLOUT = true) (rest : List Task)
    (result : WriteResult) :
    Turn s (.writeStage result) ({ s with todo := rest }.handleWrite result) := by
  have hpopped : Mute s { s with todo := rest } [] := .silent (.inl rfl) rfl rfl rfl
  -- no write, a short one, and one that takes the rest of the buffer
  rcases handleWrite_cases { s with todo := rest } result with
    heq | ⟨n, hn, hne, ⟨hrest, heq⟩ | ⟨hrest, heq⟩⟩
  · rw [heq]
    exact .mute hpopped
  · rw [heq]
    exact .mute (hpopped.trans (mute_afterWrite _ n))
  · have hall : s.outputBuffer_.length ≤ n := List.drop_eq_nil_iff.mp hrest
    have hwhole : s.outputBuffer_.take n = s.outputBuffer_ := List.take_of_length_le hall
    have hwritten := (hpopped.trans (mute_afterWrite _ n)).trans
      (mute_written _ (s.outputBuffer_.take n).length)
    rw [heq, drained_eq]
    split
    next hstate =>
      subst hn
      -- the only other place that shuts the socket down
      refine .drain _ ⟨hout, hstate, hne, hall⟩ hwritten ?_ rfl
      have htrace := (notifyWriteComplete_frame
        { afterWrite { s with todo := rest } n with channel_ := s.channel_.disableWriting }
        (s.outputBuffer_.take n).length).1
      refine htrace.trans ?_
      show s.trace ++ [.written (s.outputBuffer_.take n)] = _
      rw [hwhole]
    next => exact .mute hwritten

theorem turn_call (hs : s.Alive) (c : Call) (result : WriteResult) :
    Turn s (.call c result) (s.call c result) := by
  have hstored : Mute s { s with state_ := .kDisconnecting } [] :=
    .silent (.inr (by simp)) rfl rfl rfl
  cases c with
  | send message =>
    simp only [call]
    split
    next hconnected =>
      have hopen : (s.record (.sent .loop message)).state_ ≠ .kDisconnected :=
        alive_ne_disconnected hs
      exact .sendNow message ((Mute.record s (e := .sent .loop message) rfl).trans
        (mute_sendInLoop hopen .loop message result))
    next => exact .mute (.refl s)
  | shutdown =>
    simp only [call]
    split
    next hconnected => exact .call hconnected rfl
    next => exact .mute (.refl s)
  | forceClose =>
    simp only [call, if_pos hs]
    exact .mute (hstored.trans (.queueInLoop _ (by decide)))
  | forceCloseWithDelay =>
    simp only [call, if_pos hs]
    exact .mute hstored
  | startRead => exact .mute (mute_startReadInLoop s)
  | stopRead => exact .mute (mute_stopReadInLoop s)
  | retrieveInput len => exact .mute (.silent (.inl rfl) rfl rfl rfl)

theorem turn_functor (hs : s.Alive) {cb : Functor} {rest : List Functor}
    (hpending : s.pendingFunctors_ = cb :: rest) {result : WriteResult} (ht : t.Alive)
    (hrun : { s with pendingFunctors_ := rest }.runFunctor result cb = .ok t) (l : Label) :
    Turn s l t := by
  have hopen : ({ s with pendingFunctors_ := rest } : TcpConnection).state_ ≠ .kDisconnected :=
    alive_ne_disconnected hs
  cases cb with
  | sendInLoop caller message =>
    cases hrun
    exact .popped _ rest hpending (by simp) (mute_sendInLoop hopen caller message result)
  | shutdownInLoop =>
    cases hrun
    exact .functor rest hpending rfl
  | forceCloseInLoop =>
    simp only [TcpConnection.runFunctor] at hrun
    split at hrun
    · -- `handleClose` takes it down, which is no turn of a connection that is up
      exact absurd ht (not_alive_of_disconnected (handleClose_state hrun))
    · cases hrun
      exact .popped _ rest hpending (by decide) (.refl _)
  | startReadInLoop =>
    cases hrun
    exact .popped _ rest hpending (by decide) (mute_startReadInLoop _)
  | stopReadInLoop =>
    cases hrun
    exact .popped _ rest hpending (by decide) (mute_stopReadInLoop _)
  | writeComplete =>
    cases hrun
    exact .popped _ rest hpending (by decide) (.silent (.inl rfl) rfl rfl rfl)
  | highWaterMark size =>
    cases hrun
    exact .popped _ rest hpending (by simp) (.silent (.inl rfl) rfl rfl rfl)
  | connectDestroyed =>
    cases hrun
    refine .popped _ rest hpending (by decide) ?_
    unfold connectDestroyed
    split <;> exact .silent (.inl rfl) rfl rfl rfl

theorem turn_threadCall (s : TcpConnection) (n : Nat) (c : Call) :
    Turn s (.thread n c) (s.threadCall n c) := by
  cases c with
  | send message =>
    simp only [threadCall]
    split
    next =>
      exact .mute ((Mute.record s (e := .sent (.thread n) message) rfl).trans
        (.setThread _ n (by simp)))
    next => exact .mute (.refl s)
  | shutdown =>
    simp only [threadCall]
    split
    next => exact .mute (.setThread s n (by decide))
    next => exact .mute (.refl s)
  | forceClose =>
    simp only [threadCall]
    split
    next => exact .mute (.setThread s n (by decide))
    next => exact .mute (.refl s)
  | forceCloseWithDelay =>
    simp only [threadCall]
    split
    next => exact .mute (.setThread s n (by decide))
    next => exact .mute (.refl s)
  | startRead => exact .mute (.queueInLoop s (by decide))
  | stopRead => exact .mute (.queueInLoop s (by decide))
  | retrieveInput len => exact .mute (.refl s)

theorem turn_threadProceed (s : TcpConnection) (n : Nat) :
    Turn s (.proceed n) (s.threadProceed n) := by
  have hstored : Mute s { s with state_ := .kDisconnecting } [] :=
    .silent (.inr (by simp)) rfl rfl rfl
  unfold threadProceed
  split
  next => exact .mute (.refl s)
  next message _ => exact .mute ((Mute.queueInLoop s (by simp)).trans (.setThread _ n (by decide)))
  next => exact .store n rfl
  next hthread => exact .queue n hthread rfl
  next => exact .mute (hstored.trans (.setThread _ n (by decide)))
  next => exact .mute ((Mute.queueInLoop s (by decide)).trans (.setThread _ n (by decide)))
  next => exact .mute (hstored.trans (.setThread _ n (by decide)))

/-- **One step of an open connection, as a shutdown sees it.** -/
theorem turn_of_step (hs : s.Alive) {l : Label} (hstep : Step s l t) (ht : t.Alive) :
    Turn s l t := by
  have hpopped : ∀ rest, Mute s { s with todo := rest } [] := fun _ ↦ .silent (.inl rfl) rfl rfl rfl
  cases step_cases hstep with
  | poll => exact .mute (.silent (.inl rfl) rfl rfl rfl)
  | hangUp _ _ _ hclose => exact absurd ht (not_alive_of_disconnected (handleClose_state hclose))
  | handleEvent => exact .mute (.silent (.inl rfl) rfl rfl rfl)
  | read _ _ hread => exact .mute ((hpopped _).trans (mute_handleRead hread ht))
  | noRead => exact .mute (hpopped _)
  | @writeStage rest result =>
    unfold TcpConnection.writeStage
    split
    next hout => exact turn_handleWrite (s := s) hout rest result
    next => exact .mute (hpopped rest)
  | @closing rest =>
    have hclosed := (hpopped rest).trans (.record _ (e := .close) rfl)
    exact .mute (hclosed.trans (.silent (.inl rfl) rfl rfl rfl))
  -- `destroyStore` takes the connection down
  | destroyStore => exact absurd ht (not_alive_of_disconnected rfl)
  | removeChannel => exact .mute (.silent (.inl rfl) rfl rfl rfl)
  | ret => exact .mute (hpopped _)
  | functor _ _ hpending hrun => exact turn_functor hs hpending ht hrun _
  | @call c result => exact turn_call hs c result
  | destroy => exact .mute (.queueInLoop s (by decide))
  | @thread n c => exact turn_threadCall s n c
  | @proceed n => exact turn_threadProceed s n

/-! ## The invariants -/

/-- Nobody has asked to shut the connection down. -/
structure Unasked (s : TcpConnection) : Prop where
  queue : .shutdownInLoop ∉ s.pendingFunctors_
  threads : ∀ n, s.threads n ≠ .shutdownQueue
  trace : ∀ caller, .shutdownCalled caller ∉ s.trace

theorem shutdownInLoop_state (s : TcpConnection) : s.shutdownInLoop.state_ = s.state_ := by
  unfold shutdownInLoop
  split <;> rfl

theorem Mute.unasked {done : List (Caller × Bytes)} (h : Mute s t done) (hs : Unasked s) :
    Unasked t := by
  rcases h.trace with ⟨es, hes, hquiet⟩
  rcases h.pending with ⟨cbs, hcbs, hno⟩
  refine ⟨?_, fun n hn ↦ hs.threads n (h.threads n hn), fun caller hmem ↦ ?_⟩
  · rw [hcbs, List.mem_append]
    rintro (hmem | hmem)
    · exact hs.queue hmem
    · exact hno hmem
  · rw [hes, List.mem_append] at hmem
    rcases hmem with hmem | hmem
    · exact hs.trace caller hmem
    · cases hquiet _ hmem

/-- As long as the connection is in `kConnected`: whoever asks stores `kDisconnecting` first. -/
theorem Turn.unasked {l : Label} (h : Turn s l t) (hs : s.state_ = .kConnected → Unasked s)
    (ht : t.state_ = .kConnected) : Unasked t := by
  -- nothing leads back to `kConnected`
  have hconnected : ∀ {u : TcpConnection} {done : List (Caller × Bytes)}, Mute u t done →
      u.state_ = .kConnected := by
    intro _ _ hm
    rcases hm.state with heq | hne
    · rw [← heq, ht]
    · exact absurd ht hne
  cases h with
  | mute hm => exact hm.unasked (hs (hconnected hm))
  | sendNow message hm => exact hm.unasked (hs (hconnected hm))
  | popped cb rest hpending hcb hm =>
    have hstate : s.state_ = .kConnected := hconnected (u := { s with pendingFunctors_ := rest }) hm
    have hunasked := hs hstate
    refine hm.unasked ⟨?_, hunasked.threads, hunasked.trace⟩
    have hqueue := hunasked.queue
    rw [hpending, List.mem_cons, not_or] at hqueue
    exact hqueue.2
  | functor rest hpending heq =>
    rw [heq, shutdownInLoop_state] at ht
    exact absurd (by rw [hpending]; simp) (hs ht).queue
  | drain u hdrains hm htrace heq =>
    -- a drain that shuts down is one in `kDisconnecting`
    have hu : u.state_ = .kConnected := by
      rw [heq] at ht
      exact ht
    rcases hm.state with hstate | hne
    · cases l with
      | writeStage result =>
        cases result with
        | count n =>
          rw [hstate, hdrains.2.1] at hu
          cases hu
        | error e => exact hdrains.elim
      | _ => exact hdrains.elim
    · exact absurd hu hne
  | call hstate heq =>
    rw [heq, shutdownInLoop_state] at ht
    cases ht
  | store n heq =>
    rw [heq] at ht
    cases ht
  | queue n hn heq =>
    rw [heq] at ht
    exact absurd hn ((hs ht).threads n)

/-- The messages have been processed or stand in the queue, before any `shutdownInLoop`. -/
def Ahead (caller : Caller) (messages : List Bytes) (s : TcpConnection) : Prop :=
  ∃ old new, s.pendingFunctors_ = old ++ new ∧ .shutdownInLoop ∉ old ∧
    messages <+: ofCaller caller (processed s.trace) ++ ofCaller caller (queued old)

theorem Ahead.extend {caller : Caller} {messages : List Bytes} (h : Ahead caller messages s)
    (hpending : ∃ cbs, t.pendingFunctors_ = s.pendingFunctors_ ++ cbs)
    (hprocessed : processed t.trace = processed s.trace) : Ahead caller messages t := by
  rcases h with ⟨old, new, hsplit, hno, hmessages⟩
  rcases hpending with ⟨cbs, hcbs⟩
  exact ⟨old, new ++ cbs, by rw [hcbs, hsplit, List.append_assoc], hno, by
    rw [hprocessed]; exact hmessages⟩

theorem shutdownInLoop_frame (s : TcpConnection) :
    s.shutdownInLoop.pendingFunctors_ = s.pendingFunctors_ ∧
      processed s.shutdownInLoop.trace = processed s.trace := by
  unfold shutdownInLoop
  split
  · exact ⟨rfl, rfl⟩
  · exact ⟨rfl, by simp [TcpConnection.record, processed, Event.processed?]⟩

theorem Turn.ahead {l : Label} {caller : Caller} {messages : List Bytes} (h : Turn s l t)
    (hsending : Sending s) (hahead : Ahead caller messages s) : Ahead caller messages t := by
  cases h with
  | mute hm =>
    rcases hm.pending with ⟨cbs, hcbs, _⟩
    exact hahead.extend ⟨cbs, hcbs⟩ (by rw [hm.processed, List.append_nil])
  | sendNow message hm =>
    rcases hahead with ⟨old, new, hsplit, hno, hmessages⟩
    rcases hm.pending with ⟨cbs, hcbs, _⟩
    refine ⟨old, new ++ cbs, by rw [hcbs, hsplit, List.append_assoc], hno, ?_⟩
    rw [hm.processed, ofCaller_append]
    cases caller with
    | loop =>
      -- no message of the loop thread is in the queue
      have hothers := hsending.others
      rw [hsplit, queued_append, ofCaller_append] at hothers
      have hnone := (List.append_eq_nil_iff.mp hothers).1
      rw [hnone, List.append_nil] at hmessages ⊢
      exact hmessages.trans (List.prefix_append _ _)
    | thread n =>
      rw [show ofCaller (.thread n) [(.loop, message)] = [] by simp [ofCaller], List.append_nil]
      exact hmessages
  | popped cb rest hpending hcb hm =>
    rcases hahead with ⟨old, new, hsplit, hno, hmessages⟩
    rcases hm.pending with ⟨cbs, hcbs, _⟩
    have hrest : t.pendingFunctors_ = rest ++ cbs := hcbs
    have hprocessed : processed t.trace = processed s.trace ++ cb.send?.toList := hm.processed
    rw [hpending] at hsplit
    -- the functor is one of the old part of the queue, or there is none left
    cases old with
    | nil =>
      refine ⟨[], t.pendingFunctors_, rfl, by simp, ?_⟩
      rw [hprocessed, ofCaller_append, List.append_assoc]
      rw [show ofCaller caller (queued []) = [] from rfl, List.append_nil] at hmessages
      exact hmessages.trans (List.prefix_append _ _)
    | cons head old =>
      rcases List.cons.inj hsplit with ⟨rfl, hold⟩
      have hold' : rest = old ++ new := hold
      refine ⟨old, new ++ cbs, by rw [hrest, hold', List.append_assoc],
        fun hmem ↦ hno (List.mem_cons_of_mem _ hmem), ?_⟩
      have hqueued : queued (cb :: old) = cb.send?.toList ++ queued old := by
        cases hsend : cb.send? <;> simp [queued, hsend]
      rw [hqueued, ofCaller_append, ← List.append_assoc] at hmessages
      rw [hprocessed, ofCaller_append]
      exact hmessages
  | functor rest hpending heq =>
    rcases hahead with ⟨old, new, hsplit, hno, hmessages⟩
    rw [hpending] at hsplit
    cases old with
    | nil =>
      refine ⟨[], t.pendingFunctors_, rfl, by simp, ?_⟩
      rw [heq, (shutdownInLoop_frame _).2]
      exact hmessages
    | cons head old =>
      rcases List.cons.inj hsplit with ⟨rfl, _⟩
      exact absurd (by simp) hno
  | drain u hdrains hm htrace heq =>
    rcases hm.pending with ⟨cbs, hcbs, _⟩
    have hu := hahead.extend ⟨cbs, hcbs⟩ (by rw [hm.processed, List.append_nil])
    rw [heq]
    exact hu.extend ⟨[], by simp [TcpConnection.record]⟩
      (by simp [TcpConnection.record, processed, Event.processed?])
  | call hstate heq =>
    rcases shutdownInLoop_frame ({ s with state_ := .kDisconnecting }.record
        (.shutdownCalled .loop)) with
      ⟨hpending, hprocessed⟩
    rw [heq]
    refine hahead.extend ⟨[], by rw [hpending]; simp [TcpConnection.record]⟩ ?_
    rw [hprocessed]
    simp [TcpConnection.record, processed, Event.processed?]
  | store n heq =>
    rw [heq]
    exact hahead.extend ⟨[], by simp [TcpConnection.record, setThread]⟩
      (by simp [TcpConnection.record, setThread, processed, Event.processed?])
  | queue n hn heq =>
    rw [heq]
    exact hahead.extend ⟨[.shutdownInLoop], rfl⟩ rfl

/-! ## What has been accepted before the write side is shut down -/

/-- Every byte of these messages of a caller has been through `sendInLoop`. -/
def AllProcessed (caller : Caller) (messages : List Bytes) (trace : List Event) : Prop :=
  ∃ front back, messages = front ++ back ∧ front <+: ofCaller caller (processed trace) ∧
    back.flatten = []

/-- The kernel has every byte that has been processed, and the messages are among them. -/
def Delivered (caller : Caller) (messages : List Bytes) (trace : List Event) : Prop :=
  accepted trace = concat (processed trace) ∧ AllProcessed caller messages trace

/-- Once thread `n` has called `shutdown`, the write side is shut down behind the messages. -/
def ShutBehind (n : Nat) (caller : Caller) (messages : List Bytes) : List Event → Prop :=
  Warranted (· = .shutdownWrite) fun pre ↦
    .shutdownCalled (.thread n) ∈ pre → Delivered caller messages pre

/-- A drain that shuts the connection down finds none of the messages unprocessed. -/
def DrainClear (n : Nat) (caller : Caller) (messages : List Bytes) (s : TcpConnection) (l : Label) :
    Prop :=
  s.Drains l → .shutdownCalled (.thread n) ∈ s.trace → AllProcessed caller messages s.trace

theorem delivered_of_not_writing {caller : Caller} {messages : List Bytes} (hsending : Sending s)
    (hwriting : s.channel_.isWriting = false) (hall : AllProcessed caller messages s.trace) :
    Delivered caller messages s.trace := by
  refine ⟨?_, hall⟩
  have hempty : s.outputBuffer_ = [] := by
    have hpending : s.pending = false := hsending.interest.writing.symm.trans hwriting
    exact not_not.mp (of_decide_eq_false hpending)
  have hbytes := hsending.bytes
  rw [hempty, List.append_nil] at hbytes
  exact hbytes

theorem Turn.shutBehind {l : Label} {n : Nat} {caller : Caller} {messages : List Bytes}
    (h : Turn s l t) (hsending : Sending s) (hunasked : s.state_ = .kConnected → Unasked s)
    (hahead : Ahead caller messages s) (hclear : DrainClear n caller messages s l)
    (hshut : ShutBehind n caller messages s.trace) : ShutBehind n caller messages t.trace := by
  have hmute : ∀ {u : TcpConnection} {done : List (Caller × Bytes)}, u.trace = s.trace →
    Mute u t done →
      ShutBehind n caller messages t.trace := by
    intro u done hu hm
    rcases hm.trace with ⟨es, hes, hquiet⟩
    rw [hes, hu]
    refine hshut.append fun e he heq ↦ ?_
    rw [heq] at he
    cases hquiet _ he
  cases h with
  | mute hm => exact hmute rfl hm
  | sendNow message hm => exact hmute rfl hm
  | popped cb rest hpending hcb hm => exact hmute (u := { s with pendingFunctors_ := rest }) rfl hm
  | functor rest hpending heq =>
    -- a `shutdownInLoop` at the head: all messages that stood before it have been processed
    rcases hahead with ⟨old, new, hsplit, hno, hmessages⟩
    have hold : old = [] := by
      rw [hpending] at hsplit
      cases old with
      | nil => rfl
      | cons head old =>
        rcases List.cons.inj hsplit with ⟨rfl, _⟩
        exact absurd (by simp) hno
    rw [heq, shutdownInLoop]
    split
    next => exact hshut
    next hwriting =>
      refine hshut.snoc fun _ _ ↦ delivered_of_not_writing hsending (Bool.not_eq_true _ ▸
        hwriting) ?_
      rw [hold, show ofCaller caller (queued []) = [] from rfl, List.append_nil] at hmessages
      exact ⟨messages, [], (List.append_nil _).symm, hmessages, rfl⟩
  | drain u hdrains hm htrace heq =>
    have hwritten : ShutBehind n caller messages u.trace := by
      rw [htrace]
      exact hshut.snoc fun h ↦ (by cases h)
    rw [heq]
    refine hwritten.snoc fun _ hcalled ↦ ?_
    have hprocessed : processed u.trace = processed s.trace := by rw [hm.processed, List.append_nil]
    have hcalled' : .shutdownCalled (.thread n) ∈ s.trace := by
      rw [htrace] at hcalled
      simpa using hcalled
    -- here the queue says nothing, only the condition on drains
    rcases hclear hdrains hcalled' with ⟨front, back, hsplit, hfront, hback⟩
    refine ⟨?_, front, back, hsplit, by rw [hprocessed]; exact hfront, hback⟩
    -- the last write took the whole buffer
    rw [hprocessed, ← hsending.bytes, htrace, accepted_append]
    simp [accepted, Event.bytes]
  | call hstate heq =>
    -- in `kConnected` thread `n` has not called `shutdown` yet
    have hnone := (hunasked hstate).trace (.thread n)
    rw [heq, shutdownInLoop]
    have hcalled : ShutBehind n caller messages (s.trace ++ [.shutdownCalled .loop]) :=
      hshut.snoc fun h ↦ (by cases h)
    split
    next => exact hcalled
    next =>
      refine hcalled.snoc fun _ hmem ↦ ?_
      exact absurd (by simpa using hmem) hnone
  | store m heq =>
    rw [heq]
    exact hshut.snoc fun h ↦ (by cases h)
  | queue m hm heq =>
    rw [heq]
    exact hshut

/-! ## Runs -/

/-- The messages of a caller whose `send` has returned. -/
def returned (s : TcpConnection) (caller : Caller) : List Bytes :=
  ofCaller caller (processed s.trace ++ queued s.pendingFunctors_)

/-- The steps of an open connection whose socket is not found dead. -/
def Open (s : TcpConnection) (l : Label) : Prop :=
  s.Alive ∧ l.Soft

theorem open_run {mark : Nat} {wc hw : Bool} {ls : List Label}
    (h : Run (Guarded Step Open) (established mark wc hw) ls s) (hs : s.Alive) :
    Sending s ∧ (s.state_ = .kConnected → Unasked s) := by
  refine h.invariant (fun s ↦ s.Alive → Sending s ∧ (s.state_ = .kConnected → Unasked s)) ?_ ?_ hs
  · rintro s l t hinv ⟨hstep, hs, hsoft⟩ ht
    rcases hinv hs with ⟨hsending, hunasked⟩
    exact ⟨hsending.step (alive_ne_disconnected hs) hsoft hstep ht,
      (turn_of_step hs hstep ht).unasked hunasked⟩
  · intro _
    exact ⟨sending_established mark wc hw, fun _ ↦ ⟨by simp [established, fresh],
      by simp [established, fresh], by simp [established]⟩⟩

/-- What thread `n` has sent by the time it calls `shutdown` is what has returned. -/
theorem returned_eq_sent (h : Sending s) {n : Nat} (hidle : s.threads n = .idle) :
    returned s (.thread n) = ofCaller (.thread n) (sent s.trace) := by
  rw [h.order, returned, inFlight, hidle]
  exact (List.append_nil _).symm

theorem shut_run {n : Nat} {caller : Caller} {messages : List Bytes} {ls : List Label}
    (h : Run (Guarded Step fun s l ↦ Open s l ∧ DrainClear n caller messages s l) s ls t)
    (ht : t.Alive) (hsending : Sending s) (hunasked : s.state_ = .kConnected → Unasked s)
    (hahead : Ahead caller messages s) (hshut : ShutBehind n caller messages s.trace) :
    ShutBehind n caller messages t.trace := by
  have hinv := h.invariant (fun s ↦ s.Alive → Sending s ∧ (s.state_ = .kConnected → Unasked s) ∧
    Ahead caller messages s ∧ ShutBehind n caller messages s.trace) ?_
    fun _ ↦ ⟨hsending, hunasked, hahead, hshut⟩
  · exact (hinv ht).2.2.2
  · rintro s l t hinv ⟨hstep, ⟨hs, hsoft⟩, hclear⟩ ht
    rcases hinv hs with ⟨hsending, hunasked, hahead, hshut⟩
    have hturn := turn_of_step hs hstep ht
    exact ⟨hsending.step (alive_ne_disconnected hs) hsoft hstep ht, hturn.unasked hunasked,
      hturn.ahead hsending hahead, hturn.shutBehind hsending hunasked hahead hclear hshut⟩

/-- **The write side is shut down behind the messages.**  Thread `n` calls `shutdown` on a
connection in `kConnected`, anywhere in a run.  If from there on no drain shuts the connection down
with a message of `caller` unprocessed that had been sent before, every shutdown of the write side
finds all of them, and whatever else has been processed, accepted by the kernel. -/
theorem shutdown_after_sends {mark : Nat} {wc hw : Bool} {ls ls' : List Label} {n : Nat}
    {caller : Caller}
    {u : TcpConnection} (h : Run (Guarded Step Open) (established mark wc hw) ls s)
    (hs : s.state_ = .kConnected) (hcall : Step s (.thread n .shutdown) t)
    (h' : Run (Guarded Step fun s' l ↦ Open s' l ∧ DrainClear n caller (returned s caller) s' l)
    t ls' u)
    (hu : u.Alive) :
    returned s (.thread n) = ofCaller (.thread n) (sent s.trace) ∧
      ShutBehind n caller (returned s caller) u.trace := by
  rcases open_run h (.inl hs) with ⟨hsending, hunasked⟩
  simp only [Step, next] at hcall
  split at hcall
  next hidle =>
    cases hcall
    refine ⟨returned_eq_sent hsending hidle, ?_⟩
    -- the call begins with the load of `state_`; the queue of this moment is the old part from here
    -- on
    have hload : s.threadCall n .shutdown = s.setThread n .shutdownStore := by
      simp only [threadCall, if_pos hs]
    rw [hload] at h'
    have hnone := hunasked hs
    have hsending' : Sending (s.setThread n .shutdownStore) :=
      hsending.setThread (by rw [hidle]; rfl) rfl
    have hunasked' : Unasked (s.setThread n .shutdownStore) :=
      (Mute.setThread s n (by decide)).unasked hnone
    have hahead : Ahead caller (returned s caller) (s.setThread n .shutdownStore) := by
      refine ⟨s.pendingFunctors_, [], (List.append_nil _).symm, hnone.queue, ?_⟩
      rw [returned, ofCaller_append]
      exact List.prefix_rfl
    have hshut : ShutBehind n caller (returned s caller) (s.setThread n .shutdownStore).trace := by
      rintro pre e post hsplit _ hmem
      exact absurd (by rw [show s.trace = pre ++ e :: post from hsplit]; simp [hmem])
        (hnone.trace (.thread n))
    exact shut_run h' hu hsending' (fun _ ↦ hunasked') hahead hshut
  next => cases hcall

/-- A message, the shutdown behind it, and no event in between. -/
theorem shutdown_after_sends_queued :
    ∃ s t u, Run (Guarded Step Open) (established 1024 false false)
        [.ret, .thread 1 (.send [3]), .proceed 1] s ∧ s.state_ = .kConnected ∧
      Step s (.thread 1 .shutdown) t ∧
      Run (Guarded Step fun s' l ↦ Open s' l ∧
        DrainClear 1 (.thread 1) (returned s (.thread 1)) s' l) t
        [.proceed 1, .proceed 1, .functor (.count 1), .functor (.count 0)] u ∧
      .shutdownWrite ∈ u.trace ∧ returned s (.thread 1) = [[3]] ∧
      returned s (.thread 1) = ofCaller (.thread 1) (sent s.trace) ∧
      ShutBehind 1 (.thread 1) (returned s (.thread 1)) u.trace := by
  have hsoft : ∀ n, (WriteResult.count n).Soft := by simp [WriteResult.Soft]
  have hrun := show Run (Guarded Step Open) (established 1024 false false)
        [.ret, .thread 1 (.send [3]), .proceed 1] _ from
    .cons ⟨rfl, .inl rfl, trivial⟩ <| .cons ⟨rfl, .inl rfl, trivial⟩ <|
    .cons ⟨rfl, .inl rfl, trivial⟩ <| .nil _
  have hrun' := show Run (Guarded Step fun s' l ↦ Open s' l ∧ DrainClear 1 (.thread 1) [[3]] s' l)
        (follow (established 1024 false false)
          [.ret, .thread 1 (.send [3]), .proceed 1, .thread 1 .shutdown])
        [.proceed 1, .proceed 1, .functor (.count 1), .functor (.count 0)] _ from
    .cons ⟨rfl, ⟨.inl rfl, trivial⟩, fun h ↦ h.elim⟩ <|
      .cons ⟨rfl, ⟨.inr rfl, trivial⟩, fun h ↦ h.elim⟩ <|
    .cons ⟨rfl, ⟨.inr rfl, hsoft 1⟩, fun h ↦ h.elim⟩ <|
    .cons ⟨rfl, ⟨.inr rfl, hsoft 0⟩, fun h ↦ h.elim⟩ <| .nil _
  exact ⟨_, _, _, hrun, rfl, rfl,
    hrun', by decide, rfl, shutdown_after_sends hrun rfl rfl hrun' (.inr rfl)⟩

/-- The rest of a message of the loop thread is written while the message of another thread, which
has called `shutdown` behind it, is still in the queue. -/
theorem drain_shuts_before_queued :
    ¬ ∀ (mark : Nat) (wc hw : Bool) (ls ls' : List Label) (n : Nat) (s t u : TcpConnection),
        Run (Guarded Step Open) (established mark wc hw) ls s → s.state_ = .kConnected →
        Step s (.thread n .shutdown) t → Run (Guarded Step Open) t ls' u → u.Alive →
        ShutBehind n (.thread n) (returned s (.thread n)) u.trace := by
  intro h
  have hsoft : ∀ n, (WriteResult.count n).Soft := by simp [WriteResult.Soft]
  have hrun := show Run (Guarded Step Open) (established 1024 false false)
        [.call (.send [1, 2]) (.count 1), .ret, .thread 1 (.send [3]), .proceed 1] _ from
    .cons ⟨rfl, .inl rfl, hsoft 1⟩ <| .cons ⟨rfl, .inl rfl, trivial⟩ <|
    .cons ⟨rfl, .inl rfl, trivial⟩ <| .cons ⟨rfl, .inl rfl, trivial⟩ <| .nil _
  have hrun' := show Run (Guarded Step Open)
        (follow (established 1024 false false)
          [.call (.send [1, 2]) (.count 1), .ret, .thread 1 (.send [3]), .proceed 1,
          .thread 1 .shutdown])
        [.proceed 1, .poll { EPOLLOUT := true }, .handleEvent, .readStage (.error .EWOULDBLOCK),
          .writeStage (.count 1)] _ from
    .cons ⟨rfl, .inl rfl, trivial⟩ <| .cons ⟨rfl, .inr rfl, trivial⟩ <|
    .cons ⟨rfl, .inr rfl, trivial⟩ <| .cons ⟨rfl, .inr rfl, trivial⟩ <|
    .cons ⟨rfl, .inr rfl, trivial⟩ <| .nil _
  have hshut := h _ _ _ _ _ 1 _ _ _ hrun rfl rfl hrun' (.inr rfl)
  rcases hshut [.connection true, .sent .loop [1, 2], .processed .loop [1, 2], .written [1],
      .sent (.thread 1) [3], .shutdownCalled (.thread 1), .written [2]] .shutdownWrite [] rfl rfl
      (by decide) with ⟨_, front, back, hsplit, hfront, hback⟩
  -- the loop thread has processed none of the messages of thread 1
  have hnone : front = [] := List.prefix_nil.mp hfront
  subst hnone
  have hmessage : [[3]] = back := hsplit
  subst hmessage
  cases hback

end Pallette.TcpConnection
