import Pallette.Net.Effects
import Pallette.Reasoning.Run

/-!
# Closing — a connection goes down once

In the loop thread, calls and writes never change whether a connection is up (`Quiet`); only
`handleClose` and `connectDestroyed` do.  `closes_once`: as long as no hang-up is reported for a
closed connection, and a hang-up that closes one is not followed by a successful read in the same
dispatch, the connection is closed at most once and nothing is delivered after that.
-/

open Reasoning

namespace Pallette.TcpConnection

/-- The events that are calls into user code. -/
def Event.isCallback : Event → Bool
  | .connection _ | .message | .close => true
  | _ => false

/-! ## What changes nothing about closing -/

/-- `t` comes from `s` by something that neither closes nor calls back. -/
structure Quiet (s t : TcpConnection) : Prop where
  state : t.state_ = s.state_ ∨ (s.Alive ∧ t.Alive)
  channel : s.state_ = .kDisconnected → s.channel_.Disabled → t.channel_.Disabled
  revents : t.revents_ = s.revents_
  active : t.active = s.active
  todo : t.todo = s.todo
  trace : ∃ es, t.trace = s.trace ++ es ∧ ∀ e ∈ es, e.isCallback = false
  pending : ∃ cbs, t.pendingFunctors_ = s.pendingFunctors_ ++ cbs ∧ .startReadInLoop ∉ cbs

namespace Quiet

variable {s t u : TcpConnection}

theorem alive_of_eq (h : t.state_ = s.state_) : t.Alive ↔ s.Alive := by
  unfold Alive
  rw [h]

theorem alive (h : Quiet s t) : t.Alive ↔ s.Alive := by
  rcases h.state with heq | ⟨hs, ht⟩
  · exact alive_of_eq heq
  · exact iff_of_true ht hs

theorem disconnected (h : Quiet s t) : t.state_ = .kDisconnected ↔ s.state_ = .kDisconnected := by
  rcases h.state with heq | ⟨hs, ht⟩
  · rw [heq]
  · refine iff_of_false ?_ ?_
    · rcases ht with ht | ht <;> rw [ht] <;> decide
    · rcases hs with hs | hs <;> rw [hs] <;> decide

theorem refl (s : TcpConnection) : Quiet s s :=
  ⟨.inl rfl, fun _ h ↦ h, rfl, rfl, rfl, ⟨[], by simp⟩, ⟨[], by simp⟩⟩

theorem trans (h : Quiet s t) (h' : Quiet t u) : Quiet s u := by
  rcases h.trace with ⟨es, hes, hquiet⟩
  rcases h'.trace with ⟨es', hes', hquiet'⟩
  rcases h.pending with ⟨cbs, hcbs, hno⟩
  rcases h'.pending with ⟨cbs', hcbs', hno'⟩
  refine ⟨?_, fun hs hc ↦ h'.channel (h.disconnected.mpr hs) (h.channel hs hc), ?_, ?_, ?_,
    ⟨es ++ es', ?_, ?_⟩, ⟨cbs ++ cbs', ?_, ?_⟩⟩
  · rcases h'.state with heq' | ⟨ht, hu⟩
    · rcases h.state with heq | ⟨hs, ht⟩
      · exact .inl (heq'.trans heq)
      · exact .inr ⟨hs, (alive_of_eq heq').mpr ht⟩
    · exact .inr ⟨h.alive.mp ht, hu⟩
  · rw [h'.revents, h.revents]
  · rw [h'.active, h.active]
  · rw [h'.todo, h.todo]
  · rw [hes', hes, List.append_assoc]
  · intro e he
    rcases List.mem_append.mp he with he | he
    · exact hquiet e he
    · exact hquiet' e he
  · rw [hcbs', hcbs, List.append_assoc]
  · rw [List.mem_append]
    rintro (hmem | hmem)
    · exact hno hmem
    · exact hno' hmem

theorem record (s : TcpConnection) {e : Event} (he : e.isCallback = false) : Quiet s (s.record e) :=
  ⟨.inl rfl, fun _ h ↦ h, rfl, rfl, rfl, ⟨[e], rfl, by simpa using he⟩,
    ⟨[], by simp [TcpConnection.record]⟩⟩

theorem queueInLoop (s : TcpConnection) {cb : Functor} (hcb : .startReadInLoop ≠ cb) :
    Quiet s (s.queueInLoop cb) :=
  ⟨.inl rfl, fun _ h ↦ h, rfl, rfl, rfl, ⟨[], by simp [TcpConnection.queueInLoop]⟩,
    ⟨[cb], rfl, by simpa using hcb⟩⟩

/-- Fields the closing of a connection does not depend on. -/
theorem fields (s : TcpConnection) (input output : Bytes) (received sent : Nat) (reading : Bool) :
    Quiet s { s with
      inputBuffer_ := input, outputBuffer_ := output, bytesReceived_ := received,
      bytesSent_ := sent,
      reading_ := reading } :=
  ⟨.inl rfl, fun _ h ↦ h, rfl, rfl, rfl, ⟨[], by simp⟩, ⟨[], by simp⟩⟩

theorem withChannel (s : TcpConnection) (c : Channel)
    (hc : s.state_ = .kDisconnected → s.channel_.Disabled → c.Disabled) :
    Quiet s { s with channel_ := c } :=
  ⟨.inl rfl, hc, rfl, rfl, rfl, ⟨[], by simp⟩, ⟨[], by simp⟩⟩

theorem withState (h : s.Alive) {st : StateE} (hst : st = .kConnected ∨ st = .kDisconnecting) :
    Quiet s { s with state_ := st } :=
  ⟨.inr ⟨h, hst⟩, fun _ h ↦ h, rfl, rfl, rfl, ⟨[], by simp⟩, ⟨[], by simp⟩⟩

end Quiet

variable {s t : TcpConnection}

theorem quiet_shutdownInLoop (s : TcpConnection) : Quiet s s.shutdownInLoop := by
  unfold shutdownInLoop
  split
  · exact .refl s
  · exact .record s rfl

theorem quiet_stopReadInLoop (s : TcpConnection) : Quiet s s.stopReadInLoop := by
  unfold stopReadInLoop
  split
  · exact (Quiet.withChannel s s.channel_.disableReading fun _ h ↦ h.disableReading).trans
      (.fields _ s.inputBuffer_ s.outputBuffer_ s.bytesReceived_ s.bytesSent_ false)
  · exact .refl s

/-- What only adds events and functors, with what it does to the channel. -/
theorem Quiet.of_emits {ev : Event → Prop} {fn : Functor → Prop} (h : Emits ev fn s t)
    (hev : ∀ e, ev e → e.isCallback = false) (hfn : ∀ cb, fn cb → cb ≠ .startReadInLoop)
    (hchannel : s.state_ = .kDisconnected → s.channel_.Disabled → t.channel_.Disabled) :
    Quiet s t := by
  rcases h.trace with ⟨es, hes, hall⟩
  rcases h.pending with ⟨cbs, hcbs, hall'⟩
  exact ⟨.inl h.state, hchannel, h.revents, h.active, h.todo,
    ⟨es, hes, fun e he ↦ hev e (hall e he)⟩, ⟨cbs, hcbs, fun hmem ↦ hfn _ (hall' _ hmem) rfl⟩⟩

theorem isNotice_quiet (cb : Functor) (hcb : cb.isNotice) : cb ≠ .startReadInLoop := by
  rintro rfl
  exact hcb

theorem quiet_sendInLoop (caller : Caller) (message : Bytes) (result : WriteResult) :
    Quiet s (s.sendInLoop caller message result) := by
  by_cases hopen : s.state_ = .kDisconnected
  · rw [sendInLoop, if_pos hopen]
    exact .refl s
  · have hprocessed : Quiet s (s.record (.processed caller message)) := .record s rfl
    have hwritten : ∀ e : Event, e.isWritten → e.isCallback = false := by
      intro e he
      cases e with
      | written data => rfl
      | _ => cases he
    exact hprocessed.trans (.of_emits (emits_sendInLoop hopen caller message result) hwritten
      isNotice_quiet fun hd ↦ absurd hd hopen)

theorem quiet_drained (hs : s.Alive) (n : Nat) : Quiet s (s.drained n) := by
  have hdisabled : Quiet s { s with channel_ := s.channel_.disableWriting } :=
    .withChannel s _ fun hd ↦ absurd hd (alive_ne_disconnected hs)
  have hemits : Emits (fun _ ↦ False) Functor.isNotice _ _ :=
    emits_notifyWriteComplete { s with channel_ := s.channel_.disableWriting } n
  have hnotified := hdisabled.trans (.of_emits hemits (fun _ h ↦ h.elim) isNotice_quiet
    fun hd ↦ absurd hd (alive_ne_disconnected hs))
  simp only [drained]
  split
  · exact hnotified.trans (quiet_shutdownInLoop _)
  · exact hnotified

/-- A closed connection has no interest in writing, so `handleWrite` finds nothing to do. -/
theorem quiet_handleWrite (hs : s.state_ ≠ .kConnecting)
    (hclosed : s.state_ = .kDisconnected → s.channel_.Disabled) (result : WriteResult) :
    Quiet s (s.handleWrite result) := by
  unfold handleWrite
  split
  next n =>
    split
    next hwriting =>
      -- `isWriting` holds, and a disabled channel has no interest
      have halive : s.Alive := by
        apply alive_of_ne hs
        intro hd
        have hwriting := hwriting.1
        rw [Channel.isWriting, (hclosed hd).1] at hwriting
        cases hwriting
      have hwritten := (Quiet.fields s s.inputBuffer_ (s.outputBuffer_.drop n) s.bytesReceived_
        s.bytesSent_ s.reading_).trans
        (.record _ (show (Event.written (s.outputBuffer_.take n)).isCallback = false from rfl))
      dsimp only
      split
      · exact hwritten.trans (quiet_drained (hwritten.alive.mpr halive) _)
      · exact hwritten
    next => exact .refl s
  next => exact .refl s

theorem quiet_writeStage (hs : s.state_ ≠ .kConnecting)
    (hclosed : s.state_ = .kDisconnected → s.channel_.Disabled) (result : WriteResult) :
    Quiet s (s.writeStage result) := by
  unfold writeStage
  split
  · exact quiet_handleWrite hs hclosed result
  · exact .refl s

theorem quiet_call {c : Call} (hc : c ≠ .startRead) (result : WriteResult) :
    Quiet s (s.call c result) := by
  cases c with
  | send message =>
    simp only [call]
    split
    · have hsent : Quiet s (s.record (.sent .loop message)) := .record s rfl
      exact hsent.trans (quiet_sendInLoop .loop message result)
    · exact .refl s
  | shutdown =>
    simp only [call]
    split
    next hconnected =>
      exact ((Quiet.withState (.inl hconnected) (.inr rfl)).trans (.record _ rfl)).trans
        (quiet_shutdownInLoop _)
    next => exact .refl s
  | forceClose =>
    simp only [call]
    split
    next halive => exact (Quiet.withState halive (.inr rfl)).trans (.queueInLoop _ (by simp))
    next => exact .refl s
  | forceCloseWithDelay =>
    simp only [call]
    split
    next halive => exact .withState halive (.inr rfl)
    next => exact .refl s
  | startRead => exact absurd rfl hc
  | stopRead => exact quiet_stopReadInLoop s
  | retrieveInput len =>
    exact .fields s (s.inputBuffer_.drop len) s.outputBuffer_ s.bytesReceived_ s.bytesSent_
      s.reading_

/-! ## The invariant -/

/-- No message is delivered behind the report that the connection is down. -/
def QuietAfterDown (trace : List Event) : Prop :=
  ∀ pre post, trace = pre ++ .connection false :: post → .message ∉ post

theorem quietAfterDown_of_not_mem {trace : List Event} (h : .connection false ∉ trace) :
    QuietAfterDown trace := by
  rintro pre post rfl
  exact absurd (by simp) h

theorem QuietAfterDown.append {trace es : List Event} (h : QuietAfterDown trace)
    (hes : .message ∉ es) : QuietAfterDown (trace ++ es) := by
  intro pre post hsplit
  rcases List.append_eq_append_iff.mp hsplit with ⟨mid, _, hpost⟩ | ⟨mid, hpre, hpost⟩
  · intro hmem
    exact hes (by rw [hpost]; simp [hmem])
  -- the report that the connection is down is either new, with only new events behind it, or was
  -- there
  · cases mid with
    | nil =>
      intro hmem
      exact hes (by rw [← List.nil_append es, ← hpost]; simp [hmem])
    | cons e mid =>
      rcases List.cons.inj hpost with ⟨rfl, hrest⟩
      rw [hrest]
      show .message ∉ mid ++ es
      rw [List.mem_append]
      rintro (hmem | hmem)
      · exact h pre mid hpre hmem
      · exact hes hmem

/-- What holds once the connection is closed. -/
structure Closed (s : TcpConnection) : Prop where
  disabled : s.channel_.Disabled
  down : s.trace.count (.connection false) ≤ 1
  close : s.trace.count .close + s.todo.count .closing ≤ 1
  quiet : QuietAfterDown s.trace
  reported : s.active = true → s.revents_.EPOLLIN = false ∧ s.revents_.EPOLLPRI = false
  reading : .readStage ∈ s.todo →
    s.revents_.EPOLLIN = true ∨ s.revents_.EPOLLPRI = true ∨ s.revents_.EPOLLHUP = true →
    s.revents_.EPOLLHUP = true ∧ s.revents_.EPOLLIN = false

structure Inv (s : TcpConnection) : Prop where
  state : s.state_ ≠ .kConnecting
  up : s.trace.count (.connection true) = 1
  no_restart : .startReadInLoop ∉ s.pendingFunctors_
  idle : s.todo ≠ [] → s.active = false
  stages : s.todo.count .readStage ≤ 1
  destroying : .destroyStore ∈ s.todo → s.Alive ∧ s.todo = [.destroyStore, .removeChannel]
  alive : s.Alive → .connection false ∉ s.trace ∧ .close ∉ s.trace ∧ .closing ∉ s.todo
  closed : s.state_ = .kDisconnected → Closed s

theorem inv_established (mark : Nat) (wc hw : Bool) : Inv (established mark wc hw) where
  state := by simp [established]
  up := by rfl
  no_restart := by simp [established, fresh]
  idle _ := rfl
  stages := by simp [established]
  destroying h := by simp [established] at h
  alive _ := by simp [established]
  closed h := by simp [established] at h

-- the events of a quiet step are no callbacks
theorem callback_not_mem {e : Event} {es : List Event} (h : ∀ e ∈ es, e.isCallback = false)
    (he : e.isCallback = true) : e ∉ es := by
  intro hmem
  rw [h e hmem] at he
  cases he

/-- Calls and writes keep it. -/
theorem Inv.quiet (h : Inv s) (q : Quiet s t) : Inv t := by
  rcases q.trace with ⟨es, htrace, hes⟩
  rcases q.pending with ⟨cbs, hpending, hcbs⟩
  -- what is quiet reports no callback of the life cycle
  have hcount : ∀ e : Event, e.isCallback = true → t.trace.count e = s.trace.count e := by
    intro e he
    rw [htrace, List.count_append, List.count_eq_zero.mpr (callback_not_mem hes he), Nat.add_zero]
  have hmem : ∀ e : Event, e.isCallback = true → (e ∈ t.trace ↔ e ∈ s.trace) := by
    intro e he
    rw [htrace, List.mem_append, or_iff_left (callback_not_mem hes he)]
  refine ⟨?_, ?_, ?_, ?_, ?_, ?_, ?_, ?_⟩
  · rcases q.state with heq | ⟨_, ht⟩
    · rw [heq]
      exact h.state
    · rcases ht with ht | ht <;> rw [ht] <;> decide
  · rw [hcount _ rfl]
    exact h.up
  · rw [hpending, List.mem_append]
    rintro (hp | hp)
    · exact h.no_restart hp
    · exact hcbs hp
  · rw [q.todo, q.active]
    exact h.idle
  · rw [q.todo]
    exact h.stages
  · rw [q.todo, q.alive]
    exact h.destroying
  · rw [q.todo, q.alive, hmem _ rfl, hmem _ rfl]
    exact h.alive
  · rw [q.disconnected]
    intro hs
    have hclosed := h.closed hs
    refine ⟨q.channel hs hclosed.disabled, ?_, ?_, ?_, ?_, ?_⟩
    · rw [hcount _ rfl]
      exact hclosed.down
    · rw [hcount _ rfl, q.todo]
      exact hclosed.close
    · rw [htrace]
      exact hclosed.quiet.append (callback_not_mem hes rfl)
    · rw [q.active, q.revents]
      exact hclosed.reported
    · rw [q.todo, q.revents]
      exact hclosed.reading

/-- Taking a task off the list keeps it. -/
theorem Inv.pop (h : Inv s) {task : Task} {rest : List Task} (htodo : s.todo = task :: rest)
    (hd : task ≠ .destroyStore) : Inv { s with todo := rest } := by
  refine ⟨h.state, h.up, h.no_restart, ?_, ?_, ?_, ?_, ?_⟩
  · intro _
    exact h.idle (by rw [htodo]; simp)
  · have hstages := h.stages
    rw [htodo, List.count_cons] at hstages
    exact (Nat.le_add_right _ _).trans hstages
  · intro hmem
    have hshape := (h.destroying (by rw [htodo]; exact List.mem_cons_of_mem _ hmem)).2
    rw [htodo] at hshape
    exact absurd (List.cons.inj hshape).1 hd
  · intro hs
    have hall := h.alive hs
    rw [htodo] at hall
    exact ⟨hall.1, hall.2.1, fun hmem ↦ hall.2.2 (List.mem_cons_of_mem _ hmem)⟩
  · intro hs
    have hclosed := h.closed hs
    refine ⟨hclosed.disabled, hclosed.down, ?_, hclosed.quiet, hclosed.reported, ?_⟩
    · have hclose := hclosed.close
      rw [htodo, List.count_cons] at hclose
      show s.trace.count .close + rest.count .closing ≤ 1
      omega
    · intro hmem
      exact hclosed.reading (by rw [htodo]; exact List.mem_cons_of_mem _ hmem)

/-- A callback that starts keeps it. -/
theorem Inv.callback (h : Inv s) (hidle : s.active = false) (hd : .destroyStore ∉ s.todo) :
    Inv (s.defer [.callback]) := by
  refine ⟨h.state, h.up, h.no_restart, fun _ ↦ hidle, ?_, ?_, ?_, ?_⟩
  · simpa [defer] using h.stages
  · intro hmem
    exact absurd (by simpa [defer] using hmem) hd
  · intro hs
    have hall := h.alive hs
    exact ⟨hall.1, hall.2.1, by simpa [defer] using hall.2.2⟩
  · intro hs
    have hclosed := h.closed hs
    refine ⟨hclosed.disabled, hclosed.down, ?_, hclosed.quiet, hclosed.reported, ?_⟩
    · simpa [defer] using hclosed.close
    · intro hmem
      exact hclosed.reading (by simpa [defer] using hmem)

/-- Closing an open connection keeps it, unless a read of the same dispatch could still follow. -/
theorem Inv.handleClose (h : Inv s) (hs : s.Alive) (hidle : s.active = false)
    (hd : .destroyStore ∉ s.todo)
    (hreading : .readStage ∈ s.todo → s.revents_.EPOLLHUP = true ∧ s.revents_.EPOLLIN = false) :
    ∃ t, s.handleClose = .ok t ∧ Inv t := by
  have hall := h.alive hs
  refine ⟨_, if_pos hs, ?_⟩
  refine ⟨by simp [defer, TcpConnection.record], ?_, h.no_restart, fun _ ↦ hidle, ?_, ?_, ?_, ?_⟩
  · simp only [defer, TcpConnection.record, connected]
    rw [List.count_append, h.up]
    rfl
  · simpa [defer, TcpConnection.record] using h.stages
  · intro hmem
    exact absurd (by simpa [defer, TcpConnection.record] using hmem) hd
  · intro hs'
    simp [Alive, defer, TcpConnection.record] at hs'
  · intro _
    have hzero : s.trace.count (.connection false) = 0 := List.count_eq_zero.mpr hall.1
    have hclose : s.trace.count .close = 0 := List.count_eq_zero.mpr hall.2.1
    have htodo : s.todo.count .closing = 0 := List.count_eq_zero.mpr hall.2.2
    refine ⟨s.channel_.disableAll_disabled, ?_, ?_, ?_, ?_, ?_⟩
    · simp [defer, TcpConnection.record, connected, hzero]
    · simp [defer, TcpConnection.record, hclose, htodo]
    · exact (quietAfterDown_of_not_mem hall.1).append (by simp [connected])
    · intro hactive
      exact absurd (hactive.symm.trans hidle) (by decide)
    · intro hmem _
      exact hreading (by simpa [defer, TcpConnection.record] using hmem)

/-! ## Runs of the owner loop -/

/-- The steps of the loop thread, without calls of `startRead`. -/
def Label.InLoop : Label → Prop
  | .thread _ _ | .proceed _ => False
  | .call c _ => c ≠ .startRead
  | _ => True

/-- A hang-up without input reaches only a connection that is not closed yet, and the read that
follows it in the same dispatch fails. -/
def HangUpHarmless (s : TcpConnection) : Label → Prop
  | .handleEvent =>
      s.revents_.EPOLLHUP = true → s.revents_.EPOLLIN = false → s.state_ ≠ .kDisconnected
  | .readStage result =>
      s.revents_.EPOLLHUP = true → s.revents_.EPOLLIN = false → ∃ e, result = .error e
  | _ => True

/-- The step fails no assertion in `handleClose` and ends, if it does, with the invariant. -/
def Keeps (r : Option (Except Assertion TcpConnection)) : Prop :=
  (∀ t, r = some (.ok t) → Inv t) ∧ r ≠ some (.error .handleClose)

theorem keeps_ok (h : Inv t) : Keeps (some (.ok t)) := by
  refine ⟨?_, by simp⟩
  intro u hu
  cases hu
  exact h

theorem keeps_none : Keeps none :=
  ⟨fun _ hu ↦ (by cases hu), by simp⟩

theorem Inv.startHandling (h : Inv s) (htodo : s.todo = [])
    (hreading : s.state_ = .kDisconnected →
      s.revents_.EPOLLIN = true ∨ s.revents_.EPOLLPRI = true ∨ s.revents_.EPOLLHUP = true →
      s.revents_.EPOLLHUP = true ∧ s.revents_.EPOLLIN = false) : Inv s.startHandling := by
  refine ⟨h.state, h.up, h.no_restart, fun _ ↦ rfl, ?_, ?_, ?_, ?_⟩
  · simp [TcpConnection.startHandling]
  · intro hmem
    simp [TcpConnection.startHandling] at hmem
  · intro hs
    have hall := h.alive hs
    exact ⟨hall.1, hall.2.1, by simp [TcpConnection.startHandling]⟩
  · intro hd
    have hclosed := h.closed hd
    have hclose := hclosed.close
    rw [htodo] at hclose
    exact ⟨hclosed.disabled, hclosed.down, hclose, hclosed.quiet,
      fun hactive ↦ absurd hactive (by simp [TcpConnection.startHandling]), fun _ ↦ hreading hd⟩

theorem keeps_handleEvent (h : Inv s) (htodo : s.todo = []) (hactive : s.active = true)
    (hharmless : HangUpHarmless s .handleEvent) : Keeps (some s.startHandling.closeStage) := by
  by_cases hd : s.state_ = .kDisconnected
  · -- of a closed connection nothing is reported but errors and hang-ups
    have hrevents := (h.closed hd).reported hactive
    have hhup : ¬ s.revents_.EPOLLHUP = true := fun hup ↦ hharmless hup hrevents.1 hd
    have hskip : s.startHandling.closeStage = .ok s.startHandling := if_neg fun hcond ↦ hhup hcond.1
    rw [hskip]
    apply keeps_ok
    apply h.startHandling htodo
    rintro _ (hin | hpri | hup)
    · exact absurd (hin.symm.trans hrevents.1) (by decide)
    · exact absurd (hpri.symm.trans hrevents.2) (by decide)
    · exact absurd hup hhup
  · have hstart := h.startHandling htodo fun hd' ↦ absurd hd' hd
    unfold closeStage
    split
    next hcond =>
      rcases hstart.handleClose (alive_of_ne h.state hd) rfl (by simp [TcpConnection.startHandling])
        fun _ ↦ ⟨hcond.1, by simpa using hcond.2⟩ with ⟨u, hu, hinv⟩
      rw [hu]
      exact keeps_ok hinv
    next => exact keeps_ok hstart

theorem keeps_readStage (h : Inv s) {rest : List Task} (htodo : s.todo = .readStage :: rest)
    (result : ReadResult) (hharmless : HangUpHarmless s (.readStage result)) :
    Keeps (some ({ s with todo := rest }.readStage result)) := by
  have hrest := h.pop htodo (by simp)
  have hidle : s.active = false := h.idle (by rw [htodo]; simp)
  have hread : .readStage ∉ rest := by
    have hstages := h.stages
    rw [htodo, List.count_cons_self] at hstages
    exact List.count_eq_zero.mp (by omega)
  have hdestroy : .destroyStore ∉ rest := by
    intro hmem
    have hshape := (h.destroying (by rw [htodo]; exact List.mem_cons_of_mem _ hmem)).2
    rw [htodo] at hshape
    cases hshape
  unfold readStage
  split
  next hcond =>
    by_cases hd : s.state_ = .kDisconnected
    · -- the dispatch that closed the connection reads once more
      have hhup := (h.closed hd).reading (by rw [htodo]; simp) hcond
      rcases hharmless hhup.1 hhup.2 with ⟨e, rfl⟩
      exact keeps_ok hrest
    · have hs : s.Alive := alive_of_ne h.state hd
      unfold handleRead
      split
      next =>
        rcases hrest.handleClose hs hidle hdestroy fun hmem ↦ absurd hmem hread with ⟨u, hu, hinv⟩
        rw [hu]
        exact keeps_ok hinv
      next bytes =>
        apply keeps_ok
        have hall := hrest.alive hs
        refine Inv.callback ?_ hidle hdestroy
        refine ⟨hrest.state, ?_, hrest.no_restart, hrest.idle, hrest.stages,
          hrest.destroying, ?_, ?_⟩
        · simp only [TcpConnection.record]
          rw [List.count_append, hrest.up]
          rfl
        · intro _
          simpa [TcpConnection.record] using hall
        · intro hd'
          exact absurd hd' hd
      next => exact keeps_ok hrest
  next => exact keeps_ok hrest

theorem keeps_resume (h : Inv s) : Keeps (s.next .resume) := by
  simp only [next]
  split
  next rest htodo =>
    -- the second half of `handleClose`
    have hidle : s.active = false := h.idle (by rw [htodo]; simp)
    have hd : s.state_ = .kDisconnected := by
      by_contra hd
      exact (h.alive (alive_of_ne h.state hd)).2.2 (by rw [htodo]; simp)
    -- a connection that `connectDestroyed` has to take down is still up
    have hdestroy : .destroyStore ∉ s.todo := fun hmem ↦
      alive_ne_disconnected (h.destroying hmem).1 hd
    have hclosed := h.closed hd
    have hclose := hclosed.close
    rw [htodo, List.count_cons_self] at hclose
    apply keeps_ok
    rw [htodo, List.mem_cons, not_or] at hdestroy
    refine Inv.callback ?_ hidle hdestroy.2
    have hpop := h.pop htodo (by simp)
    refine ⟨h.state, ?_, h.no_restart, hpop.idle, hpop.stages, hpop.destroying, ?_, ?_⟩
    · simp only [TcpConnection.record]
      rw [List.count_append, h.up]
      rfl
    · intro hs
      exact absurd hd (alive_ne_disconnected hs)
    · intro _
      refine ⟨hclosed.disabled, ?_, ?_, hclosed.quiet.append (by simp), hclosed.reported,
        (hpop.closed hd).reading⟩
      · simpa [TcpConnection.record] using hclosed.down
      · have hzero : s.trace.count .close = 0 := by omega
        have hnone : rest.count .closing = 0 := by omega
        simp [TcpConnection.record, hzero, hnone]
  next rest htodo =>
    have hidle : s.active = false := h.idle (by rw [htodo]; simp)
    have hshape := h.destroying (by rw [htodo]; simp)
    -- only `connectDestroyed` defers this, and nothing comes between its two halves
    have hrest : rest = [.removeChannel] := (List.cons.inj (htodo.symm.trans hshape.2)).2
    have hall := h.alive hshape.1
    subst hrest
    apply keeps_ok
    refine ⟨by simp [destroyStore, defer, TcpConnection.record], ?_, h.no_restart, fun _ ↦ hidle,
      ?_, ?_, ?_, ?_⟩
    · simp only [destroyStore, defer, TcpConnection.record, connected]
      rw [List.count_append, h.up]
      rfl
    · simp [destroyStore, defer, TcpConnection.record]
    · intro hmem
      simp [destroyStore, defer, TcpConnection.record] at hmem
    · intro hs
      simp [Alive, destroyStore, defer, TcpConnection.record] at hs
    · intro _
      have hzero : s.trace.count (.connection false) = 0 := List.count_eq_zero.mpr hall.1
      have hclose : s.trace.count .close = 0 := List.count_eq_zero.mpr hall.2.1
      refine ⟨s.channel_.disableAll_disabled, ?_, ?_, ?_, ?_, ?_⟩
      · simp [destroyStore, defer, TcpConnection.record, connected, hzero]
      · simp [destroyStore, defer, TcpConnection.record, hclose]
      · exact (quietAfterDown_of_not_mem hall.1).append (by simp [connected])
      · intro hactive
        exact absurd (hactive.symm.trans hidle) (by decide)
      · intro hmem
        simp [destroyStore, defer, TcpConnection.record] at hmem
  next rest htodo =>
    have hpop := h.pop htodo (by simp)
    unfold TcpConnection.removeChannel
    -- `remove` may fail an assertion, but not that of `handleClose`
    rcases s.channel_.remove_cases with ⟨a, ha, hne⟩ | ⟨c, hc, hevents, hreg⟩
    · simp only [ha]
      exact ⟨fun _ hu ↦ (by cases hu), fun hfail ↦ hne (by cases hfail; rfl)⟩
    · simp only [hc]
      exact keeps_ok (hpop.quiet (.withChannel _ c fun _ _ ↦
        Channel.disabled_of_unregistered hevents hreg))
  next => exact keeps_none

theorem keeps_functor (h : Inv s) (htodo : s.todo = []) (hidle : s.active = false) {cb : Functor}
    {rest : List Functor} (hpending : s.pendingFunctors_ = cb :: rest) (result : WriteResult) :
    Keeps (some ({ s with pendingFunctors_ := rest }.runFunctor result cb)) := by
  -- a queued `startReadInLoop` could put a removed channel back
  have hcb : cb ≠ .startReadInLoop := by
    rintro rfl
    exact h.no_restart (by rw [hpending]; simp)
  have hrest : Inv { s with pendingFunctors_ := rest } := by
    have hno := h.no_restart
    rw [hpending, List.mem_cons, not_or] at hno
    exact ⟨h.state, h.up, hno.2, h.idle, h.stages, h.destroying, h.alive,
      fun hd ↦ ⟨(h.closed hd).disabled, (h.closed hd).down, (h.closed hd).close,
      (h.closed hd).quiet, (h.closed hd).reported, (h.closed hd).reading⟩⟩
  have hdestroy : .destroyStore ∉ s.todo := by
    rw [htodo]
    simp
  cases cb with
  | sendInLoop caller message => exact keeps_ok (hrest.quiet (quiet_sendInLoop _ _ _))
  | shutdownInLoop => exact keeps_ok (hrest.quiet (quiet_shutdownInLoop _))
  | forceCloseInLoop =>
    simp only [runFunctor]
    split
    next hs =>
      rcases hrest.handleClose hs hidle hdestroy fun hmem ↦ (by rw [htodo] at hmem; cases hmem) with
        ⟨u, hu, hinv⟩
      rw [hu]
      exact keeps_ok hinv
    next => exact keeps_ok hrest
  | startReadInLoop => exact absurd rfl hcb
  | stopReadInLoop => exact keeps_ok (hrest.quiet (quiet_stopReadInLoop _))
  | writeComplete => exact keeps_ok (hrest.callback hidle hdestroy)
  | highWaterMark n => exact keeps_ok (hrest.callback hidle hdestroy)
  | connectDestroyed =>
    simp only [runFunctor, connectDestroyed]
    split
    next hconnected =>
      -- `connectDestroyed` with the connection up: the store comes first, the removal behind it
      have hall := h.alive (.inl hconnected)
      apply keeps_ok
      refine ⟨h.state, h.up, hrest.no_restart, fun _ ↦ hidle, ?_, ?_, ?_, ?_⟩
      · simp [defer, htodo]
      · intro _
        exact ⟨.inl hconnected, by simp [defer, htodo]⟩
      · intro _
        exact ⟨hall.1, hall.2.1, by simp [defer, htodo]⟩
      · intro hd
        exact absurd hd (alive_ne_disconnected (.inl hconnected))
    next =>
      -- it is down already: only the removal is left
      apply keeps_ok
      refine ⟨h.state, h.up, hrest.no_restart, fun _ ↦ hidle, ?_, ?_, ?_, ?_⟩
      · simp [defer, htodo]
      · intro hmem
        simp [defer, htodo] at hmem
      · intro hs
        have hall := h.alive hs
        exact ⟨hall.1, hall.2.1, by simp [defer, htodo]⟩
      · intro hd
        have hclosed := h.closed hd
        refine ⟨hclosed.disabled, hclosed.down, ?_, hclosed.quiet, hclosed.reported, ?_⟩
        · have hclose := hclosed.close
          rw [htodo] at hclose
          simpa [defer, htodo] using hclose
        · intro hmem
          simp [defer, htodo] at hmem

/-- **One step of the owner loop.**  Under the condition on hang-ups it keeps the invariant, and the
assertion in `handleClose` holds. -/
theorem keeps_next (h : Inv s) (l : Label) (hl : l.InLoop) (hharmless : HangUpHarmless s l) :
    Keeps (s.next l) := by
  cases l with
  | poll revents =>
    simp only [next]
    split
    next hpoll =>
      rcases hpoll with ⟨htodo, _, interest, hreg, hreport⟩
      apply keeps_ok
      refine ⟨h.state, h.up, h.no_restart, fun hne ↦ absurd htodo hne, h.stages, h.destroying,
        h.alive, ?_⟩
      intro hd
      have hclosed := h.closed hd
      -- what is reported of a disabled channel has no input
      have hmask := hclosed.disabled.mayReport hreg hreport
      refine ⟨hclosed.disabled, hclosed.down, hclosed.close, hclosed.quiet,
        fun _ ↦ ⟨hmask.1, hmask.2.1⟩, ?_⟩
      intro hmem
      rw [show ({ s with revents_ := revents, active := true } : TcpConnection).todo = [] from
        htodo] at hmem
      cases hmem
    next => exact keeps_none
  | handleEvent =>
    simp only [next]
    split
    next hready => exact keeps_handleEvent h hready.1 hready.2 hharmless
    next => exact keeps_none
  | readStage result =>
    simp only [next]
    split
    next rest htodo => exact keeps_readStage h htodo result hharmless
    next => exact keeps_none
  | writeStage result =>
    simp only [next]
    split
    next rest htodo =>
      have hpop := h.pop htodo (by simp)
      exact keeps_ok (hpop.quiet (quiet_writeStage hpop.state (fun hd ↦ (h.closed hd).disabled)
        result))
    next => exact keeps_none
  | resume => exact keeps_resume h
  | ret =>
    simp only [next]
    split
    next rest htodo => exact keeps_ok (h.pop htodo (by simp))
    next => exact keeps_none
  | functor result =>
    simp only [next]
    split
    next cb rest htodo hidle hpending => exact keeps_functor h htodo hidle hpending result
    next => exact keeps_none
  | call c result =>
    simp only [next]
    split
    next => exact keeps_ok (h.quiet (quiet_call hl result))
    next => exact keeps_none
  | destroy => exact keeps_ok (h.quiet (.queueInLoop s (by simp)))
  | thread n c => exact absurd hl id
  | proceed n => exact absurd hl id

/-- What an observer sees of a connection that closes once. -/
structure ClosedOnce (trace : List Event) : Prop where
  up : trace.count (.connection true) = 1
  down : trace.count (.connection false) ≤ 1
  close : trace.count .close ≤ 1
  quiet : QuietAfterDown trace

theorem Inv.closedOnce (h : Inv s) : ClosedOnce s.trace := by
  by_cases hd : s.state_ = .kDisconnected
  · have hclosed := h.closed hd
    exact ⟨h.up, hclosed.down, (Nat.le_add_right _ _).trans hclosed.close, hclosed.quiet⟩
  · have hall := h.alive (alive_of_ne h.state hd)
    refine ⟨h.up, ?_, ?_, quietAfterDown_of_not_mem hall.1⟩
    · rw [List.count_eq_zero.mpr hall.1]
      exact Nat.zero_le 1
    · rw [List.count_eq_zero.mpr hall.2.1]
      exact Nat.zero_le 1

/-- **A connection closes once.**  In every run of the owner loop whose hang-ups are harmless, the
assertion in `handleClose` never fails, the connection is reported up once and down at most once,
`closeCallback_` is called at most once, and no message is delivered after the connection is
down. -/
theorem closes_once {mark : Nat} {wc hw : Bool} {ls : List Label}
    (h : Run (Guarded Step fun s l ↦ l.InLoop ∧ HangUpHarmless s l) (established mark wc hw) ls s) :
    ClosedOnce s.trace ∧ ∀ l, l.InLoop → HangUpHarmless s l → ¬ Fails s l .handleClose := by
  have hinv : Inv s := by
    refine h.invariant Inv ?_ (inv_established mark wc hw)
    rintro s l t hs ⟨hstep, hl, hharmless⟩
    exact (keeps_next hs l hl hharmless).1 t hstep
  exact ⟨hinv.closedOnce, fun l hl hharmless ↦ (keeps_next hinv l hl hharmless).2⟩

/-- A peer that hangs up, and a read behind it that fails. -/
theorem closes_once_hangUp :
    ∃ s, Run (Guarded Step fun s l ↦ l.InLoop ∧ HangUpHarmless s l) (established 1 false false)
        [.ret, .poll { EPOLLHUP := true }, .handleEvent, .ret, .resume, .ret,
          .readStage (.error .ECONNRESET), .writeStage (.count 0)] s ∧
      ClosedOnce s.trace ∧ ∀ l, l.InLoop → HangUpHarmless s l → ¬ Fails s l .handleClose := by
  have hrun := show Run (Guarded Step fun s l ↦ l.InLoop ∧
    HangUpHarmless s l) (established 1 false false)
        [.ret, .poll { EPOLLHUP := true }, .handleEvent, .ret, .resume, .ret,
          .readStage (.error .ECONNRESET), .writeStage (.count 0)] _ from
    .cons ⟨rfl, trivial, trivial⟩ <| .cons ⟨rfl, trivial, trivial⟩ <|
    .cons ⟨rfl, trivial, fun _ _ ↦ by decide⟩ <| .cons ⟨rfl, trivial, trivial⟩ <|
    .cons ⟨rfl, trivial, trivial⟩ <| .cons ⟨rfl, trivial, trivial⟩ <|
    .cons ⟨rfl, trivial, fun _ _ ↦ ⟨_, rfl⟩⟩ <| .cons ⟨rfl, trivial, trivial⟩ <| .nil _
  exact ⟨_, hrun, closes_once hrun⟩

/-- With reading stopped and bytes still to be written, a hang-up is reported without input: the
read behind the close finds the end of the stream and closes again. -/
theorem hangUp_closes_twice :
    ¬ ∀ (mark : Nat) (wc hw : Bool) (ls : List Label) (s : TcpConnection),
        Run (Guarded Step fun _ l ↦ l.InLoop) (established mark wc hw) ls s →
        ClosedOnce s.trace ∧ ∀ l, l.InLoop → ¬ Fails s l .handleClose := by
  intro h
  have hrun := show Run (Guarded Step fun _ l ↦ l.InLoop) (established 1 false false)
        [.ret, .call (.send [1]) (.error .EWOULDBLOCK), .call .stopRead (.count 0),
          .poll { EPOLLERR := true, EPOLLHUP := true }, .handleEvent, .ret, .resume, .ret] _ from
    .cons ⟨rfl, trivial⟩ <| .cons ⟨rfl, by simp [Label.InLoop]⟩ <|
      .cons ⟨rfl, by simp [Label.InLoop]⟩ <|
    .cons ⟨rfl, trivial⟩ <| .cons ⟨rfl, trivial⟩ <| .cons ⟨rfl, trivial⟩ <|
    .cons ⟨rfl, trivial⟩ <| .cons ⟨rfl, trivial⟩ <| .nil _
  exact (h _ _ _ _ _ hrun).2 (.readStage (.data [])) trivial rfl

end Pallette.TcpConnection
