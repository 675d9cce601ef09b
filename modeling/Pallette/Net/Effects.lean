import Pallette.Net.TcpConnection

/-!
# Effects — what the code of the loop thread adds to the trace and to the queue

One lemma for each function that neither closes the connection nor calls back: it leaves the state
of the connection and of every thread as it is, and adds events and functors of known kinds.
-/

namespace Pallette.TcpConnection

/-- `t` comes from `s` by events with `ev` and functors with `fn`. -/
structure Emits (ev : Event → Prop) (fn : Functor → Prop) (s t : TcpConnection) : Prop where
  state : t.state_ = s.state_
  revents : t.revents_ = s.revents_
  active : t.active = s.active
  todo : t.todo = s.todo
  trace : ∃ es, t.trace = s.trace ++ es ∧ ∀ e ∈ es, ev e
  pending : ∃ cbs, t.pendingFunctors_ = s.pendingFunctors_ ++ cbs ∧ ∀ cb ∈ cbs, fn cb
  threads : t.threads = s.threads

namespace Emits

variable {s t u : TcpConnection} {ev : Event → Prop} {fn : Functor → Prop}

theorem refl (s : TcpConnection) : Emits ev fn s s :=
  ⟨rfl, rfl, rfl, rfl, ⟨[], by simp⟩, ⟨[], by simp⟩, rfl⟩

theorem trans (h : Emits ev fn s t) (h' : Emits ev fn t u) : Emits ev fn s u := by
  rcases h.trace with ⟨es, hes, hev⟩
  rcases h'.trace with ⟨es', hes', hev'⟩
  rcases h.pending with ⟨cbs, hcbs, hfn⟩
  rcases h'.pending with ⟨cbs', hcbs', hfn'⟩
  refine ⟨h'.state.trans h.state, h'.revents.trans h.revents, h'.active.trans h.active,
    h'.todo.trans h.todo, ⟨es ++ es', ?_, ?_⟩, ⟨cbs ++ cbs', ?_, ?_⟩, h'.threads.trans h.threads⟩
  · rw [hes', hes, List.append_assoc]
  · intro e he
    exact (List.mem_append.mp he).elim (hev e) (hev' e)
  · rw [hcbs', hcbs, List.append_assoc]
  · intro cb hcb
    exact (List.mem_append.mp hcb).elim (hfn cb) (hfn' cb)

/-- Fields that only the bytes depend on. -/
theorem fields (s : TcpConnection) (channel : Channel) (output : Bytes) (written : Nat)
    (reading : Bool) :
    Emits ev fn s { s with
      channel_ := channel, outputBuffer_ := output, bytesSent_ := written, reading_ := reading } :=
  ⟨rfl, rfl, rfl, rfl, ⟨[], by simp⟩, ⟨[], by simp⟩, rfl⟩

theorem record (s : TcpConnection) {e : Event} (he : ev e) : Emits ev fn s (s.record e) :=
  ⟨rfl, rfl, rfl, rfl, ⟨[e], rfl, by simpa using he⟩, ⟨[], by simp [TcpConnection.record]⟩, rfl⟩

theorem queueInLoop (s : TcpConnection) {cb : Functor} (hcb : fn cb) :
    Emits ev fn s (s.queueInLoop cb) :=
  ⟨rfl, rfl, rfl, rfl, ⟨[], by simp [TcpConnection.queueInLoop]⟩,
    ⟨[cb], rfl, by simpa using hcb⟩, rfl⟩

end Emits

/-! ## The kinds -/

def Event.isWritten : Event → Prop
  | .written _ => True
  | _ => False

/-- What the socket is made to do. -/
def Event.isOutput : Event → Prop
  | .written _ | .shutdownWrite => True
  | _ => False

/-- The functors that call back about what has been written. -/
def Functor.isNotice : Functor → Prop
  | .writeComplete | .highWaterMark _ => True
  | _ => False

variable {ev : Event → Prop}

theorem emits_notifyWriteComplete (s : TcpConnection) (n : Nat) :
    Emits ev Functor.isNotice s (s.notifyWriteComplete n) := by
  unfold notifyWriteComplete
  split
  · exact (Emits.fields s s.channel_ s.outputBuffer_ (s.bytesSent_ + n) s.reading_).trans
      (.queueInLoop _ trivial)
  · exact .refl s

theorem emits_notifyHighWaterMark (s : TcpConnection) (n : Nat) :
    Emits ev Functor.isNotice s (s.notifyHighWaterMark n) := by
  simp only [notifyHighWaterMark]
  split
  · exact .queueInLoop s trivial
  · exact .refl s

theorem emits_directWrite (s : TcpConnection) (message : Bytes) (result : WriteResult) :
    Emits Event.isWritten Functor.isNotice s (s.directWrite message result).after := by
  unfold directWrite
  split
  next n =>
    have hwritten : Emits Event.isWritten Functor.isNotice s
        (s.record (.written (message.take n))) := .record s trivial
    dsimp only
    split
    · exact hwritten.trans (emits_notifyWriteComplete _ _)
    · exact hwritten
  next => exact .refl s

theorem emits_keep (s : TcpConnection) (remaining : Bytes) :
    Emits ev Functor.isNotice s (s.keep remaining) := by
  have hnotified : Emits ev Functor.isNotice s (s.notifyHighWaterMark remaining.length) :=
    emits_notifyHighWaterMark s remaining.length
  simp only [keep]
  generalize s.notifyHighWaterMark remaining.length = u at hnotified ⊢
  have hbuffered := hnotified.trans (.fields u u.channel_ (u.outputBuffer_ ++ remaining)
    u.bytesSent_
    u.reading_)
  split
  · exact hbuffered
  · exact hbuffered.trans (.fields _ u.channel_.enableWriting _ u.bytesSent_ u.reading_)

/-- `sendInLoop` on an open connection: the message counts as processed, and the rest is about
it. -/
theorem emits_sendInLoop {s : TcpConnection} (hs : s.state_ ≠ .kDisconnected) (caller : Caller)
    (message : Bytes) (result : WriteResult) :
    Emits Event.isWritten Functor.isNotice (s.record (.processed caller message))
      (s.sendInLoop caller message result) := by
  -- whatever the socket takes, the rest of `sendInLoop` only buffers and notifies
  simp only [sendInLoop, if_neg hs]
  have htried : Emits Event.isWritten Functor.isNotice (s.record (.processed caller message))
      ((s.record (.processed caller message)).tryWrite message result).after := by
    unfold tryWrite
    split
    · exact emits_directWrite _ message result
    · exact .refl _
  split
  · exact htried.trans (emits_keep _ _)
  · exact htried

theorem emits_startReadInLoop (s : TcpConnection) :
    Emits (fun _ ↦ False) (fun _ ↦ False) s s.startReadInLoop := by
  unfold startReadInLoop
  split
  · exact .fields s s.channel_.enableReading s.outputBuffer_ s.bytesSent_ true
  · exact .refl s

theorem emits_stopReadInLoop (s : TcpConnection) :
    Emits (fun _ ↦ False) (fun _ ↦ False) s s.stopReadInLoop := by
  unfold stopReadInLoop
  split
  · exact .fields s s.channel_.disableReading s.outputBuffer_ s.bytesSent_ false
  · exact .refl s

theorem emits_shutdownInLoop (s : TcpConnection) :
    Emits Event.isOutput Functor.isNotice s s.shutdownInLoop := by
  unfold shutdownInLoop
  split
  · exact .refl s
  · exact .record s trivial

theorem emits_drained (s : TcpConnection) (n : Nat) :
    Emits Event.isOutput Functor.isNotice s (s.drained n) := by
  have hdisabled : Emits Event.isOutput Functor.isNotice s
      { s with channel_ := s.channel_.disableWriting } :=
    .fields s s.channel_.disableWriting s.outputBuffer_ s.bytesSent_ s.reading_
  have hnotified := hdisabled.trans (emits_notifyWriteComplete _ n)
  simp only [drained]
  split
  · exact hnotified.trans (emits_shutdownInLoop _)
  · exact hnotified

theorem emits_handleWrite (s : TcpConnection) (result : WriteResult) :
    Emits Event.isOutput Functor.isNotice s (s.handleWrite result) := by
  unfold handleWrite
  split
  next n =>
    split
    next =>
      have hretrieved : Emits Event.isOutput Functor.isNotice s
          { s with outputBuffer_ := s.outputBuffer_.drop n } :=
        .fields s s.channel_ (s.outputBuffer_.drop n) s.bytesSent_ s.reading_
      have hwritten : Emits Event.isOutput Functor.isNotice s
          ({ s with outputBuffer_ := s.outputBuffer_.drop n }.record
            (.written (s.outputBuffer_.take n))) := hretrieved.trans (.record _ trivial)
      dsimp only
      split
      · exact hwritten.trans (emits_drained _ _)
      · exact hwritten
    next => exact .refl s
  next => exact .refl s

theorem emits_writeStage (s : TcpConnection) (result : WriteResult) :
    Emits Event.isOutput Functor.isNotice s (s.writeStage result) := by
  unfold writeStage
  split
  · exact emits_handleWrite s result
  · exact .refl s

end Pallette.TcpConnection
