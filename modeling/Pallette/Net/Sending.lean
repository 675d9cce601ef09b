import Pallette.Net.Effects
import Pallette.Reasoning.Run

/-!
# Sending — bytes leave in the order their messages were processed

`Sending` relates what the kernel has accepted, the output buffer, the messages and the interest in
writing.  Every step of an open connection keeps it, unless the socket is found dead in
`sendInLoop`.
-/

open Reasoning

namespace Pallette.TcpConnection

/-! ## What a run has sent -/

def Event.bytes : Event → Bytes
  | .written data => data
  | _ => []

/-- The bytes the kernel has accepted. -/
def accepted (trace : List Event) : Bytes :=
  (trace.map Event.bytes).flatten

def Event.processed? : Event → Option (Caller × Bytes)
  | .processed caller text => some (caller, text)
  | _ => none

/-- The messages `sendInLoop` has taken, in order. -/
def processed (trace : List Event) : List (Caller × Bytes) :=
  trace.filterMap Event.processed?

def Event.sent? : Event → Option (Caller × Bytes)
  | .sent caller text => some (caller, text)
  | _ => none

/-- The messages `send` has taken, in order. -/
def sent (trace : List Event) : List (Caller × Bytes) :=
  trace.filterMap Event.sent?

def Functor.send? : Functor → Option (Caller × Bytes)
  | .sendInLoop caller message => some (caller, message)
  | _ => none

/-- The messages that wait in the queue. -/
def queued (cbs : List Functor) : List (Caller × Bytes) :=
  cbs.filterMap Functor.send?

/-- The messages of one caller. -/
def ofCaller (caller : Caller) (messages : List (Caller × Bytes)) : List Bytes :=
  (messages.filter fun p ↦ p.1 = caller).map Prod.snd

def ThreadState.unsent : ThreadState → List Bytes
  | .sendQueue message => [message]
  | _ => []

/-- The message a caller has been let to send but has not queued yet. -/
def inFlight (s : TcpConnection) : Caller → List Bytes
  | .loop => []
  | .thread n => (s.threads n).unsent

/-- The bytes of the messages, one message after the other. -/
def concat (messages : List (Caller × Bytes)) : Bytes :=
  (messages.map Prod.snd).flatten

@[simp] theorem accepted_append (t u : List Event) :
    accepted (t ++ u) = accepted t ++ accepted u := by
  simp [accepted]

@[simp] theorem processed_append (t u : List Event) :
    processed (t ++ u) = processed t ++ processed u := by
  simp [processed]

@[simp] theorem sent_append (t u : List Event) : sent (t ++ u) = sent t ++ sent u := by
  simp [sent]

@[simp] theorem queued_append (cbs cbs' : List Functor) :
    queued (cbs ++ cbs') = queued cbs ++ queued cbs' := by
  simp [queued]

theorem processed_eq_nil {es : List Event} (h : ∀ e ∈ es, e.processed? = none) :
    processed es = [] :=
  List.filterMap_eq_nil_iff.mpr h

theorem sent_eq_nil {es : List Event} (h : ∀ e ∈ es, e.sent? = none) : sent es = [] :=
  List.filterMap_eq_nil_iff.mpr h

theorem queued_eq_nil {cbs : List Functor} (h : ∀ cb ∈ cbs, cb.send? = none) : queued cbs = [] :=
  List.filterMap_eq_nil_iff.mpr h

@[simp] theorem ofCaller_append (caller : Caller) (l l' : List (Caller × Bytes)) :
    ofCaller caller (l ++ l') = ofCaller caller l ++ ofCaller caller l' := by
  simp [ofCaller]

@[simp] theorem concat_append (l l' : List (Caller × Bytes)) :
    concat (l ++ l') = concat l ++ concat l' := by
  simp [concat]

/-! ## The invariant -/

/-- The output buffer holds what is left to write. -/
def pending (s : TcpConnection) : Bool :=
  decide (s.outputBuffer_ ≠ [])

structure Sending (s : TcpConnection) : Prop where
  bytes : accepted s.trace ++ s.outputBuffer_ = concat (processed s.trace)
  interest : s.channel_.Tracks s.pending
  order : ∀ caller, ofCaller caller (sent s.trace) =
    ofCaller caller (processed s.trace ++ queued s.pendingFunctors_) ++ s.inFlight caller
  others : ofCaller .loop (queued s.pendingFunctors_) = []

theorem sending_established (mark : Nat) (wc hw : Bool) : Sending (established mark wc hw) where
  bytes := rfl
  interest := by
    -- `connectEstablished` has just asked for input, and there is no output
    have hnew : Channel.Tracks {} false := ⟨rfl, fun _ h ↦ (by cases h), by simp⟩
    exact Channel.enableReading_tracks hnew
  order caller := by cases caller <;> rfl
  others := rfl

/-- What `sendInLoop` and the handlers do to the bytes: `done` has been taken over, all of it is
written or buffered, and the interest in writing is right. -/
structure Moves (s t : TcpConnection) (done : List (Caller × Bytes)) : Prop where
  bytes : accepted t.trace ++ t.outputBuffer_ = accepted s.trace ++ s.outputBuffer_ ++ concat done
  interest : s.channel_.Tracks s.pending → t.channel_.Tracks t.pending
  processed : processed t.trace = processed s.trace ++ done
  sent : sent t.trace = sent s.trace
  queued : queued t.pendingFunctors_ = queued s.pendingFunctors_
  threads : t.threads = s.threads

namespace Moves

variable {s t u : TcpConnection} {done done' : List (Caller × Bytes)}

theorem refl (s : TcpConnection) : Moves s s [] :=
  ⟨by simp [concat], fun h ↦ h, by simp, rfl, rfl, rfl⟩

theorem trans (h : Moves s t done) (h' : Moves t u done') : Moves s u (done ++ done') where
  bytes := by rw [h'.bytes, h.bytes, concat_append, List.append_assoc]
  interest hs := h'.interest (h.interest hs)
  processed := by rw [h'.processed, h.processed, List.append_assoc]
  sent := h'.sent.trans h.sent
  queued := h'.queued.trans h.queued
  threads := h'.threads.trans h.threads

/-- Anything that leaves the buffer, the interest and the messages alone. -/
theorem idle (houtput : t.outputBuffer_ = s.outputBuffer_)
    (hchannel : ∀ p, s.channel_.Tracks p → t.channel_.Tracks p)
    (htrace : ∃ es, t.trace = s.trace ++ es ∧ accepted es = [] ∧
      TcpConnection.processed es = [] ∧ TcpConnection.sent es = [])
    (hqueued : TcpConnection.queued t.pendingFunctors_ = TcpConnection.queued s.pendingFunctors_)
    (hthreads : t.threads = s.threads) : Moves s t [] := by
  rcases htrace with ⟨es, htrace, haccepted, hprocessed, hsent⟩
  refine ⟨?_, fun h ↦ ?_, ?_, ?_, hqueued, hthreads⟩
  · rw [htrace, accepted_append, haccepted, houtput]
    simp [concat]
  · rw [show t.pending = s.pending by rw [pending, houtput, pending]]
    exact hchannel _ h
  · rw [htrace, processed_append, hprocessed]
  · rw [htrace, sent_append, hsent, List.append_nil]

theorem record (s : TcpConnection) {e : Event} (hbytes : e.bytes = [])
    (hprocessed : e.processed? = none) (hsent : e.sent? = none) : Moves s (s.record e) [] :=
  .idle rfl (fun _ h ↦ h) ⟨[e], rfl, by simp [accepted, hbytes],
    by simp [TcpConnection.processed, hprocessed], by simp [TcpConnection.sent, hsent]⟩ rfl rfl

theorem queueInLoop (s : TcpConnection) {cb : Functor} (hcb : cb.send? = none) :
    Moves s (s.queueInLoop cb) [] := by
  refine .idle rfl (fun _ h ↦ h) ⟨[], by simp [TcpConnection.queueInLoop], rfl, rfl, rfl⟩ ?_ rfl
  show TcpConnection.queued (s.pendingFunctors_ ++ [cb]) = _
  rw [queued_append, show TcpConnection.queued [cb] = [] by simp [TcpConnection.queued, hcb],
    List.append_nil]

end Moves

variable {s t : TcpConnection}

/-- What only adds events and functors, and neither sends nor processes a message. -/
theorem moves_of_emits {ev : Event → Prop} {fn : Functor → Prop} (h : Emits ev fn s t)
    (hev : ∀ e, ev e → e.processed? = none ∧ e.sent? = none) (hfn : ∀ cb, fn cb → cb.send? = none)
    (hbytes : accepted t.trace ++ t.outputBuffer_ = accepted s.trace ++ s.outputBuffer_)
    (hinterest : s.channel_.Tracks s.pending → t.channel_.Tracks t.pending) : Moves s t [] := by
  rcases h.trace with ⟨es, hes, hall⟩
  rcases h.pending with ⟨cbs, hcbs, hall'⟩
  have hprocessed := processed_eq_nil fun e he ↦ (hev e (hall e he)).1
  have hsent := sent_eq_nil fun e he ↦ (hev e (hall e he)).2
  have hqueued := queued_eq_nil fun cb hcb ↦ hfn cb (hall' cb hcb)
  refine ⟨?_, hinterest, ?_, ?_, ?_, h.threads⟩
  · rw [hbytes]
    exact (List.append_nil _).symm
  · rw [hes, processed_append, hprocessed]
  · rw [hes, sent_append, hsent, List.append_nil]
  · rw [hcbs, queued_append, hqueued, List.append_nil]

theorem isWritten_moves (e : Event) (he : e.isWritten) : e.processed? = none ∧ e.sent? = none := by
  cases e with
  | written data => exact ⟨rfl, rfl⟩
  | _ => cases he

theorem isNotice_moves (cb : Functor) (hcb : cb.isNotice) : cb.send? = none := by
  cases cb with
  | sendInLoop caller message => cases hcb
  | _ => rfl

theorem moves_shutdownInLoop (s : TcpConnection) : Moves s s.shutdownInLoop [] := by
  unfold shutdownInLoop
  split
  · exact .refl s
  · exact .record s rfl rfl rfl

theorem moves_startReadInLoop (s : TcpConnection) : Moves s s.startReadInLoop [] := by
  unfold startReadInLoop
  split
  · exact .idle rfl (fun _ h ↦ Channel.enableReading_tracks h) ⟨[], by simp, rfl, rfl, rfl⟩ rfl rfl
  · exact .refl s

theorem moves_stopReadInLoop (s : TcpConnection) : Moves s s.stopReadInLoop [] := by
  unfold stopReadInLoop
  split
  · exact .idle rfl (fun _ h ↦ Channel.disableReading_tracks h) ⟨[], by simp, rfl, rfl, rfl⟩ rfl rfl
  · exact .refl s

/-! ## `sendInLoop` -/

/-- What the write `sendInLoop` tries itself leaves behind: every byte of the message is written or
remains. -/
structure Attempted (s : TcpConnection) (message : Bytes) (a : Attempt) : Prop where
  bytes : accepted a.after.trace ++ s.outputBuffer_ ++ a.remaining =
    accepted s.trace ++ s.outputBuffer_ ++ message
  soft : a.faultError = false
  output : a.after.outputBuffer_ = s.outputBuffer_
  channel : a.after.channel_ = s.channel_

theorem attempted_nothing (s : TcpConnection) (message : Bytes) :
    Attempted s message ⟨message, false, s⟩ :=
  ⟨rfl, rfl, rfl, rfl⟩

/-- The notices say nothing about the bytes. -/
theorem notifyWriteComplete_frame (s : TcpConnection) (n : Nat) :
    let t := s.notifyWriteComplete n
    t.trace = s.trace ∧ t.outputBuffer_ = s.outputBuffer_ ∧ t.channel_ = s.channel_ := by
  simp only [notifyWriteComplete]
  split <;> exact ⟨rfl, rfl, rfl⟩

theorem notifyHighWaterMark_frame (s : TcpConnection) (n : Nat) :
    let t := s.notifyHighWaterMark n
    t.trace = s.trace ∧ t.outputBuffer_ = s.outputBuffer_ ∧ t.channel_ = s.channel_ := by
  simp only [notifyHighWaterMark]
  split <;> exact ⟨rfl, rfl, rfl⟩

theorem attempted_directWrite (s : TcpConnection) (message : Bytes) {result : WriteResult}
    (hsoft : result.Soft) (hempty : s.outputBuffer_ = []) :
    Attempted s message (s.directWrite message result) := by
  cases result with
  | error e =>
    -- only the two errors of a dead socket set `faultError`
    have hsoft' : decide (e = .EPIPE ∨ e = .ECONNRESET) = false := by
      rw [decide_eq_false_iff_not]
      rintro (rfl | rfl)
      · exact hsoft.1 rfl
      · exact hsoft.2 rfl
    simp only [directWrite, hsoft']
    exact attempted_nothing s message
  | count n =>
    have hrecorded : Attempted s message
        ⟨message.drop n, false, s.record (.written (message.take n))⟩ := by
      refine ⟨?_, rfl, rfl, rfl⟩
      -- the buffer is empty, so what is written comes right behind what was
      simp [TcpConnection.record, accepted, Event.bytes, hempty]
    simp only [directWrite]
    split
    next =>
      rcases notifyWriteComplete_frame (s.record (.written (message.take n))) message.length with
        ⟨htrace, houtput, hchannel⟩
      refine ⟨?_, rfl, houtput, hchannel⟩
      rw [htrace]
      exact hrecorded.bytes
    next => exact hrecorded

theorem attempted_tryWrite (s : TcpConnection) (message : Bytes) {result : WriteResult}
    (hsoft : result.Soft) : Attempted s message (s.tryWrite message result) := by
  unfold tryWrite
  split
  next hdirect => exact attempted_directWrite s message hsoft hdirect.2
  next => exact attempted_nothing s message

/-- Whatever the socket takes of it, the whole message is written or buffered behind the rest, and a
buffer that is not empty comes with interest in writing. -/
theorem sendInLoop_bytes (hs : s.state_ ≠ .kDisconnected) (caller : Caller) (message : Bytes)
    {result : WriteResult} (hsoft : result.Soft) :
    let t := s.sendInLoop caller message result
    accepted t.trace ++ t.outputBuffer_ = accepted s.trace ++ s.outputBuffer_ ++ message ∧
      (s.channel_.Tracks s.pending → t.channel_.Tracks t.pending) := by
  have ha := attempted_tryWrite (s.record (.processed caller message)) message hsoft
  have hrecord : accepted (s.record (.processed caller message)).trace = accepted s.trace := by
    simp [TcpConnection.record, accepted, Event.bytes]
  simp only [sendInLoop, if_neg hs]
  generalize (s.record (.processed caller message)).tryWrite message result = a at ha ⊢
  have hbytes := ha.bytes
  rw [hrecord] at hbytes
  split
  next hrest =>
    rcases notifyHighWaterMark_frame a.after a.remaining.length with ⟨htrace, houtput, hchannel⟩
    simp only [keep]
    generalize a.after.notifyHighWaterMark a.remaining.length = u at *
    have hbuffered : accepted u.trace ++ (u.outputBuffer_ ++ a.remaining) =
        accepted s.trace ++ s.outputBuffer_ ++ message := by
      rw [htrace, houtput, ha.output, ← List.append_assoc]
      exact hbytes
    have hfull : decide (u.outputBuffer_ ++ a.remaining ≠ []) = true := by simp [hrest.2]
    split
    next hwriting =>
      refine ⟨hbuffered, fun hi ↦ ?_⟩
      -- there was interest already, so there was something in the buffer
      have hchannel' : u.channel_ = s.channel_ := hchannel.trans ha.channel
      have hwriting' : s.channel_.isWriting = true := by
        rw [← hchannel']
        exact hwriting
      have hpending : s.pending = true := hi.writing.symm.trans hwriting'
      rw [hpending] at hi
      show u.channel_.Tracks (decide (u.outputBuffer_ ++ a.remaining ≠ []))
      rw [hfull, hchannel']
      exact hi
    next =>
      refine ⟨hbuffered, fun _ ↦ ?_⟩
      show u.channel_.enableWriting.Tracks (decide (u.outputBuffer_ ++ a.remaining ≠ []))
      rw [hfull]
      exact Channel.enableWriting_tracks _
  next hdone =>
    -- without a fault, nothing is buffered only if nothing remains
    have hnil : a.remaining = [] := by
      by_contra hne
      exact hdone ⟨by rw [ha.soft]; rfl, hne⟩
    rw [hnil, List.append_nil] at hbytes
    refine ⟨?_, fun hi ↦ ?_⟩
    · rw [ha.output]
      exact hbytes
    · rw [ha.channel, pending, ha.output]
      exact hi

theorem moves_sendInLoop (hs : s.state_ ≠ .kDisconnected) (caller : Caller) (message : Bytes)
    {result : WriteResult} (hsoft : result.Soft) :
    Moves s (s.sendInLoop caller message result) [(caller, message)] := by
  rcases sendInLoop_bytes hs caller message hsoft with ⟨hbytes, hinterest⟩
  have hemits := emits_sendInLoop hs caller message result
  rcases hemits.trace with ⟨es, hes, hwritten⟩
  rcases hemits.pending with ⟨cbs, hcbs, hnotice⟩
  have hprocessed := processed_eq_nil fun e he ↦ (isWritten_moves e (hwritten e he)).1
  have hsent := sent_eq_nil fun e he ↦ (isWritten_moves e (hwritten e he)).2
  have hqueued := queued_eq_nil fun cb hcb ↦ isNotice_moves cb (hnotice cb hcb)
  refine ⟨?_, hinterest, ?_, ?_, ?_, hemits.threads⟩
  · rw [hbytes]
    simp [concat]
  · rw [hes, processed_append, hprocessed]
    simp [TcpConnection.record, processed, Event.processed?]
  · rw [hes, sent_append, hsent]
    simp [TcpConnection.record, sent, Event.sent?]
  · rw [hcbs, queued_append, hqueued, List.append_nil]
    rfl

/-! ## `handleWrite` -/

theorem moves_drained (h : s.outputBuffer_ = []) (n : Nat) :
    Moves s (s.drained n) [] ∧ (s.drained n).channel_.Tracks (s.drained n).pending := by
  have hdisabled : Moves s { s with channel_ := s.channel_.disableWriting } [] ∧
      s.channel_.disableWriting.Tracks (pending { s with
      channel_ := s.channel_.disableWriting }) := by
    have htracks : s.channel_.disableWriting.Tracks
        (pending { s with channel_ := s.channel_.disableWriting }) := by
      rw [show pending { s with channel_ := s.channel_.disableWriting } = false from
        decide_eq_false (not_not.mpr h)]
      exact Channel.disableWriting_tracks _
    exact ⟨⟨by simp [concat], fun _ ↦ htracks, by simp, rfl, rfl, rfl⟩, htracks⟩
  have hnotified : Moves { s with channel_ := s.channel_.disableWriting }
      (notifyWriteComplete { s with channel_ := s.channel_.disableWriting } n) [] := by
    have hemits : Emits (fun _ ↦ False) Functor.isNotice _ _ :=
      emits_notifyWriteComplete { s with channel_ := s.channel_.disableWriting } n
    rcases notifyWriteComplete_frame { s with channel_ := s.channel_.disableWriting } n with
      ⟨htrace, houtput, hchannel⟩
    refine moves_of_emits hemits (fun _ h ↦ h.elim) isNotice_moves (by rw [htrace, houtput])
      fun hi ↦ ?_
    rw [hchannel, pending, houtput]
    exact hi
  simp only [drained]
  split
  · have hshut := moves_shutdownInLoop
      (notifyWriteComplete { s with channel_ := s.channel_.disableWriting } n)
    exact ⟨(hdisabled.1.trans hnotified).trans hshut,
      hshut.interest (hnotified.interest hdisabled.2)⟩
  · exact ⟨hdisabled.1.trans hnotified, hnotified.interest hdisabled.2⟩

/-- What `handleWrite` has written before it looks whether anything is left. -/
def afterWrite (s : TcpConnection) (n : Nat) : TcpConnection :=
  { s with outputBuffer_ := s.outputBuffer_.drop n }.record (.written (s.outputBuffer_.take n))

theorem handleWrite_cases (s : TcpConnection) (result : WriteResult) :
    s.handleWrite result = s ∨ ∃ n, result = .count n ∧ s.outputBuffer_ ≠ [] ∧
      ((s.outputBuffer_.drop n ≠ [] ∧ s.handleWrite result = s.afterWrite n) ∨
        (s.outputBuffer_.drop n = [] ∧
          s.handleWrite result = (s.afterWrite n).drained (s.outputBuffer_.take n).length)) := by
  unfold handleWrite
  split
  next n =>
    split
    next hwriting =>
      refine .inr ⟨n, rfl, hwriting.2.2, ?_⟩
      dsimp only
      split
      next hnil => exact .inr ⟨hnil, rfl⟩
      next hne => exact .inl ⟨hne, rfl⟩
    next => exact .inl rfl
  next => exact .inl rfl

theorem moves_handleWrite (s : TcpConnection) (result : WriteResult) :
    Moves s (s.handleWrite result) [] := by
  have hbytes : ∀ n, accepted (s.afterWrite n).trace ++ s.outputBuffer_.drop n =
      accepted s.trace ++ s.outputBuffer_ := by
    intro n
    simp [afterWrite, TcpConnection.record, accepted, Event.bytes]
  have hprocessed : ∀ n, processed (s.afterWrite n).trace = processed s.trace := by
    intro n
    simp [afterWrite, TcpConnection.record, processed, Event.processed?]
  have hsent : ∀ n, sent (s.afterWrite n).trace = sent s.trace := by
    intro n
    simp [afterWrite, TcpConnection.record, sent, Event.sent?]
  rcases handleWrite_cases s result with heq | ⟨n, _, hne, ⟨hrest, heq⟩ | ⟨hrest, heq⟩⟩
  · rw [heq]
    exact .refl s
  · rw [heq]
    refine ⟨?_, fun hi ↦ ?_, ?_, hsent n, rfl, rfl⟩
    · rw [show concat [] = [] from rfl, List.append_nil]
      exact hbytes n
    -- a short write: something was and is left, so the interest stays right
    · have hpending : (s.afterWrite n).pending = s.pending :=
        (decide_eq_true hrest).trans (decide_eq_true hne).symm
      rw [hpending]
      exact hi
    · rw [hprocessed, List.append_nil]
  · rw [heq]
    rcases moves_drained (s := s.afterWrite n) hrest (s.outputBuffer_.take n).length with
      ⟨hdrained, htracks⟩
    -- the last write: `disableWriting` makes the interest right whatever it was
    refine ⟨?_, fun _ ↦ htracks, ?_, hdrained.sent.trans (hsent n), hdrained.queued,
      hdrained.threads⟩
    · rw [hdrained.bytes]
      show accepted (s.afterWrite n).trace ++ s.outputBuffer_.drop n ++ [] = _
      rw [hbytes n]
      rfl
    · rw [hdrained.processed, hprocessed, List.append_nil]

/-! ## One step -/

theorem Sending.moves (h : Sending s) (hm : Moves s t []) : Sending t where
  bytes := by
    rw [hm.bytes, hm.processed, h.bytes]
    simp [concat]
  interest := hm.interest h.interest
  order caller := by
    -- the threads stand where they stood, so what they have in flight is the same
    have hflight : t.inFlight caller = s.inFlight caller := by
      cases caller with
      | loop => rfl
      | thread n => simp only [inFlight, hm.threads]
    rw [hm.sent, hm.processed, hm.queued, hflight, List.append_nil]
    exact h.order caller
  others := by
    rw [hm.queued]
    exact h.others

/-- The kernel does not say that the peer is gone in the write `sendInLoop` tries. -/
def Label.Soft : Label → Prop
  | .call _ result | .functor result => result.Soft
  | _ => True

/-- Nothing a handler defers, pops or reports is about the bytes. -/
theorem moves_frame (houtput : t.outputBuffer_ = s.outputBuffer_)
    (hchannel : t.channel_ = s.channel_)
    (htrace : t.trace = s.trace) (hqueued : queued t.pendingFunctors_ = queued s.pendingFunctors_)
    (hthreads : t.threads = s.threads) : Moves s t [] :=
  .idle houtput (fun _ h ↦ (by rw [hchannel]; exact h))
    ⟨[], by simp [htrace], rfl, rfl, rfl⟩ hqueued
    hthreads

theorem moves_handleRead {result : ReadResult} (h : s.handleRead result = .ok t) (ht : t.Alive) :
    Moves s t [] := by
  unfold handleRead at h
  split at h
  · exact absurd ht (not_alive_of_disconnected (handleClose_state h))
  · cases h
    exact .idle rfl (fun _ h ↦ h) ⟨[.message], rfl, rfl, rfl, rfl⟩ rfl rfl
  · cases h
    exact .refl s

theorem moves_call (s : TcpConnection) {c : Call} (hc : ∀ message, c ≠ .send message)
    (result : WriteResult) : Moves s (s.call c result) [] := by
  cases c with
  | send message => exact absurd rfl (hc message)
  | shutdown =>
    simp only [call]
    split
    · have hcalled : Moves s ({ s with state_ := .kDisconnecting }.record (.shutdownCalled .loop))
          [] :=
        .idle rfl (fun _ h ↦ h) ⟨[.shutdownCalled .loop], rfl, rfl, rfl, rfl⟩ rfl rfl
      exact hcalled.trans (moves_shutdownInLoop _)
    · exact .refl s
  | forceClose =>
    simp only [call]
    split
    · have hstored : Moves s { s with state_ := .kDisconnecting } [] :=
        moves_frame rfl rfl rfl rfl rfl
      exact hstored.trans (.queueInLoop _ rfl)
    · exact .refl s
  | forceCloseWithDelay =>
    simp only [call]
    split
    · exact moves_frame rfl rfl rfl rfl rfl
    · exact .refl s
  | startRead => exact moves_startReadInLoop s
  | stopRead => exact moves_stopReadInLoop s
  | retrieveInput len => exact moves_frame rfl rfl rfl rfl rfl

/-- A `send` in the loop thread: the message is taken and processed at once. -/
theorem Sending.sendNow (h : Sending s) (hs : s.state_ = .kConnected) (message : Bytes)
    {result : WriteResult} (hsoft : result.Soft) :
    Sending ((s.record (.sent .loop message)).sendInLoop .loop message result) := by
  have hopen : (s.record (.sent .loop message)).state_ ≠ .kDisconnected := by
    rw [show (s.record (.sent .loop message)).state_ = .kConnected from hs]
    decide
  have hm := moves_sendInLoop hopen .loop message hsoft
  have hsent : sent (s.record (.sent .loop message)).trace = sent s.trace ++
      [(.loop, message)] := by
    simp [TcpConnection.record, sent, Event.sent?]
  have hprocessed : processed (s.record (.sent .loop message)).trace = processed s.trace := by
    simp [TcpConnection.record, processed, Event.processed?]
  have haccepted : accepted (s.record (.sent .loop message)).trace = accepted s.trace := by
    simp [TcpConnection.record, accepted, Event.bytes]
  refine ⟨?_, hm.interest h.interest, fun caller ↦ ?_, ?_⟩
  · rw [hm.bytes, hm.processed, concat_append, haccepted, hprocessed, ← h.bytes]
    rfl
  · rw [hm.sent, hsent, hm.processed, hprocessed, hm.queued]
    cases caller with
    | loop =>
      -- no message of the loop thread is ever in the queue, so the new one is the last
      have horder := h.order .loop
      rw [ofCaller_append, h.others] at horder
      have hothers : ofCaller .loop (queued (s.record (.sent .loop message)).pendingFunctors_) =
          [] :=
        h.others
      rw [ofCaller_append, ofCaller_append, ofCaller_append, horder, hothers]
      simp [inFlight]
    | thread n =>
      have hnone : ofCaller (.thread n) [(.loop, message)] = [] := by simp [ofCaller]
      have hflight : inFlight ((s.record (.sent .loop message)).sendInLoop .loop message result)
          (.thread n) = s.inFlight (.thread n) := by
        simp only [inFlight, hm.threads]
        rfl
      rw [ofCaller_append, hnone, List.append_nil, hflight, h.order, ofCaller_append,
        ofCaller_append, ofCaller_append, hnone, List.append_nil]
      rfl
  · rw [hm.queued]
    exact h.others

/-- A queued `sendInLoop` that the loop runs. -/
theorem Sending.sendQueued (h : Sending s) (hs : s.state_ ≠ .kDisconnected) {caller : Caller}
    {message : Bytes} {rest : List Functor}
    (hpending : s.pendingFunctors_ = .sendInLoop caller message :: rest) {result : WriteResult}
    (hsoft : result.Soft) :
    Sending ({ s with pendingFunctors_ := rest }.sendInLoop caller message result) := by
  -- what leaves the head of the queue is processed next: the order of each caller is kept
  have hopen : ({ s with pendingFunctors_ := rest } : TcpConnection).state_ ≠ .kDisconnected := hs
  have hm := moves_sendInLoop hopen caller message hsoft
  have hqueued : queued s.pendingFunctors_ = (caller, message) :: queued rest := by
    rw [hpending]
    rfl
  refine ⟨?_, hm.interest h.interest, fun other ↦ ?_, ?_⟩
  · rw [hm.bytes, hm.processed, concat_append, ← h.bytes]
  · have hflight : inFlight ({ s with pendingFunctors_ := rest }.sendInLoop caller message result)
        other = s.inFlight other := by
      cases other with
      | loop => rfl
      | thread n => simp only [inFlight, hm.threads]
    rw [hflight, hm.sent, hm.processed, hm.queued]
    show ofCaller other (sent s.trace) =
      ofCaller other (processed s.trace ++ [(caller, message)] ++ queued rest) ++ s.inFlight other
    rw [h.order, hqueued, List.append_assoc]
    rfl
  · rw [hm.queued]
    have hothers := h.others
    rw [hqueued] at hothers
    have hsplit : ofCaller .loop ([(caller, message)] ++ queued rest) = [] := hothers
    rw [ofCaller_append] at hsplit
    exact (List.append_eq_nil_iff.mp hsplit).2

/-! ## The steps of the other threads -/

@[simp] theorem inFlight_setThread_self (s : TcpConnection) (n : Nat) (st : ThreadState) :
    (s.setThread n st).inFlight (.thread n) = st.unsent := by
  simp [inFlight, setThread]

theorem inFlight_setThread_of_ne (s : TcpConnection) {n : Nat} (st : ThreadState) {caller : Caller}
    (h : caller ≠ .thread n) : (s.setThread n st).inFlight caller = s.inFlight caller := by
  cases caller with
  | loop => rfl
  | thread m =>
    have hm : m ≠ n := fun heq ↦ h (by rw [heq])
    simp [inFlight, setThread, hm]

/-- A thread that neither had nor has a message on its way. -/
theorem Sending.setThread (h : Sending s) {n : Nat} {st : ThreadState}
    (hbefore : (s.threads n).unsent = []) (hafter : st.unsent = []) :
    Sending (s.setThread n st) := by
  refine ⟨h.bytes, h.interest, fun caller ↦ ?_, h.others⟩
  have hflight : (s.setThread n st).inFlight caller = s.inFlight caller := by
    by_cases hcaller : caller = .thread n
    · rw [hcaller, inFlight_setThread_self, hafter]
      exact hbefore.symm
    · exact inFlight_setThread_of_ne s st hcaller
  rw [hflight]
  exact h.order caller

/-- The first half of a `send` from another thread: it has seen the connection up. -/
theorem Sending.sendLoad (h : Sending s) {n : Nat} (hidle : s.threads n = .idle) (message : Bytes) :
    Sending ((s.record (.sent (.thread n) message)).setThread n (.sendQueue message)) := by
  have haccepted : accepted (s.record (.sent (.thread n) message)).trace = accepted s.trace := by
    simp [TcpConnection.record, accepted, Event.bytes]
  have hprocessed : processed (s.record (.sent (.thread n) message)).trace = processed s.trace := by
    simp [TcpConnection.record, processed, Event.processed?]
  have hsent : sent (s.record (.sent (.thread n) message)).trace =
      sent s.trace ++ [(.thread n, message)] := by
    simp [TcpConnection.record, sent, Event.sent?]
  refine ⟨?_, h.interest, fun caller ↦ ?_, h.others⟩
  · show accepted (s.record (.sent (.thread n) message)).trace ++ s.outputBuffer_ =
      concat (processed (s.record (.sent (.thread n) message)).trace)
    rw [haccepted, hprocessed]
    exact h.bytes
  · show ofCaller caller (sent (s.record (.sent (.thread n) message)).trace) =
      ofCaller caller (processed (s.record (.sent (.thread n) message)).trace ++
        queued s.pendingFunctors_) ++ _
    rw [hsent, hprocessed, ofCaller_append, h.order]
    by_cases hcaller : caller = .thread n
    · subst hcaller
      -- the thread was idle, so this is its only message in flight
      have hnone : s.inFlight (.thread n) = [] := by simp [inFlight, hidle, ThreadState.unsent]
      rw [inFlight_setThread_self, hnone]
      simp [ofCaller, ThreadState.unsent]
    · have hnone : ofCaller caller [(.thread n, message)] = [] := by
        simp [ofCaller, Ne.symm hcaller]
      rw [inFlight_setThread_of_ne _ _ hcaller, hnone, List.append_nil]
      rfl

/-- The second half: the message goes into the queue, behind all others of the same thread. -/
theorem Sending.sendQueue (h : Sending s) {n : Nat} {message : Bytes}
    (hthread : s.threads n = .sendQueue message) :
    Sending ((s.queueInLoop (.sendInLoop (.thread n) message)).setThread n .idle) := by
  have hqueued : queued (s.queueInLoop (.sendInLoop (.thread n) message)).pendingFunctors_ =
      queued s.pendingFunctors_ ++ [(.thread n, message)] := by
    simp [queueInLoop, queued, Functor.send?]
  refine ⟨h.bytes, h.interest, fun caller ↦ ?_, ?_⟩
  · show ofCaller caller (sent s.trace) = ofCaller caller (processed s.trace ++
      queued (s.queueInLoop (.sendInLoop (.thread n) message)).pendingFunctors_) ++ _
    rw [hqueued, h.order, ofCaller_append, ofCaller_append, ofCaller_append]
    by_cases hcaller : caller = .thread n
    · subst hcaller
      -- the message moves from in flight to the end of the queue, so the whole is the same list
      have hflight : s.inFlight (.thread n) = [message] := by
        simp [inFlight, hthread, ThreadState.unsent]
      rw [inFlight_setThread_self, hflight]
      simp [ofCaller, ThreadState.unsent]
    · have hnone : ofCaller caller [(.thread n, message)] = [] := by
        simp [ofCaller, Ne.symm hcaller]
      rw [inFlight_setThread_of_ne _ _ hcaller, hnone, List.append_nil]
      rfl
  · show ofCaller .loop (queued
      (s.queueInLoop (.sendInLoop (.thread n) message)).pendingFunctors_) = []
    rw [hqueued, ofCaller_append, h.others]
    rfl

theorem Sending.threadCall (h : Sending s) {n : Nat} (hidle : s.threads n = .idle) (c : Call) :
    Sending (s.threadCall n c) := by
  have hunsent : (s.threads n).unsent = [] := by rw [hidle]; rfl
  cases c with
  | send message =>
    simp only [TcpConnection.threadCall]
    split
    · exact h.sendLoad hidle message
    · exact h
  | shutdown =>
    simp only [TcpConnection.threadCall]
    split
    · exact h.setThread hunsent rfl
    · exact h
  | forceClose =>
    simp only [TcpConnection.threadCall]
    split
    · exact h.setThread hunsent rfl
    · exact h
  | forceCloseWithDelay =>
    simp only [TcpConnection.threadCall]
    split
    · exact h.setThread hunsent rfl
    · exact h
  | startRead => exact h.moves (.queueInLoop s rfl)
  | stopRead => exact h.moves (.queueInLoop s rfl)
  | retrieveInput len => exact h

theorem Sending.threadProceed (h : Sending s) (n : Nat) : Sending (s.threadProceed n) := by
  -- `state_` is no part of the invariant
  have hstored : Sending { s with state_ := .kDisconnecting } :=
    h.moves (moves_frame rfl rfl rfl rfl rfl)
  unfold TcpConnection.threadProceed
  split
  next => exact h
  next message hthread => exact h.sendQueue hthread
  next hthread =>
    have hcalled := hstored.moves
      (.record (e := .shutdownCalled (.thread n)) _ rfl rfl rfl)
    exact hcalled.setThread (show (s.threads n).unsent = [] by rw [hthread]; rfl) rfl
  next hthread =>
    have hqueued : Sending (s.queueInLoop .shutdownInLoop) := h.moves (.queueInLoop s rfl)
    exact hqueued.setThread (show (s.threads n).unsent = [] by rw [hthread]; rfl) rfl
  next hthread => exact hstored.setThread (show (s.threads n).unsent = [] by rw [hthread]; rfl) rfl
  next hthread =>
    have hqueued : Sending (s.queueInLoop .forceCloseInLoop) := h.moves (.queueInLoop s rfl)
    exact hqueued.setThread (show (s.threads n).unsent = [] by rw [hthread]; rfl) rfl
  next hthread => exact hstored.setThread (show (s.threads n).unsent = [] by rw [hthread]; rfl) rfl

/-! ## The steps of the loop -/

theorem Sending.runFunctor (h : Sending s) (hs : s.state_ ≠ .kDisconnected) {cb : Functor}
    {rest : List Functor} (hpending : s.pendingFunctors_ = cb :: rest) {result : WriteResult}
    (hsoft : result.Soft) (ht : t.Alive)
    (hrun : { s with pendingFunctors_ := rest }.runFunctor result cb = .ok t) : Sending t := by
  -- each functor but `sendInLoop` leaves the messages alone, once it has left the queue
  have hpopped : cb.send? = none → Sending { s with pendingFunctors_ := rest } := by
    intro hcb
    -- a functor that sends nothing may leave the queue unnoticed
    have hqueued : queued rest = queued s.pendingFunctors_ := by
      rw [hpending]
      simp [queued, hcb]
    exact h.moves (moves_frame rfl rfl rfl hqueued rfl)
  cases cb with
  | sendInLoop caller message =>
    cases hrun
    exact h.sendQueued hs hpending hsoft
  | shutdownInLoop =>
    cases hrun
    exact (hpopped rfl).moves (moves_shutdownInLoop _)
  | forceCloseInLoop =>
    simp only [TcpConnection.runFunctor] at hrun
    split at hrun
    · exact absurd ht (not_alive_of_disconnected (handleClose_state hrun))
    · cases hrun
      exact hpopped rfl
  | startReadInLoop =>
    cases hrun
    exact (hpopped rfl).moves (moves_startReadInLoop _)
  | stopReadInLoop =>
    cases hrun
    exact (hpopped rfl).moves (moves_stopReadInLoop _)
  | writeComplete =>
    cases hrun
    exact (hpopped rfl).moves (moves_frame rfl rfl rfl rfl rfl)
  | highWaterMark size =>
    cases hrun
    exact (hpopped rfl).moves (moves_frame rfl rfl rfl rfl rfl)
  | connectDestroyed =>
    cases hrun
    refine (hpopped rfl).moves ?_
    unfold connectDestroyed
    split <;> exact moves_frame rfl rfl rfl rfl rfl

theorem Sending.call (h : Sending s) (c : Call) {result : WriteResult} (hsoft : result.Soft) :
    Sending (s.call c result) := by
  by_cases hc : ∃ message, c = .send message
  · rcases hc with ⟨message, rfl⟩
    simp only [TcpConnection.call]
    split
    next hs => exact h.sendNow hs message hsoft
    next => exact h
  · exact h.moves (moves_call s (fun message heq ↦ hc ⟨message, heq⟩) result)

/-- **One step of an open connection.** -/
theorem Sending.step (h : Sending s) (hs : s.state_ ≠ .kDisconnected) {l : Label} (hsoft : l.Soft)
    (hstep : Step s l t) (ht : t.Alive) : Sending t := by
  have hpopped : ∀ rest, Sending { s with todo := rest } := fun _ ↦
    h.moves (moves_frame rfl rfl rfl rfl rfl)
  cases step_cases hstep with
  | poll => exact h.moves (moves_frame rfl rfl rfl rfl rfl)
  | hangUp _ _ _ hclose => exact absurd ht (not_alive_of_disconnected (handleClose_state hclose))
  | handleEvent => exact h.moves (moves_frame rfl rfl rfl rfl rfl)
  | read _ _ hread => exact (hpopped _).moves (moves_handleRead hread ht)
  | noRead => exact hpopped _
  | @writeStage _ result =>
    unfold TcpConnection.writeStage
    split
    · exact (hpopped _).moves (moves_handleWrite _ result)
    · exact hpopped _
  | closing => exact h.moves (.idle rfl (fun _ h ↦ h) ⟨[.close], rfl, rfl, rfl, rfl⟩ rfl rfl)
  -- `destroyStore` takes the connection down
  | destroyStore => exact absurd ht (not_alive_of_disconnected rfl)
  | removeChannel _ hremove =>
    exact h.moves (.idle rfl (fun _ htracks ↦ Channel.remove_tracks htracks hremove)
      ⟨[], by simp, rfl, rfl, rfl⟩ rfl rfl)
  | ret => exact hpopped _
  | functor _ _ hpending hrun => exact h.runFunctor hs hpending hsoft ht hrun
  | @call c => exact h.call c hsoft
  | destroy => exact h.moves (.queueInLoop s rfl)
  | @thread _ c hidle => exact h.threadCall hidle c
  | @proceed n => exact h.threadProceed n

end Pallette.TcpConnection
