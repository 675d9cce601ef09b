import Pallette.Net.Sending

/-!
# Offers — what a step hands to the kernel

Bytes leave in `sendInLoop` and in `handleWrite`, and nowhere else.  `step_acts` tells these steps
from the others, which leave the bytes and what is said about them alone.
-/

namespace Pallette.TcpConnection

/-- The write `sendInLoop` tries itself. -/
def offer (s : TcpConnection) (message : Bytes) (result : WriteResult) :
    Option (Bytes × WriteResult) :=
  if s.state_ ≠ .kDisconnected ∧ s.channel_.isWriting = false ∧ s.outputBuffer_ = [] then
    some (message, result)
  else none

/-- What a step hands to `sockets::write`, with what that returns. -/
def offered (s : TcpConnection) : Label → Option (Bytes × WriteResult)
  | .call (.send message) result => if s.state_ = .kConnected then s.offer message result else none
  | .functor result =>
      match s.pendingFunctors_ with
      | .sendInLoop _ message :: _ => s.offer message result
      | _ => none
  | .writeStage result =>
      if s.revents_.EPOLLOUT ∧ s.channel_.isWriting ∧ s.outputBuffer_ ≠ [] then
        some (s.outputBuffer_, result)
      else none
  | _ => none

/-- The bytes the kernel accepts. -/
def taken : Option (Bytes × WriteResult) → Bytes
  | some (bytes, .count n) => bytes.take n
  | _ => []

/-- The kernel accepts all it is offered. -/
def finished : Option (Bytes × WriteResult) → Bool
  | some (bytes, .count n) => decide (bytes.drop n = [])
  | _ => false

/-- The message a step hands to `sendInLoop`, of a connection that is not closed: that of its label,
or that of the functor the loop runs. -/
def handed (s : TcpConnection) : Label → Option (Caller × Bytes)
  | .call (.send message) _ => if s.state_ = .kConnected then some (.loop, message) else none
  | .functor _ =>
      match s.pendingFunctors_ with
      | .sendInLoop caller message :: _ =>
          if s.state_ = .kDisconnected then none else some (caller, message)
      | _ => none
  | _ => none

/-- What `readFd` obtains in a step. -/
def obtained (s : TcpConnection) : Label → Bytes
  | .readStage (.data bytes) =>
      if s.revents_.EPOLLIN ∨ s.revents_.EPOLLPRI ∨ s.revents_.EPOLLHUP then bytes else []
  | _ => []

/-- The functors that are still there when the step adds its own. -/
def waiting (s : TcpConnection) : Label → List Functor
  | .functor _ => s.pendingFunctors_.tail
  | _ => s.pendingFunctors_

/-- The step calls `send`. -/
def Label.Sends : Label → Bytes → Prop
  | .call (.send message) _, m | .thread _ (.send message), m => message = m
  | _, _ => False

/-- The message a step calls `send` with. -/
def Label.send? : Label → Option (Caller × Bytes)
  | .call (.send message) _ => some (.loop, message)
  | .thread n (.send message) => some (.thread n, message)
  | _ => none

theorem sends_of_send? {l : Label} {p : Caller × Bytes} (h : l.send? = some p) : l.Sends p.2 := by
  cases l with
  | call c result | thread n c =>
    cases c with
    | send message =>
      cases h
      rfl
    | _ => cases h
  | _ => cases h

/-- What is handed to `sendInLoop` is sent in this step, or has been queued. -/
theorem sends_or_queued {s : TcpConnection} {l : Label} {p : Caller × Bytes}
    (h : s.handed l = some p) :
    l.Sends p.2 ∨ p ∈ queued s.pendingFunctors_ := by
  cases l with
  | call c result =>
    cases c with
    | send message =>
      rw [handed] at h
      split at h
      · cases h
        exact .inl rfl
      · cases h
    | _ => cases h
  | functor result =>
    rw [handed] at h
    split at h
    next hpending =>
      split at h
      · cases h
      · cases h
        rw [hpending]
        exact .inr List.mem_cons_self
    next => cases h
  | _ => cases h

/-- The messages `send` takes in a step: it looks at `state_` first. -/
def sending (s : TcpConnection) (l : Label) : Option (Caller × Bytes) :=
  if s.state_ = .kConnected then l.send? else none

/-- What a step does first: the functor leaves the queue, the bytes read are counted, the call of
`send` is noted. -/
def prepare (s : TcpConnection) : Label → TcpConnection
  | .functor _ => { s with pendingFunctors_ := s.pendingFunctors_.tail }
  | .readStage result => { s with bytesReceived_ := s.bytesReceived_ +
      (s.obtained (.readStage result)).length }
  | .call (.send message) _ => if s.state_ = .kConnected then s.record (.sent .loop message) else s
  | .thread n (.send message) =>
      if s.state_ = .kConnected then s.record (.sent (.thread n) message) else s
  | _ => s

theorem prepare_eq (s : TcpConnection) (l : Label) :
    ∃ es, s.prepare l = { s with
        pendingFunctors_ := s.waiting l
        bytesReceived_ := s.bytesReceived_ + (s.obtained l).length
        trace := s.trace ++ es } ∧
      accepted es = [] ∧ processed es = [] ∧ sent es = (s.sending l).toList := by
  have hsame : s = { s with trace := s.trace ++ [] } := by rw [List.append_nil]
  have hnone (h : l.send? = none) : sent [] = (s.sending l).toList := by
    rw [sending, h, ite_self]
    rfl
  cases l with
  | functor result => exact ⟨[], by rw [prepare, List.append_nil]; rfl, rfl, rfl, hnone rfl⟩
  | readStage result => exact ⟨[], by rw [prepare, List.append_nil]; rfl, rfl, rfl, hnone rfl⟩
  | call c result =>
    cases c with
    | send message =>
      by_cases hs : s.state_ = .kConnected
      · exact ⟨[.sent .loop message], if_pos hs, rfl, rfl, by rw [sending, if_pos hs]; rfl⟩
      · exact ⟨[], (if_neg hs).trans hsame, rfl, rfl, by rw [sending, if_neg hs]; rfl⟩
    | _ => exact ⟨[], hsame, rfl, rfl, hnone rfl⟩
  | thread n c =>
    cases c with
    | send message =>
      by_cases hs : s.state_ = .kConnected
      · exact ⟨[.sent (.thread n) message], if_pos hs, rfl, rfl, by rw [sending, if_pos hs]; rfl⟩
      · exact ⟨[], (if_neg hs).trans hsame, rfl, rfl, by rw [sending, if_neg hs]; rfl⟩
    | _ => exact ⟨[], hsame, rfl, rfl, hnone rfl⟩
  | _ => exact ⟨[], hsame, rfl, rfl, hnone rfl⟩

/-- Nothing about the bytes that leave, and no notice of them. -/
structure Idle (s t : TcpConnection) : Prop where
  output : t.outputBuffer_ = s.outputBuffer_
  counters : t.bytesSent_ = s.bytesSent_ ∧ t.bytesReceived_ = s.bytesReceived_
  writeComplete : t.writeCompleteCallback_ = s.writeCompleteCallback_
  highWaterMark : t.highWaterMarkCallback_ = s.highWaterMarkCallback_ ∧
    t.highWaterMark_ = s.highWaterMark_
  accepted : accepted t.trace = accepted s.trace
  processed : processed t.trace = processed s.trace
  sent : sent t.trace = sent s.trace
  queue : ∃ cbs, t.pendingFunctors_ = s.pendingFunctors_ ++ cbs ∧ ∀ cb ∈ cbs, ¬ cb.isNotice

namespace Idle

variable {s t u : TcpConnection}

/-- The fields that are not about the bytes. -/
theorem fields (s : TcpConnection) (state : StateE) (reading : Bool) (channel : Channel)
    (input : Bytes)
    (revents : EventMask) (active : Bool) (todo : List Task) (threads : Nat → ThreadState) :
    Idle s { s with
      state_ := state, reading_ := reading, channel_ := channel, inputBuffer_ := input,
      revents_ := revents,
      active := active, todo := todo, threads := threads } :=
  ⟨rfl, ⟨rfl, rfl⟩, rfl, ⟨rfl, rfl⟩, rfl, rfl, rfl, [], (List.append_nil _).symm, by simp⟩

theorem refl (s : TcpConnection) : Idle s s :=
  fields s s.state_ s.reading_ s.channel_ s.inputBuffer_ s.revents_ s.active s.todo s.threads

theorem trans (h : Idle s t) (h' : Idle t u) : Idle s u := by
  obtain ⟨cbs, hcbs, hnotice⟩ := h.queue
  obtain ⟨cbs', hcbs', hnotice'⟩ := h'.queue
  refine ⟨h'.output.trans h.output, ⟨h'.counters.1.trans h.counters.1,
    h'.counters.2.trans h.counters.2⟩, h'.writeComplete.trans h.writeComplete,
    ⟨h'.highWaterMark.1.trans h.highWaterMark.1, h'.highWaterMark.2.trans h.highWaterMark.2⟩,
    h'.accepted.trans h.accepted, h'.processed.trans h.processed, h'.sent.trans h.sent,
    cbs ++ cbs', ?_, ?_⟩
  · rw [hcbs', hcbs, List.append_assoc]
  · intro cb hcb
    exact (List.mem_append.mp hcb).elim (hnotice cb) (hnotice' cb)

theorem record (s : TcpConnection) {e : Event} (hbytes : e.bytes = [])
    (hprocessed : e.processed? = none) (hsent : e.sent? = none) : Idle s (s.record e) := by
  refine ⟨rfl, ⟨rfl, rfl⟩, rfl, ⟨rfl, rfl⟩, ?_, ?_, ?_, [], (List.append_nil _).symm, by simp⟩
  · simp [TcpConnection.record, TcpConnection.accepted, hbytes]
  · simp [TcpConnection.record, TcpConnection.processed, hprocessed]
  · simp [TcpConnection.record, TcpConnection.sent, hsent]

theorem queueInLoop (s : TcpConnection) {cb : Functor} (hcb : ¬ cb.isNotice) :
    Idle s (s.queueInLoop cb) :=
  ⟨rfl, ⟨rfl, rfl⟩, rfl, ⟨rfl, rfl⟩, rfl, rfl, rfl, [cb], rfl, by simpa using hcb⟩

theorem setThread (h : Idle s t) (n : Nat) (st : ThreadState) : Idle s (t.setThread n st) :=
  h.trans (.fields t _ _ _ _ _ _ _ _)

theorem defer (h : Idle s t) (tasks : List Task) : Idle s (t.defer tasks) :=
  h.trans (.fields t _ _ _ _ _ _ _ _)

end Idle

/-- What a step is: one of the two that write, or none of them. -/
inductive Act (s : TcpConnection) (l : Label) (t : TcpConnection) : Prop
  | send {caller : Caller} {message : Bytes} {result : WriteResult} :
      (s.prepare l).state_ ≠ .kDisconnected → s.offered l = (s.prepare l).offer message result →
      s.handed l = some (caller, message) → (l.Soft → result.Soft) →
      t = (s.prepare l).sendInLoop caller message result → Act s l t
  | write {u : TcpConnection} {result : WriteResult} :
      Idle (s.prepare l) u → u.channel_.isWriting = true → u.outputBuffer_ ≠ [] →
      s.offered l = some (u.outputBuffer_, result) → s.handed l = none → t = u.handleWrite result →
      Act s l t
  | idle : Idle (s.prepare l) t → s.offered l = none → s.handed l = none → Act s l t

section

variable {s t u : TcpConnection} {l : Label}

theorem idle_handleClose (h : s.handleClose = .ok t) : Idle s t := by
  unfold handleClose at h
  split at h
  next =>
    cases h
    have hclosed : Idle s { s with state_ := .kDisconnected, channel_ := s.channel_.disableAll } :=
      .fields s _ _ _ _ _ _ _ _
    exact (hclosed.trans (.record _ rfl rfl rfl)).defer _
  next => cases h

theorem idle_shutdownInLoop (s : TcpConnection) : Idle s s.shutdownInLoop := by
  unfold shutdownInLoop
  split
  · exact .refl s
  · exact .record s rfl rfl rfl

theorem idle_startReadInLoop (s : TcpConnection) : Idle s s.startReadInLoop := by
  unfold startReadInLoop
  split
  · exact .fields s _ _ _ _ _ _ _ _
  · exact .refl s

theorem idle_stopReadInLoop (s : TcpConnection) : Idle s s.stopReadInLoop := by
  unfold stopReadInLoop
  split
  · exact .fields s _ _ _ _ _ _ _ _
  · exact .refl s

theorem act_call (s : TcpConnection) (c : Call) (result : WriteResult) :
    Act s (.call c result) (s.call c result) := by
  cases c with
  | send message =>
    by_cases hs : s.state_ = .kConnected
    · have hprepare : s.prepare (.call (.send message) result) = s.record (.sent .loop message) :=
        if_pos hs
      have hcall : s.call (.send message) result =
          (s.record (.sent .loop message)).sendInLoop .loop message result := if_pos hs
      refine .send ?_ ?_ (if_pos hs) (fun hsoft ↦ hsoft) (by rw [hprepare]; exact hcall)
      · rw [hprepare]
        change s.state_ ≠ .kDisconnected
        rw [hs]
        decide
      · rw [hprepare]
        exact if_pos hs
    · -- not `kConnected`: the call returns without a word
      have hcall : s.call (.send message) result = s.prepare (.call (.send message) result) := by
        rw [call, if_neg hs, prepare, if_neg hs]
      rw [hcall]
      exact .idle (.refl _) (if_neg hs) (if_neg hs)
  | shutdown =>
    refine .idle ?_ rfl rfl
    simp only [call]
    split
    · have hstored : Idle s { s with state_ := .kDisconnecting } := .fields s _ _ _ _ _ _ _ _
      exact (hstored.trans (.record _ rfl rfl rfl)).trans (idle_shutdownInLoop _)
    · exact .refl s
  | forceClose =>
    refine .idle ?_ rfl rfl
    simp only [call]
    split
    · have hstored : Idle s { s with state_ := .kDisconnecting } := .fields s _ _ _ _ _ _ _ _
      exact hstored.trans (.queueInLoop _ id)
    · exact .refl s
  | forceCloseWithDelay =>
    refine .idle ?_ rfl rfl
    simp only [call]
    split
    · exact .fields s _ _ _ _ _ _ _ _
    · exact .refl s
  | startRead => exact .idle (idle_startReadInLoop s) rfl rfl
  | stopRead => exact .idle (idle_stopReadInLoop s) rfl rfl
  | retrieveInput len => exact .idle (.fields s _ _ _ _ _ _ _ _) rfl rfl

/-- The bytes `readFd` obtains are counted in `prepare`. -/
theorem idle_handleRead {result : ReadResult}
    (hrevents : s.revents_.EPOLLIN = true ∨ s.revents_.EPOLLPRI = true ∨ s.revents_.EPOLLHUP = true)
    {rest : List Task} (h : { s with todo := rest }.handleRead result = .ok t) :
    Idle (s.prepare (.readStage result)) t := by
  have hobtained (bytes : Bytes) : s.obtained (.readStage (.data bytes)) = bytes := if_pos hrevents
  have hpopped : Idle (s.prepare (.readStage result)) { s.prepare (.readStage result) with
      todo := rest } :=
    .fields _ _ _ _ _ _ _ _ _
  unfold handleRead at h
  split at h
  next =>
    have hprepare : s.prepare (.readStage (.data [])) = s := by rw [prepare, hobtained]; rfl
    rw [hprepare] at hpopped ⊢
    exact hpopped.trans (idle_handleClose h)
  next bytes _ =>
    cases h
    rw [prepare, hobtained] at hpopped ⊢
    have hread := hpopped.trans (.fields _ s.state_ s.reading_ s.channel_ (s.inputBuffer_ ++ bytes)
      s.revents_
      s.active rest s.threads)
    exact (hread.trans (.record _ rfl rfl rfl)).defer _
  next e =>
    -- an error of `readFd` is logged, and the connection stays up
    cases h
    exact hpopped

theorem idle_connectDestroyed (s : TcpConnection) : Idle s s.connectDestroyed := by
  unfold connectDestroyed
  split <;> exact (Idle.refl s).defer _

theorem act_runFunctor {cb : Functor} {rest : List Functor} {result : WriteResult}
    (hpending : s.pendingFunctors_ = cb :: rest)
    (h : { s with pendingFunctors_ := rest }.runFunctor result cb = .ok t) :
    Act s (.functor result) t := by
  have hprepare : s.prepare (.functor result) = { s with pendingFunctors_ := rest } := by
    rw [prepare, hpending]
    rfl
  -- only the functor of a `send` offers the kernel anything
  have hnone : cb.send? = none → s.offered (.functor result) = none ∧
      s.handed (.functor result) = none := by
    intro hcb
    rw [offered, handed, hpending]
    cases cb with
    | sendInLoop caller message => cases hcb
    | _ => exact ⟨rfl, rfl⟩
  have hidle : cb.send? = none → Idle { s with pendingFunctors_ := rest } t →
      Act s (.functor result) t := by
    intro hcb hidle
    rw [← hprepare] at hidle
    exact .idle hidle (hnone hcb).1 (hnone hcb).2
  cases cb with
  | sendInLoop caller message =>
    cases h
    have hoffered : s.offered (.functor result) =
        (s.prepare (.functor result)).offer message result := by
      rw [hprepare, offered, hpending]
      rfl
    have hhanded : s.handed (.functor result) =
        if s.state_ = .kDisconnected then none else some (caller, message) := by
      rw [handed, hpending]
    -- the connection may have gone down while the message was queued
    by_cases hs : s.state_ = .kDisconnected
    · have hclosed : (s.prepare (.functor result)).offer message result = none := by
        rw [hprepare]
        exact if_neg (fun hopen ↦ hopen.1 hs)
      rw [sendInLoop, if_pos hs, ← hprepare]
      exact .idle (.refl _) (hoffered.trans hclosed) (hhanded.trans (if_pos hs))
    · exact .send (by rw [hprepare]; exact hs) hoffered (hhanded.trans (if_neg hs))
        (fun hsoft ↦ hsoft)
        (by rw [hprepare])
  | shutdownInLoop =>
    cases h
    exact hidle rfl (idle_shutdownInLoop _)
  | forceCloseInLoop =>
    simp only [runFunctor] at h
    split at h
    · exact hidle rfl (idle_handleClose h)
    · cases h
      exact hidle rfl (.refl _)
  | startReadInLoop =>
    cases h
    exact hidle rfl (idle_startReadInLoop _)
  | stopReadInLoop =>
    cases h
    exact hidle rfl (idle_stopReadInLoop _)
  | writeComplete =>
    cases h
    exact hidle rfl ((Idle.refl _).defer _)
  | highWaterMark size =>
    cases h
    exact hidle rfl ((Idle.refl _).defer _)
  | connectDestroyed =>
    cases h
    exact hidle rfl (idle_connectDestroyed _)

theorem idle_threadCall (s : TcpConnection) (n : Nat) (c : Call) :
    Idle (s.prepare (.thread n c)) (s.threadCall n c) := by
  cases c with
  | send message =>
    rw [prepare, threadCall]
    split
    · exact (Idle.refl _).setThread _ _
    · exact .refl s
  | shutdown | forceClose | forceCloseWithDelay =>
    simp only [threadCall]
    split
    · exact (Idle.refl s).setThread _ _
    · exact .refl s
  | startRead => exact .queueInLoop s id
  | stopRead => exact .queueInLoop s id
  | retrieveInput len => exact .refl s

theorem idle_threadProceed (s : TcpConnection) (n : Nat) : Idle s (s.threadProceed n) := by
  have hstored : Idle s { s with state_ := .kDisconnecting } := .fields s _ _ _ _ _ _ _ _
  unfold threadProceed
  split
  · exact .refl s
  · exact (Idle.queueInLoop s id).setThread _ _
  · exact (hstored.trans (.record _ rfl rfl rfl)).setThread _ _
  · exact (Idle.queueInLoop s id).setThread _ _
  · exact hstored.setThread _ _
  · exact (Idle.queueInLoop s id).setThread _ _
  · exact hstored.setThread _ _

theorem act_writeStage (s : TcpConnection) (rest : List Task) (result : WriteResult) :
    Act s (.writeStage result) ({ s with todo := rest }.writeStage result) := by
  have hpopped : Idle s { s with todo := rest } := .fields s _ _ _ _ _ _ _ _
  by_cases hstage : s.revents_.EPOLLOUT = true ∧ s.channel_.isWriting = true ∧ s.outputBuffer_ ≠ []
  · exact .write hpopped hstage.2.1 hstage.2.2 (if_pos hstage) rfl (if_pos hstage.1)
  · refine .idle ?_ (if_neg hstage) rfl
    unfold writeStage
    split
    next hout =>
      -- without interest in writing, or with nothing to write
      have hnot (n : Nat) : ¬ (s.channel_.isWriting = true ∧ 0 < n ∧ s.outputBuffer_ ≠ []) :=
        fun h ↦ hstage ⟨hout, h.1, h.2.2⟩
      unfold handleWrite
      split
      · rw [if_neg (hnot _)]
        exact hpopped
      · exact hpopped
    next => exact hpopped

/-- **One step.** -/
theorem step_acts (h : Step s l t) : Act s l t := by
  cases step_cases h with
  | poll => exact .idle (.fields s _ _ _ _ _ _ _ _) rfl rfl
  | hangUp _ _ _ hclose =>
    have hstarted : Idle s s.startHandling := .fields s _ _ _ _ _ _ _ _
    exact .idle (hstarted.trans (idle_handleClose hclose)) rfl rfl
  | handleEvent => exact .idle (.fields s _ _ _ _ _ _ _ _) rfl rfl
  | read _ hrevents hread => exact .idle (idle_handleRead hrevents hread) rfl rfl
  | @noRead rest result _ hrevents =>
    -- no event asks for a read, so that nothing is obtained whatever the socket holds
    have hprepare : s.prepare (.readStage result) = s := by
      have hobtained : s.obtained (.readStage result) = [] := by
        cases result with
        | data bytes => exact if_neg hrevents
        | error e => rfl
      rw [prepare, hobtained]
      rfl
    refine .idle ?_ rfl rfl
    rw [hprepare]
    exact .fields s _ _ _ _ _ _ _ _
  | writeStage => exact act_writeStage s _ _
  | @closing rest =>
    have hpopped : Idle s { s with todo := rest } := .fields s _ _ _ _ _ _ _ _
    exact .idle ((hpopped.trans (.record _ rfl rfl rfl)).defer _) rfl rfl
  | @destroyStore rest =>
    have hstored : Idle s { s with
        state_ := .kDisconnected, channel_ := s.channel_.disableAll, todo := rest } :=
      .fields s _ _ _ _ _ _ _ _
    exact .idle ((hstored.trans (.record _ rfl rfl rfl)).defer _) rfl rfl
  | removeChannel => exact .idle (.fields s _ _ _ _ _ _ _ _) rfl rfl
  | ret => exact .idle (.fields s _ _ _ _ _ _ _ _) rfl rfl
  | functor _ _ hpending hrun => exact act_runFunctor hpending hrun
  | call => exact act_call s _ _
  | destroy => exact .idle (.queueInLoop s id) rfl rfl
  | thread => exact .idle (idle_threadCall s _ _) rfl rfl
  | proceed => exact .idle (idle_threadProceed s _) rfl rfl

/-! ## The messages of a step -/

theorem sent_prepare (s : TcpConnection) (l : Label) :
    sent (s.prepare l).trace = sent s.trace ++ (s.sending l).toList := by
  obtain ⟨es, hprepare, -, -, hsent⟩ := s.prepare_eq l
  rw [hprepare, ← hsent]
  exact sent_append _ _

theorem processed_prepare (s : TcpConnection) (l : Label) :
    processed (s.prepare l).trace = processed s.trace := by
  obtain ⟨es, hprepare, -, hprocessed, -⟩ := s.prepare_eq l
  rw [hprepare]
  change processed (s.trace ++ es) = _
  rw [processed_append, hprocessed, List.append_nil]

/-- `send` takes what it is called with, while the connection is up. -/
theorem sent_of_step (h : Step s l t) : sent t.trace = sent s.trace ++ (s.sending l).toList := by
  rw [← sent_prepare]
  cases step_acts h with
  | @send caller message result hs _ _ _ ht =>
    obtain ⟨es, hes, hwritten⟩ := (emits_sendInLoop hs caller message result).trace
    have hsent := sent_eq_nil fun e he ↦ (isWritten_moves e (hwritten e he)).2
    rw [ht, hes, sent_append, hsent, List.append_nil]
    simp [TcpConnection.record, sent, Event.sent?]
  | @write u result hidle _ _ _ _ ht =>
    rw [ht, (moves_handleWrite u result).sent, hidle.sent]
  | idle hidle _ _ => exact hidle.sent

/-- `sendInLoop` takes over what the step hands to it. -/
theorem processed_of_step (h : Step s l t) :
    processed t.trace = processed s.trace ++ (s.handed l).toList := by
  rw [← processed_prepare s l]
  cases step_acts h with
  | @send caller message result hs _ hhanded _ ht =>
    obtain ⟨es, hes, hwritten⟩ := (emits_sendInLoop hs caller message result).trace
    have hprocessed := processed_eq_nil fun e he ↦ (isWritten_moves e (hwritten e he)).1
    rw [ht, hes, processed_append, hprocessed, List.append_nil, hhanded]
    simp [TcpConnection.record, processed, Event.processed?]
  | @write u result hidle _ _ _ hhanded ht =>
    rw [ht, (moves_handleWrite u result).processed, hidle.processed, hhanded]
    rfl
  | idle hidle _ hhanded =>
    rw [hidle.processed, hhanded]
    exact (List.append_nil _).symm

end

end Pallette.TcpConnection
