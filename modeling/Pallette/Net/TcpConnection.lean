import Pallette.Basic
import Pallette.Net.Channel

/-!
# TcpConnection — one connection, its owner loop and the other threads

A run interleaves the steps of the loop thread (a poll, the stages of `handleEventWithGuard`, the
functors of the queue in order, the calls user code makes) with single steps of other threads, for
which each access to `state_` and each push on the queue is one step.  What the kernel answers is
part of the label.  A handler that calls back stops there, with the rest of it on `todo`.  Each of
its pieces decides on one reading of `state_`, and what it does to `state_` and to the queue can be
moved together without another thread or the piece itself seeing a difference: the pieces are the
steps of the loop.
-/

namespace Pallette

inductive Errno
  | EWOULDBLOCK
  | EPIPE
  | ECONNRESET
  | other (code : Nat)
deriving DecidableEq, Repr

/-- What `sockets::write` returns: a count, cut to what it was offered, or -1 with an error
number. -/
inductive WriteResult
  | count (n : Nat)
  | error (e : Errno)
deriving DecidableEq, Repr

/-- The results after which `sendInLoop` does not give the message up. -/
def WriteResult.Soft (result : WriteResult) : Prop :=
  result ≠ .error .EPIPE ∧ result ≠ .error .ECONNRESET

/-- What `readFd` returns: bytes, none at the end of the stream, or -1 with an error number. -/
inductive ReadResult
  | data (bytes : Bytes)
  | error (e : Errno)
deriving DecidableEq, Repr

namespace TcpConnection

inductive StateE
  | kDisconnected
  | kConnecting
  | kConnected
  | kDisconnecting
deriving DecidableEq, Repr

/-- Who calls: the owner loop or another thread. -/
inductive Caller
  | loop
  | thread (n : Nat)
deriving DecidableEq, Repr

/-- The calls user code makes. -/
inductive Call
  | send (message : Bytes)
  | shutdown
  | forceClose
  | forceCloseWithDelay
  | startRead
  | stopRead
  | retrieveInput (len : Nat)
deriving DecidableEq, Repr

inductive Functor
  | sendInLoop (caller : Caller) (message : Bytes)
  | shutdownInLoop
  | forceCloseInLoop
  | startReadInLoop
  | stopReadInLoop
  | writeComplete
  | highWaterMark (size : Nat)
  | connectDestroyed
deriving DecidableEq, Repr

/-- What the loop thread has left to do of the handlers it is in. -/
inductive Task
  | callback
  | closing
  | readStage
  | writeStage
  | destroyStore
  | removeChannel
deriving DecidableEq, Repr

/-- What another thread has left to do of the call it is in. -/
inductive ThreadState
  | idle
  | sendQueue (message : Bytes)
  | shutdownStore
  | shutdownQueue
  | forceCloseStore
  | forceCloseQueue
  | forceCloseDelayStore
deriving DecidableEq, Repr

/-- What can be seen of a run: callbacks, the socket, and the calls of `send` and `shutdown`. -/
inductive Event
  | connection (up : Bool)
  | message
  | close
  | written (bytes : Bytes)
  | shutdownWrite
  | sent (caller : Caller) (message : Bytes)
  | processed (caller : Caller) (message : Bytes)
  | shutdownCalled (caller : Caller)
deriving DecidableEq, Repr

end TcpConnection

open TcpConnection

structure TcpConnection where
  state_ : StateE := .kConnecting
  reading_ : Bool := true
  channel_ : Channel := {}
  inputBuffer_ : Bytes := []
  outputBuffer_ : Bytes := []
  highWaterMark_ : Nat := 64 * 1024 * 1024
  writeCompleteCallback_ : Bool := false
  highWaterMarkCallback_ : Bool := false
  bytesReceived_ : Nat := 0
  bytesSent_ : Nat := 0
  pendingFunctors_ : List Functor := []
  revents_ : EventMask := {}
  active : Bool := false
  todo : List Task := []
  threads : Nat → ThreadState := fun _ ↦ .idle
  trace : List Event := []

namespace TcpConnection

/-- Neither waiting to be established nor closed. -/
def Alive (s : TcpConnection) : Prop :=
  s.state_ = .kConnected ∨ s.state_ = .kDisconnecting

instance (s : TcpConnection) : Decidable s.Alive :=
  inferInstanceAs (Decidable (_ ∨ _))

/-! ## The calls in the loop thread -/

def queueInLoop (s : TcpConnection) (cb : Functor) : TcpConnection :=
  { s with pendingFunctors_ := s.pendingFunctors_ ++ [cb] }

def record (s : TcpConnection) (e : Event) : TcpConnection :=
  { s with trace := s.trace ++ [e] }

def connected (s : TcpConnection) : Bool :=
  decide (s.state_ = .kConnected)

/-- What `sendInLoop` and `handleWrite` do once the last of what was sent is written. -/
def notifyWriteComplete (s : TcpConnection) (nwrote : Nat) : TcpConnection :=
  if s.writeCompleteCallback_ then
    -- the source counts what is sent only where it has somebody to tell
    { s with bytesSent_ := s.bytesSent_ + nwrote }.queueInLoop .writeComplete
  else s

/-- What `sendInLoop` does before it adds to the buffer. -/
def notifyHighWaterMark (s : TcpConnection) (remaining : Nat) : TcpConnection :=
  let oldLen := s.outputBuffer_.length
  -- only the append that crosses the mark is reported
  if s.highWaterMark_ ≤ oldLen + remaining ∧ oldLen < s.highWaterMark_ ∧
      s.highWaterMarkCallback_ then
    s.queueInLoop (.highWaterMark (oldLen + remaining))
  else s

/-- Where `sendInLoop` stands behind the write it tries itself. -/
structure Attempt where
  remaining : Bytes
  faultError : Bool
  after : TcpConnection

def directWrite (s : TcpConnection) (message : Bytes) : WriteResult → Attempt
  | .count n =>
      let s := s.record (.written (message.take n))
      { remaining := message.drop n
        faultError := false
        after := if message.drop n = [] then s.notifyWriteComplete message.length else s }
  -- any other error, as `EWOULDBLOCK`, leaves the whole message to be buffered
  | .error e => ⟨message, decide (e = .EPIPE ∨ e = .ECONNRESET), s⟩

def tryWrite (s : TcpConnection) (message : Bytes) (result : WriteResult) : Attempt :=
  -- a message never overtakes what is buffered
  if !s.channel_.isWriting ∧ s.outputBuffer_ = [] then s.directWrite message result
  else ⟨message, false, s⟩

/-- The part of `sendInLoop` that buffers what has not been written. -/
def keep (s : TcpConnection) (remaining : Bytes) : TcpConnection :=
  let s := s.notifyHighWaterMark remaining.length
  let s := { s with outputBuffer_ := s.outputBuffer_ ++ remaining }
  if s.channel_.isWriting then s else { s with channel_ := s.channel_.enableWriting }

def sendInLoop (s : TcpConnection) (caller : Caller) (message : Bytes) (result : WriteResult) :
    TcpConnection :=
  if s.state_ = .kDisconnected then s
  else
    let a := (s.record (.processed caller message)).tryWrite message result
    if !a.faultError ∧ a.remaining ≠ [] then a.after.keep a.remaining else a.after

def shutdownInLoop (s : TcpConnection) : TcpConnection :=
  -- with interest in writing there is something left: `handleWrite` comes back to it
  if s.channel_.isWriting then s else s.record .shutdownWrite

def startReadInLoop (s : TcpConnection) : TcpConnection :=
  if !s.reading_ ∨ !s.channel_.isReading then
    { s with channel_ := s.channel_.enableReading, reading_ := true }
  else s

def stopReadInLoop (s : TcpConnection) : TcpConnection :=
  if s.reading_ ∨ s.channel_.isReading then
    { s with channel_ := s.channel_.disableReading, reading_ := false }
  else s

/-- A call made in the loop thread; `result` is for the direct write of a `send`. -/
def call (s : TcpConnection) (c : Call) (result : WriteResult) : TcpConnection :=
  match c with
  | .send message =>
      if s.state_ = .kConnected then (s.record (.sent .loop message)).sendInLoop .loop
        message result
      else s
  | .shutdown =>
      if s.state_ = .kConnected then
        -- in the loop thread `runInLoop` calls at once, ahead of everything queued
        ({ s with state_ := .kDisconnecting }.record (.shutdownCalled .loop)).shutdownInLoop
      else s
  | .forceClose =>
      if s.Alive then
        -- `forceClose` queues also in the loop thread
        { s with state_ := .kDisconnecting }.queueInLoop .forceCloseInLoop
      else s
  | .forceCloseWithDelay =>
      -- the timer it starts calls `forceClose`
      if s.Alive then { s with state_ := .kDisconnecting }
      else s
  | .startRead => s.startReadInLoop
  | .stopRead => s.stopReadInLoop
  | .retrieveInput len => { s with inputBuffer_ := s.inputBuffer_.drop len }

/-! ## The handlers -/

/-- What follows once the piece at hand is through. -/
def defer (s : TcpConnection) (tasks : List Task) : TcpConnection :=
  { s with todo := tasks ++ s.todo }

/-- `handleClose` up to and with the call of `connectionCallback_`. -/
def handleClose (s : TcpConnection) : Except Assertion TcpConnection :=
  if s.Alive then
    let s := { s with state_ := .kDisconnected, channel_ := s.channel_.disableAll }
    .ok ((s.record (.connection s.connected)).defer [.callback, .closing])
  else .error .handleClose

/-- The rest of `handleClose`: the call of `closeCallback_`. -/
def closing (s : TcpConnection) : TcpConnection :=
  (s.record .close).defer [.callback]

def handleRead (s : TcpConnection) : ReadResult → Except Assertion TcpConnection
  -- the end of the stream
  | .data [] => s.handleClose
  | .data bytes =>
      let s := { s with
        inputBuffer_ := s.inputBuffer_ ++ bytes, bytesReceived_ := s.bytesReceived_ + bytes.length }
      .ok ((s.record .message).defer [.callback])
  | .error _ => .ok s

/-- The part of `handleWrite` behind a write that emptied the buffer with its last `n` bytes. -/
def drained (s : TcpConnection) (n : Nat) : TcpConnection :=
  let s := { s with channel_ := s.channel_.disableWriting }.notifyWriteComplete n
  -- a `shutdown` that found interest in writing is made up for here
  if s.state_ = .kDisconnecting then s.shutdownInLoop else s

def handleWrite (s : TcpConnection) : WriteResult → TcpConnection
  | .count n =>
      -- a write of no bytes is logged as an error, as is a write of an empty buffer
      if s.channel_.isWriting ∧ 0 < n ∧ s.outputBuffer_ ≠ [] then
        let written := s.outputBuffer_.take n
        let s := { s with outputBuffer_ := s.outputBuffer_.drop n }.record (.written written)
        if s.outputBuffer_ = [] then s.drained written.length else s
      else s
  | .error _ => s

def connectEstablished (s : TcpConnection) : Except Assertion TcpConnection :=
  if s.state_ = .kConnecting then
    let s := { s with state_ := .kConnected, channel_ := s.channel_.enableReading }
    .ok ((s.record (.connection s.connected)).defer [.callback])
  else .error .connectEstablished

/-- `connectDestroyed` up to the test of `state_`. -/
def connectDestroyed (s : TcpConnection) : TcpConnection :=
  -- `kDisconnecting` takes the second way, too: the channel keeps its interest and `remove` fails
  if s.state_ = .kConnected then s.defer [.destroyStore, .removeChannel]
    else s.defer [.removeChannel]

/-- The branch of `connectDestroyed` for a connection that was still up. -/
def destroyStore (s : TcpConnection) : TcpConnection :=
  let s := { s with state_ := .kDisconnected, channel_ := s.channel_.disableAll }
  (s.record (.connection s.connected)).defer [.callback]

/-- The end of `connectDestroyed`. -/
def removeChannel (s : TcpConnection) : Except Assertion TcpConnection := do
  let channel ← s.channel_.remove
  return { s with channel_ := channel }

/-! ## The stages of `Channel::handleEventWithGuard` -/

/-- The loop reaches the channel. -/
def startHandling (s : TcpConnection) : TcpConnection :=
  { s with active := false, todo := [.readStage, .writeStage] }

/-- Closes when the peer has hung up, then reports an error, which changes nothing here. -/
def closeStage (s : TcpConnection) : Except Assertion TcpConnection :=
  if s.revents_.EPOLLHUP ∧ !s.revents_.EPOLLIN then s.handleClose else .ok s

def readStage (s : TcpConnection) (result : ReadResult) : Except Assertion TcpConnection :=
  -- the third bit is `EPOLLHUP` in the source, so what has just been closed is read as well
  if s.revents_.EPOLLIN ∨ s.revents_.EPOLLPRI ∨ s.revents_.EPOLLHUP then s.handleRead result
    else .ok s

def writeStage (s : TcpConnection) (result : WriteResult) : TcpConnection :=
  if s.revents_.EPOLLOUT then s.handleWrite result else s

def runFunctor (s : TcpConnection) (result : WriteResult) : Functor → Except Assertion TcpConnection
  | .sendInLoop caller message => .ok (s.sendInLoop caller message result)
  | .shutdownInLoop => .ok s.shutdownInLoop
  | .forceCloseInLoop =>
      if s.Alive then s.handleClose else .ok s
  | .startReadInLoop => .ok s.startReadInLoop
  | .stopReadInLoop => .ok s.stopReadInLoop
  | .writeComplete => .ok (s.defer [.callback])
  | .highWaterMark _ => .ok (s.defer [.callback])
  | .connectDestroyed => .ok s.connectDestroyed

/-! ## The steps of another thread -/

def setThread (s : TcpConnection) (n : Nat) (st : ThreadState) : TcpConnection :=
  { s with threads := fun m ↦ if m = n then st else s.threads m }

/-- The first step of a call: the load of `state_`, or the push where there is none. -/
def threadCall (s : TcpConnection) (n : Nat) : Call → TcpConnection
  | .send message =>
      if s.state_ = .kConnected then
        (s.record (.sent (.thread n) message)).setThread n (.sendQueue message)
      else s
  | .shutdown => if s.state_ = .kConnected then s.setThread n .shutdownStore else s
  | .forceClose =>
      if s.Alive then s.setThread n .forceCloseStore else s
  | .forceCloseWithDelay =>
      if s.Alive then s.setThread n .forceCloseDelayStore
      else s
  -- no test of `state_` here: the first step is the push
  | .startRead => s.queueInLoop .startReadInLoop
  | .stopRead => s.queueInLoop .stopReadInLoop
  | .retrieveInput _ => s

/-- The next step of the call the thread is in. -/
def threadProceed (s : TcpConnection) (n : Nat) : TcpConnection :=
  match s.threads n with
  | .idle => s
  | .sendQueue message => (s.queueInLoop (.sendInLoop (.thread n) message)).setThread n .idle
  | .shutdownStore =>
      ({ s with state_ := .kDisconnecting }.record (.shutdownCalled (.thread n))).setThread n
        .shutdownQueue
  | .shutdownQueue => (s.queueInLoop .shutdownInLoop).setThread n .idle
  | .forceCloseStore => { s with state_ := .kDisconnecting }.setThread n .forceCloseQueue
  | .forceCloseQueue => (s.queueInLoop .forceCloseInLoop).setThread n .idle
  | .forceCloseDelayStore => { s with state_ := .kDisconnecting }.setThread n .idle

/-! ## Runs -/

inductive Label
  | poll (revents : EventMask)
  | handleEvent
  | readStage (result : ReadResult)
  | writeStage (result : WriteResult)
  | resume
  | ret
  | functor (result : WriteResult)
  | call (c : Call) (result : WriteResult)
  | destroy
  | thread (n : Nat) (c : Call)
  | proceed (n : Nat)
deriving DecidableEq, Repr

/-- User code runs in a callback, and outside the handlers of this connection. -/
def inUserCode (s : TcpConnection) : Bool :=
  match s.todo with
  | [] => true
  | .callback :: _ => true
  | _ => false

/-- One step, with the assertion that fails in it; `none` when it cannot be taken. -/
def next (s : TcpConnection) : Label → Option (Except Assertion TcpConnection)
  | .poll revents =>
      -- the mask is what the kernel may report for its entry, which `update` has set
      if s.todo = [] ∧ s.active = false ∧
          ∃ interest ∈ s.channel_.registered, EventMask.MayReport interest revents then
        some (.ok { s with revents_ := revents, active := true })
      else none
  | .handleEvent =>
      if s.todo = [] ∧ s.active = true then some s.startHandling.closeStage else none
  | .readStage result =>
      match s.todo with
      | .readStage :: rest => some ({ s with todo := rest }.readStage result)
      | _ => none
  | .writeStage result =>
      match s.todo with
      | .writeStage :: rest => some (.ok ({ s with todo := rest }.writeStage result))
      | _ => none
  | .resume =>
      match s.todo with
      | .closing :: rest => some (.ok { s with todo := rest }.closing)
      | .destroyStore :: rest => some (.ok { s with todo := rest }.destroyStore)
      | .removeChannel :: rest => some { s with todo := rest }.removeChannel
      | _ => none
  | .ret =>
      match s.todo with
      | .callback :: rest => some (.ok { s with todo := rest })
      | _ => none
  | .functor result =>
      -- functors run once all events are handled, the oldest first
      match s.todo, s.active, s.pendingFunctors_ with
      | [], false, cb :: rest => some ({ s with pendingFunctors_ := rest }.runFunctor result cb)
      | _, _, _ => none
  | .call c result => if s.inUserCode then some (.ok (s.call c result)) else none
  | .destroy => some (.ok (s.queueInLoop .connectDestroyed))
  | .thread n c => if s.threads n = .idle then some (.ok (s.threadCall n c)) else none
  | .proceed n => if s.threads n = .idle then none else some (.ok (s.threadProceed n))

/-- A connection before `connectEstablished`. -/
def fresh (highWaterMark : Nat) (writeComplete highWater : Bool) : TcpConnection :=
  { highWaterMark_ := highWaterMark
    writeCompleteCallback_ := writeComplete
    highWaterMarkCallback_ := highWater }

/-- The same connection after it, in the callback that reports it up. -/
def established (highWaterMark : Nat) (writeComplete highWater : Bool) : TcpConnection :=
  { fresh highWaterMark writeComplete highWater with
    state_ := .kConnected
    channel_ := Channel.enableReading {}
    todo := [.callback]
    trace := [.connection true] }

section

variable {s t : TcpConnection}

theorem alive_ne_disconnected (h : s.Alive) : s.state_ ≠ .kDisconnected := by
  rcases h with h | h <;> rw [h] <;> decide

theorem alive_of_ne (h : s.state_ ≠ .kConnecting) (h' : s.state_ ≠ .kDisconnected) : s.Alive := by
  unfold Alive
  cases hs : s.state_ with
  | kDisconnected => exact absurd hs h'
  | kConnecting => exact absurd hs h
  | kConnected => exact .inl rfl
  | kDisconnecting => exact .inr rfl

theorem not_alive_of_disconnected (h : s.state_ = .kDisconnected) : ¬ s.Alive := by
  rintro (hs | hs) <;> rw [h] at hs <;> cases hs

theorem handleClose_state (h : s.handleClose = .ok t) : t.state_ = .kDisconnected := by
  unfold handleClose at h
  split at h
  · cases h
    rfl
  · cases h

end

theorem connectEstablished_fresh (highWaterMark : Nat) (writeComplete highWater : Bool) :
    (fresh highWaterMark writeComplete highWater).connectEstablished =
      .ok (established highWaterMark writeComplete highWater) := rfl

def Step (s : TcpConnection) (l : Label) (t : TcpConnection) : Prop :=
  s.next l = some (.ok t)

/-- What a step can be. -/
inductive StepCases (s : TcpConnection) : Label → TcpConnection → Prop
  | poll {revents interest : EventMask} :
      s.todo = [] → s.active = false → interest ∈ s.channel_.registered →
      EventMask.MayReport interest revents →
      StepCases s (.poll revents) { s with revents_ := revents, active := true }
  | hangUp {t : TcpConnection} :
      s.todo = [] → s.active = true → s.revents_.EPOLLHUP = true ∧ (!s.revents_.EPOLLIN) = true →
      s.startHandling.handleClose = .ok t → StepCases s .handleEvent t
  | handleEvent :
      s.todo = [] → s.active = true → ¬ (s.revents_.EPOLLHUP = true ∧
      (!s.revents_.EPOLLIN) = true) →
      StepCases s .handleEvent s.startHandling
  | read {rest : List Task} {result : ReadResult} {t : TcpConnection} :
      s.todo = .readStage :: rest →
      s.revents_.EPOLLIN = true ∨ s.revents_.EPOLLPRI = true ∨ s.revents_.EPOLLHUP = true →
      { s with todo := rest }.handleRead result = .ok t → StepCases s (.readStage result) t
  | noRead {rest : List Task} {result : ReadResult} :
      s.todo = .readStage :: rest →
      ¬ (s.revents_.EPOLLIN = true ∨ s.revents_.EPOLLPRI = true ∨ s.revents_.EPOLLHUP = true) →
      StepCases s (.readStage result) { s with todo := rest }
  | writeStage {rest : List Task} {result : WriteResult} :
      s.todo = .writeStage :: rest →
      StepCases s (.writeStage result) ({ s with todo := rest }.writeStage result)
  | closing {rest : List Task} :
      s.todo = .closing :: rest → StepCases s .resume { s with todo := rest }.closing
  | destroyStore {rest : List Task} :
      s.todo = .destroyStore :: rest → StepCases s .resume { s with todo := rest }.destroyStore
  | removeChannel {rest : List Task} {channel : Channel} :
      s.todo = .removeChannel :: rest → s.channel_.remove = .ok channel →
      StepCases s .resume { s with todo := rest, channel_ := channel }
  | ret {rest : List Task} : s.todo = .callback :: rest → StepCases s .ret { s with todo := rest }
  | functor {cb : Functor} {rest : List Functor} {result : WriteResult} {t : TcpConnection} :
      s.todo = [] → s.active = false → s.pendingFunctors_ = cb :: rest →
      { s with pendingFunctors_ := rest }.runFunctor result cb = .ok t →
      StepCases s (.functor result) t
  | call {c : Call} {result : WriteResult} :
      s.inUserCode = true → StepCases s (.call c result) (s.call c result)
  | destroy : StepCases s .destroy (s.queueInLoop .connectDestroyed)
  | thread {n : Nat} {c : Call} : s.threads n = .idle → StepCases s (.thread n c) (s.threadCall n c)
  | proceed {n : Nat} : s.threads n ≠ .idle → StepCases s (.proceed n) (s.threadProceed n)

theorem removeChannel_ok {s t : TcpConnection} (h : s.removeChannel = .ok t) :
    ∃ channel, s.channel_.remove = .ok channel ∧ t = { s with channel_ := channel } := by
  unfold removeChannel at h
  cases hremove : s.channel_.remove with
  | error a => simp [hremove, bind, Except.bind] at h
  | ok channel =>
    simp only [hremove] at h
    cases h
    exact ⟨channel, rfl, rfl⟩

theorem step_cases {s t : TcpConnection} {l : Label} (h : Step s l t) : StepCases s l t := by
  unfold Step at h
  cases l with
  | poll revents =>
    simp only [next] at h
    split at h
    next hready =>
      cases h
      rcases hready with ⟨htodo, hidle, interest, hregistered, hreports⟩
      exact .poll htodo hidle hregistered hreports
    next => cases h
  | handleEvent =>
    simp only [next] at h
    split at h
    next hready =>
      have hclose := Option.some.inj h
      unfold closeStage at hclose
      split at hclose
      next hup => exact .hangUp hready.1 hready.2 hup hclose
      next hup =>
        cases hclose
        exact .handleEvent hready.1 hready.2 hup
    next => cases h
  | readStage result =>
    simp only [next] at h
    split at h
    next rest htodo =>
      have hread := Option.some.inj h
      unfold readStage at hread
      split at hread
      next hin => exact .read htodo hin hread
      next hin =>
        cases hread
        exact .noRead htodo hin
    next => cases h
  | writeStage result =>
    simp only [next] at h
    split at h
    next rest htodo =>
      cases h
      exact .writeStage htodo
    next => cases h
  | resume =>
    simp only [next] at h
    split at h
    next rest htodo =>
      cases h
      exact .closing htodo
    next rest htodo =>
      cases h
      exact .destroyStore htodo
    next rest htodo =>
      rcases removeChannel_ok (Option.some.inj h) with ⟨channel, hremove, rfl⟩
      exact .removeChannel htodo hremove
    next => cases h
  | ret =>
    simp only [next] at h
    split at h
    next rest htodo =>
      cases h
      exact .ret htodo
    next => cases h
  | functor result =>
    simp only [next] at h
    split at h
    next cb rest htodo hidle hpending => exact .functor htodo hidle hpending (Option.some.inj h)
    next => cases h
  | call c result =>
    simp only [next] at h
    split at h
    next huser =>
      cases h
      exact .call huser
    next => cases h
  | destroy =>
    cases h
    exact .destroy
  | thread n c =>
    simp only [next] at h
    split at h
    next hidle =>
      cases h
      exact .thread hidle
    next => cases h
  | proceed n =>
    simp only [next] at h
    split at h
    next => cases h
    next hbusy =>
      cases h
      exact .proceed hbusy

/-- The step fails the assertion `a`. -/
def Fails (s : TcpConnection) (l : Label) (a : Assertion) : Prop :=
  s.next l = some (.error a)

/-- Where the labels lead, up to the first that cannot be taken. -/
def follow (s : TcpConnection) : List Label → TcpConnection
  | [] => s
  | l :: ls =>
      match s.next l with
      | some (.ok t) => t.follow ls
      | _ => s

end TcpConnection

end Pallette
