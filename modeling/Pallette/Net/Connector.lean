import Pallette.Basic
import Pallette.Net.Channel

/-!
# Connector — one attempt to connect after the other

A function of the source that looks at `connect_` in the middle, where another thread may have
stored to it, is cut there: `Rest` is what the loop thread has still to do of it.  Sockets have
numbers of their own, in the order in which they are made, so that a descriptor the kernel gives out
again is another socket.
-/

namespace Pallette

namespace Connector

inductive States
  | kDisconnected
  | kConnecting
  | kConnected
deriving DecidableEq, Repr

/-- `savedErrno`, `ok` for 0. -/
inductive Errno
  | ok
  | EINPROGRESS
  | EINTR
  | EISCONN
  | EAGAIN
  | EADDRINUSE
  | EADDRNOTAVAIL
  | ECONNREFUSED
  | ENETUNREACH
  | EACCES
  | EPERM
  | EAFNOSUPPORT
  | EALREADY
  | EBADF
  | EFAULT
  | ENOTSOCK
  | other
deriving DecidableEq, Repr

/-- The three ways the `switch` of `connect` goes. -/
inductive Outcome
  | connecting
  | retry
  | close
deriving DecidableEq, Repr

def Errno.outcome : Errno → Outcome
  | .ok | .EINPROGRESS | .EINTR | .EISCONN => .connecting
  | .EAGAIN | .EADDRINUSE | .EADDRNOTAVAIL | .ECONNREFUSED | .ENETUNREACH => .retry
  | .EACCES | .EPERM | .EAFNOSUPPORT | .EALREADY | .EBADF | .EFAULT | .ENOTSOCK => .close
  | .other => .close

/-- What the kernel answers to `connect`, to `getsockopt` and about the two ends of the
connection. -/
structure Kernel where
  savedErrno : Errno := .ok
  socketError : Errno := .ok
  isSelfConnect : Bool := false
deriving DecidableEq, Repr

/-- The assertions on the way: those of the source by the function they stand in, the use of a null
`channel_`, and those of `Channel`, its destructor among them. -/
inductive Fault
  | startInLoop
  | connecting
  | handleWrite
  | nullChannel
  | channel (a : Assertion)
  | channelDestructor
  | removeConnection
  | handleClose
deriving DecidableEq, Repr

/-- What is queued in the loop. -/
inductive Functor
  | startInLoop
  | stopInLoop
  | resetChannel
  | forceCloseInLoop (conn : Nat)
  | connectDestroyed (conn : Nat)
deriving DecidableEq, Repr

inductive Event
  | socket (sockfd : Nat)
  | close (sockfd : Nat)
  | newConnection (sockfd : Nat)
  | runAfter (delayMs : Nat)
deriving DecidableEq, Repr

/-- The rest of `retry`, and that of `handleWrite` for a connection that stands. -/
inductive Rest
  | retry
  | connected (sockfd : Nat)
deriving DecidableEq, Repr

def kMaxRetryDelayMs : Nat := 30 * 1000
def kInitRetryDelayMs : Nat := 500

end Connector

open Connector

/-- `pendingFunctors_` and `timers` are what is queued in `loop_` and the retry timers armed
there. -/
structure Connector where
  connect_ : Bool := false
  state_ : States := .kDisconnected
  channel_ : Option (Nat × Channel) := none
  retryDelayMs_ : Nat := kInitRetryDelayMs
  retryConnector_ : Bool := false
  retryConnectorTimerId_ : Nat := 0
  pendingFunctors_ : List Functor := []
  timers : List Nat := []
  nextTimer : Nat := 1
  nextSocket : Nat := 0
  trace : List Event := []
deriving DecidableEq, Repr

namespace Connector

def queueInLoop (c : Connector) (f : Functor) : Connector :=
  { c with pendingFunctors_ := c.pendingFunctors_ ++ [f] }

def emit (c : Connector) (e : Event) : Connector :=
  { c with trace := c.trace ++ [e] }

def setState (c : Connector) (s : States) : Connector :=
  { c with state_ := s }

/-- `loop_->runAfter` with `startInLoop` as callback. -/
def runAfter (c : Connector) (delayMs : Nat) : Connector :=
  { c with
    timers := c.timers ++ [c.nextTimer], retryConnectorTimerId_ := c.nextTimer
    nextTimer := c.nextTimer + 1, trace := c.trace ++ [.runAfter delayMs] }

/-- The timer has expired; its callback is to be run. -/
def expire (c : Connector) (timer : Nat) : Connector :=
  { c with timers := c.timers.erase timer }

def cancel (c : Connector) (timer : Nat) : Connector :=
  { c with timers := c.timers.filter (· ≠ timer) }

/-- `retry`, up to its look at `connect_`. -/
def retry (c : Connector) (sockfd : Nat) : Connector :=
  (c.emit (.close sockfd)).setState .kDisconnected

/-- `retry`, from there on. -/
def retryIfConnect (c : Connector) : Connector :=
  if c.connect_ then
    { c.runAfter c.retryDelayMs_ with
      retryDelayMs_ := min (c.retryDelayMs_ * 2) kMaxRetryDelayMs, retryConnector_ := true }
  else c

def connecting (c : Connector) (sockfd : Nat) : Except Fault Connector :=
  let c := c.setState .kConnecting
  if c.channel_ = none then .ok { c with channel_ := some (sockfd, ({} : Channel).enableWriting) }
  else .error .connecting

def connect (c : Connector) (k : Kernel) : Except Fault (Connector × Option Rest) :=
  let sockfd := c.nextSocket
  let c := { c with nextSocket := sockfd + 1 }.emit (.socket sockfd)
  match k.savedErrno.outcome with
  | .connecting => do return (← c.connecting sockfd, none)
  | .retry => .ok (c.retry sockfd, some .retry)
  | .close => .ok (c.emit (.close sockfd), none)

def startInLoop (c : Connector) (k : Kernel) : Except Fault (Connector × Option Rest) :=
  if c.state_ = .kDisconnected then
    let c := { c with retryConnector_ := false }
    if c.connect_ then c.connect k else .ok (c, none)
  else .error .startInLoop

/-- With the descriptor it returns. -/
def removeAndResetChannel (c : Connector) : Except Fault (Connector × Nat) :=
  match c.channel_ with
  | none => .error .nullChannel
  | some (sockfd, channel) =>
      match channel.disableAll.remove with
      | .error a => .error (.channel a)
      | .ok channel =>
          .ok ({ c with channel_ := some (sockfd, channel) }.queueInLoop .resetChannel, sockfd)

/-- The first of the two parts of `stopInLoop`. -/
def cancelRetry (c : Connector) : Connector :=
  if c.retryConnector_ then c.cancel c.retryConnectorTimerId_ else c

def stopInLoop (c : Connector) : Except Fault (Connector × Option Rest) := do
  let c := c.cancelRetry
  if c.state_ = .kConnecting then
    let (c, sockfd) ← (c.setState .kDisconnected).removeAndResetChannel
    return (c.retry sockfd, some .retry)
  else return (c, none)

/-- `channel_.reset()`, with the assertions of `~Channel`. -/
def resetChannel (c : Connector) : Except Fault Connector :=
  match c.channel_ with
  | none => .ok c
  | some (_, channel) =>
      if channel.addedToLoop_ ∨ channel.index_ ≠ .kNew then .error .channelDestructor
      else .ok { c with channel_ := none }

/-- Up to the look at `connect_`. -/
def handleWrite (c : Connector) (k : Kernel) : Except Fault (Connector × Option Rest) :=
  if c.state_ = .kConnecting then do
    let (c, sockfd) ← c.removeAndResetChannel
    if k.socketError ≠ .ok then return (c.retry sockfd, some .retry)
    else if k.isSelfConnect then return (c.retry sockfd, some .retry)
    else return (c.setState .kConnected, some (.connected sockfd))
  else if c.state_ = .kDisconnected then .ok (c, none)
  else .error .handleWrite

def handleError (c : Connector) : Except Fault (Connector × Option Rest) :=
  if c.state_ = .kConnecting then do
    let (c, sockfd) ← c.removeAndResetChannel
    return (c.retry sockfd, some .retry)
  else .ok (c, none)

/-- `restart`, up to its call of `startInLoop`. -/
def restart (c : Connector) : Connector :=
  { c.setState .kDisconnected with retryDelayMs_ := kInitRetryDelayMs, connect_ := true }

/-! ## What the functions do -/

/-- The channel as it is behind `removeAndResetChannel`. -/
def Removed (channel : Channel) : Prop :=
  channel.addedToLoop_ = false ∧ channel.index_ = .kNew ∧ channel.registered = none

/-- What a function does with the attempt: begin one, end it at once, or bring the one that is on to
its end.  Only an attempt that is on has a channel in the poller. -/
inductive Acts (c : Connector) : Connector → Option Rest → Prop
  | nothing : Acts c c none
  | connecting : c.state_ = .kDisconnected → c.channel_ = none → Acts c
      { c with
        state_ := .kConnecting, channel_ := some (c.nextSocket, ({} : Channel).enableWriting)
        nextSocket := c.nextSocket + 1, trace := c.trace ++ [.socket c.nextSocket] } none
  | refused {rest : Option Rest} : c.state_ = .kDisconnected → rest = none ∨
      rest = some .retry → Acts c
      { c with
        nextSocket := c.nextSocket + 1
        trace := c.trace ++ [.socket c.nextSocket, .close c.nextSocket] } rest
  | dropped {sockfd : Nat} {channel channel' : Channel} : c.state_ = .kConnecting →
      c.channel_ = some (sockfd, channel) → Removed channel' → Acts c
      { c with
        state_ := .kDisconnected, channel_ := some (sockfd, channel')
        pendingFunctors_ := c.pendingFunctors_ ++ [.resetChannel]
        trace := c.trace ++ [.close sockfd] } (some .retry)
  | connected {sockfd : Nat} {channel channel' : Channel} : c.state_ = .kConnecting →
      c.channel_ = some (sockfd, channel) → Removed channel' → Acts c
      { c with
        state_ := .kConnected, channel_ := some (sockfd, channel')
        pendingFunctors_ := c.pendingFunctors_ ++ [.resetChannel] } (some (.connected sockfd))

variable {c c' : Connector} {k : Kernel} {rest : Option Rest}

theorem disableAll_remove (channel : Channel) :
    ∃ channel', channel.disableAll.remove = .ok channel' ∧ Removed channel' := by
  have hnone : channel.disableAll.isNoneEvent = true := by
    simp [Channel.isNoneEvent]
  have hindex : channel.disableAll.index_ ≠ .kNew := Channel.update_index _
  refine ⟨{ channel.disableAll with addedToLoop_ := false, index_ := .kNew, registered := none },
    ?_, rfl, rfl, rfl⟩
  rw [Channel.remove, if_pos hnone, Channel.removeChannel, if_neg]
  rintro (hnew | hevents)
  · exact hindex hnew
  · rw [Channel.isNoneEvent] at hnone hevents
    simp at hevents

/-- With a channel, `removeAndResetChannel` goes through. -/
theorem removeAndResetChannel_eq {sockfd : Nat} {channel : Channel}
    (h : c.channel_ = some (sockfd, channel)) :
    ∃ channel', Removed channel' ∧ c.removeAndResetChannel =
      .ok ({ c with channel_ := some (sockfd, channel') }.queueInLoop .resetChannel, sockfd) := by
  rcases disableAll_remove channel with ⟨channel', hremove, hremoved⟩
  refine ⟨channel', hremoved, ?_⟩
  simp only [removeAndResetChannel, h, hremove]

theorem removeAndResetChannel_cases {r : Connector × Nat} (h : c.removeAndResetChannel = .ok r) :
    ∃ sockfd channel channel', c.channel_ = some (sockfd, channel) ∧ Removed channel' ∧
      r = ({ c with channel_ := some (sockfd, channel') }.queueInLoop .resetChannel, sockfd) := by
  cases hchannel : c.channel_ with
  | none =>
    simp only [removeAndResetChannel, hchannel] at h
    cases h
  | some entry =>
    rcases removeAndResetChannel_eq hchannel with ⟨channel', hremoved, heq⟩
    rw [heq] at h
    cases h
    exact ⟨entry.1, entry.2, channel', rfl, hremoved, rfl⟩

theorem setState_eq {s : States} (h : c.state_ = s) : c.setState s = c := by
  subst h
  rfl

theorem connect_acts (hstate : c.state_ = .kDisconnected) (h : c.connect k = .ok (c', rest)) :
    Acts c c' rest := by
  unfold connect at h
  dsimp only at h
  split at h
  · unfold connecting at h
    dsimp only [emit, setState] at h
    split at h
    next hchannel =>
      cases h
      exact .connecting hstate hchannel
    next => cases h
  · cases h
    rw [retry, setState_eq (by exact hstate)]
    simp only [emit, List.append_assoc]
    exact .refused hstate (.inr rfl)
  · cases h
    simp only [emit, List.append_assoc]
    exact .refused hstate (.inl rfl)

theorem startInLoop_acts (h : c.startInLoop k = .ok (c', rest)) :
    c.state_ = .kDisconnected ∧ Acts { c with retryConnector_ := false } c' rest := by
  unfold startInLoop at h
  split at h
  next hstate =>
    refine ⟨hstate, ?_⟩
    dsimp only at h
    split at h
    · exact connect_acts hstate h
    · cases h
      exact .nothing
  next => cases h

theorem stopInLoop_acts (h : c.stopInLoop = .ok (c', rest)) : Acts c.cancelRetry c' rest := by
  unfold stopInLoop at h
  dsimp only at h
  split at h
  next hstate =>
    rcases ok_of_bind h with ⟨r, hr, heq⟩
    rcases removeAndResetChannel_cases hr with ⟨sockfd, channel, channel', hchannel, hremoved, rfl⟩
    cases heq
    exact .dropped hstate hchannel hremoved
  next =>
    cases h
    exact .nothing

theorem handleError_acts (h : c.handleError = .ok (c', rest)) : Acts c c' rest := by
  unfold handleError at h
  split at h
  next hstate =>
    rcases ok_of_bind h with ⟨r, hr, heq⟩
    rcases removeAndResetChannel_cases hr with ⟨sockfd, channel, channel', hchannel, hremoved, rfl⟩
    cases heq
    exact .dropped hstate hchannel hremoved
  next =>
    cases h
    exact .nothing

theorem handleWrite_acts (h : c.handleWrite k = .ok (c', rest)) : Acts c c' rest := by
  unfold handleWrite at h
  split at h
  next hstate =>
    rcases ok_of_bind h with ⟨r, hr, heq⟩
    rcases removeAndResetChannel_cases hr with ⟨sockfd, channel, channel', hchannel, hremoved, rfl⟩
    dsimp only at heq
    split at heq
    · -- a socket error, a connection to itself, and else the socket that goes to the callback
      cases heq
      exact .dropped hstate hchannel hremoved
    · split at heq
      · cases heq
        exact .dropped hstate hchannel hremoved
      · cases heq
        exact .connected hstate hchannel hremoved
  next =>
    split at h
    · cases h
      exact .nothing
    · cases h

theorem startInLoop_rest (h : c.startInLoop k = .ok (c', rest)) :
    rest = none ∨ rest = some .retry := by
  rcases startInLoop_acts h with ⟨hstate, hacts⟩
  cases hacts with
  | nothing | connecting _ _ => exact .inl rfl
  | refused _ hrest => exact hrest
  | dropped hconnecting | connected hconnecting =>
    rw [hstate] at hconnecting
    cases hconnecting

/-- The handler of an error leaves everything, or the state `handleWrite` asks for. -/
theorem handleError_leaves (h : c.handleError = .ok (c', rest)) :
    (c' = c ∧ rest = none) ∨ (c'.state_ = .kDisconnected ∧ rest = some .retry) := by
  unfold handleError at h
  split at h
  · rcases ok_of_bind h with ⟨r, _, heq⟩
    cases heq
    exact .inr ⟨rfl, rfl⟩
  · cases h
    exact .inl ⟨rfl, rfl⟩

theorem handleError_rest (h : c.handleError = .ok (c', rest)) : rest = none ∨ rest = some .retry :=
  (handleError_leaves h).imp And.right And.right

theorem stopInLoop_rest (h : c.stopInLoop = .ok (c', rest)) : rest = none ∨ rest = some .retry := by
  unfold stopInLoop at h
  dsimp only at h
  split at h
  · rcases ok_of_bind h with ⟨r, _, heq⟩
    cases heq
    exact .inr rfl
  · cases h
    exact .inl rfl

/-! ## When they fail no assertion -/

theorem startInLoop_ok (k : Kernel) (hstate : c.state_ = .kDisconnected)
    (hchannel : c.connect_ = true → c.channel_ = none) : ∃ r, c.startInLoop k = .ok r := by
  unfold startInLoop
  rw [if_pos hstate]
  dsimp only
  split
  next hconnect =>
    unfold connect
    cases k.savedErrno.outcome with
    | connecting =>
      simp only [connecting, setState, emit, hchannel hconnect, if_true]
      exact ⟨_, rfl⟩
    | retry | close => exact ⟨_, rfl⟩
  next => exact ⟨_, rfl⟩

theorem stopInLoop_ok (h : c.state_ = .kConnecting → c.channel_ ≠ none) :
    ∃ r, c.stopInLoop = .ok r := by
  have hsame : c.cancelRetry.state_ = c.state_ ∧ c.cancelRetry.channel_ = c.channel_ := by
    unfold cancelRetry
    split
    · exact ⟨rfl, rfl⟩
    · exact ⟨rfl, rfl⟩
  unfold stopInLoop
  dsimp only
  by_cases hstate : c.cancelRetry.state_ = .kConnecting
  · rw [if_pos hstate]
    rcases Option.ne_none_iff_exists'.mp (h (hsame.1.symm.trans hstate)) with ⟨entry, hentry⟩
    have hchannel : (c.cancelRetry.setState .kDisconnected).channel_ = some entry :=
      hsame.2.trans hentry
    rcases removeAndResetChannel_eq hchannel with ⟨channel', _, heq⟩
    rw [heq]
    exact ⟨_, rfl⟩
  · rw [if_neg hstate]
    exact ⟨_, rfl⟩

theorem handleError_ok (h : c.state_ = .kConnecting → c.channel_ ≠ none) :
    ∃ r, c.handleError = .ok r := by
  unfold handleError
  by_cases hstate : c.state_ = .kConnecting
  · rw [if_pos hstate]
    rcases Option.ne_none_iff_exists'.mp (h hstate) with ⟨entry, hentry⟩
    rcases removeAndResetChannel_eq hentry with ⟨channel', _, heq⟩
    rw [heq]
    exact ⟨_, rfl⟩
  · rw [if_neg hstate]
    exact ⟨_, rfl⟩

theorem handleWrite_ok (k : Kernel) (h : c.state_ = .kConnecting → c.channel_ ≠ none)
    (hstate : c.state_ ≠ .kConnected) : ∃ r, c.handleWrite k = .ok r := by
  unfold handleWrite
  by_cases hconnecting : c.state_ = .kConnecting
  · rw [if_pos hconnecting]
    rcases Option.ne_none_iff_exists'.mp (h hconnecting) with ⟨entry, hentry⟩
    rcases removeAndResetChannel_eq hentry with ⟨channel', _, heq⟩
    rw [heq]
    change ∃ r, ite _ _ _ = Except.ok r
    split
    · exact ⟨_, rfl⟩
    · split
      · exact ⟨_, rfl⟩
      · exact ⟨_, rfl⟩
  · rw [if_neg hconnecting]
    have hdisconnected : c.state_ = .kDisconnected := by
      cases hc : c.state_ with
      | kDisconnected => rfl
      | kConnecting => exact absurd hc hconnecting
      | kConnected => exact absurd hc hstate
    exact ⟨_, if_pos hdisconnected⟩

end Connector

end Pallette
