import Pallette.Net.TcpConnection
import Pallette.Reasoning.Run
import Mathlib.Logic.Function.Basic

/-!
# ServerLoops — connections handed from loop to loop

`TcpServer` lives in the base loop, loop 0 here, and gives its connections to the loops of its
thread pool, 1 to `numThreads`, or keeps them when there are none.  A connection comes up in its
loop, closes there, is taken out of the map in the base loop and is destroyed in its own loop again.
Each functor and each handler is one step of its loop: what it does to another loop is to push a
functor.

What can go wrong inside one loop is left to `Closing` and `TcpServer`: here a connection that is
closed gets no second close event, and its reading is not started again.
-/

open Reasoning

namespace Pallette.ServerLoops

open TcpConnection (StateE)

/-- A failed assertion, the overflow of `nextConnId_`, or a call on a `TcpServer` that is gone. -/
inductive Fault
  | connectEstablished
  | handleClose
  | notErased
  | channelRemove
  | nextConnId
  | serverGone
deriving DecidableEq, Repr

inductive Functor
  | connectEstablished (conn : Nat)
  | forceCloseInLoop (conn : Nat)
  | removeConnectionInLoop (conn : Nat)
  | connectDestroyed (conn : Nat)
deriving DecidableEq, Repr

inductive Stage
  | established
  | closed
  | removed
  | destroyed
deriving DecidableEq, Repr

/-- `trace` records what has become of the connection, and in which loop. -/
structure Conn where
  loop_ : Nat := 0
  state_ : StateE := .kConnecting
  trace : List (Stage × Nat) := []

def Conn.Alive (k : Conn) : Prop :=
  k.state_ = .kConnected ∨ k.state_ = .kDisconnecting

instance (k : Conn) : Decidable k.Alive :=
  inferInstanceAs (Decidable (_ ∨ _))

/-- Connections go by the number in their name. -/
structure Server where
  numThreads : Nat
  next_ : Nat := 0
  nextConnId_ : Nat := 1
  connections_ : List Nat := []
  conn : Nat → Conn := fun _ ↦ {}
  pendingFunctors_ : Nat → List Functor := fun _ ↦ []
  gone : Bool := false

namespace Server

def setConn (s : Server) (c : Nat) (k : Conn) : Server :=
  { s with conn := Function.update s.conn c k }

def queueInLoop (s : Server) (loop : Nat) (cb : Functor) : Server :=
  { s with pendingFunctors_ :=
    Function.update s.pendingFunctors_ loop (s.pendingFunctors_ loop ++ [cb]) }

section Frame

variable {s : Server} {c loop : Nat}

@[simp] theorem setConn_conn_self (k : Conn) : (s.setConn c k).conn c = k :=
  Function.update_self ..

theorem setConn_conn_ne (k : Conn) {x : Nat} (hx : x ≠ c) : (s.setConn c k).conn x = s.conn x :=
  Function.update_of_ne hx ..

theorem queueInLoop_self (cb : Functor) :
    (s.queueInLoop loop cb).pendingFunctors_ loop = s.pendingFunctors_ loop ++ [cb] :=
  Function.update_self ..

theorem queueInLoop_ne (cb : Functor) {loop' : Nat} (hloop : loop' ≠ loop) :
    (s.queueInLoop loop cb).pendingFunctors_ loop' = s.pendingFunctors_ loop' :=
  Function.update_of_ne hloop ..

theorem mem_queueInLoop {cb cb' : Functor} {loop' : Nat}
    (h : cb' ∈ (s.queueInLoop loop cb).pendingFunctors_ loop') :
    cb' ∈ s.pendingFunctors_ loop' ∨ cb' = cb := by
  by_cases hloop : loop' = loop
  · subst hloop
    rw [queueInLoop_self, List.mem_append, List.mem_singleton] at h
    exact h
  · rw [queueInLoop_ne cb hloop] at h
    exact .inl h

theorem pop_mem {cb cb' : Functor} {rest : List Functor} {loop' : Nat}
    (hqueue : s.pendingFunctors_ loop = cb :: rest)
    (hmem : cb' ∈ Function.update s.pendingFunctors_ loop rest loop') :
    cb' ∈ s.pendingFunctors_ loop' := by
  by_cases hloop : loop' = loop
  · subst hloop
    rw [Function.update_self] at hmem
    rw [hqueue]
    exact List.mem_cons_of_mem _ hmem
  · rwa [Function.update_of_ne hloop] at hmem

end Frame

/-- `EventLoopThreadPool::getNextLoop`, the loops being numbered from 1. -/
def getNextLoop (s : Server) : Nat × Server :=
  if s.numThreads = 0 then (0, s)
  else
    let next := s.next_ + 1
    (s.next_ + 1, { s with next_ := if s.numThreads ≤ next then 0 else next })

/-- `TcpConnection::connectEstablished`, run by `loop`. -/
def connectEstablished (s : Server) (loop c : Nat) : Except Fault Server :=
  if (s.conn c).state_ = .kConnecting then
    .ok (s.setConn c { s.conn c with
      state_ := .kConnected, trace := (s.conn c).trace ++ [(.established, loop)] })
  else .error .connectEstablished

/-- `TcpConnection::connectDestroyed`, run by `loop`.  Of a connection in `kDisconnecting` the
channel has still interest, which `Channel::remove` asserts it has not. -/
def connectDestroyed (s : Server) (loop c : Nat) : Except Fault Server :=
  if (s.conn c).state_ = .kConnected ∨ (s.conn c).state_ = .kDisconnected then
    .ok (s.setConn c { s.conn c with
      state_ := .kDisconnected, trace := (s.conn c).trace ++ [(.destroyed, loop)] })
  else .error .channelRemove

/-- `TcpServer::removeConnectionInLoop`, which the base loop runs. -/
def removeConnectionInLoop (s : Server) (c : Nat) : Except Fault Server :=
  if s.gone then .error .serverGone
  else if c ∈ s.connections_ then
    let s := { s with connections_ := s.connections_.erase c }
    let s := s.setConn c { s.conn c with trace := (s.conn c).trace ++ [(.removed, 0)] }
    .ok (s.queueInLoop (s.conn c).loop_ (.connectDestroyed c))
  else .error .notErased

/-- The close callback of every connection: `runInLoop` on the base loop, from the loop of the
connection. -/
def removeConnection (s : Server) (c : Nat) : Except Fault Server :=
  if (s.conn c).loop_ = 0 then s.removeConnectionInLoop c
  else .ok (s.queueInLoop 0 (.removeConnectionInLoop c))

/-- `TcpConnection::handleClose` in the loop of the connection. -/
def handleClose (s : Server) (c : Nat) : Except Fault Server :=
  if (s.conn c).Alive then
    let k := s.conn c
    (s.setConn c { k with state_ := .kDisconnected, trace := k.trace ++
      [(.closed, k.loop_)] }).removeConnection c
  else .error .handleClose

/-- The connection `newConnection` makes and keeps. -/
def makeConnection (s : Server) (ioLoop : Nat) : Server :=
  { s.setConn s.nextConnId_ { loop_ := ioLoop } with
    nextConnId_ := s.nextConnId_ + 1, connections_ := s.nextConnId_ :: s.connections_ }

/-- `newConnection`, counting in an `int`. -/
def newConnection (s : Server) : Except Fault Server :=
  if s.nextConnId_ = 2 ^ 31 - 1 then .error .nextConnId
  else
    let (ioLoop, s) := s.getNextLoop
    if ioLoop = 0 then (s.makeConnection ioLoop).connectEstablished 0 s.nextConnId_
    else .ok ((s.makeConnection ioLoop).queueInLoop ioLoop (.connectEstablished s.nextConnId_))

def execute (s : Server) (loop : Nat) : Functor → Except Fault Server
  | .connectEstablished c => s.connectEstablished loop c
  | .forceCloseInLoop c => if (s.conn c).Alive then s.handleClose c else .ok s
  | .removeConnectionInLoop c => s.removeConnectionInLoop c
  | .connectDestroyed c => s.connectDestroyed loop c

/-- `~TcpServer`: what it runs, or has run, for each connection it still owns. -/
def destroyAll (s : Server) : List Nat → Except Fault Server
  | [] => .ok s
  | c :: cs =>
      if (s.conn c).loop_ = 0 then
        match s.connectDestroyed 0 c with
        | .ok s => s.destroyAll cs
        | .error e => .error e
      else (s.queueInLoop (s.conn c).loop_ (.connectDestroyed c)).destroyAll cs

def destructor (s : Server) : Except Fault Server :=
  ({ s with gone := true, connections_ := [] } : Server).destroyAll s.connections_

end Server

/-- `shutdown` and `forceClose` are called in the loop of the connection. -/
inductive Label
  | accept
  | run (loop : Nat)
  | close (conn : Nat)
  | shutdown (conn : Nat)
  | forceClose (conn : Nat)
  | destructor
deriving DecidableEq, Repr

namespace Server

def Accepted (s : Server) (c : Nat) : Prop :=
  0 < c ∧ c < s.nextConnId_

instance (s : Server) (c : Nat) : Decidable (s.Accepted c) :=
  inferInstanceAs (Decidable (_ ∧ _))

/-- What may happen next: events of a channel come while it is registered. -/
def Enabled (s : Server) : Label → Prop
  | .accept => s.gone = false
  | .run loop => s.pendingFunctors_ loop ≠ []
  | .close c => s.Accepted c ∧ (s.conn c).Alive
  | .shutdown c | .forceClose c => s.Accepted c
  | .destructor => s.gone = false

instance (s : Server) : (l : Label) → Decidable (s.Enabled l)
  | .accept | .destructor => inferInstanceAs (Decidable (s.gone = false))
  | .run loop => inferInstanceAs (Decidable (s.pendingFunctors_ loop ≠ []))
  | .close c => inferInstanceAs (Decidable (s.Accepted c ∧ (s.conn c).Alive))
  | .shutdown c | .forceClose c => inferInstanceAs (Decidable (s.Accepted c))

def next (s : Server) : Label → Except Fault Server
  | .accept => s.newConnection
  | .run loop =>
      match s.pendingFunctors_ loop with
      | [] => .ok s
      | cb :: rest =>
          { s with pendingFunctors_ := Function.update s.pendingFunctors_ loop rest }.execute
            loop cb
  | .close c => s.handleClose c
  | .shutdown c =>
      if (s.conn c).state_ = .kConnected then
        .ok (s.setConn c { s.conn c with state_ := .kDisconnecting }) else .ok s
  | .forceClose c =>
      if (s.conn c).Alive then
        .ok ((s.setConn c { s.conn c with state_ := .kDisconnecting }).queueInLoop (s.conn c).loop_
          (.forceCloseInLoop c))
      else .ok s
  | .destructor => s.destructor

def Step (s : Server) (l : Label) (t : Server) : Prop :=
  s.Enabled l ∧ s.next l = .ok t

def start (numThreads : Nat) : Server :=
  { numThreads := numThreads }

end Server

end Pallette.ServerLoops
