import Pallette.Net.Teardown

/-!
# TcpServer — the destructor and the connections it finds

`~TcpServer` has `connectDestroyed` run for every connection it still owns.  That takes down a
connection in `kConnected`; one in `kDisconnecting` keeps its state and its interest, so an
assertion fails: that of `Channel::remove` or that of `~TcpConnection`.  Meanwhile other threads go
on, and what they have queued is still run: a connection is gone only when nobody holds it any more,
and until then a late store can bring it back.  A connection of another loop counts here in the
state in which its `connectDestroyed` comes to run there.
-/

open Reasoning

namespace Pallette

open TcpConnection EventMask

/-- One connection of the server, as `connectDestroyed` finds it, with the steps from there to
`channel_->remove()` and those behind it until nobody holds the connection any more. -/
structure Teardown where
  conn : TcpConnection
  down : List Label
  rest : List Label

/-- A connection behind its `connectDestroyed`, and at its end. -/
structure Outcome where
  left : TcpConnection
  last : TcpConnection

namespace TcpServer

inductive Failure
  | connection (a : Assertion)
  | connectionDestructor
deriving DecidableEq, Repr

/-- `~TcpConnection` -/
def connectionDestructor (conn : TcpConnection) : Except Failure Unit :=
  if conn.state_ = .kDisconnected then .ok () else .error .connectionDestructor

/-- `connectDestroyed` from its first line to its last, and what follows up to the end of the
connection. -/
def teardown (x : Teardown) : Except Failure Outcome := do
  let conn ← (x.conn.connectDestroyed.steps x.down).mapError .connection
  let left ← (conn.steps [.resume]).mapError .connection
  let last ← (left.steps x.rest).mapError .connection
  connectionDestructor last
  return ⟨left, last⟩

/-- `~TcpServer`, over the connections it owns. -/
def destructor : List Teardown → Except Failure (List Outcome)
  | [] => .ok []
  | item :: connections_ => do
      let outcome ← teardown item
      let outcomes ← destructor connections_
      return outcome :: outcomes

end TcpServer

namespace TcpConnection

/-- No thread, functor or handler holds the connection. -/
structure Unheld (s : TcpConnection) : Prop where
  threads : ∀ n, s.threads n = .idle
  functors : s.pendingFunctors_ = []
  todo : s.todo = []

end TcpConnection

/-- The connection is in a state some run leads to, neither closed nor gone, with the loop in user
code; and the labels are those of its steps, up to `channel_->remove()` and from there to where
nobody holds it.  What can end them before is the assertion of `handleClose`, behind a `startRead`
on the closed connection. -/
structure Teardown.Proper (x : Teardown) : Prop where
  reachable : x.conn.Reachable
  alive : x.conn.Alive
  user : x.conn.inUserCode = true
  down : ∃ u, Run (Guarded Step BeforeRemoval) x.conn.connectDestroyed x.down u ∧
    u.todo.head? = some .removeChannel
  rest : ∀ v, Run Step x.conn.connectDestroyed (x.down ++ [.resume]) v →
    ∃ w, Run Step v x.rest w ∧ w.Unheld

namespace TcpServer

variable {x : Teardown} {u : TcpConnection}

/-- A connection that has come up, and waits for its first event. -/
def waiting : TcpConnection :=
  { established 1 false false with todo := [] }

/-- Another thread is in `send`, and queues its message when the connection is down. -/
def sending : Teardown :=
  ⟨waiting, [.thread 0 (.send [1]), .resume, .ret], [.proceed 0, .functor (.count 0)]⟩

end TcpServer

end Pallette
