import Pallette.Basic
import Pallette.CircularBuffer
import Pallette.Reasoning.Run

/-!
# EchoServer — idle connections on a timing wheel

Each connection has one `Entry`, which the buckets of the wheel hold and the context of the
connection only watches.  Every second a bucket is pushed; an entry goes with the last bucket that
holds it, and its destructor shuts the connection down.
-/

open Reasoning

namespace Pallette.IdleConnection

/-- `unordered_set<EntryPtr>`: an entry goes by the number of its connection. -/
abbrev Bucket := List Nat

inductive Fault
  | backOfEmpty
  | contextEmpty
deriving DecidableEq, Repr

/-- `alive` are the connections a weak pointer still locks, `context` those with a context.
`shutdowns` records the calls of `shutdown` by destructors of entries. -/
structure EchoServer where
  connectionBuckets_ : CircularBuffer Bucket
  alive : Nat → Bool := fun _ ↦ false
  context : Nat → Bool := fun _ ↦ false
  shutdowns : List Nat := []

namespace EchoServer

def new (idleSeconds : Nat) (h : 0 < idleSeconds) : EchoServer :=
  { connectionBuckets_ := .new idleSeconds h }

/-- Whether some bucket holds the entry. -/
def holds (buckets : List Bucket) (conn : Nat) : Bool :=
  buckets.any fun bucket ↦ decide (conn ∈ bucket)

/-- `connectionBuckets_.back().insert(entry)` -/
def insertBack (s : EchoServer) (conn : Nat) : Except Fault EchoServer :=
  if s.connectionBuckets_.buffer_ = [] then .error .backOfEmpty
  else .ok { s with connectionBuckets_ := s.connectionBuckets_.modifyBack (List.insert conn) }

/-- `onConnection` of a connection that is up. -/
def connected (s : EchoServer) (conn : Nat) : Except Fault EchoServer := do
  let s ← s.insertBack conn
  return { s with context := Function.update s.context conn true, alive :=
    Function.update s.alive conn true }

/-- `onConnection` of a connection that is down. -/
def disconnected (s : EchoServer) (conn : Nat) : Except Fault EchoServer :=
  if s.context conn then .ok s else .error .contextEmpty

def onMessage (s : EchoServer) (conn : Nat) : Except Fault EchoServer :=
  if s.context conn then
    -- `weakEntry.lock()`
    if holds s.connectionBuckets_.buffer_ conn then s.insertBack conn else .ok s
  else .error .contextEmpty

/-- `push_back` drops a bucket when the wheel is full, and with it the entries no other bucket
holds. -/
def onTime (s : EchoServer) : EchoServer :=
  let dropped := if s.connectionBuckets_.full then s.connectionBuckets_.front.getD [] else []
  let buckets := s.connectionBuckets_.pushBack []
  { s with
    connectionBuckets_ := buckets
    shutdowns := s.shutdowns ++ dropped.filter fun conn ↦ !holds buckets.buffer_ conn &&
      s.alive conn }

end EchoServer

inductive Action
  | connected (conn : Nat)
  | message (conn : Nat)
  | disconnected (conn : Nat)
  | destroyed (conn : Nat)
  | time
deriving DecidableEq, Repr

open EchoServer in
/-- A connection object comes up when it is new, and calls back while it exists. -/
inductive Step : EchoServer → Action → EchoServer → Prop
  | connected {s t : EchoServer} {conn : Nat} :
      s.context conn = false → s.connected conn = .ok t → Step s (.connected conn) t
  | message {s t : EchoServer} {conn : Nat} :
      s.alive conn → s.onMessage conn = .ok t → Step s (.message conn) t
  | disconnected {s t : EchoServer} {conn : Nat} :
      s.alive conn → s.disconnected conn = .ok t → Step s (.disconnected conn) t
  | destroyed {s : EchoServer} {conn : Nat} :
      s.alive conn → Step s (.destroyed conn) { s with alive := Function.update s.alive conn false }
  | time {s : EchoServer} : Step s .time s.onTime

/-! ## What the wheel is for -/

/-- A clock, and for each connection the tick at which it has been idle too long. -/
structure Deadlines where
  now : Nat := 0
  deadline : Nat → Option Nat := fun _ ↦ none

namespace Deadlines

def extend (d : Deadlines) (idle conn : Nat) : Deadlines :=
  { d with deadline := Function.update d.deadline conn (some (d.now + idle)) }

@[simp] theorem now_extend (d : Deadlines) (idle conn : Nat) :
    (d.extend idle conn).now = d.now := rfl

@[simp] theorem deadline_extend_self (d : Deadlines) (idle conn : Nat) :
    (d.extend idle conn).deadline conn = some (d.now + idle) :=
  Function.update_self ..

theorem deadline_extend_of_ne {c conn : Nat} (h : c ≠ conn) (d : Deadlines) (idle : Nat) :
    (d.extend idle conn).deadline c = d.deadline c :=
  Function.update_of_ne h ..

/-- A message that comes at the deadline or later changes nothing. -/
def step (idle : Nat) (d : Deadlines) : Action → Deadlines
  | .connected conn => d.extend idle conn
  | .message conn => if ∃ time ∈ d.deadline conn, d.now < time then d.extend idle conn else d
  | .disconnected _ => d
  | .destroyed _ => d
  | .time => { d with now := d.now + 1 }

/-- The deadlines behind a run. -/
def after (idle : Nat) (as : List Action) : Deadlines :=
  as.foldl (step idle) {}

end Deadlines

end Pallette.IdleConnection
