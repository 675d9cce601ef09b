import Pallette.Net.Connector
import Pallette.Reasoning.Run

/-!
# TcpClient — a client in its loop, and calls of any threads

The loop thread goes from `poll` to the handlers of the sources that are ready, from there to the
functors and back.  `todo` is what it has still to do of the functions it is in.  A frame of it,
like a step of another thread, looks at one flag, stores to one, or queues one functor; what lies
between belongs to the loop thread alone.  Of a connection only this is kept, whether it has been
closed.
-/

open Reasoning

namespace Pallette

open Connector

namespace TcpClient

/-- The parts of `connect` and `stop` behind the first access to a flag, by the function they stand
in: `TcpClient::connect`, `Connector::start` with two, and `Connector::stop` with two. -/
inductive CallStep
  | storeConnect
  | storeStart
  | runStartInLoop
  | storeStop
  | queueStopInLoop
deriving DecidableEq, Repr

inductive Frame
  | call (step : CallStep)
  | rest (rest : Connector.Rest)
  | handleError
  | handleWrite
  | startInLoop
  -- code of the user, called back
  | callback
  | removeConnection (conn : Nat)
  -- the two looks behind the `if` of `removeConnection`
  | testRetry
  | testConnect
  | restart
deriving DecidableEq, Repr

/-- What the user calls; `forceClose` on a connection. -/
inductive Call
  | connect
  | disconnect
  | stop
  | enableRetry
  | forceClose (conn : Nat)
deriving DecidableEq, Repr

/-- What `poll` can report: the channel of the connector, and that of a connection. -/
inductive Source
  | connector
  | connection (conn : Nat)
deriving DecidableEq, Repr

inductive Phase
  | handling
  | calling
deriving DecidableEq, Repr

inductive Label
  | poll (active : List Source)
  | event (error write lost : Bool)
  | swap
  | functor (k : Kernel)
  | timer (timer : Nat) (k : Kernel)
  | resume (k : Kernel)
  | call (call : Call)
  | thread (n : Nat) (call : Call)
  | proceed (n : Nat)
deriving DecidableEq, Repr

end TcpClient

open TcpClient

/-- `established` are the connections that have not been closed. -/
structure TcpClient where
  retry_ : Bool := false
  connect_ : Bool := false
  connection_ : Option Nat := none
  nextConnId_ : Nat := 1
  connector_ : Connector := {}
  established : List Nat := []
  phase : Phase := .calling
  active : List Source := []
  functors : List Functor := []
  todo : List Frame := []
  threads : Nat → List CallStep := fun _ ↦ []

namespace TcpClient

def push (s : TcpClient) (frames : List Frame) : TcpClient :=
  { s with todo := frames ++ s.todo }

def queueInLoop (s : TcpClient) (f : Functor) : TcpClient :=
  { s with connector_ := s.connector_.queueInLoop f }

def setThread (s : TcpClient) (n : Nat) (steps : List CallStep) : TcpClient :=
  { s with threads := fun m ↦ if m = n then steps else s.threads m }

/-- What a function of the connector leaves, and what it has still to do. -/
def afterConnector (s : TcpClient) (r : Connector × Option Rest) : TcpClient :=
  { s with connector_ := r.1 }.push (r.2.toList.map .rest)

/-- The first access of a call, and the steps that remain of it.  `shutdown` in `disconnect` leaves
client and connector as they are. -/
def call (s : TcpClient) : Call → TcpClient × List CallStep
  | .connect => if s.connect_ then (s, []) else (s, [.storeConnect, .storeStart, .runStartInLoop])
  | .disconnect => ({ s with connect_ := false }, [])
  | .stop => ({ s with connect_ := false }, [.storeStop, .queueStopInLoop])
  | .enableRetry => ({ s with retry_ := true }, [])
  | .forceClose conn =>
      (if conn ∈ s.established then s.queueInLoop (.forceCloseInLoop conn) else s, [])

/-- The next step of a call, by a thread that is not the loop's: there `runInLoop` queues. -/
def callStep (s : TcpClient) : CallStep → TcpClient
  | .storeConnect => { s with connect_ := true }
  | .storeStart => { s with connector_ := { s.connector_ with connect_ := true } }
  | .runStartInLoop => s.queueInLoop .startInLoop
  | .storeStop => { s with connector_ := { s.connector_ with connect_ := false } }
  | .queueStopInLoop => s.queueInLoop .stopInLoop

def newConnection (s : TcpClient) (sockfd : Nat) : TcpClient :=
  { s with
    nextConnId_ := s.nextConnId_ + 1, connection_ := some s.nextConnId_
    established := s.established ++ [s.nextConnId_]
    connector_ := s.connector_.emit (.newConnection sockfd) }.push [.callback]

/-- `TcpConnection::handleClose`: the connection goes down, its callbacks are called. -/
def handleClose (s : TcpClient) (conn : Nat) : Except Fault TcpClient :=
  if conn ∈ s.established then
    .ok ({ s with established := s.established.erase conn }.push [.callback,
      .removeConnection conn])
  else .error .handleClose

/-- `removeConnection`, up to its look at `retry_`. -/
def removeConnection (s : TcpClient) (conn : Nat) : Except Fault TcpClient :=
  if s.connection_ = some conn then
    .ok (({ s with connection_ := none }.queueInLoop (.connectDestroyed conn)).push [.testRetry])
  else .error .removeConnection

/-- A functor of the batch. -/
def runFunctor (s : TcpClient) (k : Kernel) : Functor → Except Fault TcpClient
  | .startInLoop => (s.connector_.startInLoop k).map s.afterConnector
  | .stopInLoop => s.connector_.stopInLoop.map s.afterConnector
  | .resetChannel => s.connector_.resetChannel.map fun c ↦ { s with connector_ := c }
  | .forceCloseInLoop conn => if conn ∈ s.established then s.handleClose conn else .ok s
  | .connectDestroyed _ => .ok s

/-- A frame the loop thread takes up, with the others in `todo`. -/
def runFrame (s : TcpClient) (k : Kernel) : Frame → Except Fault TcpClient
  | .call .runStartInLoop => (s.connector_.startInLoop k).map s.afterConnector
  | .call step => .ok (s.callStep step)
  | .rest .retry => .ok { s with connector_ := s.connector_.retryIfConnect }
  | .rest (.connected sockfd) =>
      if s.connector_.connect_ then .ok (s.newConnection sockfd)
      else .ok { s with connector_ := s.connector_.emit (.close sockfd) }
  | .handleError => s.connector_.handleError.map s.afterConnector
  | .handleWrite => (s.connector_.handleWrite k).map s.afterConnector
  | .startInLoop => (s.connector_.startInLoop k).map s.afterConnector
  | .callback => .ok s
  | .removeConnection conn => s.removeConnection conn
  | .testRetry => .ok (if s.retry_ then s.push [.testConnect] else s)
  | .testConnect => .ok (if s.connect_ then s.push [.restart] else s)
  | .restart => .ok ({ s with connector_ := s.connector_.restart }.push [.startInLoop])

/-- The channel of a source is in the epoll set. -/
def Registered (s : TcpClient) : Source → Prop
  | .connector => ∃ entry ∈ s.connector_.channel_, entry.2.registered ≠ none
  | .connection conn => conn ∈ s.established

instance (s : TcpClient) (source : Source) : Decidable (s.Registered source) :=
  match source with
  | .connector =>
      match h : s.connector_.channel_ with
      | none => isFalse (by simp [Registered, h])
      | some entry => decidable_of_iff (entry.2.registered ≠ none) (by simp [Registered, h])
  | .connection conn => inferInstanceAs (Decidable (conn ∈ s.established))

/-- Code of the user runs: called back, or in a handler or a functor that is nothing of the
client's. -/
def inUserCode (s : TcpClient) : Bool :=
  match s.todo with
  | [] | .callback :: _ => true
  | _ => false

/-- The handler of a source. -/
def handle (s : TcpClient) (error write lost : Bool) : Source → Except Fault TcpClient
  | .connector =>
      .ok (s.push ((if error then [.handleError] else []) ++ (if write then [.handleWrite]
        else [])))
  | .connection conn => if lost then s.handleClose conn else .ok (s.push [.callback])

/-- One step; `none` when it cannot be taken. -/
def next (s : TcpClient) : Label → Option (Except Fault TcpClient)
  | .poll active =>
      if s.phase = .calling ∧ s.functors = [] ∧ s.todo = [] ∧ active.Nodup ∧
        ∀ a ∈ active, s.Registered a
      then some (.ok { s with phase := .handling, active := active }) else none
  | .event error write lost =>
      match s.phase, s.todo, s.active with
      | .handling, [], source :: active =>
          some ({ s with active := active }.handle error write lost source)
      | _, _, _ => none
  | .swap =>
      if s.phase = .handling ∧ s.active = [] ∧ s.todo = [] then
        some (.ok { s with
          phase := .calling, functors := s.connector_.pendingFunctors_
          connector_ := { s.connector_ with pendingFunctors_ := [] } })
      else none
  | .functor k =>
      match s.phase, s.todo, s.functors with
      | .calling, [], f :: functors => some ({ s with functors := functors }.runFunctor k f)
      | _, _, _ => none
  | .timer timer k =>
      if s.phase = .handling ∧ s.todo = [] ∧ timer ∈ s.connector_.timers then
        some (((s.connector_.expire timer).startInLoop k).map s.afterConnector)
      else none
  | .resume k =>
      match s.todo with
      | [] => none
      | frame :: todo => some ({ s with todo := todo }.runFrame k frame)
  | .call call =>
      if s.inUserCode then some (.ok ((s.call call).1.push ((s.call call).2.map .call))) else none
  | .thread n call =>
      if s.threads n = [] then some (.ok ((s.call call).1.setThread n (s.call call).2)) else none
  | .proceed n =>
      match s.threads n with
      | [] => none
      | step :: steps => some (.ok ((s.callStep step).setThread n steps))

def Step (s : TcpClient) (l : Label) (t : TcpClient) : Prop :=
  s.next l = some (.ok t)

/-! ## What a step can be -/

/-- What calls queue. -/
def Queues (s : TcpClient) : Functor → Prop
  | .startInLoop | .stopInLoop => True
  | .forceCloseInLoop conn => conn ∈ s.established
  | .resetChannel | .connectDestroyed _ => False

/-- The first access of a call and its steps leave everything but flags and the queue. -/
structure Marks (s t : TcpClient) : Prop where
  connector : ∃ connect functors, (∀ f ∈ functors, s.Queues f) ∧ t.connector_ = { s.connector_ with
    connect_ := connect, pendingFunctors_ := s.connector_.pendingFunctors_ ++ functors }
  connection : t.connection_ = s.connection_
  nextConnId : t.nextConnId_ = s.nextConnId_
  established : t.established = s.established
  phase : t.phase = s.phase
  active : t.active = s.active
  functors : t.functors = s.functors
  todo : t.todo = s.todo
  threads : t.threads = s.threads

variable {s t : TcpClient}

theorem marks_flags (s : TcpClient) (retry connect connect' : Bool) :
    Marks s { s with
      retry_ := retry, connect_ := connect, connector_ :=
        { s.connector_ with connect_ := connect' } } :=
  ⟨⟨connect', [], by simp, by simp⟩, rfl, rfl, rfl, rfl, rfl, rfl, rfl, rfl⟩

theorem marks_queueInLoop (s : TcpClient) {f : Functor} (h : s.Queues f) :
    Marks s (s.queueInLoop f) :=
  ⟨⟨s.connector_.connect_, [f], by simpa using h, rfl⟩, rfl, rfl, rfl, rfl, rfl, rfl, rfl, rfl⟩

theorem marks_call (s : TcpClient) (call : Call) : Marks s (s.call call).1 := by
  cases call with
  | connect =>
    simp only [TcpClient.call]
    split
    · exact marks_flags s s.retry_ s.connect_ s.connector_.connect_
    · exact marks_flags s s.retry_ s.connect_ s.connector_.connect_
  | disconnect => exact marks_flags s s.retry_ false s.connector_.connect_
  | stop => exact marks_flags s s.retry_ false s.connector_.connect_
  | enableRetry => exact marks_flags s true s.connect_ s.connector_.connect_
  | forceClose conn =>
    simp only [TcpClient.call]
    split
    next hconn => exact marks_queueInLoop s hconn
    next => exact marks_flags s s.retry_ s.connect_ s.connector_.connect_

theorem marks_callStep (s : TcpClient) (step : CallStep) : Marks s (s.callStep step) := by
  cases step with
  | storeConnect => exact marks_flags s s.retry_ true s.connector_.connect_
  | storeStart => exact marks_flags s s.retry_ s.connect_ true
  | storeStop => exact marks_flags s s.retry_ s.connect_ false
  | runStartInLoop | queueStopInLoop => exact marks_queueInLoop s trivial

/-- The connector stays at its attempt. -/
theorem Marks.attempt (h : Marks s t) : t.connector_.state_ = s.connector_.state_ ∧
    t.connector_.channel_ = s.connector_.channel_ ∧ t.connector_.timers = s.connector_.timers := by
  rcases h.connector with ⟨_, _, _, hconnector⟩
  rw [hconnector]
  exact ⟨rfl, rfl, rfl⟩

/-- What a step of the loop thread or of another one can be. -/
inductive StepCases (s : TcpClient) : Label → TcpClient → Prop
  | poll {active : List Source} : s.phase = .calling → s.functors = [] → s.todo = [] →
      active.Nodup →
      (∀ a ∈ active, s.Registered a) →
      StepCases s (.poll active) { s with phase := .handling, active := active }
  | connectorEvent {active : List Source} {error write lost : Bool} : s.phase = .handling →
      s.todo = [] →
      s.active = .connector :: active → StepCases s (.event error write lost)
        { s with
          active := active
          todo := (if error then [.handleError] else []) ++ (if write then [.handleWrite] else []) }
  | connectionEvent {active : List Source} {conn : Nat} {error write : Bool} : s.phase = .handling →
      s.todo = [] → s.active = .connection conn :: active →
      StepCases s (.event error write false) { s with active := active, todo := [.callback] }
  | lost {active : List Source} {conn : Nat} {error write : Bool} : s.phase = .handling →
      s.todo = [] →
      s.active = .connection conn :: active → conn ∈ s.established →
      StepCases s (.event error write true)
        { s with
          active := active, established := s.established.erase conn
          todo := [.callback, .removeConnection conn] }
  | swap : s.phase = .handling → s.active = [] → s.todo = [] → StepCases s .swap
      { s with
        phase := .calling, functors := s.connector_.pendingFunctors_
        connector_ := { s.connector_ with pendingFunctors_ := [] } }
  | startFunctor {functors : List Functor} {k : Kernel} {c : Connector} {rest : Option Rest} :
      s.phase = .calling → s.todo = [] → s.functors = .startInLoop :: functors →
      s.connector_.startInLoop k = .ok (c, rest) → StepCases s (.functor k)
        { s with functors := functors, connector_ := c, todo := rest.toList.map .rest }
  | stopFunctor {functors : List Functor} {k : Kernel} {c : Connector} {rest : Option Rest} :
      s.phase = .calling → s.todo = [] → s.functors = .stopInLoop :: functors →
      s.connector_.stopInLoop = .ok (c, rest) → StepCases s (.functor k)
        { s with functors := functors, connector_ := c, todo := rest.toList.map .rest }
  | resetFunctor {functors : List Functor} {k : Kernel} {c : Connector} : s.phase = .calling →
      s.todo = [] →
      s.functors = .resetChannel :: functors → s.connector_.resetChannel = .ok c →
      StepCases s (.functor k) { s with functors := functors, connector_ := c }
  | forceCloseFunctor {functors : List Functor} {k : Kernel} {conn : Nat} : s.phase = .calling →
      s.todo = [] → s.functors = .forceCloseInLoop conn :: functors → conn ∈ s.established →
      StepCases s (.functor k)
        { s with
          functors := functors, established := s.established.erase conn
          todo := [.callback, .removeConnection conn] }
  | idleFunctor {functors : List Functor} {k : Kernel} {f : Functor} : s.phase = .calling →
      s.todo = [] →
      s.functors = f :: functors →
      (∃ conn, conn ∉ s.established ∧ f = .forceCloseInLoop conn) ∨
      (∃ conn, f = .connectDestroyed conn) →
      StepCases s (.functor k) { s with functors := functors }
  | timer {timer : Nat} {k : Kernel} {c : Connector} {rest : Option Rest} : s.phase = .handling →
      s.todo = [] → timer ∈ s.connector_.timers →
      (s.connector_.expire timer).startInLoop k = .ok (c, rest) →
      StepCases s (.timer timer k) { s with connector_ := c, todo := rest.toList.map .rest }
  | callStep {todo : List Frame} {k : Kernel} {step : CallStep} : s.todo = .call step :: todo →
      step ≠ .runStartInLoop → StepCases s (.resume k) ({ s with todo := todo }.callStep step)
  | startInLoop {todo : List Frame} {k : Kernel} {frame : Frame} {c : Connector}
      {rest : Option Rest} :
      s.todo = frame :: todo → frame = .call .runStartInLoop ∨ frame = .startInLoop →
      s.connector_.startInLoop k = .ok (c, rest) →
      StepCases s (.resume k) { s with connector_ := c, todo := rest.toList.map .rest ++ todo }
  | retry {todo : List Frame} {k : Kernel} : s.todo = .rest .retry :: todo →
      StepCases s (.resume k) { s with connector_ := s.connector_.retryIfConnect, todo := todo }
  | newConnection {todo : List Frame} {k : Kernel} {sockfd : Nat} :
      s.todo = .rest (.connected sockfd) :: todo → s.connector_.connect_ = true →
      StepCases s (.resume k) ({ s with todo := todo }.newConnection sockfd)
  | closed {todo : List Frame} {k : Kernel} {sockfd : Nat} :
      s.todo = .rest (.connected sockfd) :: todo → s.connector_.connect_ = false →
      StepCases s (.resume k) { s with connector_ := s.connector_.emit (.close sockfd), todo :=
        todo }
  | handleError {todo : List Frame} {k : Kernel} {c : Connector} {rest : Option Rest} :
      s.todo = .handleError :: todo → s.connector_.handleError = .ok (c, rest) →
      StepCases s (.resume k) { s with connector_ := c, todo := rest.toList.map .rest ++ todo }
  | handleWrite {todo : List Frame} {k : Kernel} {c : Connector} {rest : Option Rest} :
      s.todo = .handleWrite :: todo → s.connector_.handleWrite k = .ok (c, rest) →
      StepCases s (.resume k) { s with connector_ := c, todo := rest.toList.map .rest ++ todo }
  | callback {todo : List Frame} {k : Kernel} : s.todo = .callback :: todo →
      StepCases s (.resume k) { s with todo := todo }
  | removeConnection {todo : List Frame} {k : Kernel} {conn : Nat} :
      s.todo = .removeConnection conn :: todo →
      s.connection_ = some conn → StepCases s (.resume k)
        { s with
          connection_ := none, connector_ := s.connector_.queueInLoop (.connectDestroyed conn)
          todo := .testRetry :: todo }
  | testRetry {todo : List Frame} {k : Kernel} : s.todo = .testRetry :: todo →
      StepCases s (.resume k) { s with todo := (if s.retry_ then [.testConnect] else []) ++ todo }
  | testConnect {todo : List Frame} {k : Kernel} : s.todo = .testConnect :: todo →
      StepCases s (.resume k) { s with todo := (if s.connect_ then [.restart] else []) ++ todo }
  | restart {todo : List Frame} {k : Kernel} : s.todo = .restart :: todo →
      StepCases s (.resume k) { s with connector_ := s.connector_.restart, todo :=
        .startInLoop :: todo }
  | call {call : Call} : s.inUserCode = true →
      StepCases s (.call call) ((s.call call).1.push ((s.call call).2.map .call))
  | thread {n : Nat} {call : Call} : s.threads n = [] →
      StepCases s (.thread n call) ((s.call call).1.setThread n (s.call call).2)
  | proceed {n : Nat} {step : CallStep} {steps : List CallStep} : s.threads n = step :: steps →
      StepCases s (.proceed n) ((s.callStep step).setThread n steps)

theorem handleClose_cases {conn : Nat} (h : s.handleClose conn = .ok t) : conn ∈ s.established ∧
    t = { s with established := s.established.erase conn }.push [.callback,
    .removeConnection conn] := by
  unfold handleClose at h
  split at h
  next hconn =>
    cases h
    exact ⟨hconn, rfl⟩
  next => cases h

theorem event_cases {error write lost : Bool} (h : Step s (.event error write lost) t) :
    StepCases s (.event error write lost) t := by
  simp only [Step, next] at h
  split at h
  next source active hphase htodo hactive =>
    have hhandle := Option.some.inj h
    cases source with
    | connector =>
      cases hhandle
      rw [push, htodo, List.append_nil]
      exact .connectorEvent hphase htodo hactive
    | connection conn =>
      cases lost with
      | false =>
        cases hhandle
        rw [push, htodo, List.append_nil]
        exact .connectionEvent hphase htodo hactive
      | true =>
        rcases handleClose_cases hhandle with ⟨hconn, rfl⟩
        simp only [push, htodo, List.append_nil]
        exact .lost hphase htodo hactive hconn
  next => cases h

theorem functor_cases {k : Kernel} (h : Step s (.functor k) t) : StepCases s (.functor k) t := by
  simp only [Step, next] at h
  split at h
  next f functors hphase htodo hfunctors =>
    have hrun := Option.some.inj h
    cases f with
    | startInLoop =>
      rcases ok_of_map hrun with ⟨⟨c, rest⟩, hc, rfl⟩
      simp only [afterConnector, push, htodo, List.append_nil]
      exact .startFunctor hphase htodo hfunctors hc
    | stopInLoop =>
      rcases ok_of_map hrun with ⟨⟨c, rest⟩, hc, rfl⟩
      simp only [afterConnector, push, htodo, List.append_nil]
      exact .stopFunctor hphase htodo hfunctors hc
    | resetChannel =>
      rcases ok_of_map hrun with ⟨c, hc, rfl⟩
      exact .resetFunctor hphase htodo hfunctors hc
    | forceCloseInLoop conn =>
      simp only [runFunctor] at hrun
      split at hrun
      · rcases handleClose_cases hrun with ⟨hconn, rfl⟩
        simp only [push, htodo, List.append_nil]
        exact .forceCloseFunctor hphase htodo hfunctors hconn
      next hconn =>
        cases hrun
        exact .idleFunctor hphase htodo hfunctors (.inl ⟨conn, hconn, rfl⟩)
    | connectDestroyed conn =>
      cases hrun
      exact .idleFunctor hphase htodo hfunctors (.inr ⟨conn, rfl⟩)
  next => cases h

theorem resume_cases {k : Kernel} (h : Step s (.resume k) t) : StepCases s (.resume k) t := by
  simp only [Step, next] at h
  split at h
  next => cases h
  next frame todo htodo =>
    have hrun := Option.some.inj h
    cases frame with
    | call step =>
      cases step with
      | runStartInLoop =>
        rcases ok_of_map hrun with ⟨⟨c, rest⟩, hc, rfl⟩
        exact .startInLoop htodo (.inl rfl) hc
      | storeConnect | storeStart | storeStop | queueStopInLoop =>
        cases hrun
        exact .callStep htodo (by decide)
    | rest rest =>
      cases rest with
      | retry =>
        cases hrun
        exact .retry htodo
      | connected sockfd =>
        simp only [runFrame] at hrun
        split at hrun
        next hconnect =>
          cases hrun
          exact .newConnection htodo hconnect
        next hconnect =>
          cases hrun
          exact .closed htodo (by simpa using hconnect)
    | handleError =>
      rcases ok_of_map hrun with ⟨⟨c, rest⟩, hc, rfl⟩
      exact .handleError htodo hc
    | handleWrite =>
      rcases ok_of_map hrun with ⟨⟨c, rest⟩, hc, rfl⟩
      exact .handleWrite htodo hc
    | startInLoop =>
      rcases ok_of_map hrun with ⟨⟨c, rest⟩, hc, rfl⟩
      exact .startInLoop htodo (.inr rfl) hc
    | callback =>
      cases hrun
      exact .callback htodo
    | removeConnection conn =>
      simp only [runFrame, TcpClient.removeConnection] at hrun
      split at hrun
      next hconnection =>
        cases hrun
        exact .removeConnection htodo hconnection
      next => cases hrun
    | testRetry =>
      cases hrun
      have hcases := StepCases.testRetry htodo (k := k)
      cases hretry : s.retry_ with
      | false | true => simpa [hretry, push] using hcases
    | testConnect =>
      cases hrun
      have hcases := StepCases.testConnect htodo (k := k)
      cases hconnect : s.connect_ with
      | false | true => simpa [hconnect, push] using hcases
    | restart =>
      cases hrun
      exact .restart htodo

theorem step_cases {l : Label} (h : Step s l t) : StepCases s l t := by
  cases l with
  | event error write lost => exact event_cases h
  | functor k => exact functor_cases h
  | resume k => exact resume_cases h
  | poll active =>
    rcases Option.ite_none_right_eq_some.mp h
      with ⟨⟨hphase, hfunctors, htodo, hnodup, hregistered⟩, heq⟩
    cases heq
    exact .poll hphase hfunctors htodo hnodup hregistered
  | swap =>
    rcases Option.ite_none_right_eq_some.mp h with ⟨⟨hphase, hactive, htodo⟩, heq⟩
    cases heq
    exact .swap hphase hactive htodo
  | timer timer k =>
    rcases Option.ite_none_right_eq_some.mp h with ⟨⟨hphase, htodo, htimer⟩, heq⟩
    rcases ok_of_map (Option.some.inj heq) with ⟨⟨c, rest⟩, hc, rfl⟩
    simp only [afterConnector, push, htodo, List.append_nil]
    exact .timer hphase htodo htimer hc
  | call call =>
    rcases Option.ite_none_right_eq_some.mp h with ⟨huser, heq⟩
    cases heq
    exact .call huser
  | thread n call =>
    rcases Option.ite_none_right_eq_some.mp h with ⟨hidle, heq⟩
    cases heq
    exact .thread hidle
  | proceed n =>
    simp only [Step, next] at h
    split at h
    next => cases h
    next step steps hthread =>
      cases h
      exact .proceed hthread

/-! ## What is on the stack of the loop thread -/

/-- What remains of a call behind one of its steps. -/
def CallStep.after : CallStep → List CallStep
  | .storeConnect => [.storeStart, .runStartInLoop]
  | .storeStart => [.runStartInLoop]
  | .storeStop => [.queueStopInLoop]
  | .runStartInLoop | .queueStopInLoop => []

theorem call_steps (s : TcpClient) (call : Call) :
    (s.call call).2 = [] ∨ ∃ step : CallStep, (s.call call).2 = step :: step.after := by
  cases call with
  | connect =>
    simp only [TcpClient.call]
    split
    · exact .inl rfl
    · exact .inr ⟨.storeConnect, rfl⟩
  | stop => exact .inr ⟨.storeStop, rfl⟩
  | disconnect | enableRetry | forceClose _ => exact .inl rfl

/-- What is left of a call of the user, the `retry` of its `connect` among it. -/
inductive Calls : List Frame → Prop
  | nothing : Calls []
  | steps (step : CallStep) : Calls ((step :: step.after).map .call)
  | retry : Calls [.rest .retry]

/-- What can lie below it. -/
inductive Below : List Frame → Prop
  | nothing : Below []
  | callback : Below [.callback]
  | closing (conn : Nat) : Below [.callback, .removeConnection conn]

inductive Stack : List Frame → Prop
  | calls {calls base : List Frame} : Calls calls → Below base → Stack (calls ++ base)
  | single (frame : Frame) : Stack [frame]
  | event {frame : Frame} : frame = .handleError ∨ frame = .rest .retry →
      Stack [frame, .handleWrite]

/-- The frames of a call. -/
def Frame.IsCall : Frame → Prop
  | .call _ | .rest .retry => True
  | _ => False

theorem Calls.head {frame : Frame} {calls : List Frame} (h : Calls (frame :: calls)) :
    frame.IsCall := by
  cases h with
  | steps step | retry => trivial

theorem Calls.tail {frame : Frame} {calls : List Frame} (h : Calls (frame :: calls)) :
    Calls calls := by
  cases h with
  | retry => exact .nothing
  | steps step =>
    cases step with
    | runStartInLoop | queueStopInLoop => exact .nothing
    | storeConnect => exact .steps .storeStart
    | storeStart => exact .steps .runStartInLoop
    | storeStop => exact .steps .queueStopInLoop

theorem calls_rest {rest : Option Rest} (h : rest = none ∨ rest = some .retry) :
    Calls (rest.toList.map .rest) := by
  rcases h with rfl | rfl
  · exact .nothing
  · exact .retry

theorem Below.stack {base : List Frame} (h : Below base) : Stack base :=
  .calls .nothing h

theorem stack_rest (rest : Option Rest) : Stack (rest.toList.map .rest) := by
  cases rest with
  | none => exact Below.nothing.stack
  | some rest => exact .single _

/-- What lies below a frame: below one of a call, the rest of the call and the code of the user it
is made in, and `handleWrite` below the handler of an error. -/
inductive Stack.Over : Frame → List Frame → Prop
  | call {frame : Frame} {calls base : List Frame} : Calls (frame :: calls) → Below base →
      Over frame (calls ++ base)
  | closing (conn : Nat) : Over .callback [.removeConnection conn]
  | nothing (frame : Frame) : Over frame []
  | event {frame : Frame} : frame = .handleError ∨ frame = .rest .retry → Over frame [.handleWrite]

theorem Stack.over {frame : Frame} {todo : List Frame} (h : Stack (frame :: todo)) :
    Stack.Over frame todo := by
  generalize hall : frame :: todo = all at h
  cases h with
  | @calls calls base hcalls hbelow =>
    cases calls with
    | nil =>
      cases hbelow with
      | nothing => cases hall
      | callback =>
        cases hall
        exact .nothing _
      | closing conn =>
        cases hall
        exact .closing conn
    | cons f calls =>
      cases hall
      exact .call hcalls hbelow
  | single frame =>
    cases hall
    exact .nothing _
  | event hframe =>
    cases hall
    exact .event hframe

theorem Stack.Over.done {frame : Frame} {todo : List Frame} (h : Stack.Over frame todo) :
    Stack todo := by
  cases h with
  | call hcalls hbelow => exact .calls hcalls.tail hbelow
  | closing conn => exact .single _
  | nothing => exact Below.nothing.stack
  | event _ => exact .single _

/-- Nothing but the code of the user lies below a frame that runs `startInLoop`. -/
theorem Stack.Over.below {frame : Frame} {todo : List Frame} (h : Stack.Over frame todo)
    (hframe : frame = .call .runStartInLoop ∨ frame = .startInLoop) : Below todo := by
  cases h with
  | call hcalls hbelow =>
    cases hcalls with
    | retry => simp at hframe
    | steps step =>
      rcases hframe with hframe | hframe
      · cases hframe
        exact hbelow
      · cases hframe
  | closing conn => simp at hframe
  | nothing => exact .nothing
  | event herror => rcases herror with rfl | rfl <;> simp at hframe

/-- Below the handler of an error lies at most `handleWrite`. -/
theorem Stack.Over.error {todo : List Frame} (h : Stack.Over .handleError todo) :
    todo = [] ∨ todo = [.handleWrite] := by
  cases h with
  | call hcalls _ => exact hcalls.head.elim
  | nothing => exact .inl rfl
  | event _ => exact .inr rfl

/-- Only frames of calls, callbacks and the handler of an error have others below them. -/
def Frame.Alone : Frame → Prop
  | .call _ | .rest .retry | .callback | .handleError => False
  | _ => True

theorem Stack.Over.alone {frame : Frame} {todo : List Frame} (h : Stack.Over frame todo)
    (hframe : frame.Alone) : todo = [] := by
  cases h with
  | call hcalls _ =>
    cases hcalls with
    | steps step | retry => exact hframe.elim
  | closing conn => exact hframe.elim
  | nothing => rfl
  | event hevent =>
    rcases hevent with rfl | rfl
    · exact hframe.elim
    · exact hframe.elim

theorem below_of_inUserCode (h : Stack s.todo) (huser : s.inUserCode = true) : Below s.todo := by
  unfold inUserCode at huser
  split at huser
  next htodo =>
    rw [htodo]
    exact .nothing
  next todo htodo =>
    rw [htodo] at h ⊢
    cases h.over with
    | call hcalls _ => exact hcalls.head.elim
    | closing conn => exact .closing conn
    | nothing => exact .callback
    | event hframe => rcases hframe with hframe | hframe <;> cases hframe
  next => cases huser

theorem stack_of_step {l : Label} (h : Stack s.todo) (hstep : Step s l t) : Stack t.todo := by
  cases step_cases hstep with
  | poll _ _ htodo _ _ | swap _ _ htodo | resetFunctor _ htodo _ _ | idleFunctor _ htodo _ _ =>
    exact h
  | @connectorEvent _ error write _ _ _ _ =>
    cases error with
    | false =>
      cases write with
      | false => exact Below.nothing.stack
      | true => exact .single _
    | true =>
      cases write with
      | false => exact .single _
      | true => exact .event (.inl rfl)
  | connectionEvent _ _ _ => exact .single _
  | lost _ _ _ _ | forceCloseFunctor _ _ _ _ =>
    exact (Below.closing _).stack
  | startFunctor _ _ _ _ | stopFunctor _ _ _ _ | timer _ _ _ _ => exact stack_rest _
  | callStep htodo _ =>
    rw [htodo] at h
    rw [(marks_callStep _ _).todo]
    exact h.over.done
  | startInLoop htodo hframe hc =>
    rw [htodo] at h
    exact .calls (calls_rest (startInLoop_rest hc)) (h.over.below hframe)
  | retry htodo | closed htodo _ | callback htodo =>
    rw [htodo] at h
    exact h.over.done
  | newConnection htodo _ =>
    rw [htodo] at h
    have hnil := h.over.alone trivial
    simp only [TcpClient.newConnection, push, hnil]
    exact .single _
  | handleError htodo hc =>
    rw [htodo] at h
    have hcalls := calls_rest (handleError_rest hc)
    -- the write event may wait behind the error event
    rcases h.over.error with rfl | rfl
    · exact .calls hcalls .nothing
    · rcases handleError_rest hc with rfl | rfl
      · exact .single _
      · exact .event (.inr rfl)
  | handleWrite htodo _ =>
    rw [htodo] at h
    have hnil := h.over.alone trivial
    simp only [hnil, List.append_nil]
    exact stack_rest _
  | removeConnection htodo _ | restart htodo =>
    rw [htodo] at h
    have hnil := h.over.alone trivial
    simp only [hnil]
    exact .single _
  | testRetry htodo | testConnect htodo =>
    rw [htodo] at h
    have hnil := h.over.alone trivial
    simp only [hnil]
    split
    · exact .single _
    · exact Below.nothing.stack
  | @call call huser =>
    -- a call is made with nothing on the stack but what runs user code
    have hbelow := below_of_inUserCode h huser
    refine .calls ?_ (by rwa [(marks_call s call).todo])
    rcases call_steps s call with hnil | ⟨step, hsteps⟩
    · rw [hnil]
      exact .nothing
    · rw [hsteps]
      exact .steps step
  | thread _ =>
    change Stack (s.call _).1.todo
    rwa [(marks_call s _).todo]
  | proceed _ =>
    change Stack (s.callStep _).todo
    rwa [(marks_callStep s _).todo]

end TcpClient

end Pallette
