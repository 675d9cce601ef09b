import Mathlib.Data.List.Count
import Pallette.Net.Attempts

/-!
# Descriptors — what becomes of the sockets that `connect` makes

A ledger over whole runs: a socket is closed, handed over, held by the channel of the attempt that
is on, or, between two steps of `handleWrite`, in the hands of the loop thread; each exactly one of
it, once.
-/

open Reasoning

namespace Pallette

open Connector

namespace Connector

/-- How often the socket has been made, closed, handed over, and is held by an attempt that is
on. -/
def made (c : Connector) (sockfd : Nat) : Nat :=
  c.trace.count (.socket sockfd)

def closed (c : Connector) (sockfd : Nat) : Nat :=
  c.trace.count (.close sockfd)

def handed (c : Connector) (sockfd : Nat) : Nat :=
  c.trace.count (.newConnection sockfd)

def held (c : Connector) (sockfd : Nat) : Nat :=
  if c.state_ = .kConnecting ∧ c.channel_.map Prod.fst = some sockfd then 1 else 0

/-- Where the connector has the socket. -/
def places (c : Connector) (sockfd : Nat) : Nat :=
  c.closed sockfd + c.handed sockfd + c.held sockfd

/-- Sockets are numbered as they are made. -/
def Numbered (c : Connector) : Prop :=
  ∀ sockfd, c.made sockfd = if sockfd < c.nextSocket then 1 else 0

variable {c c' : Connector} {rest : Option Rest}

theorem held_of_ne (h : c.state_ ≠ .kConnecting) (sockfd : Nat) : c.held sockfd = 0 :=
  if_neg fun hheld ↦ h hheld.1

/-- What is added to the trace is added to the counts. -/
theorem counts_of_trace {events : List Event} (h : c'.trace = c.trace ++ events) (sockfd : Nat) :
    c'.made sockfd = c.made sockfd + events.count (.socket sockfd) ∧
      c'.closed sockfd = c.closed sockfd + events.count (.close sockfd) ∧
      c'.handed sockfd = c.handed sockfd + events.count (.newConnection sockfd) := by
  simp only [made, closed, handed, h, List.count_append, and_self]

theorem Numbered.next (h : c.Numbered) {events : List Event} (htrace : c'.trace = c.trace ++ events)
    (hevents : ∀ sockfd, events.count (.socket sockfd) = if c.nextSocket = sockfd then 1 else 0)
    (hnext : c'.nextSocket = c.nextSocket + 1) : c'.Numbered := by
  intro sockfd
  rw [(counts_of_trace htrace sockfd).1, h sockfd, hevents, hnext]
  split <;> split <;> split <;> omega

theorem Numbered.same (h : c.Numbered) {events : List Event} (htrace : c'.trace = c.trace ++ events)
    (hevents : ∀ sockfd, .socket sockfd ∉ events) (hnext : c'.nextSocket = c.nextSocket) :
    c'.Numbered := by
  intro sockfd
  rw [(counts_of_trace htrace sockfd).1, h sockfd, hnext,
    List.count_eq_zero_of_not_mem (hevents sockfd), Nat.add_zero]

theorem numbered_of_acts (h : c.Numbered) (hacts : Acts c c' rest) : c'.Numbered := by
  cases hacts with
  | nothing => exact h
  | connecting _ _ => exact h.next rfl (fun sockfd ↦ by simp [List.count_cons]) rfl
  | refused _ _ => exact h.next rfl (fun sockfd ↦ by simp [List.count_cons]) rfl
  | dropped _ _ _ => exact h.same rfl (by simp) rfl
  | connected _ _ _ => exact h.same (List.append_nil _).symm (by simp) rfl

/-- **What a function does with sockets**: one that is made is held or closed, one that is held is
closed or passed on. -/
theorem places_of_acts (hacts : Acts c c' rest) (sockfd : Nat) :
    c'.places sockfd + rest.toList.count (.connected sockfd) + c.made sockfd =
      c.places sockfd + c'.made sockfd := by
  cases hacts with
  | nothing => simp
  | connecting hstate _ =>
    have hheld := held_of_ne (c := c) (by simp [hstate]) sockfd
    simp only [places, made, closed, handed, hheld, List.count_append]
    by_cases heq : c.nextSocket = sockfd
    · simp [held, heq]
      omega
    · simp [held, heq]
  | @refused rest hstate hrest =>
    have hnone : rest.toList.count (.connected sockfd) = 0 := by
      rcases hrest with rfl | rfl <;> rfl
    have hheld := held_of_ne (c := c) (by simp [hstate]) sockfd
    simp only [places, made, closed, handed, hheld, hnone, List.count_append]
    by_cases heq : c.nextSocket = sockfd
    · simp [held, hstate, heq]
      omega
    · simp [held, hstate, heq]
  | @dropped fd _ _ hstate hchannel _ =>
    simp only [places, made, closed, handed, List.count_append]
    by_cases heq : fd = sockfd
    · simp [held, hstate, hchannel, heq]
      omega
    · simp [held, hstate, hchannel, heq]
  | @connected fd _ _ hstate hchannel _ =>
    simp only [places, made, closed, handed]
    by_cases heq : fd = sockfd
    · simp [held, hstate, hchannel, heq]
    · simp [held, hstate, hchannel, heq]

/-- Neither makes a socket nor gives one away. -/
structure SameSockets (c c' : Connector) : Prop where
  trace : c'.trace = c.trace
  nextSocket : c'.nextSocket = c.nextSocket
  held : ∀ sockfd, c'.held sockfd = c.held sockfd

theorem SameSockets.made (h : SameSockets c c') (sockfd : Nat) :
    c'.made sockfd = c.made sockfd := by
  rw [Connector.made, Connector.made, h.trace]

theorem SameSockets.places (h : SameSockets c c') (sockfd : Nat) :
    c'.places sockfd = c.places sockfd := by
  rw [Connector.places, Connector.places, h.held, closed, closed, handed, handed, h.trace]

theorem SameSockets.numbered (h : SameSockets c c') (hc : c.Numbered) : c'.Numbered := by
  intro sockfd
  rw [h.made, hc sockfd, h.nextSocket]

theorem sameSockets_of_state (htrace : c'.trace = c.trace) (hnext : c'.nextSocket = c.nextSocket)
    (hstate : c'.state_ = c.state_) (hchannel : c'.channel_ = c.channel_) : SameSockets c c' :=
  ⟨htrace, hnext, fun _ ↦ by rw [Connector.held, Connector.held, hstate, hchannel]⟩

theorem sameSockets_of_idle (htrace : c'.trace = c.trace) (hnext : c'.nextSocket = c.nextSocket)
    (hstate : c.state_ ≠ .kConnecting) (hstate' : c'.state_ ≠ .kConnecting) : SameSockets c c' :=
  ⟨htrace, hnext, fun sockfd ↦ by rw [held_of_ne hstate, held_of_ne hstate']⟩

theorem sameSockets_cancelRetry (c : Connector) : SameSockets c c.cancelRetry := by
  unfold cancelRetry
  split
  · exact sameSockets_of_state rfl rfl rfl rfl
  · exact sameSockets_of_state rfl rfl rfl rfl

end Connector

namespace TcpClient

/-- Between the two parts of `handleWrite` the loop thread has the socket of the new connection in
hand. -/
def inHand (s : TcpClient) (sockfd : Nat) : Nat :=
  s.todo.count (.rest (.connected sockfd))

structure Ledger (s : TcpClient) : Prop where
  numbered : s.connector_.Numbered
  places : ∀ sockfd, s.connector_.places sockfd + s.inHand sockfd = s.connector_.made sockfd

variable {s t : TcpClient}

theorem Ledger.same (h : Ledger s) (hsame : SameSockets s.connector_ t.connector_)
    (htodo : ∀ sockfd, t.inHand sockfd = s.inHand sockfd) : Ledger t :=
  ⟨hsame.numbered h.numbered, fun sockfd ↦ by rw [hsame.places, hsame.made, htodo, h.places]⟩

theorem Ledger.marks (h : Ledger s) (hmarks : Marks s t) : Ledger t := by
  rcases hmarks.connector with ⟨connect, functors, _, hconnector⟩
  refine h.same (sameSockets_of_state ?_ ?_ ?_ ?_) fun sockfd ↦ ?_
  · rw [hconnector]
  · rw [hconnector]
  · rw [hconnector]
  · rw [hconnector]
  · rw [inHand, inHand, hmarks.todo]

/-- A step that is no function of an attempt: what a socket leaves behind in `todo` it has in the
trace. -/
theorem Ledger.passed (h : Ledger s) (events : List Event)
    (htrace : t.connector_.trace = s.connector_.trace ++ events)
    (hevents : ∀ sockfd, .socket sockfd ∉ events)
    (hnext : t.connector_.nextSocket = s.connector_.nextSocket)
    (hheld : ∀ sockfd, t.connector_.held sockfd = s.connector_.held sockfd)
    (htodo : ∀ sockfd, t.inHand sockfd +
      (events.count (.close sockfd) + events.count (.newConnection sockfd)) = s.inHand sockfd) :
        Ledger t := by
  refine ⟨h.numbered.same htrace hevents hnext, fun sockfd ↦ ?_⟩
  rcases counts_of_trace htrace sockfd with ⟨hmade, hclosed, hhanded⟩
  have hbefore := h.places sockfd
  have hafter := htodo sockfd
  rw [List.count_eq_zero_of_not_mem (hevents sockfd)] at hmade
  rw [Connector.places] at hbefore ⊢
  rw [hmade, hclosed, hhanded, hheld]
  omega

theorem count_rest (rest : Option Rest) (sockfd : Nat) :
    (rest.toList.map Frame.rest).count (.rest (.connected sockfd)) =
      rest.toList.count (.connected sockfd) :=
  List.count_map_of_injective _ Frame.rest (fun _ _ h ↦ Frame.rest.inj h) _

/-- A function of the connector, on top of frames with the sockets of before. -/
theorem Ledger.acts (h : Ledger s) (todo : List Frame) {c : Connector} {rest : Option Rest}
    (hsame : SameSockets s.connector_ c) (hacts : Acts c t.connector_ rest)
    (hrest : ∀ sockfd, todo.count (.rest (.connected sockfd)) = s.inHand sockfd)
    (htodo : t.todo = rest.toList.map .rest ++ todo) : Ledger t := by
  refine ⟨numbered_of_acts (hsame.numbered h.numbered) hacts, fun sockfd ↦ ?_⟩
  have hplaces := places_of_acts hacts sockfd
  have hbefore := h.places sockfd
  have hinHand : t.inHand sockfd = rest.toList.count (.connected sockfd) + s.inHand sockfd := by
    rw [inHand, htodo, List.count_append, count_rest, hrest]
  rw [hsame.places, hsame.made] at hplaces
  omega

/-- A frame without a socket is taken up. -/
theorem inHand_cons {frame : Frame} {todo : List Frame} (htodo : s.todo = frame :: todo)
    (hframe : ∀ sockfd, frame ≠ .rest (.connected sockfd)) (sockfd : Nat) :
    todo.count (.rest (.connected sockfd)) = s.inHand sockfd := by
  rw [inHand, htodo, List.count_cons_of_ne (hframe sockfd)]

theorem inHand_nil (htodo : s.todo = []) (sockfd : Nat) : s.inHand sockfd = 0 := by
  rw [inHand, htodo]
  rfl

theorem ledger_of_step {l : Label} (ha : Attempts s)
    (h : Ledger s) (hstep : Step s l t) : Ledger t := by
  have hstart : SameSockets s.connector_ { s.connector_ with retryConnector_ := false } :=
    sameSockets_of_state rfl rfl rfl rfl
  have hrefl : SameSockets s.connector_ s.connector_ := sameSockets_of_state rfl rfl rfl rfl
  cases step_cases hstep with
  | poll _ _ _ _ _ | idleFunctor _ _ _ _ => exact h.same hrefl fun _ ↦ rfl
  | swap _ _ _ => exact h.same (sameSockets_of_state rfl rfl rfl rfl) fun _ ↦ rfl
  | @connectorEvent _ error write _ _ htodo _ =>
    refine h.same hrefl fun sockfd ↦ ?_
    rw [inHand_nil htodo, inHand, List.count_eq_zero]
    intro hmem
    rcases mem_eventFrames hmem with hframe | hframe <;> cases hframe
  | connectionEvent _ htodo _ | lost _ htodo _ _ | forceCloseFunctor _ htodo _ _ =>
    refine h.same hrefl fun sockfd ↦ ?_
    rw [inHand_nil htodo, inHand, List.count_eq_zero]
    simp
  | startFunctor _ htodo _ hc =>
    exact h.acts [] hstart (startInLoop_acts hc).2 (fun sockfd ↦ (inHand_nil htodo sockfd).symm)
      (List.append_nil _).symm
  | stopFunctor _ htodo _ hc =>
    exact h.acts [] (sameSockets_cancelRetry _) (stopInLoop_acts hc)
      (fun sockfd ↦ (inHand_nil htodo sockfd).symm) (List.append_nil _).symm
  | @timer timer _ _ _ _ htodo _ hc =>
    have hexpired : SameSockets s.connector_ { s.connector_.expire timer with
        retryConnector_ := false } :=
      sameSockets_of_state rfl rfl rfl rfl
    exact h.acts [] hexpired (startInLoop_acts hc).2
      (fun sockfd ↦ (inHand_nil htodo sockfd).symm) (List.append_nil _).symm
  | resetFunctor _ _ hfunctors hc =>
    cases resetChannel_eq hc
    have hstate := not_connecting_of_reset ha.channel hfunctors
    exact h.same (sameSockets_of_idle rfl rfl hstate hstate) fun _ ↦ rfl
  | @callStep todo _ step htodo _ =>
    have hrest : Ledger { s with todo := todo } := h.same hrefl (inHand_cons htodo (by simp))
    exact hrest.marks (marks_callStep _ step)
  | startInLoop htodo hframe hc =>
    have hrest := inHand_cons htodo (by rcases hframe with rfl | rfl <;> simp)
    exact h.acts _ hstart (startInLoop_acts hc).2 hrest rfl
  | @retry todo _ htodo =>
    rcases retryIfConnect_same s.connector_ with ⟨hstate, hchannel, _⟩
    rcases retryIfConnect_trace s.connector_ with ⟨events, htrace, hevents, hnext⟩
    have hnone : ∀ e, (∀ delayMs, e ≠ .runAfter delayMs) → e ∉ events := by
      intro e he hmem
      rcases hevents e hmem with ⟨delayMs, rfl⟩
      exact he delayMs rfl
    refine h.passed events htrace (fun sockfd ↦ hnone _ (by simp)) hnext ?_ fun sockfd ↦ ?_
    · intro sockfd
      rw [held, held, hstate, hchannel]
    · rw [List.count_eq_zero_of_not_mem (hnone _ (by simp)),
        List.count_eq_zero_of_not_mem (hnone _ (by simp))]
      exact inHand_cons htodo (by simp) sockfd
  | @newConnection todo _ fd htodo _ =>
    refine h.passed [.newConnection fd] rfl (by simp) rfl (fun _ ↦ rfl) fun sockfd ↦ ?_
    by_cases heq : fd = sockfd
    · simp [inHand, htodo, TcpClient.newConnection, push, heq]
    · simp [inHand, htodo, TcpClient.newConnection, push, heq]
  | @closed _ _ fd htodo _ =>
    refine h.passed [.close fd] rfl (by simp) rfl (fun _ ↦ rfl) fun sockfd ↦ ?_
    by_cases heq : fd = sockfd
    · simp [inHand, htodo, heq]
    · simp [inHand, htodo, heq]
  | handleError htodo hc =>
    exact h.acts _ hrefl (handleError_acts hc) (inHand_cons htodo (by simp)) rfl
  | handleWrite htodo hc =>
    exact h.acts _ hrefl (handleWrite_acts hc) (inHand_cons htodo (by simp)) rfl
  | callback htodo =>
    exact h.same hrefl (inHand_cons htodo (by simp))
  | removeConnection htodo _ =>
    refine h.same (sameSockets_of_state rfl rfl rfl rfl) fun sockfd ↦ ?_
    rw [← inHand_cons htodo (by simp), inHand, List.count_cons_of_ne (by simp)]
  | testRetry htodo | testConnect htodo =>
    refine h.same hrefl fun sockfd ↦ ?_
    rw [← inHand_cons htodo (by simp), inHand, List.count_append]
    split
    · simp
    · simp
  | restart htodo =>
    have hclosing := ha.head htodo trivial
    refine h.same (sameSockets_of_idle rfl rfl (by simp [hclosing.1])
      (by simp [Connector.restart, setState]))
      fun sockfd ↦ ?_
    rw [← inHand_cons htodo (by simp), inHand, List.count_cons_of_ne (by simp)]
  | @call call _ =>
    refine (h.marks (marks_call s call)).same (sameSockets_of_state rfl rfl rfl rfl) fun sockfd ↦ ?_
    rw [inHand, inHand, push, List.count_append, List.count_eq_zero_of_not_mem (by simp),
      Nat.zero_add]
  | thread _ => exact (h.marks (marks_call s _)).same (sameSockets_of_state rfl rfl rfl rfl) fun _ ↦
      rfl
  | proceed _ => exact (h.marks (marks_callStep s _)).same (sameSockets_of_state rfl
      rfl rfl rfl) fun _ ↦ rfl

theorem ledger_init : Ledger {} where
  numbered _ := rfl
  places _ := rfl

/-- **Every socket is disposed of once.**  In every run, with calls of any threads, a socket that
`connect` has made has been closed once, or handed over once, or is the one that `channel_` holds
while an attempt is on; or `handleWrite`, about to look at `connect_`, has it in hand.  It is one of
these only, and a socket that was not made is none. -/
theorem disposed_once {ls : List Label} (h : Run Step {} ls s) (sockfd : Nat) :
    s.connector_.closed sockfd + s.connector_.handed sockfd + s.connector_.held sockfd +
      s.inHand sockfd =
        s.connector_.made sockfd ∧
      s.connector_.made sockfd ≤ 1 ∧
      (.rest (.connected sockfd) ∉ s.todo → s.connector_.closed sockfd +
        s.connector_.handed sockfd +
        s.connector_.held sockfd = s.connector_.made sockfd) := by
  have hinv : Attempts s ∧ Ledger s := by
    refine h.invariant (fun s ↦ Attempts s ∧ Ledger s) ?_ ⟨attempts_init, ledger_init⟩
    rintro s l t ⟨ha, hs⟩ hstep
    exact ⟨attempts_of_step ha hstep, ledger_of_step ha hs hstep⟩
  have hplaces := hinv.2.places sockfd
  refine ⟨hplaces, ?_, fun htodo ↦ ?_⟩
  · rw [hinv.2.numbered sockfd]
    split <;> omega
  · rw [inHand, List.count_eq_zero_of_not_mem htodo, Nat.add_zero] at hplaces
    exact hplaces

/-- A first attempt that is refused, and a second one that becomes a connection. -/
theorem disposed_once_second :
    ∃ s, Run Step {} [.call .connect, .resume {}, .resume {},
      .resume { savedErrno := .ECONNREFUSED },
        .resume {}, .poll [], .timer 1 { savedErrno := .EINPROGRESS }, .swap, .poll [.connector],
        .event false true false, .resume {}, .resume {}] s ∧
      (s.connector_.closed 0 = 1 ∧ s.connector_.handed 1 = 1) ∧
      (s.connector_.closed 1 + s.connector_.handed 1 + s.connector_.held 1 + s.inHand 1 =
          s.connector_.made 1 ∧
        s.connector_.made 1 ≤ 1 ∧
        (.rest (.connected 1) ∉ s.todo → s.connector_.closed 1 + s.connector_.handed 1 +
          s.connector_.held 1 = s.connector_.made 1)) := by
  have hrun := show Run Step {} [.call .connect, .resume {}, .resume {},
        .resume { savedErrno := .ECONNREFUSED }, .resume {}, .poll [],
        .timer 1 { savedErrno := .EINPROGRESS }, .swap, .poll [.connector], .event false true false,
        .resume {}, .resume {}] _ from
    .cons rfl <| .cons rfl <| .cons rfl <| .cons rfl <| .cons rfl <| .cons rfl <| .cons rfl <|
    .cons rfl <| .cons rfl <| .cons rfl <| .cons rfl <| .cons rfl <| .nil _
  exact ⟨_, hrun, ⟨rfl, rfl⟩, disposed_once hrun 1⟩

end TcpClient

end Pallette
