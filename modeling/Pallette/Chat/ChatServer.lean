import Mathlib.Data.List.Nodup
import Pallette.Chat.Messages
import Pallette.Net.TcpConnection
import Pallette.Reasoning.Run

/-!
# ChatServer — every message to every client

The server of the chat example runs in one loop: what arrives from a client is decoded, and each
message is sent to all connections of the set, in the call that delivers it.
-/

open Reasoning

namespace Pallette

open LengthHeaderCodec

/-- A connection of the server.  `sent` is what it has been given to send while it was up; `arrived`
and `inbox` record what its client has sent and what the codec has made of it. -/
structure ChatClient where
  state_ : TcpConnection.StateE := .kConnecting
  inputBuffer_ : Buffer := fresh
  sent : Bytes := []
  arrived : Bytes := []
  inbox : Inbox := {}

/-- `conn->send`; a connection that is not up drops what it is given. -/
def ChatClient.send (k : ChatClient) (wire : Bytes) : ChatClient :=
  if k.state_ = .kConnected then { k with sent := k.sent ++ wire } else k

/-- `log` records the calls of `onStringMessage`: the message, and the connection it came from. -/
structure ChatServer where
  connections_ : List Nat := []
  client : Nat → ChatClient := fun _ ↦ {}
  log : List (Nat × Bytes) := []

namespace ChatServer

def setClient (s : ChatServer) (conn : Nat) (k : ChatClient) : ChatServer :=
  { s with client := Function.update s.client conn k }

def sendTo (wire : Bytes) (s : ChatServer) (conn : Nat) : ChatServer :=
  s.setClient conn ((s.client conn).send wire)

/-- The codec builds the frame anew for each connection. -/
def onStringMessage (message : Bytes) (s : ChatServer) : Except Buffer.Failure ChatServer :=
  s.connections_.foldlM (fun s conn ↦ do return s.sendTo (← LengthHeaderCodec.send message) conn) s

/-- `messageCallback_(conn, message)` -/
def deliver (conn : Nat) (message : Bytes) (s : ChatServer) : Except Buffer.Failure ChatServer :=
  onStringMessage message
    { s.setClient conn { s.client conn with inbox := (s.client conn).inbox.put message } with
      log := s.log ++ [(conn, message)] }

/-- `conn->forceClose()`; the close itself waits in the queue of the loop. -/
def forceClose (conn : Nat) (s : ChatServer) : ChatServer :=
  let k := s.client conn
  s.setClient conn { k with
    inbox := k.inbox.close
    state_ := if k.state_ = .kConnected ∨ k.state_ = .kDisconnecting then .kDisconnecting
    else k.state_ }

/-- `onConnection` of a connection that is up. -/
def connected (s : ChatServer) (conn : Nat) : ChatServer :=
  { s.setClient conn { s.client conn with state_ := .kConnected } with
    connections_ := s.connections_.insert conn }

/-- `onConnection` of a connection that is down. -/
def closed (s : ChatServer) (conn : Nat) : ChatServer :=
  { s.setClient conn { s.client conn with state_ := .kDisconnected } with
    connections_ := s.connections_.erase conn }

/-- What `handleRead` does with `chunk`.  An exception out of a callback ends the program: its state
is an error. -/
def handleRead (s : ChatServer) (conn : Nat) (chunk : Bytes) :
    Except Buffer.Failure ChatServer := do
  let (s, buf) ← LengthHeaderCodec.handleRead (fun s message ↦ s >>= deliver conn message)
    (fun s ↦ s.map (forceClose conn)) (s.client conn).inputBuffer_ (.ok s) chunk
  let s ← s
  return s.setClient conn { s.client conn with inputBuffer_ := buf, arrived :=
    (s.client conn).arrived ++ chunk }

inductive Action
  | connected (conn : Nat)
  | received (conn : Nat) (chunk : Bytes)
  | closed (conn : Nat)
deriving DecidableEq, Repr

/-- A connection comes up once and is closed once.  It may read behind its close: `Channel` can call
for it. -/
inductive Step : ChatServer → Action → ChatServer → Prop
  | connected {s : ChatServer} {conn : Nat} :
      (s.client conn).state_ = .kConnecting → Step s (.connected conn) (s.connected conn)
  | received {s t : ChatServer} {conn : Nat} {chunk : Bytes} :
      (s.client conn).state_ ≠ .kConnecting → s.handleRead conn chunk = .ok t →
      Step s (.received conn chunk) t
  | closed {s : ChatServer} {conn : Nat} :
      (s.client conn).state_ = .kConnected ∨ (s.client conn).state_ = .kDisconnecting →
      Step s (.closed conn) (s.closed conn)

/-! ## One call -/

variable {s t u : ChatServer} {conn : Nat} {new new' : List Bytes} {message chunk : Bytes}

/-- The connections `onStringMessage` reaches. -/
def Serves (s : ChatServer) (conn : Nat) : Prop :=
  conn ∈ s.connections_ ∧ (s.client conn).state_ = .kConnected

instance (s : ChatServer) (conn : Nat) : Decidable (s.Serves conn) :=
  inferInstanceAs (Decidable (_ ∧ _))

/-- What the messages `new` from `conn` do to the server. -/
structure Broadcasts (conn : Nat) (new : List Bytes) (s t : ChatServer) : Prop where
  connections : t.connections_ = s.connections_
  log : t.log = s.log ++ new.map (conn, ·)
  client : ∀ c, t.client c = { s.client c with
    sent := if s.Serves c then (s.client c).sent ++ frames new else (s.client c).sent
    inbox := if c = conn then new.foldl Inbox.put (s.client c).inbox else (s.client c).inbox }

/-- Each connection of the set is given the message once. -/
theorem foldl_sendTo (wire : Bytes) {conns : List Nat} (hnodup : conns.Nodup) (s : ChatServer) :
    conns.foldl (sendTo wire) s =
      { s with client := fun c ↦ if c ∈ conns then (s.client c).send wire else s.client c } := by
  induction conns generalizing s with
  | nil => rfl
  | cons conn conns ih =>
    obtain ⟨hnot, hrest⟩ := List.nodup_cons.mp hnodup
    rw [List.foldl_cons, ih hrest]
    congr 1
    funext c
    by_cases hc : c = conn
    · subst hc
      rw [if_neg hnot, if_pos List.mem_cons_self]
      exact Function.update_self ..
    · have hother : (s.sendTo wire conn).client c = s.client c := Function.update_of_ne hc ..
      simp only [hother, List.mem_cons, hc, false_or]

theorem onStringMessage_eq (hshort : message.length ≤ 65535) (s : ChatServer) :
    onStringMessage message s = .ok (s.connections_.foldl (sendTo (frame message)) s) := by
  unfold onStringMessage
  rw [send_returns hshort]
  exact List.foldlM_pure

theorem deliver_broadcasts (hnodup : s.connections_.Nodup) (hshort : message.length ≤ 65535) :
    ∃ t, deliver conn message s = .ok t ∧ Broadcasts conn [message] s t := by
  refine ⟨_, onStringMessage_eq hshort _, ?_⟩
  rw [foldl_sendTo _ (by exact hnodup)]
  refine ⟨rfl, rfl, fun c ↦ ?_⟩
  have hframes : frames [message] = frame message := List.append_nil _
  have hclient : (s.setClient conn { s.client conn with
    inbox := (s.client conn).inbox.put message }).client c =
      { s.client c with
        inbox := if c = conn then (s.client c).inbox.put message else (s.client c).inbox } := by
    by_cases hc : c = conn
    · subst hc
      rw [if_pos rfl]
      exact Function.update_self ..
    · rw [if_neg hc]
      exact Function.update_of_ne hc ..
  change (if c ∈ s.connections_ then ChatClient.send (ChatServer.client _ c) _
    else ChatServer.client _ c) = _
  rw [hclient, hframes]
  by_cases hmem : c ∈ s.connections_ <;> by_cases hup : (s.client c).state_ = .kConnected <;>
    simp [ChatClient.send, Serves, hmem, hup]

theorem Broadcasts.refl (conn : Nat) (s : ChatServer) : Broadcasts conn [] s s where
  connections := rfl
  log := by simp
  client := by
    intro c
    have hnone : frames [] = [] := rfl
    simp [hnone]

theorem Broadcasts.trans (h : Broadcasts conn new s t) (h' : Broadcasts conn new' t u) :
    Broadcasts conn (new ++ new') s u where
  connections := h'.connections.trans h.connections
  log := by rw [h'.log, h.log, List.map_append, List.append_assoc]
  client := by
    intro c
    have hserves : t.Serves c ↔ s.Serves c := by
      unfold Serves
      rw [h.connections, h.client]
    rw [h'.client, h.client, frames_append, List.foldl_append]
    simp only [hserves]
    split_ifs <;> simp only [List.append_assoc]

theorem foldl_broadcasts (hnodup : s.connections_.Nodup)
    (hshort : ∀ message ∈ new, message.length ≤ 65535) :
    ∃ t, new.foldl (fun s message ↦ s >>= deliver conn message) (.ok s) = .ok t ∧
      Broadcasts conn new s t := by
  induction new generalizing s with
  | nil => exact ⟨s, rfl, .refl conn s⟩
  | cons message new ih =>
    obtain ⟨t, hcall, ht⟩ :=
      @deliver_broadcasts s conn message hnodup (hshort message List.mem_cons_self)
    obtain ⟨u, hrest, hu⟩ := @ih t (ht.connections ▸ hnodup)
      fun m hm ↦ hshort m (List.mem_cons_of_mem _ hm)
    refine ⟨u, ?_, ht.trans hu⟩
    rw [List.foldl_cons]
    change List.foldl _ (deliver conn message s) new = _
    rw [hcall, hrest]

/-! ## The run -/

/-- What has been passed on of what came from `conn`. -/
def messagesFrom (log : List (Nat × Bytes)) (conn : Nat) : List Bytes :=
  (log.filter (·.1 = conn)).map Prod.snd

theorem messagesFrom_append (log : List (Nat × Bytes)) (conn c : Nat) (new : List Bytes) :
    messagesFrom (log ++ new.map (conn, ·)) c =
      if c = conn then messagesFrom log c ++ new else messagesFrom log c := by
  unfold messagesFrom
  rw [List.filter_append, List.map_append]
  by_cases hc : c = conn
  · subst hc
    have hall : (new.map (c, ·)).filter (·.1 = c) = new.map (c, ·) := by
      rw [List.filter_eq_self]
      intro entry hmem
      obtain ⟨message, -, rfl⟩ := List.mem_map.mp hmem
      exact decide_eq_true rfl
    rw [if_pos rfl, hall, List.map_map]
    congr 1
    exact List.map_id _
  · have hnone : (new.map (conn, ·)).filter (·.1 = c) = [] := by
      rw [List.filter_eq_nil_iff]
      intro entry hmem
      obtain ⟨message, -, rfl⟩ := List.mem_map.mp hmem
      simpa using Ne.symm hc
    rw [if_neg hc, hnone, List.map_nil, List.append_nil]

structure Inv (s : ChatServer) : Prop where
  nodup : s.connections_.Nodup
  mem_iff : ∀ c, c ∈ s.connections_ ↔
    (s.client c).state_ = .kConnected ∨ (s.client c).state_ = .kDisconnecting
  unsent : ∀ c, (s.client c).state_ = .kConnecting → (s.client c).sent = []
  caughtUp : ∀ c, CaughtUp (s.client c).arrived (s.client c).inbox (s.client c).inputBuffer_
  delivered : ∀ c, (s.client c).inbox.messages = messagesFrom s.log c
  short : ∀ entry ∈ s.log, entry.2.length ≤ 65535

theorem inv_initial : Inv {} where
  nodup := List.nodup_nil
  mem_iff := by simp
  unsent := fun _ _ ↦ rfl
  caughtUp := fun _ ↦ caughtUp_fresh
  delivered := fun _ ↦ rfl
  short := by simp

/-- What a read from `conn` does: the messages it completes are broadcast, and nothing else. -/
structure Reads (conn : Nat) (chunk : Bytes) (new : List Bytes) (s t : ChatServer) : Prop where
  connections : t.connections_ = s.connections_
  log : t.log = s.log ++ new.map (conn, ·)
  sent : ∀ c, (t.client c).sent = if s.Serves c then (s.client c).sent ++ frames new else
    (s.client c).sent
  state : ∀ c, (t.client c).state_ = (s.client c).state_ ∨
    ((s.client c).state_ = .kConnected ∧ (t.client c).state_ = .kDisconnecting)
  inbox : ∀ c, (t.client c).inbox.messages =
    if c = conn then (s.client c).inbox.messages ++ new else (s.client c).inbox.messages
  caughtUp : ∀ c, CaughtUp (t.client c).arrived (t.client c).inbox (t.client c).inputBuffer_
  arrived : ∀ c, (t.client c).arrived = if c = conn then (s.client c).arrived ++ chunk
    else (s.client c).arrived
  short : ∀ message ∈ new, message.length ≤ 65535

theorem setClient_self (s : ChatServer) (conn : Nat) (k : ChatClient) :
    (s.setClient conn k).client conn = k :=
  Function.update_self ..

theorem setClient_of_ne {c : Nat} (h : c ≠ conn) (s : ChatServer) (k : ChatClient) :
    (s.setClient conn k).client c = s.client c :=
  Function.update_of_ne h ..

/-- The last step of a read: what the codec has made of the connection is put into the server. -/
theorem reads_of_broadcasts {closed : Bool} {buf : Buffer} {v : ChatServer} (h : Inv s)
    (hv : Broadcasts conn new s v)
    (hcaught : CaughtUp ((s.client conn).arrived ++ chunk)
      ⟨(s.client conn).inbox.messages ++ new, closed⟩ buf)
    (hclosed : (s.client conn).inbox.closed → closed = true) {u : ChatServer}
    (hu : u = if closed then v.forceClose conn else v) :
    Reads conn chunk new s (u.setClient conn
      { u.client conn with inputBuffer_ := buf, arrived := (u.client conn).arrived ++ chunk }) := by
  have hinbox : (v.client conn).inbox =
      ⟨(s.client conn).inbox.messages ++ new, (s.client conn).inbox.closed⟩ := by
    rw [hv.client, if_pos rfl, foldl_put]
  have hstate : (v.client conn).state_ = (s.client conn).state_ := by rw [hv.client]
  have hother : ∀ c, c ≠ conn → u.client c = v.client c := by
    intro c hc
    subst hu
    split
    · exact setClient_of_ne hc v _
    · rfl
  have hself : (u.client conn).inbox = ⟨(s.client conn).inbox.messages ++ new, closed⟩ ∧
      (u.client conn).sent = (v.client conn).sent ∧ (u.client conn).arrived =
        (v.client conn).arrived ∧
      ((u.client conn).state_ = (s.client conn).state_ ∨
        ((s.client conn).state_ = .kConnected ∧ (u.client conn).state_ = .kDisconnecting)) := by
    subst hu
    cases closed with
    | false =>
      have hopen : (s.client conn).inbox.closed = false := by
        by_contra hnot
        exact Bool.false_ne_true (hclosed (by simpa using hnot))
      rw [if_neg Bool.false_ne_true, hinbox, hopen]
      exact ⟨rfl, rfl, rfl, .inl hstate⟩
    | true =>
      rw [if_pos rfl, forceClose, setClient_self]
      refine ⟨by rw [hinbox]; rfl, rfl, rfl, ?_⟩
      dsimp only
      rw [hstate]
      split_ifs with halive
      · obtain hup | hdown := halive
        · exact .inr ⟨hup, rfl⟩
        · exact .inl hdown.symm
      · exact .inl rfl
  have hglobal : u.connections_ = v.connections_ ∧ u.log = v.log := by
    subst hu
    split <;> exact ⟨rfl, rfl⟩
  have harrived : (u.client conn).arrived = (s.client conn).arrived := by
    rw [hself.2.2.1, hv.client]
  constructor
  · exact hglobal.1.trans hv.connections
  · exact hglobal.2.trans hv.log
  · intro c
    by_cases hc : c = conn
    · subst hc
      rw [setClient_self]
      exact hself.2.1.trans (by rw [hv.client])
    · rw [setClient_of_ne hc, hother c hc, hv.client]
  · intro c
    by_cases hc : c = conn
    · subst hc
      rw [setClient_self]
      exact hself.2.2.2
    · rw [setClient_of_ne hc, hother c hc, hv.client]
      exact .inl rfl
  · intro c
    by_cases hc : c = conn
    · subst hc
      rw [setClient_self, if_pos rfl, hself.1]
    · rw [setClient_of_ne hc, hother c hc, hv.client, if_neg hc]
      exact (if_neg hc).symm
  · intro c
    by_cases hc : c = conn
    · subst hc
      rw [setClient_self, hself.1, harrived]
      exact hcaught
    · rw [setClient_of_ne hc, hother c hc, hv.client, if_neg hc]
      exact h.caughtUp c
  · intro c
    by_cases hc : c = conn
    · subst hc
      rw [setClient_self, if_pos rfl, harrived]
    · rw [setClient_of_ne hc, hother c hc, hv.client]
      exact (if_neg hc).symm
  · exact fun message hmem ↦ hcaught.short message (List.mem_append_right _ hmem)

theorem handleRead_of_append {c : Buffer} (h : Inv s)
    (happend : (s.client conn).inputBuffer_.append chunk = .ok c) :
    ∃ t new, s.handleRead conn chunk = .ok t ∧ Reads conn chunk new s t := by
  obtain ⟨new, closed, buf, hcaught, hkept, hcall⟩ := @onMessage_caughtUp _ _ _ _ _
    (fun s message ↦ s >>= deliver conn message) (fun s ↦ s.map (forceClose conn)) c
    (h.caughtUp conn) happend (Except.ok s)
  have hshort : ∀ message ∈ new, message.length ≤ 65535 :=
    fun message hmem ↦ hcaught.short message (List.mem_append_right _ hmem)
  obtain ⟨v, hfold, hv⟩ := @foldl_broadcasts s conn new h.nodup hshort
  have hreads := @reads_of_broadcasts s conn new chunk closed buf v h hv hcaught
    fun hclosed ↦ (hkept hclosed).2
  rw [hfold] at hcall
  rw [handleRead, LengthHeaderCodec.handleRead, happend]
  dsimp only
  rw [hcall]
  cases closed
  · exact ⟨_, new, rfl, hreads rfl⟩
  · exact ⟨_, new, rfl, hreads rfl⟩

theorem handleRead_reads (h : Inv s) (hread : s.handleRead conn chunk = .ok t) :
    ∃ new, Reads conn chunk new s t := by
  cases happend : (s.client conn).inputBuffer_.append chunk with
  | error e =>
    rw [handleRead, LengthHeaderCodec.handleRead, happend] at hread
    cases hread
  | ok c =>
    obtain ⟨t', new, hcall, hr⟩ := handleRead_of_append h happend
    cases hread.symm.trans hcall
    exact ⟨new, hr⟩

/-- A read fails for want of memory only. -/
theorem handleRead_returns (h : Inv s)
    (hfits : Buffer.kPrePrePend + ((s.client conn).arrived ++ chunk).length ≤ Buffer.maxSize) :
    ∃ t, s.handleRead conn chunk = .ok t := by
  have hcaught := h.caughtUp conn
  have hle := hcaught.length_le
  have hlength := hcaught.whole.length_content
  rw [List.length_append] at hfits
  obtain ⟨c, happend, -⟩ | ⟨-, hmax⟩ := @Buffer.append_of_reserve (s.client conn).inputBuffer_ chunk
    hcaught.whole.toWellFormed hcaught.whole.reserve (by omega)
  · obtain ⟨t, -, hread, -⟩ := handleRead_of_append h happend
    exact ⟨t, hread⟩
  · exact absurd hmax (by omega)

theorem inv_received (h : Inv s) (hr : Reads conn chunk new s t) : Inv t where
  nodup := hr.connections ▸ h.nodup
  mem_iff := by
    intro c
    rw [hr.connections, h.mem_iff]
    obtain hsame | ⟨hwas, hnow⟩ := hr.state c
    · rw [hsame]
    · rw [hwas, hnow]
      simp
  unsent := by
    intro c hnew
    have hwas : (s.client c).state_ = .kConnecting := by
      obtain hsame | ⟨-, hnow⟩ := hr.state c
      · rw [← hsame, hnew]
      · cases hnew.symm.trans hnow
    have hnot : ¬ s.Serves c := fun hserves ↦ by cases hwas.symm.trans hserves.2
    rw [hr.sent, if_neg hnot]
    exact h.unsent c hwas
  caughtUp := hr.caughtUp
  delivered := by
    intro c
    rw [hr.inbox, hr.log, messagesFrom_append, h.delivered]
  short := by
    intro entry hmem
    rw [hr.log] at hmem
    obtain hold | hnew := List.mem_append.mp hmem
    · exact h.short entry hold
    · obtain ⟨message, hmessage, rfl⟩ := List.mem_map.mp hnew
      exact hr.short message hmessage

/-- A connection that comes up or goes down. -/
theorem inv_setState {state : TcpConnection.StateE} {connections : List Nat} (h : Inv s)
    (hnodup : connections.Nodup) (hstate : state ≠ .kConnecting)
    (hother : ∀ c, c ≠ conn → (c ∈ connections ↔ c ∈ s.connections_))
    (hself : conn ∈ connections ↔ state = .kConnected ∨ state = .kDisconnecting) :
    Inv { s.setClient conn { s.client conn with state_ := state } with
      connections_ := connections } where
  nodup := hnodup
  mem_iff := by
    intro c
    dsimp only
    by_cases hc : c = conn
    · subst hc
      rw [setClient_self]
      exact hself
    · rw [setClient_of_ne hc, hother c hc]
      exact h.mem_iff c
  unsent := by
    intro c hnew
    dsimp only at hnew ⊢
    by_cases hc : c = conn
    · subst hc
      rw [setClient_self] at hnew
      exact absurd hnew hstate
    · rw [setClient_of_ne hc] at hnew ⊢
      exact h.unsent c hnew
  caughtUp := by
    intro c
    dsimp only
    by_cases hc : c = conn
    · subst hc
      rw [setClient_self]
      exact h.caughtUp c
    · rw [setClient_of_ne hc]
      exact h.caughtUp c
  delivered := by
    intro c
    dsimp only
    by_cases hc : c = conn
    · subst hc
      rw [setClient_self]
      exact h.delivered c
    · rw [setClient_of_ne hc]
      exact h.delivered c
  short := h.short

theorem inv_step {a : Action} (h : Inv s) (hstep : Step s a t) : Inv t := by
  cases hstep with
  | @connected conn hnew =>
    refine inv_setState h h.nodup.insert (by decide) (fun c hc ↦ ?_) ?_
    · rw [List.mem_insert_iff]
      exact or_iff_right hc
    · rw [List.mem_insert_iff]
      simp
  | received hup hread =>
    obtain ⟨new, hr⟩ := handleRead_reads h hread
    exact inv_received h hr
  | @closed conn halive =>
    refine inv_setState h (h.nodup.erase conn) (by decide) (fun c hc ↦ List.mem_erase_of_ne hc) ?_
    have hgone : conn ∉ s.connections_.erase conn := h.nodup.not_mem_erase
    simp [hgone]

/-! ## What the labels say -/

def Action.chunk? (conn : Nat) : Action → Option Bytes
  | .received c chunk => if c = conn then some chunk else none
  | _ => none

/-- The bytes that come from a client in the steps. -/
def streamOf (conn : Nat) (as : List Action) : Bytes :=
  (as.filterMap (Action.chunk? conn)).flatten

/-- The messages a step completes, behind the steps `before`. -/
def completes (before : List Action) : Action → List (Nat × Bytes)
  | .received conn chunk =>
      ((found (streamOf conn before ++ chunk)).drop (found (streamOf conn before)).length).map
        (conn, ·)
  | _ => []

/-- The messages the steps complete one after the other. -/
def completed (before : List Action) : List Action → List (Nat × Bytes)
  | [] => []
  | a :: as => completes before a ++ completed (before ++ [a]) as

theorem completed_append (before as bs : List Action) :
    completed before (as ++ bs) = completed before as ++ completed (before ++ as) bs := by
  induction as generalizing before with
  | nil => rw [List.append_nil]; rfl
  | cons a as ih =>
    rw [List.cons_append, completed, completed, ih, List.append_assoc, List.append_assoc]
    rfl

theorem completed_concat (before as : List Action) (a : Action) :
    completed before (as ++ [a]) = completed before as ++ completes (before ++ as) a := by
  rw [completed_append, completed, completed, List.append_nil]

theorem streamOf_concat (conn : Nat) (as : List Action) (a : Action) :
    streamOf conn (as ++ [a]) = streamOf conn as ++ (a.chunk? conn).getD [] := by
  unfold streamOf
  rw [List.filterMap_append, List.flatten_append]
  cases h : a.chunk? conn <;> simp [h]

/-- What one step adds, behind the steps `before`. -/
structure Adds (before : List Action) (a : Action) (s t : ChatServer) : Prop where
  log : t.log = s.log ++ completes before a
  arrived : ∀ c, (t.client c).arrived = (s.client c).arrived ++ (a.chunk? c).getD []
  sent : ∀ c, (s.client c).state_ = .kConnected →
    (t.client c).sent = (s.client c).sent ++ frames ((completes before a).map Prod.snd)
  kept : ∀ c, (s.client c).state_ ≠ .kConnected → (t.client c).sent = (s.client c).sent
  down : ∀ c, (s.client c).state_ ≠ .kConnecting → (t.client c).state_ ≠ .kConnecting ∧
    ((t.client c).state_ = .kConnected → (s.client c).state_ = .kConnected)

theorem adds_received {as : List Action} (h : Inv s)
    (harrived : (s.client conn).arrived = streamOf conn as) (hr : Reads conn chunk new s t) :
    Adds as (.received conn chunk) s t := by
  have hserves : ∀ c, s.Serves c ↔ (s.client c).state_ = .kConnected :=
    fun c ↦ ⟨And.right, fun hup ↦ ⟨(h.mem_iff c).mpr (.inl hup), hup⟩⟩
  have hnew : completes as (.received conn chunk) = new.map (conn, ·) := by
    have hbefore := (h.caughtUp conn).messages_eq
    have hbehind := (hr.caughtUp conn).messages_eq
    rw [hr.inbox, if_pos rfl, hr.arrived, if_pos rfl, hbefore] at hbehind
    rw [completes, ← harrived, ← hbehind, List.drop_left]
  have hmessages : (new.map (conn, ·)).map Prod.snd = new := by
    rw [List.map_map]
    exact List.map_id _
  constructor
  · rw [hnew]
    exact hr.log
  · intro c
    rw [hr.arrived, Action.chunk?]
    by_cases hc : c = conn
    · rw [if_pos hc, if_pos hc.symm]
      rfl
    · rw [if_neg hc, if_neg (Ne.symm hc), Option.getD_none, List.append_nil]
  · intro c hup
    rw [hr.sent, if_pos ((hserves c).mpr hup), hnew, hmessages]
  · intro c hdown
    rw [hr.sent, if_neg fun hserved ↦ hdown ((hserves c).mp hserved)]
  · intro c hwas
    obtain hsame | ⟨hup, hnow⟩ := hr.state c
    · rw [hsame]
      exact ⟨hwas, id⟩
    · rw [hnow]
      exact ⟨nofun, nofun⟩

/-- A connection that comes up or goes down. -/
theorem adds_setState {state : TcpConnection.StateE} {connections : List Nat} {as : List Action}
    {a : Action} (hentry : completes as a = []) (hnone : ∀ c, a.chunk? c = none)
    (hstate : (s.client conn).state_ ≠ .kConnecting → state ≠ .kConnecting ∧ state ≠ .kConnected) :
    Adds as a s
      { s.setClient conn { s.client conn with state_ := state } with
        connections_ := connections } := by
  have hsent : ∀ c, ((s.setClient conn { s.client conn with state_ := state }).client c).sent =
      (s.client c).sent := by
    intro c
    by_cases hc : c = conn
    · subst hc
      rw [setClient_self]
    · rw [setClient_of_ne hc]
  constructor
  · rw [hentry, List.append_nil]
    rfl
  · intro c
    rw [hnone, Option.getD_none, List.append_nil]
    by_cases hc : c = conn
    · subst hc
      rw [setClient_self]
    · rw [setClient_of_ne hc]
  · intro c _
    rw [hentry]
    exact (hsent c).trans (List.append_nil _).symm
  · exact fun c _ ↦ hsent c
  · intro c hwas
    dsimp only
    by_cases hc : c = conn
    · subst hc
      rw [setClient_self]
      exact ⟨(hstate hwas).1, fun hup ↦ absurd hup (hstate hwas).2⟩
    · rw [setClient_of_ne hc]
      exact ⟨hwas, id⟩

/-- The state and the steps that have led to it from the start. -/
structure Follows (as : List Action) (s : ChatServer) : Prop where
  inv : Inv s
  log : s.log = completed [] as
  arrived : ∀ c, (s.client c).arrived = streamOf c as

theorem Follows.adds {as : List Action} {a : Action} (h : Follows as s) (hstep : Step s a t) :
    Adds as a s t := by
  cases hstep with
  | connected hnew =>
    -- a connection that has been up does not come up again
    exact adds_setState rfl (fun _ ↦ rfl) fun hwas ↦ absurd hnew hwas
  | received _ hread =>
    obtain ⟨new, hr⟩ := handleRead_reads h.inv hread
    exact adds_received h.inv (h.arrived _) hr
  | closed => exact adds_setState rfl (fun _ ↦ rfl) fun _ ↦ ⟨nofun, nofun⟩

theorem Follows.step {as : List Action} {a : Action} (h : Follows as s) (hstep : Step s a t) :
    Follows (as ++ [a]) t := by
  have hadds := h.adds hstep
  refine ⟨inv_step h.inv hstep, ?_, fun c ↦ ?_⟩
  · rw [hadds.log, h.log, completed_concat, List.nil_append]
  · rw [hadds.arrived, h.arrived, streamOf_concat]

theorem Follows.run {as bs : List Action} (h : Follows as s) (hrun : Run Step s bs t) :
    Follows (as ++ bs) t :=
  hrun.invariant_labels Follows (fun _ _ _ _ hs hstep ↦ hs.step hstep) h

theorem follows_initial : Follows [] {} :=
  ⟨inv_initial, rfl, fun _ ↦ rfl⟩

theorem follows_of_run {as : List Action} (h : Run Step {} as s) : Follows as s :=
  follows_initial.run h

/-! ## What a client hears -/

/-- While its connection is up, a client is sent what is completed. -/
theorem sent_of_run {as bs : List Action} (h : Follows as s)
    (hrun : Run (Guarded Step fun s _ ↦ (s.client conn).state_ = .kConnected) s bs t) :
    (t.client conn).sent = (s.client conn).sent ++ frames ((completed as bs).map Prod.snd) := by
  induction hrun generalizing as with
  | nil => exact (List.append_nil _).symm
  | cons hl _ ih =>
    rw [ih (h.step hl.1), (h.adds hl.1).sent conn hl.2, completed, List.map_append, frames_append,
      List.append_assoc]

/-- A connection that is down is sent nothing. -/
theorem sent_of_down {as bs : List Action} (h : Follows as s)
    (hwas : (s.client conn).state_ ≠ .kConnecting) (hdown : (s.client conn).state_ ≠ .kConnected)
    (hrun : Run Step s bs t) : (t.client conn).sent = (s.client conn).sent := by
  induction hrun generalizing as with
  | nil => rfl
  | cons hl _ ih =>
    have hadds := h.adds hl
    obtain ⟨hnow, hup⟩ := hadds.down conn hwas
    rw [ih (h.step hl) hnow (mt hup hdown), hadds.kept conn hdown]

theorem began_of_run {as bs : List Action} (h : Follows as s)
    (hwas : (s.client conn).state_ ≠ .kConnecting) (hrun : Run Step s bs t) :
    (t.client conn).state_ ≠ .kConnecting := by
  induction hrun generalizing as with
  | nil => exact hwas
  | cons hl _ ih => exact ih (h.step hl) ((h.adds hl).down conn hwas).1

/-- **Order.**  Whatever the clients send and whenever connections come and go, the server handles
the messages that the arriving bytes complete, one after the other; and a client is sent those of
the steps from the one in which its connection comes up to the one that takes it down, each once and
in this order.  However its stream is cut, it reads exactly these. -/
theorem heard_in_order {as bs : List Action} {s₁ s₂ : ChatServer} (h₁ : Run Step {} as s₁)
    (hup : Step s₁ (.connected conn) s₂) (h₂ : Run Step s₂ bs s) :
    s.log = completed [] (as ++ .connected conn :: bs) ∧
      ∃ served rest s₃, bs = served ++ rest ∧
        Run (Guarded Step fun s _ ↦ (s.client conn).state_ = .kConnected) s₂ served s₃ ∧
        Run Step s₃ rest s ∧ (rest = [] ∨ (s₃.client conn).state_ ≠ .kConnected) ∧
        (s.client conn).sent =
          frames ((completed (as ++ [.connected conn]) served).map Prod.snd) ∧
        ∀ chunks : List Bytes, chunks.flatten = (s.client conn).sent →
          Buffer.kPrePrePend + chunks.flatten.length ≤ Buffer.maxSize →
            ∃ buf, receive Inbox.put Inbox.close fresh {} chunks =
              .ok (⟨(completed (as ++ [.connected conn]) served).map Prod.snd, false⟩, buf) := by
  have hfollows₁ := follows_of_run h₁
  have hfollows₂ := hfollows₁.step hup
  have hfollows := hfollows₂.run h₂
  rw [← List.append_cons] at hfollows
  obtain ⟨served, rest, s₃, rfl, hserved, hrest, hend⟩ :=
    h₂.exists_while fun s ↦ (s.client conn).state_ = .kConnected
  have hserved' := hserved.mono fun _ _ _ hstep ↦ hstep.1
  have hfollows₃ := hfollows₂.run hserved'
  have hnone : (s₂.client conn).sent = [] ∧ (s₂.client conn).state_ ≠ .kConnecting := by
    cases hup with
    | connected hnew =>
      rw [connected, setClient_self]
      exact ⟨hfollows₁.inv.unsent conn hnew, nofun⟩
  have hsent₃ := sent_of_run hfollows₂ hserved
  rw [hnone.1, List.nil_append] at hsent₃
  have hsent : (s.client conn).sent = (s₃.client conn).sent := by
    obtain rfl | hdown := hend
    · cases hrest
      rfl
    · exact sent_of_down hfollows₃ (began_of_run hfollows₂ hnone.2 hserved') hdown hrest
  refine ⟨hfollows.log, served, rest, s₃, rfl, hserved, hrest, hend, hsent.trans hsent₃,
    fun chunks hcut hfits ↦ ?_⟩
  have hshort : ∀ message ∈ (completed (as ++ [.connected conn]) served).map Prod.snd,
      message.length ≤ 65535 := by
    intro message hmem
    obtain ⟨entry, hentry, rfl⟩ := List.mem_map.mp hmem
    refine hfollows₃.inv.short entry ?_
    rw [hfollows₃.log, completed_append]
    exact List.mem_append_right _ hentry
  obtain ⟨inbox, buf, hreceive, hcaught, -⟩ := receive_caughtUp caughtUp_fresh hfits
  rw [List.nil_append, hcut, hsent, hsent₃] at hcaught
  obtain ⟨rfl, -⟩ := caughtUp_of_short hcaught hshort
  exact ⟨buf, hreceive⟩

theorem found_one : found [0, 0, 0, 1, 65] = [[65]] :=
  @found_frames [[65]] (by decide)

theorem found_two :
    found [0, 0, 0, 1, 65, 0, 0, 0, 2, 104, 105] = [[65], [104, 105]] :=
  @found_frames [[65], [104, 105]] (by decide)

theorem completed_first :
    completed [] [.connected 0, .received 0 [0, 0, 0, 1, 65], .connected 1] = [(0, [65])] := by
  have hnone : found [] = [] := @found_frames [] nofun
  change ((found [0, 0, 0, 1, 65]).drop (found []).length).map (0, ·) ++ [] = _
  rw [hnone, found_one]
  rfl

theorem completed_second :
    completed [.connected 0, .received 0 [0, 0, 0, 1, 65], .connected 1]
      [.received 0 [0, 0, 0, 2, 104, 105]] = [(0, [104, 105])] := by
  change ((found [0, 0, 0, 1, 65, 0, 0, 0, 2, 104, 105]).drop
    (found [0, 0, 0, 1, 65]).length).map (0, ·) ++ [] = _
  rw [found_one, found_two]
  rfl

/-- The second client comes up between two messages of the first. -/
theorem heard_in_order_two :
    ∃ s₁ s₂ s, Run Step {} [.connected 0, .received 0 [0, 0, 0, 1, 65]] s₁ ∧
      Step s₁ (.connected 1) s₂ ∧ Run Step s₂ [.received 0 [0, 0, 0, 2, 104, 105]] s ∧
      s.log = [(0, [65]), (0, [104, 105])] ∧ (s.client 1).sent = [0, 0, 0, 2, 104, 105] := by
  have hfirst : Step {} (.connected 0) (connected {} 0) := .connected rfl
  have hinv := inv_step inv_initial hfirst
  obtain ⟨s₁, hread₁⟩ := @handleRead_returns _ 0 [0, 0, 0, 1, 65] hinv (by decide)
  have h₁ : Run Step {} [.connected 0, .received 0 [0, 0, 0, 1, 65]] s₁ :=
    .cons hfirst <| .cons (.received (by decide) hread₁) <| .nil _
  have hfollows₁ := follows_of_run h₁
  obtain ⟨new, hreads⟩ := handleRead_reads hinv hread₁
  have hnew : (s₁.client 1).state_ = .kConnecting := by
    obtain hsame | ⟨hup, -⟩ := hreads.state 1
    · exact hsame
    · cases hup
  have hup : Step s₁ (.connected 1) (s₁.connected 1) := .connected hnew
  have hfollows₂ := hfollows₁.step hup
  obtain ⟨s, hread⟩ := @handleRead_returns _ 0 [0, 0, 0, 2, 104, 105] hfollows₂.inv (by
    rw [hfollows₂.arrived]
    decide)
  have hzero : ((s₁.connected 1).client 0).state_ ≠ .kConnecting :=
    began_of_run (follows_of_run (.cons hfirst <| .nil _)) (by decide)
      (.cons (.received (by decide) hread₁) <| .cons hup <| .nil _)
  have h₂ : Run Step (s₁.connected 1) [.received 0 [0, 0, 0, 2, 104, 105]] s :=
    .cons (.received hzero hread) <| .nil _
  obtain ⟨hlog, served, rest, s₃, hcut, hserved, -, hend, hsent, -⟩ := heard_in_order h₁ hup h₂
  refine ⟨s₁, _, s, h₁, hup, h₂, ?_, ?_⟩
  · rw [hlog, List.append_cons, completed_append]
    exact congrArg₂ _ completed_first completed_second
  · cases served with
    | nil =>
      cases hserved
      obtain rfl | hdown := hend
      · cases hcut
      · exact absurd (by rw [connected, setClient_self]) hdown
    | cons a served =>
      obtain ⟨rfl, hnone⟩ := List.cons.inj hcut
      obtain ⟨rfl, -⟩ := List.append_eq_nil_iff.mp hnone.symm
      rw [hsent]
      exact congrArg (fun log ↦ frames (log.map Prod.snd)) completed_second

/-- **Senders.**  In every run the server has handled, of each client, exactly the messages that a
reader finds in the bytes that have arrived from it, in their order. -/
theorem logged_in_order {as : List Action} (h : Run Step {} as s) (conn : Nat) {chunks : List Bytes}
    (hcut : chunks.flatten = streamOf conn as)
    (hfits : Buffer.kPrePrePend + chunks.flatten.length ≤ Buffer.maxSize) :
    ∃ inbox buf, receive Inbox.put Inbox.close fresh {} chunks = .ok (inbox, buf) ∧
      messagesFrom s.log conn = inbox.messages := by
  have hfollows := follows_of_run h
  obtain ⟨inbox, buf, hreceive, hcaught, -⟩ := receive_caughtUp caughtUp_fresh hfits
  rw [List.nil_append, hcut, ← hfollows.arrived conn] at hcaught
  obtain ⟨rfl, -⟩ := hcaught.unique (hfollows.inv.caughtUp conn)
  exact ⟨_, buf, hreceive, (hfollows.inv.delivered conn).symm⟩

/-- A message in two chunks. -/
theorem logged_in_order_one :
    ∃ s, Run Step {} [.connected 0, .received 0 [0, 0, 0], .received 0 [1, 65]] s ∧
      messagesFrom s.log 0 = [[65]] := by
  have hfirst : Step {} (.connected 0) (connected {} 0) := .connected rfl
  have hfollows := follows_of_run (.cons hfirst <| .nil _)
  obtain ⟨t, hread₁⟩ := @handleRead_returns _ 0 [0, 0, 0] hfollows.inv (by decide)
  have hsecond : Step (connected {} 0) (.received 0 [0, 0, 0]) t := .received (by decide) hread₁
  have hfollows' := hfollows.step hsecond
  obtain ⟨s, hread₂⟩ := @handleRead_returns _ 0 [1, 65] hfollows'.inv (by
    rw [hfollows'.arrived]
    decide)
  have hstate := ((hfollows.adds hsecond).down 0 (by decide)).1
  have hrun : Run Step {} [.connected 0, .received 0 [0, 0, 0], .received 0 [1, 65]] s :=
    .cons hfirst <| .cons hsecond <| .cons (.received hstate hread₂) <| .nil _
  obtain ⟨inbox, buf, hreceive, hlog⟩ :=
    @logged_in_order _ _ hrun 0 [[0, 0, 0, 1, 65]] rfl (by decide)
  obtain ⟨inbox', buf', hreceive', hcaught, -⟩ :=
    @receive_caughtUp _ [[0, 0, 0, 1, 65]] _ _ caughtUp_fresh (by decide)
  cases hreceive.symm.trans hreceive'
  exact ⟨s, hrun, hlog.trans (hcaught.messages_eq.trans found_one)⟩

end ChatServer

end Pallette
