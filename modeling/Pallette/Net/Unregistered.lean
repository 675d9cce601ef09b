import Pallette.Net.Effects
import Pallette.Reasoning.Run

/-!
# Unregistered — the channel of a closed connection

`handleClose` takes all interest away and `connectDestroyed` takes the channel out of the poller.
What is queued for the connection may still run behind either: `startReadInLoop` and
`stopReadInLoop` do not look at `state_`, and the others are kept off by it only as long as it stays
`kDisconnected`.  `LeavesClosed` says which steps do no harm; in a run of such steps the channel
stays as it has been left.
-/

open Reasoning

namespace Pallette.TcpConnection

open EventMask

/-- The connection has been reported down, by `handleClose` or by `connectDestroyed`. -/
def Down (s : TcpConnection) : Prop :=
  .connection false ∈ s.trace

/-- Run now, the functor leaves the channel of a closed connection alone. -/
def Functor.LeavesClosed (s : TcpConnection) : Functor → Prop
  | .startReadInLoop => ¬ s.Down
  | .stopReadInLoop => s.channel_.index_ = .kNew → s.reading_ = false
  -- a state that came back from `kDisconnected` keeps neither of these two off
  | .sendInLoop _ _ => s.Down → s.state_ = .kDisconnected
  | .forceCloseInLoop => s.channel_.index_ = .kNew → ¬ s.Alive
  -- in `kDisconnecting` it takes the interest as it is
  | .connectDestroyed => s.state_ = .kDisconnecting → s.Down
  | _ => True

/-- The step leaves the channel of a closed connection alone. -/
def LeavesClosed (s : TcpConnection) : Label → Prop
  | .call .startRead _ => Functor.startReadInLoop.LeavesClosed s
  | .call .stopRead _ => Functor.stopReadInLoop.LeavesClosed s
  | .functor _ => ∀ cb ∈ s.pendingFunctors_.head?, cb.LeavesClosed s
  | _ => True

/-! ## What one function does to the channel -/

/-- The channel is as it was, or it is in the poller and was, with no interest if the connection is
down. -/
def Tended (s t : TcpConnection) : Prop :=
  t.channel_ = s.channel_ ∨
    ((s.channel_.index_ = .kNew → ¬ s.Down) ∧ t.channel_.index_ ≠ .kNew ∧
      (s.Down → t.channel_.events_ = kNoneEvent))

variable {s t : TcpConnection}

theorem tended_of_up (hs : ¬ s.Down) (h : t.channel_ = s.channel_ ∨ t.channel_.index_ ≠ .kNew) :
    Tended s t := by
  rcases h with heq | hindex
  · exact .inl heq
  · exact .inr ⟨fun _ ↦ hs, hindex, fun hd ↦ absurd hd hs⟩

theorem notifyWriteComplete_channel (s : TcpConnection) (n : Nat) :
    (s.notifyWriteComplete n).channel_ = s.channel_ := by
  unfold notifyWriteComplete
  split <;> rfl

theorem notifyHighWaterMark_channel (s : TcpConnection) (n : Nat) :
    (s.notifyHighWaterMark n).channel_ = s.channel_ := by
  simp only [notifyHighWaterMark]
  split <;> rfl

theorem keep_channel (s : TcpConnection) (remaining : Bytes) :
    (s.keep remaining).channel_ = s.channel_ ∨ (s.keep remaining).channel_.index_ ≠ .kNew := by
  simp only [keep]
  split
  · exact .inl (notifyHighWaterMark_channel s remaining.length)
  · exact .inr (Channel.update_index _)

theorem tryWrite_channel (s : TcpConnection) (message : Bytes) (result : WriteResult) :
    (s.tryWrite message result).after.channel_ = s.channel_ := by
  unfold tryWrite
  split
  · unfold directWrite
    split
    · dsimp only
      split
      · exact notifyWriteComplete_channel _ _
      · rfl
    · rfl
  · rfl

theorem sendInLoop_channel (s : TcpConnection) (caller : Caller) (message : Bytes)
    (result : WriteResult) :
    (s.sendInLoop caller message result).channel_ = s.channel_ ∨
      (s.sendInLoop caller message result).channel_.index_ ≠ .kNew := by
  simp only [sendInLoop]
  have htried := tryWrite_channel (s.record (.processed caller message)) message result
  split
  · exact .inl rfl
  · split
    · rcases keep_channel ((s.record (.processed caller message)).tryWrite message result).after
        ((s.record (.processed caller message)).tryWrite message result).remaining
          with hkept | hindex
      · exact .inl (hkept.trans htried)
      · exact .inr hindex
    · exact .inl htried

theorem shutdownInLoop_channel (s : TcpConnection) : s.shutdownInLoop.channel_ = s.channel_ := by
  unfold shutdownInLoop
  split <;> rfl

theorem drained_channel (s : TcpConnection) (n : Nat) :
    (s.drained n).channel_ = s.channel_.disableWriting := by
  have hnotified := notifyWriteComplete_channel { s with channel_ := s.channel_.disableWriting } n
  simp only [drained]
  split
  · exact (shutdownInLoop_channel _).trans hnotified
  · exact hnotified

/-- Without interest in writing `handleWrite` does nothing. -/
theorem handleWrite_channel (s : TcpConnection) (result : WriteResult) :
    (s.handleWrite result).channel_ = s.channel_ ∨
      (s.channel_.isWriting = true ∧ (s.handleWrite result).channel_.index_ ≠ .kNew) := by
  unfold handleWrite
  split
  next n =>
    split
    next hwriting =>
      dsimp only
      split
      · refine .inr ⟨hwriting.1, ?_⟩
        rw [drained_channel]
        exact Channel.update_index _
      · exact .inl rfl
    next => exact .inl rfl
  next => exact .inl rfl

/-! ## The invariant -/

/-- What holds of the channel in a run of harmless steps, also once it is `gone` from the poller. -/
structure Settled (gone : Prop) (s : TcpConnection) : Prop where
  opened : s.state_ ≠ .kConnecting
  interest : s.Down → s.channel_.events_ = kNoneEvent
  closed : s.state_ = .kDisconnected → s.Down
  connected : s.state_ = .kConnected → ¬ s.Down
  destroying : .destroyStore ∈ s.todo → ¬ s.Down ∧ s.todo = [.destroyStore, .removeChannel]
  removing : .removeChannel ∈ s.todo → .destroyStore ∈ s.todo ∨
    (s.Down ∧ (s.todo = [.callback, .removeChannel] ∨ s.todo = [.removeChannel]))
  waiting : .removeChannel ∈ s.todo → s.active = false
  removed : s.channel_.index_ = .kNew → s.Down ∧ s.channel_.addedToLoop_ = false ∧
    s.channel_.registered = none ∧ s.active = false ∧ .readStage ∉ s.todo
  stays : gone → s.channel_.index_ = .kNew

theorem settled_established (mark : Nat) (wc hw : Bool) :
    Settled False (established mark wc hw) where
  opened := by simp [established]
  interest h := by simp [Down, established] at h
  closed h := by simp [established] at h
  connected _ := by simp [Down, established]
  destroying h := by simp [established] at h
  removing h := by simp [established] at h
  waiting h := by simp [established] at h
  removed h := absurd h (Channel.update_index _)
  stays h := h.elim

namespace Settled

variable {gone : Prop}

/-- Output, notices and a tended channel keep it. -/
theorem emits {ev : Event → Prop} {fn : Functor → Prop} (h : Settled gone s) (e : Emits ev fn s t)
    (hev : ¬ ev (.connection false)) (hc : Tended s t) : Settled gone t := by
  have hdown : t.Down ↔ s.Down := by
    rcases e.trace with ⟨es, hes, hall⟩
    unfold Down
    rw [hes, List.mem_append, or_iff_left fun hmem ↦ hev (hall _ hmem)]
  refine ⟨?_, ?_, ?_, ?_, ?_, ?_, ?_, ?_, ?_⟩
  · rw [e.state]
    exact h.opened
  · intro hd
    have hd' := hdown.mp hd
    rcases hc with heq | ⟨_, _, hnone⟩
    · rw [heq]
      exact h.interest hd'
    · exact hnone hd'
  · rw [e.state, hdown]
    exact h.closed
  · rw [e.state, hdown]
    exact h.connected
  · rw [e.todo, hdown]
    exact h.destroying
  · rw [e.todo, hdown]
    exact h.removing
  · rw [e.todo, e.active]
    exact h.waiting
  · rw [e.todo, e.active, hdown]
    rcases hc with heq | ⟨_, hindex, _⟩
    · rw [heq]
      exact h.removed
    · intro hnew
      exact absurd hnew hindex
  · intro hgone
    have hnew := h.stays hgone
    rcases hc with heq | ⟨hup, _, _⟩
    · rw [heq]
      exact hnew
    · exact absurd (h.removed hnew).1 (hup hnew)

theorem record (h : Settled gone s) {e : Event} (he : e ≠ .connection false) :
    Settled gone (s.record e) := by
  have hemits : Emits (fun e' ↦ e' = e) (fun _ ↦ True) s (s.record e) := .record s rfl
  exact h.emits hemits (fun heq ↦ he heq.symm) (.inl rfl)

/-- Fields the channel does not depend on. -/
theorem fields (h : Settled gone s) (input : Bytes) (received : Nat) (cbs : List Functor)
    (threads : Nat → ThreadState) :
    Settled gone { s with
      inputBuffer_ := input, bytesReceived_ := received, pendingFunctors_ := cbs,
      threads := threads } :=
  ⟨h.opened, h.interest, h.closed, h.connected, h.destroying, h.removing, h.waiting, h.removed,
    h.stays⟩

theorem disconnecting (h : Settled gone s) : Settled gone { s with state_ := .kDisconnecting } := by
  refine ⟨by simp, h.interest, ?_, ?_, h.destroying, h.removing, h.waiting, h.removed, h.stays⟩
  · intro hs
    cases hs
  · intro hs
    cases hs

/-- A task that is neither of the two of `connectDestroyed`. -/
theorem pop (h : Settled gone s) {task : Task} {rest : List Task} (htodo : s.todo = task :: rest)
    (hdestroy : task ≠ .destroyStore) (hremove : task ≠ .removeChannel) :
    Settled gone { s with todo := rest } := by
  have hmem : ∀ task', task' ∈ rest → task' ∈ s.todo := by
    intro task' hin
    rw [htodo]
    exact List.mem_cons_of_mem _ hin
  refine ⟨h.opened, h.interest, h.closed, h.connected, ?_, ?_, fun hin ↦ h.waiting (hmem _ hin), ?_,
    h.stays⟩
  · intro hin
    have hshape := (h.destroying (hmem _ hin)).2
    rw [htodo] at hshape
    exact absurd (List.cons.inj hshape).1 hdestroy
  · intro hin
    rcases h.removing (hmem _ hin) with hd | ⟨hdown, hshape | hshape⟩
    · have hshape := (h.destroying hd).2
      rw [htodo] at hshape
      exact absurd (List.cons.inj hshape).1 hdestroy
    · rw [htodo] at hshape
      exact .inr ⟨hdown, .inr (List.cons.inj hshape).2⟩
    · rw [htodo] at hshape
      exact absurd (List.cons.inj hshape).1 hremove
  · intro hnew
    rcases h.removed hnew with ⟨hdown, hadded, hreg, hactive, hread⟩
    exact ⟨hdown, hadded, hreg, hactive, fun hin ↦ hread (hmem _ hin)⟩

theorem not_removing (h : Settled gone s) {task : Task} {rest : List Task}
    (htodo : s.todo = task :: rest) (hcallback : task ≠ .callback) (hdestroy : task ≠ .destroyStore)
    (hremove : task ≠ .removeChannel) :
    .removeChannel ∉ rest := by
  intro hin
  rcases h.removing (by rw [htodo]; exact List.mem_cons_of_mem _ hin) with hd | ⟨_, hshape | hshape⟩
  · have hshape := (h.destroying hd).2
    rw [htodo] at hshape
    exact hdestroy (List.cons.inj hshape).1
  · rw [htodo] at hshape
    exact hcallback (List.cons.inj hshape).1
  · rw [htodo] at hshape
    exact hremove (List.cons.inj hshape).1

/-- Outside `connectDestroyed`, tasks are added. -/
theorem defer (h : Settled gone s) {tasks : List Task} (hremoving : .removeChannel ∉ s.todo)
    (htasks : ∀ task ∈ tasks, task = .callback ∨ task = .closing) :
    Settled gone (s.defer tasks) := by
  have hmem : ∀ task, task ≠ .callback → task ≠ .closing → task ∈ tasks ++ s.todo →
      task ∈ s.todo := by
    intro task hcallback hclosing hin
    rcases List.mem_append.mp hin with hin | hin
    · exact ((htasks task hin).elim hcallback hclosing).elim
    · exact hin
  have hdestroying : .destroyStore ∉ s.todo := by
    intro hin
    apply hremoving
    rw [(h.destroying hin).2]
    simp
  refine ⟨h.opened, h.interest, h.closed, h.connected, ?_, ?_, ?_, ?_, h.stays⟩
  · intro hin
    exact absurd (hmem _ (by simp) (by simp) hin) hdestroying
  · intro hin
    exact absurd (hmem _ (by simp) (by simp) hin) hremoving
  · intro hin
    exact absurd (hmem _ (by simp) (by simp) hin) hremoving
  · intro hnew
    rcases h.removed hnew with ⟨hdown, hadded, hreg, hactive, hread⟩
    exact ⟨hdown, hadded, hreg, hactive, fun hin ↦ hread (hmem _ (by simp) (by simp) hin)⟩

/-- A close leaves the channel without interest. -/
theorem handleClose (h : Settled gone s) (hremoving : .removeChannel ∉ s.todo)
    (hindex : s.channel_.index_ ≠ .kNew) (hclose : s.handleClose = .ok t) : Settled gone t := by
  unfold TcpConnection.handleClose at hclose
  split at hclose
  next halive =>
    cases hclose
    refine Settled.defer ?_ hremoving (by simp)
    have hdestroying : .destroyStore ∉ s.todo := by
      intro hin
      apply hremoving
      rw [(h.destroying hin).2]
      simp
    have hdown : Down ({ s with state_ := .kDisconnected, channel_ := s.channel_.disableAll }.record
        (.connection false)) := by
      simp [Down, TcpConnection.record]
    refine ⟨by simp [TcpConnection.record], fun _ ↦ Channel.disableAll_events _, fun _ ↦ hdown,
      ?_, ?_, ?_, ?_, ?_, ?_⟩
    · intro hs
      cases hs
    · intro hin
      exact absurd hin hdestroying
    · intro hin
      exact absurd hin hremoving
    · intro hin
      exact absurd hin hremoving
    · intro hnew
      exact absurd hnew (Channel.update_index _)
    · intro hgone
      exact absurd (h.stays hgone) hindex
  next => cases hclose

theorem sendInLoop (h : Settled gone s) (hs : s.Down → s.state_ = .kDisconnected) (caller : Caller)
    (message : Bytes) (result : WriteResult) :
    Settled gone (s.sendInLoop caller message result) := by
  by_cases hd : s.state_ = .kDisconnected
  · rw [TcpConnection.sendInLoop, if_pos hd]
    exact h
  · have hup : ¬ s.Down := fun hdown ↦ hd (hs hdown)
    have hprocessed := h.record (e := .processed caller message) (by simp)
    refine hprocessed.emits (emits_sendInLoop hd caller message result)
      (by simp [Event.isWritten]) ?_
    refine tended_of_up ?_ (sendInLoop_channel s caller message result)
    simpa [Down, TcpConnection.record] using hup

theorem startReadInLoop (h : Settled gone s) (hs : ¬ s.Down) : Settled gone s.startReadInLoop := by
  refine h.emits (emits_startReadInLoop s) id (tended_of_up hs ?_)
  unfold TcpConnection.startReadInLoop
  split
  · exact .inr (Channel.update_index _)
  · exact .inl rfl

theorem stopReadInLoop (h : Settled gone s) (hs : s.channel_.index_ = .kNew → s.reading_ = false) :
    Settled gone s.stopReadInLoop := by
  refine h.emits (emits_stopReadInLoop s) id ?_
  unfold TcpConnection.stopReadInLoop
  split
  next hreads =>
    refine .inr ⟨fun hnew hdown ↦ ?_, Channel.update_index _, fun hdown ↦ ?_⟩
    -- a removed channel has no interest in reading, either
    · rcases hreads with hreading | hreading
      · rw [hs hnew] at hreading
        cases hreading
      · rw [Channel.isReading, h.interest hdown] at hreading
        cases hreading
    · show s.channel_.disableReading.events_ = kNoneEvent
      rw [Channel.disableReading_events, h.interest hdown]
      rfl
  next => exact .inl rfl

theorem writeStage (h : Settled gone s) (result : WriteResult) :
    Settled gone (s.writeStage result) := by
  refine h.emits (emits_writeStage s result) id ?_
  unfold TcpConnection.writeStage
  split
  · rcases handleWrite_channel s result with heq | ⟨hwriting, hindex⟩
    · exact .inl heq
    -- a closed connection has no interest in writing
    · have hup : ¬ s.Down := by
        intro hdown
        rw [Channel.isWriting, h.interest hdown] at hwriting
        cases hwriting
      exact .inr ⟨fun _ ↦ hup, hindex, fun hdown ↦ absurd hdown hup⟩
  · exact .inl rfl

theorem shutdownInLoop (h : Settled gone s) : Settled gone s.shutdownInLoop :=
  h.emits (emits_shutdownInLoop s) id (.inl (shutdownInLoop_channel s))

/-! ## One step -/

theorem handleRead (h : Settled gone s) (hremoving : .removeChannel ∉ s.todo)
    (hindex : s.channel_.index_ ≠ .kNew) {result : ReadResult}
    (hread : s.handleRead result = .ok t) :
    Settled gone t := by
  unfold TcpConnection.handleRead at hread
  split at hread
  next => exact h.handleClose hremoving hindex hread
  next bytes _ =>
    cases hread
    have hreceived := (h.fields (s.inputBuffer_ ++ bytes) (s.bytesReceived_ + bytes.length)
      s.pendingFunctors_ s.threads).record (e := .message) (by simp)
    exact hreceived.defer hremoving (by simp)
  next =>
    cases hread
    exact h

theorem call (h : Settled gone s) {c : Call} {result : WriteResult}
    (hl : LeavesClosed s (.call c result)) :
    Settled gone (s.call c result) := by
  cases c with
  | send message =>
    simp only [TcpConnection.call]
    split
    next hconnected =>
      have hup := h.connected hconnected
      have hsent := h.record (e := .sent .loop message) (by simp)
      refine hsent.sendInLoop (fun hdown ↦ absurd ?_ hup) .loop message result
      simpa [Down, TcpConnection.record] using hdown
    next => exact h
  | shutdown =>
    simp only [TcpConnection.call]
    split
    · exact (h.disconnecting.record (by simp)).shutdownInLoop
    · exact h
  | forceClose =>
    simp only [TcpConnection.call]
    split
    · exact h.disconnecting.fields s.inputBuffer_ s.bytesReceived_ (s.pendingFunctors_ ++ _)
        s.threads
    · exact h
  | forceCloseWithDelay =>
    simp only [TcpConnection.call]
    split
    · exact h.disconnecting
    · exact h
  | startRead => exact h.startReadInLoop hl
  | stopRead => exact h.stopReadInLoop hl
  | retrieveInput len =>
    exact h.fields (s.inputBuffer_.drop len) s.bytesReceived_ s.pendingFunctors_ s.threads

theorem connectDestroyed (h : Settled gone s) (htodo : s.todo = []) (hidle : s.active = false)
    (hs : s.state_ = .kDisconnecting → s.Down) : Settled gone s.connectDestroyed := by
  unfold TcpConnection.connectDestroyed
  split
  next hconnected =>
    have hup := h.connected hconnected
    refine ⟨h.opened, h.interest, h.closed, h.connected, ?_, ?_, fun _ ↦ hidle, ?_, h.stays⟩
    · intro _
      exact ⟨hup, by simp [TcpConnection.defer, htodo]⟩
    · intro _
      exact .inl (by simp [TcpConnection.defer])
    · intro hnew
      exact absurd (h.removed hnew).1 hup
  next hconnected =>
    have hdown : s.Down := by
      cases hstate : s.state_ with
      | kDisconnected => exact h.closed hstate
      | kConnecting => exact absurd hstate h.opened
      | kConnected => exact absurd hstate hconnected
      | kDisconnecting => exact hs hstate
    refine ⟨h.opened, h.interest, h.closed, h.connected, ?_, ?_, fun _ ↦ hidle, ?_, h.stays⟩
    · intro hin
      simp [TcpConnection.defer, htodo] at hin
    · intro _
      exact .inr ⟨hdown, .inr (by simp [TcpConnection.defer, htodo])⟩
    · intro hnew
      rcases h.removed hnew with ⟨_, hadded, hreg, _, _⟩
      exact ⟨hdown, hadded, hreg, hidle, by simp [TcpConnection.defer, htodo]⟩

theorem runFunctor (h : Settled gone s) (htodo : s.todo = []) (hidle : s.active = false)
    {cb : Functor}
    (hcb : cb.LeavesClosed s) {result : WriteResult} (hrun : s.runFunctor result cb = .ok t) :
    Settled gone t := by
  have hremoving : .removeChannel ∉ s.todo := by simp [htodo]
  cases cb with
  | sendInLoop caller message =>
    cases hrun
    exact h.sendInLoop hcb caller message result
  | shutdownInLoop =>
    cases hrun
    exact h.shutdownInLoop
  | forceCloseInLoop =>
    simp only [TcpConnection.runFunctor] at hrun
    split at hrun
    next halive => exact h.handleClose hremoving (fun hnew ↦ hcb hnew halive) hrun
    next =>
      cases hrun
      exact h
  | startReadInLoop =>
    cases hrun
    exact h.startReadInLoop hcb
  | stopReadInLoop =>
    cases hrun
    exact h.stopReadInLoop hcb
  | writeComplete =>
    cases hrun
    exact h.defer hremoving (by simp)
  | highWaterMark size =>
    cases hrun
    exact h.defer hremoving (by simp)
  | connectDestroyed =>
    cases hrun
    exact h.connectDestroyed htodo hidle hcb

/-- Calls of other threads only test, store `kDisconnecting` and queue. -/
theorem threadCall (h : Settled gone s) (n : Nat) (c : Call) : Settled gone (s.threadCall n c) := by
  have hmove : ∀ st, Settled gone (s.setThread n st) := fun st ↦
    h.fields s.inputBuffer_ s.bytesReceived_ s.pendingFunctors_ (s.setThread n st).threads
  have hqueue : ∀ cb, Settled gone (s.queueInLoop cb) := fun cb ↦
    h.fields s.inputBuffer_ s.bytesReceived_ (s.pendingFunctors_ ++ [cb]) s.threads
  cases c with
  | send message =>
    simp only [TcpConnection.threadCall]
    split
    · have hsent := h.record (e := .sent (.thread n) message) (by simp)
      exact hsent.fields s.inputBuffer_ s.bytesReceived_ s.pendingFunctors_
        (s.setThread n _).threads
    · exact h
  | shutdown | forceClose | forceCloseWithDelay =>
    simp only [TcpConnection.threadCall]
    split
    · exact hmove _
    · exact h
  | startRead | stopRead => exact hqueue _
  | retrieveInput => exact h

theorem threadProceed (h : Settled gone s) (n : Nat) : Settled gone (s.threadProceed n) := by
  unfold TcpConnection.threadProceed
  cases s.threads n with
  | idle => exact h
  | sendQueue message =>
    exact h.fields s.inputBuffer_ s.bytesReceived_ (s.pendingFunctors_ ++ _)
      (s.setThread n _).threads
  | shutdownStore =>
    exact (h.disconnecting.record (e := .shutdownCalled (.thread n)) (by simp)).fields
      s.inputBuffer_
      s.bytesReceived_ s.pendingFunctors_ (s.setThread n _).threads
  | shutdownQueue | forceCloseQueue =>
    exact h.fields s.inputBuffer_ s.bytesReceived_ (s.pendingFunctors_ ++ _)
      (s.setThread n _).threads
  | forceCloseStore | forceCloseDelayStore =>
    exact h.disconnecting.fields s.inputBuffer_ s.bytesReceived_ s.pendingFunctors_
      (s.setThread n _).threads

theorem startHandling (h : Settled gone s) (hactive : s.active = true) :
    Settled gone s.startHandling := by
  refine ⟨h.opened, h.interest, h.closed, h.connected, ?_, ?_, fun _ ↦ rfl, ?_, h.stays⟩
  · intro hin
    simp [TcpConnection.startHandling] at hin
  · intro hin
    simp [TcpConnection.startHandling] at hin
  · intro hnew
    -- nothing is reported of a removed channel
    have hidle := (h.removed hnew).2.2.2.1
    rw [hactive] at hidle
    cases hidle

/-- The connection is still up between the two halves of `connectDestroyed`, and its channel in the
poller. -/
theorem destroyStore (h : Settled gone s) {rest : List Task}
    (htodo : s.todo = .destroyStore :: rest) :
    Settled gone (TcpConnection.destroyStore { s with todo := rest }) := by
  rcases h.destroying (by rw [htodo]; simp) with ⟨hup, hshape⟩
  have hrest : rest = [.removeChannel] := (List.cons.inj (htodo.symm.trans hshape)).2
  have hidle : s.active = false := h.waiting (by rw [hshape]; simp)
  subst hrest
  have hdown : Down (TcpConnection.destroyStore { s with todo := [.removeChannel] }) := by
    simp [Down, TcpConnection.destroyStore, TcpConnection.defer, TcpConnection.record,
      TcpConnection.connected]
  refine ⟨?_, fun _ ↦ Channel.disableAll_events _, fun _ ↦ hdown, ?_, ?_, ?_, fun _ ↦ hidle, ?_, ?_⟩
  · simp [TcpConnection.destroyStore, TcpConnection.defer, TcpConnection.record]
  · intro hs
    cases hs
  · intro hin
    simp [TcpConnection.destroyStore, TcpConnection.defer, TcpConnection.record] at hin
  · intro _
    exact .inr ⟨hdown, .inl rfl⟩
  · intro hnew
    exact absurd hnew (Channel.update_index _)
  · intro hgone
    exact absurd (h.removed (h.stays hgone)).1 hup

/-- `connectDestroyed` comes to `Channel::remove` with a closed connection and nothing else to
do. -/
theorem removeChannel (h : Settled gone s) {rest : List Task}
    (htodo : s.todo = .removeChannel :: rest) :
    s.Down ∧ rest = [] := by
  rcases h.removing (by rw [htodo]; simp) with hin | ⟨hdown, hshape | hshape⟩
  · have hshape := (h.destroying hin).2
    rw [htodo] at hshape
    cases hshape
  · rw [htodo] at hshape
    cases hshape
  · rw [htodo] at hshape
    exact ⟨hdown, (List.cons.inj hshape).2⟩

theorem channelRemoved (h : Settled gone s) {rest : List Task} {channel : Channel}
    (htodo : s.todo = .removeChannel :: rest) (hremove : s.channel_.remove = .ok channel) :
    Settled True { s with todo := rest, channel_ := channel } := by
  rcases h.removeChannel htodo with ⟨hdown, rfl⟩
  have hidle : s.active = false := h.waiting (by rw [htodo]; simp)
  rw [Channel.remove_eq hremove]
  refine ⟨h.opened, h.interest, h.closed, h.connected, ?_, ?_, fun _ ↦ hidle, ?_, fun _ ↦ rfl⟩
  · intro hin
    cases hin
  · intro hin
    cases hin
  · intro _
    exact ⟨hdown, rfl, rfl, hidle, by simp⟩

theorem imp {gone' : Prop} (h : Settled gone s) (hgone : gone' → gone) : Settled gone' s :=
  ⟨h.opened, h.interest, h.closed, h.connected, h.destroying, h.removing, h.waiting, h.removed,
    fun hg ↦ h.stays (hgone hg)⟩

end Settled

/-- **One step** that leaves the channel of a closed connection alone keeps the invariant. -/
theorem settled_of_step {gone : Prop} {l : Label} (h : Settled gone s) (hstep : Step s l t)
    (hl : LeavesClosed s l) : Settled gone t := by
  cases step_cases hstep with
  | @poll revents interest htodo hidle hreg _ =>
    refine ⟨h.opened, h.interest, h.closed, h.connected, h.destroying, h.removing, ?_, ?_, h.stays⟩
    · -- `poll` reports only a registered channel, when nothing is left to do
      intro hin
      rw [show ({ s with revents_ := revents, active := true } : TcpConnection).todo = [] from
        htodo] at hin
      cases hin
    · intro hnew
      rw [(h.removed hnew).2.2.1] at hreg
      cases hreg
  | hangUp _ hactive _ hclose =>
    -- a removed channel is not active any more
    have hindex : s.startHandling.channel_.index_ ≠ .kNew := by
      intro hnew
      have hidle := (h.removed hnew).2.2.2.1
      rw [hactive] at hidle
      cases hidle
    exact (h.startHandling hactive).handleClose (by simp [startHandling]) hindex hclose
  | handleEvent _ hactive _ => exact h.startHandling hactive
  | @read rest _ _ htodo _ hread =>
    have hpopped := h.pop htodo (by simp) (by simp)
    -- the read comes before the removal
    apply hpopped.handleRead (h.not_removing htodo (by simp) (by simp) (by simp)) _ hread
    intro hnew
    exact (h.removed hnew).2.2.2.2 (by rw [htodo]; simp)
  | noRead htodo _ => exact h.pop htodo (by simp) (by simp)
  | writeStage htodo => exact (h.pop htodo (by simp) (by simp)).writeStage _
  | @closing rest htodo =>
    have hclosed := (h.pop htodo (by simp) (by simp)).record (e := .close) (by simp)
    exact hclosed.defer (h.not_removing htodo (by simp) (by simp) (by simp)) (by simp)
  | destroyStore htodo => exact h.destroyStore htodo
  | removeChannel htodo hremove =>
    exact (h.channelRemoved htodo hremove).imp fun _ ↦ trivial
  | ret htodo => exact h.pop htodo (by simp) (by simp)
  | @functor cb rest result _ htodo hidle hpending hrun =>
    have hpopped := h.fields s.inputBuffer_ s.bytesReceived_ rest s.threads
    exact hpopped.runFunctor htodo hidle (hl cb (by simp [hpending])) hrun
  | call _ => exact h.call hl
  | destroy => exact h.fields s.inputBuffer_ s.bytesReceived_ (s.pendingFunctors_ ++ _) s.threads
  | thread _ => exact h.threadCall _ _
  | proceed _ => exact h.threadProceed _

/-! ## What the condition leaves out -/

theorem startReadInLoop_reading (s : TcpConnection) :
    s.startReadInLoop.channel_.isReading = true := by
  unfold startReadInLoop
  split
  next =>
    show (Channel.enableReading s.channel_).isReading = true
    simp [Channel.enableReading, Channel.isReading, union, kReadEvent]
  next hreads =>
    rw [not_or] at hreads
    simpa using hreads.2

/-- `stopReadInLoop` puts a channel back into the poller that has been removed from it. -/
theorem stopReadInLoop_registers (hnew : s.channel_.index_ = .kNew) (hreading : s.reading_ = true) :
    s.stopReadInLoop.channel_.addedToLoop_ = true ∧ s.stopReadInLoop.channel_.registered ≠
      none := by
  rw [stopReadInLoop, if_pos (.inl hreading)]
  simp [Channel.disableReading, Channel.update, Channel.updateChannel, hnew]

/-! ## Runs -/

/-- How the channel of a closed connection stays as long as all steps are `ok`. -/
structure StaysClosed (ok : TcpConnection → Label → Prop) (s : TcpConnection) : Prop where
  interest : s.Down → s.channel_.isNoneEvent = true
  remove : ∀ l, ok s l → ¬ Fails s l .channelRemove
  unregistered : ∀ t, s.todo.head? = some .removeChannel → Step s .resume t →
    ∀ ls u, Run (Guarded Step ok) t ls u → u.channel_.addedToLoop_ = false ∧
    u.channel_.registered = none

theorem settled_run {gone : Prop} {ls : List Label} (h : Run (Guarded Step LeavesClosed) s ls t)
    (hs : Settled gone s) : Settled gone t := by
  apply h.invariant (Settled gone) _ hs
  rintro s l t hs ⟨hstep, hl⟩
  exact settled_of_step hs hstep hl

theorem handleClose_error {a : Assertion} (h : s.handleClose = .error a) : a = .handleClose := by
  unfold handleClose at h
  split at h
  · cases h
  · cases h
    rfl

theorem handleRead_error {a : Assertion} {result : ReadResult}
    (h : s.handleRead result = .error a) :
    a = .handleClose := by
  unfold handleRead at h
  split at h
  · exact handleClose_error h
  · cases h
  · cases h

theorem runFunctor_error {a : Assertion} {cb : Functor} {result : WriteResult}
    (h : s.runFunctor result cb = .error a) : a = .handleClose := by
  cases cb with
  | forceCloseInLoop =>
    simp only [runFunctor] at h
    split at h
    · exact handleClose_error h
    · cases h
  | _ => cases h

/-- The assertions that can fail: the one in `handleClose`, and those of `Channel::remove` at the
end of `connectDestroyed`. -/
theorem fails_cases {l : Label} {a : Assertion} (h : Fails s l a) :
    a = .handleClose ∨ ∃ rest, s.todo = .removeChannel :: rest ∧ s.channel_.remove = .error a := by
  unfold Fails at h
  cases l with
  | handleEvent =>
    simp only [next] at h
    split at h
    · have hclose := Option.some.inj h
      unfold closeStage at hclose
      split at hclose
      · exact .inl (handleClose_error hclose)
      · cases hclose
    · cases h
  | readStage result =>
    simp only [next] at h
    split at h
    · have hread := Option.some.inj h
      unfold readStage at hread
      split at hread
      · exact .inl (handleRead_error hread)
      · cases hread
    · cases h
  | functor result =>
    simp only [next] at h
    split at h
    · exact .inl (runFunctor_error (Option.some.inj h))
    · cases h
  | resume =>
    simp only [next] at h
    split at h
    next => cases h
    next => cases h
    next rest htodo =>
      -- `Channel::remove` asserts that no interest is left
      refine .inr ⟨rest, htodo, ?_⟩
      have hremove := Option.some.inj h
      unfold removeChannel at hremove
      cases hchannel : s.channel_.remove with
      | error a' =>
        simp only [hchannel] at hremove
        cases hremove
        rfl
      | ok channel =>
        simp only [hchannel] at hremove
        cases hremove
    next => cases h
  | destroy => cases h
  | poll | writeStage | ret | call | thread | proceed =>
    simp only [next] at h
    split at h <;> cases h

/-- **A closed connection stays closed.**  In every run whose steps leave the channel of a closed
connection alone, it has no interest from the close on, `Channel::remove` finds none, and once
`connectDestroyed` has removed the channel it is never registered again. -/
theorem stays_closed {mark : Nat} {wc hw : Bool} {ls : List Label}
    (h : Run (Guarded Step LeavesClosed) (established mark wc hw) ls s) :
    StaysClosed LeavesClosed s := by
  have hs := settled_run h (settled_established mark wc hw)
  refine ⟨fun hdown ↦ decide_eq_true (hs.interest hdown), ?_, ?_⟩
  · intro l _ hfails
    rcases fails_cases hfails with hclose | ⟨rest, htodo, hremove⟩
    · cases hclose
    · have hnone : s.channel_.isNoneEvent = true :=
        decide_eq_true (hs.interest (hs.removeChannel htodo).1)
      rw [Channel.remove, if_pos hnone, Channel.removeChannel] at hremove
      split at hremove <;> cases hremove
  · intro t hhead hstep ls u hrun
    have ht : Settled True t := by
      cases step_cases hstep with
      | removeChannel htodo hremove => exact hs.channelRemoved htodo hremove
      | closing htodo | destroyStore htodo =>
        rw [htodo] at hhead
        cases hhead
    have hu := settled_run hrun ht
    rcases hu.removed (hu.stays trivial) with ⟨_, hadded, hreg, _, _⟩
    exact ⟨hadded, hreg⟩

/-- The peer closes, and `closeCallback_` has the connection destroyed. -/
theorem stays_closed_destroyed :
    ∃ s, Run (Guarded Step LeavesClosed) (established 1 false false)
        [.ret, .poll { EPOLLIN := true }, .handleEvent, .readStage (.data []), .ret, .resume,
        .destroy,
          .ret, .writeStage (.count 0), .functor (.count 0)] s ∧ StaysClosed LeavesClosed s := by
  have hrun := show Run (Guarded Step LeavesClosed) (established 1 false false)
        [.ret, .poll { EPOLLIN := true }, .handleEvent, .readStage (.data []), .ret, .resume,
        .destroy, .ret, .writeStage (.count 0), .functor (.count 0)] _ from
    .cons ⟨rfl, trivial⟩ <| .cons ⟨rfl, trivial⟩ <| .cons ⟨rfl, trivial⟩ <| .cons ⟨rfl, trivial⟩ <|
    .cons ⟨rfl, trivial⟩ <| .cons ⟨rfl, trivial⟩ <| .cons ⟨rfl, trivial⟩ <| .cons ⟨rfl, trivial⟩ <|
    .cons ⟨rfl, trivial⟩ <| .cons ⟨rfl, fun cb hcb ↦ by cases hcb; intro h; cases h⟩ <| .nil _
  exact ⟨_, hrun, stays_closed hrun⟩

/-- A `startRead` of another thread is queued before the peer closes and runs behind it: the closed
connection asks for input again, and `Channel::remove` finds it. -/
theorem startRead_reopens :
    ¬ ∀ (mark : Nat) (wc hw : Bool) (ls : List Label) (s : TcpConnection),
        Run Step (established mark wc hw) ls s → StaysClosed (fun _ _ ↦ True) s := by
  intro h
  have hrun := show Run Step (established 1 false false)
        [.ret, .thread 0 .startRead, .poll { EPOLLIN := true }, .handleEvent,
        .readStage (.data []), .ret,
          .resume, .destroy, .ret, .writeStage (.count 0), .functor (.count 0),
          .functor (.count 0)] _ from
    .cons rfl <| .cons rfl <| .cons rfl <| .cons rfl <| .cons rfl <| .cons rfl <| .cons rfl <|
    .cons rfl <| .cons rfl <| .cons rfl <| .cons rfl <| .cons rfl <| .nil _
  exact (h _ _ _ _ _ hrun).remove .resume trivial rfl

end Pallette.TcpConnection
