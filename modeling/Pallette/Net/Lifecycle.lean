import Pallette.Net.Effects

/-!
# Lifecycle — what a step does to `state_`, to the reports and to the calls of `closeCallback_`

Most steps do nothing to them.  The others make an open connection `kDisconnecting`, close it, or
come from `connectDestroyed`.  Only a store to `state_` that another thread makes late does
something else.
-/

namespace Pallette.TcpConnection

/-- The thread is about to set `state_`. -/
def ThreadState.Stores : ThreadState → Prop
  | .shutdownStore | .forceCloseStore | .forceCloseDelayStore => True
  | _ => False

/-- No thread sets `state_` on a connection that has been closed since the thread tested it. -/
def NoLateStore (s : TcpConnection) : Label → Prop
  | .proceed n => (s.threads n).Stores → s.state_ ≠ .kDisconnected
  | _ => True

/-- The calls of `closeCallback_`, those that are still to be made included. -/
def closes (s : TcpConnection) : Nat :=
  s.trace.count .close + s.todo.count .closing

/-- How often `connectionCallback_` has been told that the connection is down. -/
def downs (s : TcpConnection) : Nat :=
  s.trace.count (.connection false)

/-- `connectDestroyed` is about to take the connection down, or would be. -/
def Destroying (s : TcpConnection) : Prop :=
  .destroyStore ∈ s.todo ∨ s.state_ = .kConnected

/-- Nothing of it changes. -/
structure Remains (s t : TcpConnection) : Prop where
  state : t.state_ = s.state_
  down : t.downs = s.downs
  closes : t.closes = s.closes
  destroying : t.Destroying → s.Destroying

namespace Remains

variable {s t u : TcpConnection}

theorem refl (s : TcpConnection) : Remains s s :=
  ⟨rfl, rfl, rfl, id⟩

theorem trans (h : Remains s t) (h' : Remains t u) : Remains s u :=
  ⟨h'.state.trans h.state, h'.down.trans h.down, h'.closes.trans h.closes,
    h.destroying ∘ h'.destroying⟩

/-- The fields that tell are as they were. -/
theorem of_eq (hstate : t.state_ = s.state_) (htrace : t.trace = s.trace)
    (htodo : t.todo = s.todo) :
    Remains s t := by
  refine ⟨hstate, by rw [downs, htrace, downs], ?_, ?_⟩
  · rw [TcpConnection.closes, htrace, htodo]
    rfl
  · rw [Destroying, hstate, htodo]
    exact id

theorem of_emits {ev : Event → Prop} {fn : Functor → Prop} (h : Emits ev fn s t)
    (hdown : ¬ ev (.connection false)) (hclose : ¬ ev .close) : Remains s t := by
  rcases h.trace with ⟨es, hes, hall⟩
  have hnone {e : Event} (he : ¬ ev e) : t.trace.count e = s.trace.count e := by
    have hcount : es.count e = 0 := List.count_eq_zero.mpr fun hmem ↦ he (hall _ hmem)
    rw [hes, List.count_append, hcount, Nat.add_zero]
  refine ⟨h.state, hnone hdown, ?_, ?_⟩
  · rw [TcpConnection.closes, hnone hclose, h.todo]
    rfl
  · rw [Destroying, h.state, h.todo]
    exact id

theorem record (s : TcpConnection) {e : Event} (hdown : e ≠ .connection false)
    (hclose : e ≠ .close) :
    Remains s (s.record e) := by
  have hemits : Emits (· = e) (fun _ ↦ True) s (s.record e) := .record s rfl
  exact .of_emits hemits hdown.symm hclose.symm

/-- Tasks that are not calls of `closeCallback_` come and go. -/
theorem tasks (hstate : t.state_ = s.state_) (htrace : t.trace = s.trace)
    (htodo : t.todo.count .closing = s.todo.count .closing)
    (hdestroying : .destroyStore ∈ t.todo → s.Destroying) : Remains s t := by
  refine ⟨hstate, by rw [downs, htrace, downs], ?_, ?_⟩
  · rw [TcpConnection.closes, htrace, htodo]
    rfl
  · rintro (hmem | hconnected)
    · exact hdestroying hmem
    · exact .inr (hstate.symm.trans hconnected)

theorem pop {task : Task} {rest : List Task} (htodo : s.todo = task :: rest)
    (htask : task ≠ .closing) :
    Remains s { s with todo := rest } := by
  refine tasks rfl rfl ?_ ?_
  · rw [htodo, List.count_cons_of_ne htask]
  · intro hmem
    refine .inl ?_
    rw [htodo]
    exact List.mem_cons_of_mem _ hmem

/-- A callback is called, and the rest waits for it. -/
theorem defer (s : TcpConnection) {tasks : List Task} (hclosing : .closing ∉ tasks)
    (hdestroying : .destroyStore ∈ tasks → s.state_ = .kConnected) : Remains s (s.defer tasks) := by
  refine Remains.tasks rfl rfl ?_ ?_
  · rw [TcpConnection.defer, List.count_append, List.count_eq_zero.mpr hclosing, Nat.zero_add]
  · intro hmem
    rcases List.mem_append.mp hmem with hnew | hold
    · exact .inr (hdestroying hnew)
    · exact .inl hold

end Remains

/-- What a step can do. -/
inductive Turns (s t : TcpConnection) : Prop
  | remains : Remains s t → Turns s t
  | disconnecting : s.state_ ≠ .kDisconnected → t.state_ = .kDisconnecting → t.closes = s.closes →
      t.downs = s.downs → Turns s t
  | closed : s.state_ ≠ .kDisconnected → t.state_ = .kDisconnected → t.closes = s.closes + 1 →
      t.downs = s.downs + 1 → Turns s t
  | destroyed : s.Destroying → t.state_ = .kDisconnected → t.closes = s.closes →
      t.downs = s.downs + 1 → Turns s t

namespace Turns

variable {s t u : TcpConnection}

theorem andRemains (h : Turns s t) (h' : Remains t u) : Turns s u := by
  cases h with
  | remains hsame => exact .remains (hsame.trans h')
  | disconnecting hs ht hcloses hdown =>
    exact .disconnecting hs (h'.state.trans ht) (h'.closes.trans hcloses) (h'.down.trans hdown)
  | closed hs ht hcloses hdown =>
    exact .closed hs (h'.state.trans ht) (h'.closes.trans hcloses) (h'.down.trans hdown)
  | destroyed hs ht hcloses hdown =>
    exact .destroyed hs (h'.state.trans ht) (h'.closes.trans hcloses) (h'.down.trans hdown)

end Turns

theorem Remains.andTurns {s t u : TcpConnection} (h : Remains s t) (h' : Turns t u) :
    Turns s u := by
  cases h' with
  | remains hsame => exact .remains (h.trans hsame)
  | disconnecting ht hu hcloses hdown =>
    exact .disconnecting (h.state ▸ ht) hu (hcloses.trans h.closes) (hdown.trans h.down)
  | closed ht hu hcloses hdown =>
    exact .closed (h.state ▸ ht) hu (by rw [hcloses, h.closes]) (by rw [hdown, h.down])
  | destroyed ht hu hcloses hdown =>
    exact .destroyed (h.destroying ht) hu (hcloses.trans h.closes) (by rw [hdown, h.down])

variable {s t : TcpConnection}

/-! ## What the functions do -/

theorem turns_handleClose (h : s.handleClose = .ok t) : Turns s t := by
  unfold handleClose at h
  split at h
  next halive =>
    cases h
    refine .closed (alive_ne_disconnected halive) rfl ?_ ?_
    · -- the call of `closeCallback_` is noted here, and `closing` makes it
      simp [closes, defer, TcpConnection.record]
      omega
    · simp [downs, defer, TcpConnection.record, connected]
  next => cases h

theorem turns_handleRead {result : ReadResult} (h : s.handleRead result = .ok t) : Turns s t := by
  unfold handleRead at h
  split at h
  next => exact turns_handleClose h
  next bytes _ =>
    cases h
    exact .remains ⟨rfl, by simp [downs, defer, TcpConnection.record],
      by simp [closes, defer, TcpConnection.record],
      by simp [Destroying, defer, TcpConnection.record]⟩
  next =>
    cases h
    exact .remains (.refl s)

theorem remains_sendInLoop (s : TcpConnection) (caller : Caller) (message : Bytes)
    (result : WriteResult) :
    Remains s (s.sendInLoop caller message result) := by
  by_cases hs : s.state_ = .kDisconnected
  · rw [sendInLoop, if_pos hs]
    exact .refl s
  · have hprocessed : Remains s (s.record (.processed caller message)) :=
      .record s (by simp) (by simp)
    exact hprocessed.trans (.of_emits (emits_sendInLoop hs caller message result) id id)

theorem turns_call (s : TcpConnection) (c : Call) (result : WriteResult) :
    Turns s (s.call c result) := by
  cases c with
  | send message =>
    simp only [call]
    split
    · have hsent : Remains s (s.record (.sent .loop message)) := .record s (by simp) (by simp)
      exact .remains (hsent.trans (remains_sendInLoop _ .loop message result))
    · exact .remains (.refl s)
  | shutdown =>
    simp only [call]
    split
    next hconnected =>
      have hstored : Turns s { s with state_ := .kDisconnecting } :=
        .disconnecting (by rw [hconnected]; decide) rfl rfl rfl
      have hcalled := hstored.andRemains (.record _ (e := .shutdownCalled .loop) (by simp)
        (by simp))
      exact hcalled.andRemains (.of_emits (emits_shutdownInLoop _) id id)
    next => exact .remains (.refl s)
  | forceClose | forceCloseWithDelay =>
    simp only [call]
    split
    next halive => exact .disconnecting (alive_ne_disconnected halive) rfl rfl rfl
    next => exact .remains (.refl s)
  | startRead => exact .remains (.of_emits (emits_startReadInLoop s) id id)
  | stopRead => exact .remains (.of_emits (emits_stopReadInLoop s) id id)
  | retrieveInput len => exact .remains (.of_eq rfl rfl rfl)

theorem remains_connectDestroyed (s : TcpConnection) : Remains s s.connectDestroyed := by
  unfold connectDestroyed
  split
  next hconnected => exact .defer s (by decide) fun _ ↦ hconnected
  next => exact .defer s (by decide) nofun

theorem turns_runFunctor {cb : Functor} {result : WriteResult}
    (h : s.runFunctor result cb = .ok t) :
    Turns s t := by
  cases cb with
  | sendInLoop caller message =>
    cases h
    exact .remains (remains_sendInLoop s caller message result)
  | shutdownInLoop =>
    cases h
    exact .remains (.of_emits (emits_shutdownInLoop s) id id)
  | forceCloseInLoop =>
    simp only [runFunctor] at h
    split at h
    · exact turns_handleClose h
    · cases h
      exact .remains (.refl s)
  | startReadInLoop =>
    cases h
    exact .remains (.of_emits (emits_startReadInLoop s) id id)
  | stopReadInLoop =>
    cases h
    exact .remains (.of_emits (emits_stopReadInLoop s) id id)
  | writeComplete | highWaterMark size =>
    cases h
    exact .remains (.defer s (by decide) nofun)
  | connectDestroyed =>
    cases h
    exact .remains (remains_connectDestroyed s)

theorem remains_threadCall (s : TcpConnection) (n : Nat) (c : Call) :
    Remains s (s.threadCall n c) := by
  cases c with
  | send message =>
    simp only [threadCall]
    split
    · have hsent : Remains s (s.record (.sent (.thread n) message)) := .record s (by simp) (by simp)
      exact hsent.trans (.of_eq rfl rfl rfl)
    · exact .refl s
  | shutdown | forceClose | forceCloseWithDelay =>
    -- the test of `state_`, and nothing else
    simp only [threadCall]
    split
    · exact .of_eq rfl rfl rfl
    · exact .refl s
  | startRead | stopRead | retrieveInput => exact .of_eq rfl rfl rfl

theorem turns_threadProceed {n : Nat} (h : NoLateStore s (.proceed n)) :
    Turns s (s.threadProceed n) := by
  unfold threadProceed
  unfold NoLateStore at h
  cases hthread : s.threads n with
  | idle => exact .remains (.refl s)
  | sendQueue message | shutdownQueue | forceCloseQueue => exact .remains (.of_eq rfl rfl rfl)
  | shutdownStore =>
    have hopen : s.state_ ≠ .kDisconnected := h (by rw [hthread]; trivial)
    exact .disconnecting hopen rfl (by simp [closes, setThread, TcpConnection.record])
      (by simp [downs, setThread, TcpConnection.record])
  | forceCloseStore | forceCloseDelayStore =>
    have hopen : s.state_ ≠ .kDisconnected := h (by rw [hthread]; trivial)
    exact .disconnecting hopen rfl rfl rfl

/-- **One step**, if it is no late store. -/
theorem turns_of_step {l : Label} (h : Step s l t) (hl : NoLateStore s l) : Turns s t := by
  cases step_cases h with
  | poll _ _ _ _ | destroy => exact .remains (.of_eq rfl rfl rfl)
  | hangUp htodo _ _ hclose =>
    have hstarted : Remains s s.startHandling :=
      .tasks rfl rfl (by simp [startHandling, htodo]) (by simp [startHandling])
    exact hstarted.andTurns (turns_handleClose hclose)
  | handleEvent htodo _ _ =>
    exact .remains (.tasks rfl rfl (by simp [startHandling, htodo]) (by simp [startHandling]))
  | read htodo _ hread => exact (Remains.pop htodo (by simp)).andTurns (turns_handleRead hread)
  | noRead htodo _ | ret htodo => exact .remains (.pop htodo (by simp))
  | writeStage htodo =>
    exact .remains ((Remains.pop htodo (by simp)).trans (.of_emits (emits_writeStage _ _) id id))
  | closing htodo =>
    refine .remains ⟨rfl, by simp [downs, closing, defer, TcpConnection.record], ?_, ?_⟩
    · simp [closes, closing, defer, TcpConnection.record, htodo]
      omega
    · simp [Destroying, closing, defer, TcpConnection.record, htodo]
  | destroyStore htodo =>
    refine .destroyed (.inl (htodo ▸ List.mem_cons_self)) rfl ?_ ?_
    · simp [closes, destroyStore, defer, TcpConnection.record, htodo]
    · simp [downs, destroyStore, defer, TcpConnection.record, connected]
  | removeChannel htodo _ =>
      exact .remains ((Remains.pop htodo (by simp)).trans (.of_eq rfl rfl rfl))
  | @functor cb rest _ _ _ _ _ hrun =>
    have hpopped : Remains s { s with pendingFunctors_ := rest } := .of_eq rfl rfl rfl
    exact hpopped.andTurns (turns_runFunctor hrun)
  | call _ => exact turns_call s _ _
  | thread _ => exact .remains (remains_threadCall s _ _)
  | proceed _ => exact turns_threadProceed hl

/-- A late store brings a closed connection back. -/
theorem late_store {n : Nat} (h : Step s (.proceed n) t) (hlate : ¬ NoLateStore s (.proceed n)) :
    s.state_ = .kDisconnected ∧ t.state_ = .kDisconnecting ∧ t.downs = s.downs := by
  cases step_cases h with
  | proceed hbusy =>
    obtain ⟨hstores, hclosed⟩ := Classical.not_imp.mp hlate
    refine ⟨not_not.mp hclosed, ?_⟩
    unfold threadProceed
    cases hthread : s.threads n with
    | shutdownStore => exact ⟨rfl, by simp [downs, setThread, TcpConnection.record]⟩
    | forceCloseStore | forceCloseDelayStore => exact ⟨rfl, rfl⟩
    | idle | sendQueue message | shutdownQueue | forceCloseQueue =>
      rw [hthread] at hstores
      exact hstores.elim

end Pallette.TcpConnection
