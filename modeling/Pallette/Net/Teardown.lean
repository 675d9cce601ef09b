import Pallette.Net.Lifecycle
import Pallette.Reasoning.Run

/-!
# Teardown — a connection on its way down in `connectDestroyed`

From its store to `channel_->remove()` the loop is in `connectDestroyed` and in the callback it
makes; the other threads move all the while.  Behind it a connection stays down, unless a late store
brings it back, which no run undoes.
-/

open Reasoning

namespace Pallette

open EventMask

namespace TcpConnection

variable {s t : TcpConnection} {l : Label} {ls : List Label} {tasks : List Task}

/-- Where the labels lead, or the assertion that fails on the way; a label that is not due is passed
over. -/
def steps (s : TcpConnection) : List Label → Except Assertion TcpConnection
  | [] => .ok s
  | l :: ls =>
      match s.next l with
      | some (.ok t) => t.steps ls
      | some (.error a) => .error a
      | none => s.steps ls

/-- What the steps of the other threads do to a connection whose loop does not move. -/
structure Aside (s t : TcpConnection) : Prop where
  todo : t.todo = s.todo
  channel : t.channel_ = s.channel_
  state : t.state_ = s.state_ ∨ t.state_ = .kDisconnecting
  downs : t.downs = s.downs

theorem aside_threadCall (s : TcpConnection) (n : Nat) (c : Call) : Aside s (s.threadCall n c) := by
  have hsame := remains_threadCall s n c
  refine ⟨?_, ?_, .inl hsame.state, hsame.down⟩
  · cases c with
    | send | shutdown | forceClose | forceCloseWithDelay =>
      simp only [threadCall]
      split <;> rfl
    | startRead | stopRead | retrieveInput => rfl
  · cases c with
    | send | shutdown | forceClose | forceCloseWithDelay =>
      simp only [threadCall]
      split <;> rfl
    | startRead | stopRead | retrieveInput => rfl

theorem aside_threadProceed (s : TcpConnection) (n : Nat) : Aside s (s.threadProceed n) := by
  unfold threadProceed
  cases s.threads n with
  | idle | sendQueue | shutdownQueue | forceCloseQueue => exact ⟨rfl, rfl, .inl rfl, rfl⟩
  | shutdownStore =>
    exact ⟨rfl, rfl, .inr rfl, by simp [downs, setThread, TcpConnection.record]⟩
  | forceCloseStore | forceCloseDelayStore => exact ⟨rfl, rfl, .inr rfl, rfl⟩

/-- Up to `channel_->remove()`. -/
def BeforeRemoval (s : TcpConnection) : Label → Prop
  | .resume => s.todo.head? ≠ some .removeChannel
  | _ => True

def Call.reads (reading : Bool) : Call → Bool
  | .startRead => true
  | .stopRead => false
  | _ => reading

/-- What the step leaves of the interest in reading. -/
def Label.reads (reading : Bool) : Label → Bool
  | .call c _ => c.reads reading
  | _ => reading

/-- At `channel_->remove()` the loop runs no user code. -/
theorem aside_of_removing (htodo : s.todo = .removeChannel :: tasks) (hstep : Step s l t)
    (hl : BeforeRemoval s l) : Aside s t ∧ ∀ reading, l.reads reading = reading := by
  cases step_cases hstep with
  | poll hnone | hangUp hnone | handleEvent hnone | functor hnone =>
    rw [htodo] at hnone
    cases hnone
  | read hhead | noRead hhead | writeStage hhead | closing hhead | destroyStore hhead | ret hhead =>
    rw [htodo] at hhead
    cases hhead
  | removeChannel hhead _ =>
    unfold BeforeRemoval at hl
    rw [htodo] at hl
    exact absurd rfl hl
  | call huser =>
    simp only [inUserCode, htodo, Bool.false_eq_true] at huser
  | destroy => exact ⟨⟨rfl, rfl, .inl rfl, rfl⟩, fun _ ↦ rfl⟩
  | thread _ => exact ⟨aside_threadCall s _ _, fun _ ↦ rfl⟩
  | proceed _ => exact ⟨aside_threadProceed s _, fun _ ↦ rfl⟩

/-- A connection in the poller that is not up, with interest in reading or with none. -/
structure Listens (reading : Bool) (s : TcpConnection) : Prop where
  state : s.state_ ≠ .kConnected
  events : s.channel_.events_ = if reading then kReadEvent else kNoneEvent
  index : s.channel_.index_ ≠ .kNew

theorem Listens.startReadInLoop {reading : Bool} (h : Listens reading s) :
    Listens true s.startReadInLoop := by
  refine ⟨(emits_startReadInLoop s).state ▸ h.state, ?_, ?_⟩
  · unfold TcpConnection.startReadInLoop
    split
    next =>
      show s.channel_.enableReading.events_ = kReadEvent
      rw [Channel.enableReading, Channel.update_events, h.events]
      cases reading <;> rfl
    next hreads =>
      rw [not_or, Channel.isReading, h.events] at hreads
      cases reading with
      | true => exact h.events
      | false => exact absurd rfl hreads.2
  · unfold TcpConnection.startReadInLoop
    split
    · exact Channel.update_index _
    · exact h.index

theorem Listens.stopReadInLoop {reading : Bool} (h : Listens reading s) :
    Listens false s.stopReadInLoop := by
  refine ⟨(emits_stopReadInLoop s).state ▸ h.state, ?_, ?_⟩
  · unfold TcpConnection.stopReadInLoop
    split
    next =>
      show s.channel_.disableReading.events_ = kNoneEvent
      rw [Channel.disableReading_events, h.events]
      cases reading <;> rfl
    next hreads =>
      rw [not_or, Channel.isReading, h.events] at hreads
      cases reading with
      | true => exact absurd rfl hreads.2
      | false => exact h.events
  · unfold TcpConnection.stopReadInLoop
    split
    · exact Channel.update_index _
    · exact h.index

/-- What is called on a connection that is not up changes at most its interest in reading, and with
a late store in front of it its state. -/
theorem Listens.call {reading : Bool} (h : Listens reading s) (c : Call) (result : WriteResult) :
    Listens (c.reads reading) (s.call c result) ∧ (s.call c result).todo = s.todo := by
  cases c with
  | send message | shutdown =>
    simp only [TcpConnection.call, if_neg h.state]
    exact ⟨h, trivial⟩
  | forceClose | forceCloseWithDelay =>
    simp only [TcpConnection.call]
    split
    · have hstate : StateE.kDisconnecting ≠ .kConnected := by decide
      exact ⟨⟨hstate, h.events, h.index⟩, rfl⟩
    · exact ⟨h, rfl⟩
  | startRead => exact ⟨h.startReadInLoop, (emits_startReadInLoop s).todo⟩
  | stopRead => exact ⟨h.stopReadInLoop, (emits_stopReadInLoop s).todo⟩
  | retrieveInput len => exact ⟨⟨h.state, h.events, h.index⟩, rfl⟩

theorem Listens.aside {reading : Bool} (h : Listens reading s) (haside : Aside s t) :
    Listens reading t := by
  refine ⟨?_, haside.channel ▸ h.events, haside.channel ▸ h.index⟩
  rcases haside.state with heq | heq
  · exact heq ▸ h.state
  · rw [heq]
    decide

theorem listens_destroyStore (s : TcpConnection) : Listens false s.destroyStore :=
  ⟨nofun, Channel.disableAll_events _, Channel.update_index _⟩

/-! ## `connectDestroyed` up to `channel_->remove()` -/

/-- Where `connectDestroyed` stands with a connection it has found up, behind calls that leave
`reading`: in front of its store, or in the callback and behind it. -/
inductive Falling (tasks : List Task) (reading : Bool) (s : TcpConnection) : Prop
  | storing : s.todo = .destroyStore :: .removeChannel :: tasks → reading = false →
      s.downs = 0 → Falling tasks reading s
  | telling : s.todo = .callback :: .removeChannel :: tasks → Listens reading s →
      Falling tasks reading s
  | removing : s.todo = .removeChannel :: tasks → Listens reading s → Falling tasks reading s

/-- In front of the store only other threads move. -/
theorem storing_cases (htodo : s.todo = .destroyStore :: tasks) (hstep : Step s l t) :
    Aside s t ∧ (∀ reading, l.reads reading = reading) ∨
      l = .resume ∧ t = TcpConnection.destroyStore { s with todo := tasks } := by
  cases step_cases hstep with
  | poll hnone | hangUp hnone | handleEvent hnone | functor hnone =>
    rw [htodo] at hnone
    cases hnone
  | read hhead | noRead hhead | writeStage hhead | closing hhead | removeChannel hhead
  | ret hhead =>
    rw [htodo] at hhead
    cases hhead
  | destroyStore hhead =>
    rw [htodo] at hhead
    cases hhead
    exact .inr ⟨rfl, rfl⟩
  | call huser => simp only [inUserCode, htodo, Bool.false_eq_true] at huser
  | destroy => exact .inl ⟨⟨rfl, rfl, .inl rfl, rfl⟩, fun _ ↦ rfl⟩
  | thread _ => exact .inl ⟨aside_threadCall s _ _, fun _ ↦ rfl⟩
  | proceed _ => exact .inl ⟨aside_threadProceed s _, fun _ ↦ rfl⟩

theorem falling_of_storing (htodo : s.todo = .destroyStore :: .removeChannel :: tasks)
    (hdowns : s.downs = 0) (hstep : Step s l t) : Falling tasks (l.reads false) t := by
  rcases storing_cases htodo hstep with ⟨haside, hreads⟩ | ⟨rfl, rfl⟩
  · rw [hreads]
    exact .storing (haside.todo.trans htodo) rfl (haside.downs.trans hdowns)
  · exact .telling rfl (listens_destroyStore _)

theorem falling_of_telling {reading : Bool} (htodo : s.todo = .callback :: .removeChannel :: tasks)
    (hlistens : Listens reading s) (hstep : Step s l t) : Falling tasks (l.reads reading) t := by
  have haside : Aside s t → Falling tasks reading t :=
    fun haside ↦ .telling (haside.todo.trans htodo) (hlistens.aside haside)
  cases step_cases hstep with
  | poll hnone | hangUp hnone | handleEvent hnone | functor hnone =>
    rw [htodo] at hnone
    cases hnone
  | read hhead | noRead hhead | writeStage hhead | closing hhead | removeChannel hhead
  | destroyStore hhead =>
    rw [htodo] at hhead
    cases hhead
  | ret hhead =>
    rw [htodo] at hhead
    cases hhead
    exact .removing rfl ⟨hlistens.state, hlistens.events, hlistens.index⟩
  | @call c result _ =>
    have hcall := hlistens.call c result
    exact .telling (hcall.2.trans htodo) hcall.1
  | destroy => exact haside ⟨rfl, rfl, .inl rfl, rfl⟩
  | thread _ => exact haside (aside_threadCall s _ _)
  | proceed _ => exact haside (aside_threadProceed s _)

theorem Falling.step {reading : Bool} (h : Falling tasks reading s) (hstep : Step s l t)
    (hl : BeforeRemoval s l) : Falling tasks (l.reads reading) t := by
  cases h with
  | storing htodo hreading hdowns =>
    subst hreading
    exact falling_of_storing htodo hdowns hstep
  | telling htodo hlistens => exact falling_of_telling htodo hlistens hstep
  | removing htodo hlistens =>
    obtain ⟨haside, hreads⟩ := aside_of_removing htodo hstep hl
    rw [hreads]
    exact .removing (haside.todo.trans htodo) (hlistens.aside haside)

/-- Taken down for good, if no late store comes. -/
structure Downed (s : TcpConnection) : Prop where
  state : s.state_ = .kDisconnected
  told : s.downs = 1
  kept : ¬ s.Destroying

theorem Downed.step (h : Downed s) (hstep : Step s l t) (hl : NoLateStore s l) : Downed t := by
  cases turns_of_step hstep hl with
  | remains hsame =>
    exact ⟨hsame.state.trans h.state, hsame.down.trans h.told,
      fun ht ↦ h.kept (hsame.destroying ht)⟩
  | disconnecting hopen | closed hopen => exact absurd h.state hopen
  | destroyed hdestroying => exact absurd hdestroying h.kept

theorem Downed.run (h : Downed s) (hrun : Run (Guarded Step NoLateStore) s ls t) : Downed t :=
  hrun.invariant Downed (fun _ _ _ hs hstep ↦ hs.step hstep.1 hstep.2) h

/-- A late store has brought the connection back, or it has gone down for the second time. -/
def Resurrected (s : TcpConnection) : Prop :=
  s.state_ = .kDisconnecting ∧ 1 ≤ s.downs ∨ 2 ≤ s.downs

theorem Resurrected.step (h : Resurrected s) (hstep : Step s l t) : Resurrected t := by
  have hpos : 1 ≤ s.downs := by
    rcases h with ⟨-, hone⟩ | htwo
    · exact hone
    · omega
  by_cases hl : NoLateStore s l
  · cases turns_of_step hstep hl with
    | remains hsame =>
      unfold Resurrected
      rw [hsame.state, hsame.down]
      exact h
    | disconnecting _ hstate _ hdown => exact .inl ⟨hstate, hdown ▸ hpos⟩
    | closed _ _ _ hdown | destroyed _ _ _ hdown =>
      right
      omega
  · cases l with
    | proceed n =>
      obtain ⟨-, hstate, hdown⟩ := late_store hstep hl
      exact .inl ⟨hstate, hdown ▸ hpos⟩
    | _ => exact absurd trivial hl

/-- A connection that is down has been reported down. -/
def Told (s : TcpConnection) : Prop :=
  s.state_ = .kDisconnected → 1 ≤ s.downs

theorem Told.step (h : Told s) (hstep : Step s l t) : Told t := by
  intro ht
  by_cases hl : NoLateStore s l
  · cases turns_of_step hstep hl with
    | remains hsame =>
      rw [hsame.down]
      exact h (hsame.state.symm.trans ht)
    | disconnecting _ hstate =>
      rw [ht] at hstate
      cases hstate
    | closed _ _ _ hdown | destroyed _ _ _ hdown => omega
  · cases l with
    | proceed n =>
      rw [(late_store hstep hl).2.1] at ht
      cases ht
    | _ => exact absurd trivial hl

theorem Told.run (h : Told s) (hrun : Run Step s ls t) : Told t :=
  hrun.invariant Told (fun _ _ _ hs hstep ↦ hs.step hstep) h

/-- A connection that is up behind the step was up before it, and has not been reported down in
it. -/
theorem up_of_step (h : Step s l t) (ht : t.state_ = .kConnected) :
    s.state_ = .kConnected ∧ t.downs = s.downs := by
  by_cases hl : NoLateStore s l
  · cases turns_of_step h hl with
    | remains hsame => exact ⟨hsame.state.symm.trans ht, hsame.down⟩
    | disconnecting _ hstate | closed _ hstate | destroyed _ hstate =>
      rw [ht] at hstate
      cases hstate
  · -- a late store is a thread's `kDisconnecting`
    cases l with
    | proceed n =>
      rw [(late_store h hl).2.1] at ht
      cases ht
    | _ => exact absurd trivial hl

/-- The branch of `connectDestroyed` that takes a connection down stands first where it stands. -/
def StoresFirst (s : TcpConnection) : Prop :=
  .destroyStore ∉ s.todo.tail

theorem handleClose_todo (h : s.handleClose = .ok t) :
    t.todo = [.callback, .closing] ++ s.todo := by
  unfold handleClose at h
  split at h
  · cases h
    rfl
  · cases h

theorem handleRead_todo {result : ReadResult} (h : s.handleRead result = .ok t) :
    ∃ tasks, .destroyStore ∉ tasks ∧ t.todo = tasks ++ s.todo := by
  unfold handleRead at h
  split at h
  next => exact ⟨_, by decide, handleClose_todo h⟩
  next =>
    cases h
    exact ⟨[.callback], by decide, rfl⟩
  next =>
    cases h
    exact ⟨[], by decide, rfl⟩

theorem sendInLoop_todo (s : TcpConnection) (caller : Caller) (message : Bytes)
    (result : WriteResult) : (s.sendInLoop caller message result).todo = s.todo := by
  by_cases hs : s.state_ = .kDisconnected
  · rw [sendInLoop, if_pos hs]
  · exact (emits_sendInLoop hs caller message result).todo

theorem call_todo (s : TcpConnection) (c : Call) (result : WriteResult) :
    (s.call c result).todo = s.todo := by
  cases c with
  | send message =>
    simp only [call]
    split
    · exact sendInLoop_todo _ .loop message result
    · rfl
  | shutdown =>
    simp only [call]
    split
    · exact (emits_shutdownInLoop _).todo
    · rfl
  | forceClose | forceCloseWithDelay =>
    simp only [call]
    split <;> rfl
  | startRead => exact (emits_startReadInLoop s).todo
  | stopRead => exact (emits_stopReadInLoop s).todo
  | retrieveInput len => rfl

theorem runFunctor_todo {cb : Functor} {result : WriteResult} (h : s.runFunctor result cb = .ok t) :
    (∃ tasks, .destroyStore ∉ tasks ∧ t.todo = tasks ++ s.todo) ∨
      t.todo = [.destroyStore, .removeChannel] ++ s.todo := by
  have hsame : t.todo = s.todo → ∃ tasks, .destroyStore ∉ tasks ∧ t.todo = tasks ++ s.todo :=
    fun heq ↦ ⟨[], by decide, heq⟩
  cases cb with
  | sendInLoop caller message =>
    cases h
    exact .inl (hsame (sendInLoop_todo s caller message result))
  | shutdownInLoop =>
    cases h
    exact .inl (hsame (emits_shutdownInLoop s).todo)
  | forceCloseInLoop =>
    simp only [runFunctor] at h
    split at h
    · exact .inl ⟨_, by decide, handleClose_todo h⟩
    · cases h
      exact .inl (hsame rfl)
  | startReadInLoop =>
    cases h
    exact .inl (hsame (emits_startReadInLoop s).todo)
  | stopReadInLoop =>
    cases h
    exact .inl (hsame (emits_stopReadInLoop s).todo)
  | writeComplete | highWaterMark size =>
    cases h
    exact .inl ⟨[.callback], by decide, rfl⟩
  | connectDestroyed =>
    cases h
    unfold connectDestroyed
    split
    · exact .inr rfl
    · exact .inl ⟨[.removeChannel], by decide, rfl⟩

theorem storesFirst_of_step (h : StoresFirst s) (hstep : Step s l t) : StoresFirst t := by
  have hkept : t.todo = s.todo → StoresFirst t := by
    intro heq
    rwa [StoresFirst, heq]
  -- the step takes the first task, and puts others in front of the rest
  have hpushed : ∀ {task : Task} {rest tasks : List Task}, s.todo = task :: rest →
      .destroyStore ∉ tasks → t.todo = tasks ++ rest → StoresFirst t := by
    intro task rest tasks htodo htasks heq hmem
    have hall : .destroyStore ∈ t.todo := List.mem_of_mem_tail hmem
    rw [heq] at hall
    rcases List.mem_append.mp hall with hnew | hold
    · exact htasks hnew
    · unfold StoresFirst at h
      rw [htodo] at h
      exact h hold
  cases step_cases hstep with
  | poll | destroy => exact hkept rfl
  | hangUp _ _ _ hclose =>
    rw [StoresFirst, handleClose_todo hclose]
    exact (by decide : Task.destroyStore ∉ [Task.closing, .readStage, .writeStage])
  | handleEvent => exact (by decide : Task.destroyStore ∉ [Task.writeStage])
  | read htodo _ hread =>
    obtain ⟨tasks, htasks, heq⟩ := handleRead_todo hread
    exact hpushed htodo htasks heq
  | noRead htodo | removeChannel htodo | ret htodo =>
    exact hpushed htodo (by decide : Task.destroyStore ∉ []) rfl
  | writeStage htodo =>
    exact hpushed htodo (by decide : Task.destroyStore ∉ []) (emits_writeStage _ _).todo
  | closing htodo | destroyStore htodo =>
    exact hpushed htodo (by decide : Task.destroyStore ∉ [.callback]) rfl
  | functor htodo _ _ hrun =>
    rcases runFunctor_todo hrun with ⟨tasks, htasks, heq⟩ | heq
    · rw [StoresFirst, heq, htodo, List.append_nil]
      exact fun hmem ↦ htasks (List.mem_of_mem_tail hmem)
    · rw [StoresFirst, heq, htodo]
      decide
  | call => exact hkept (call_todo s _ _)
  | thread => exact hkept (aside_threadCall s _ _).todo
  | proceed => exact hkept (aside_threadProceed s _).todo

/-- A state some run of the connection leads to, with any calls of any threads. -/
def Reachable (s : TcpConnection) : Prop :=
  ∃ (mark : Nat) (wc hw : Bool) (ls : List Label), Run Step (established mark wc hw) ls s

/-- What every reachable state has: a connection that is up has not been reported down. -/
structure Sound (s : TcpConnection) : Prop where
  up : s.state_ = .kConnected → s.downs = 0
  told : Told s
  stores : StoresFirst s

theorem Reachable.sound (h : s.Reachable) : Sound s := by
  obtain ⟨mark, wc, hw, ls, hrun⟩ := h
  apply hrun.invariant Sound
  · intro s l t hs hstep
    refine ⟨fun ht ↦ ?_, hs.told.step hstep, storesFirst_of_step hs.stores hstep⟩
    obtain ⟨hup, hdowns⟩ := up_of_step hstep ht
    exact hdowns.trans (hs.up hup)
  · exact ⟨fun _ ↦ rfl, nofun, nofun⟩

end TcpConnection

end Pallette
