import Pallette.Net.Settled

/-!
# Stopping — a client that another thread stops

`stop` clears the flag of the client, then that of the connector, and queues `stopInLoop`.
`removeConnection` tests the first flag and `restart` then sets the second: where `stop` falls
between the two, the connector connects again, and `stopInLoop` finds the flag set and arms a retry
timer.  Without that nothing comes behind a `stop`, from its second store on.
-/

open Reasoning

namespace Pallette

open Connector

namespace Connector

/-- A connection is handed over, or a timer armed. -/
def Event.Revives : Event → Prop
  | .newConnection _ | .runAfter _ => True
  | .socket _ | .close _ => False

/-- The flag stays, and nothing is handed over or armed. -/
structure Stays (c c' : Connector) : Prop where
  connect : c'.connect_ = c.connect_
  trace : ∃ events, c'.trace = c.trace ++ events ∧ ∀ e ∈ events, ¬ e.Revives
  timers : c.timers = [] → c'.timers = []

variable {c c' c'' : Connector} {k : Kernel} {rest : Option Rest}

theorem Stays.of_same (hconnect : c'.connect_ = c.connect_) (htrace : c'.trace = c.trace)
    (htimers : c'.timers ⊆ c.timers) : Stays c c' := by
  refine ⟨hconnect, ⟨[], ?_, by simp⟩, fun hnil ↦ ?_⟩
  · rw [htrace, List.append_nil]
  · rw [hnil] at htimers
    exact List.subset_nil.mp htimers

theorem Stays.refl (c : Connector) : Stays c c :=
  of_same rfl rfl fun _ h ↦ h

theorem Stays.trans (h : Stays c c') (h' : Stays c' c'') : Stays c c'' := by
  rcases h.trace with ⟨events, htrace, hall⟩
  rcases h'.trace with ⟨events', htrace', hall'⟩
  refine ⟨h'.connect.trans h.connect, ⟨events ++ events', ?_, fun e he ↦ ?_⟩,
    fun hnil ↦ h'.timers (h.timers hnil)⟩
  · rw [htrace', htrace, List.append_assoc]
  · exact (List.mem_append.mp he).elim (hall e) (hall' e)

theorem stays_of_acts (hacts : Acts c c' rest) : Stays c c' := by
  cases hacts with
  | nothing => exact .refl _
  | connecting _ _ => exact ⟨rfl, ⟨[.socket c.nextSocket], rfl, by simp [Event.Revives]⟩, id⟩
  | refused _ _ =>
    exact ⟨rfl, ⟨[.socket c.nextSocket, .close c.nextSocket], rfl, by simp [Event.Revives]⟩, id⟩
  | @dropped sockfd _ _ _ _ _ => exact ⟨rfl, ⟨[.close sockfd], rfl, by simp [Event.Revives]⟩, id⟩
  | connected _ _ _ => exact ⟨rfl, ⟨[], (List.append_nil _).symm, by simp⟩, id⟩

theorem stays_cancelRetry (c : Connector) : Stays c c.cancelRetry := by
  refine .of_same ?_ ?_ (cancelRetry_timers c).1
  · unfold cancelRetry
    split <;> rfl
  · unfold cancelRetry
    split <;> rfl

theorem stays_startInLoop (h : c.startInLoop k = .ok (c', rest)) : Stays c c' := by
  have hready : Stays c { c with retryConnector_ := false } := .of_same rfl rfl fun _ h ↦ h
  exact hready.trans (stays_of_acts (startInLoop_acts h).2)

theorem stays_stopInLoop (h : c.stopInLoop = .ok (c', rest)) : Stays c c' :=
  (stays_cancelRetry c).trans (stays_of_acts (stopInLoop_acts h))

theorem stays_expire (c : Connector) (timer : Nat) : Stays c (c.expire timer) :=
  .of_same rfl rfl List.erase_subset

end Connector

namespace TcpClient

/-- The stores that set a flag in `connect`. -/
def CallStep.Connects : CallStep → Prop
  | .storeConnect | .storeStart => True
  | _ => False

def Frame.Connects : Frame → Prop
  | .call step => step.Connects
  | _ => False

/-- No call of `connect` is about to set a flag. -/
structure NoConnect (s : TcpClient) : Prop where
  todo : ∀ f ∈ s.todo, ¬ f.Connects
  threads : ∀ n, ∀ step ∈ s.threads n, ¬ step.Connects

def Label.IsConnect : Label → Prop
  | .call c | .thread _ c => c = .connect
  | _ => False

/-- `connect` is not called, and `restart` sets the flag of the connector only when it is set. -/
def Undisturbed (s : TcpClient) (l : Label) : Prop :=
  ¬ l.IsConnect ∧ ∀ k, l = .resume k → s.todo.head? = some .restart → s.connector_.connect_ = true

variable {s t : TcpClient}

theorem noConnect_rest (rest : Option Rest) : ∀ f ∈ rest.toList.map Frame.rest, ¬ f.Connects := by
  cases rest with
  | none => simp
  | some rest => simp [Frame.Connects]

theorem call_flags (s : TcpClient) {c : Call} (hc : c ≠ .connect) (h : s.connect_ = false) :
    (s.call c).1.connect_ = false ∧ (s.call c).1.connector_.connect_ = s.connector_.connect_ ∧
      ∀ step ∈ (s.call c).2, ¬ step.Connects := by
  cases c with
  | connect => exact absurd rfl hc
  | disconnect => exact ⟨rfl, rfl, by simp [TcpClient.call]⟩
  | enableRetry => exact ⟨h, rfl, by simp [TcpClient.call]⟩
  | stop => exact ⟨rfl, rfl, by simp [TcpClient.call, CallStep.Connects]⟩
  | forceClose conn =>
    simp only [TcpClient.call]
    split
    · exact ⟨h, rfl, by simp⟩
    · exact ⟨h, rfl, by simp⟩

theorem callStep_flags (s : TcpClient) {step : CallStep} (hstep : ¬ step.Connects) :
    (s.callStep step).connect_ = s.connect_ ∧
      ((s.callStep step).connector_.connect_ = s.connector_.connect_ ∨
        (s.callStep step).connector_.connect_ = false) := by
  cases step with
  | storeConnect | storeStart => exact absurd trivial hstep
  | runStartInLoop | queueStopInLoop => exact ⟨rfl, .inl rfl⟩
  | storeStop => exact ⟨rfl, .inr rfl⟩

/-- The flag of the client is off, and nothing is about to set it. -/
structure Quiet (s : TcpClient) : Prop where
  connect : s.connect_ = false
  none : s.NoConnect

theorem Quiet.of_todo (h : Quiet s) {todo : List Frame}
    (htodo : ∀ f ∈ todo, f ∈ s.todo ∨ ¬ f.Connects)
    (hconnect : t.connect_ = s.connect_) (hthreads : t.threads = s.threads) (ht : t.todo = todo) :
    Quiet t := by
  refine ⟨hconnect.trans h.connect, ⟨fun f hf ↦ ?_, ?_⟩⟩
  · rcases htodo f (ht ▸ hf) with hold | hnot
    · exact h.none.todo f hold
    · exact hnot
  · rw [hthreads]
    exact h.none.threads

theorem quiet_of_step {l : Label} (h : Quiet s) (hl : ¬ l.IsConnect) (hstep : Step s l t) :
    Quiet t := by
  have hrest (frames : List Frame) {frame : Frame} {todo : List Frame}
      (htodo : s.todo = frame :: todo) (hframes : ∀ f ∈ frames, ¬ f.Connects) :
      ∀ f ∈ frames ++ todo, f ∈ s.todo ∨ ¬ f.Connects := by
    intro f hf
    rcases List.mem_append.mp hf with hf | hf
    · exact .inr (hframes f hf)
    · exact .inl (by simp [htodo, hf])
  cases step_cases hstep with
  | poll _ _ _ _ _ | swap _ _ _ | resetFunctor _ _ _ _ | idleFunctor _ _ _ _ =>
    exact h.of_todo (fun f hf ↦ .inl hf) rfl rfl rfl
  | connectorEvent _ _ _ =>
    refine h.of_todo (fun f hf ↦ .inr ?_) rfl rfl rfl
    rcases mem_eventFrames hf with rfl | rfl
    · exact id
    · exact id
  | connectionEvent _ _ _ | lost _ _ _ _ | forceCloseFunctor _ _ _ _ =>
    exact h.of_todo (fun f hf ↦ .inr (by revert f; simp [Frame.Connects])) rfl rfl rfl
  | startFunctor _ _ _ _ | stopFunctor _ _ _ _ | timer _ _ _ _ =>
    exact h.of_todo (fun f hf ↦ .inr (noConnect_rest _ f hf)) rfl rfl rfl
  | @callStep todo _ step htodo _ =>
    have hstep := h.none.todo (.call step) (by rw [htodo]; exact List.mem_cons_self)
    have hmarks := marks_callStep { s with todo := todo } step
    exact h.of_todo (fun f hf ↦ .inl (by simp [htodo, hf])) (callStep_flags _ hstep).1
      hmarks.threads
      hmarks.todo
  | startInLoop htodo _ _ | handleError htodo _ | handleWrite htodo _ =>
    exact h.of_todo (hrest _ htodo (noConnect_rest _)) rfl rfl rfl
  | retry htodo | closed htodo _ | callback htodo =>
    exact h.of_todo (fun f hf ↦ .inl (by simp [htodo, hf])) rfl rfl rfl
  | newConnection htodo _ =>
    exact h.of_todo (hrest [.callback] htodo (by simp [Frame.Connects])) rfl rfl rfl
  | removeConnection htodo _ =>
    exact h.of_todo (hrest [.testRetry] htodo (by simp [Frame.Connects])) rfl rfl rfl
  | testRetry htodo | testConnect htodo =>
    refine h.of_todo (hrest _ htodo ?_) rfl rfl rfl
    split <;> simp [Frame.Connects]
  | restart htodo =>
    exact h.of_todo (hrest [.startInLoop] htodo (by simp [Frame.Connects])) rfl rfl rfl
  | @call c _ =>
    rcases call_flags s (c := c) (fun heq ↦ hl heq) h.connect with ⟨hconnect, _, hsteps⟩
    have hmarks := marks_call s c
    refine ⟨hconnect, fun f hf ↦ ?_, fun n ↦ ?_⟩
    · rcases List.mem_append.mp hf with hf | hf
      · rcases List.mem_map.mp hf with ⟨step, hstep, rfl⟩
        exact hsteps step hstep
      · exact h.none.todo f (hmarks.todo ▸ hf)
    · change ∀ step ∈ (s.call c).1.threads n, _
      rw [hmarks.threads]
      exact h.none.threads n
  | @thread n c _ =>
    rcases call_flags s (c := c) (fun heq ↦ hl heq) h.connect with ⟨hconnect, _, hsteps⟩
    have hmarks := marks_call s c
    refine ⟨hconnect, fun f hf ↦ h.none.todo f (hmarks.todo ▸ hf), fun m ↦ ?_⟩
    simp only [setThread]
    split
    · exact hsteps
    · rw [hmarks.threads]
      exact h.none.threads m
  | @proceed n step steps hthread =>
    have hold := h.none.threads n
    rw [hthread] at hold
    have hmarks := marks_callStep s step
    have hflags := callStep_flags s (hold step List.mem_cons_self)
    refine ⟨hflags.1.trans h.connect, fun f hf ↦ h.none.todo f (hmarks.todo ▸ hf), fun m ↦ ?_⟩
    simp only [setThread]
    split
    · exact fun step hstep ↦ hold step (List.mem_cons_of_mem _ hstep)
    · rw [hmarks.threads]
      exact h.none.threads m

/-- What stands at the head of `todo` or of a thread sets no flag. -/
theorem stays_callStep (s : TcpClient) {step : CallStep} (hstep : ¬ step.Connects)
    (hoff : s.connector_.connect_ = false) : Stays s.connector_ (s.callStep step).connector_ := by
  rcases (marks_callStep s step).connector with ⟨connect, functors, _, hconnector⟩
  refine .of_same ?_ ?_ ?_
  · rcases (callStep_flags s hstep).2 with heq | heq
    · exact heq
    · rw [heq, hoff]
  · rw [hconnector]
  · rw [hconnector]
    exact fun _ h ↦ h

theorem stays_call (s : TcpClient) {c : Call} (hc : c ≠ .connect) (hoff : s.connect_ = false) :
    Stays s.connector_ (s.call c).1.connector_ := by
  rcases (marks_call s c).connector with ⟨connect, functors, _, hconnector⟩
  refine .of_same (call_flags s hc hoff).2.1 ?_ ?_
  · rw [hconnector]
  · rw [hconnector]
    exact fun _ h ↦ h

/-- **One step** with both flags off. -/
theorem stays_of_step {l : Label} (h : Quiet s) (hoff : s.connector_.connect_ = false)
    (hl : s.Undisturbed l) (hstep : Step s l t) : Stays s.connector_ t.connector_ := by
  cases step_cases hstep with
  | poll _ _ _ _ _ | connectorEvent _ _ _ | connectionEvent _ _ _ | lost _ _ _ _ => exact .refl _
  | forceCloseFunctor _ _ _ _ | idleFunctor _ _ _ _ | callback _ => exact .refl _
  | testRetry _ | testConnect _ => exact .refl _
  | swap _ _ _ | removeConnection _ _ => exact .of_same rfl rfl fun _ h ↦ h
  | startFunctor _ _ _ hc | startInLoop _ _ hc => exact stays_startInLoop hc
  | timer _ _ _ hc => exact (stays_expire _ _).trans (stays_startInLoop hc)
  | stopFunctor _ _ _ hc => exact stays_stopInLoop hc
  | handleError _ hc => exact stays_of_acts (handleError_acts hc)
  | handleWrite _ hc => exact stays_of_acts (handleWrite_acts hc)
  | resetFunctor _ _ _ hc =>
    cases resetChannel_eq hc
    exact .of_same rfl rfl fun _ h ↦ h
  | @callStep todo _ step htodo _ =>
    have hnot := h.none.todo (.call step) (by rw [htodo]; exact List.mem_cons_self)
    exact stays_callStep { s with todo := todo } hnot hoff
  | retry _ =>
    rw [retryIfConnect, if_neg (by simp [hoff])]
    exact .refl _
  | newConnection _ hconnect =>
    -- `handleWrite` hands a socket over only with `connect_` on
    rw [hoff] at hconnect
    cases hconnect
  | @closed _ _ sockfd _ _ => exact ⟨rfl, ⟨[.close sockfd], rfl, by simp [Event.Revives]⟩, id⟩
  | restart htodo =>
    -- `restart` would set the flag, and only a step that is undisturbed is looked at
    have hset := hl.2 _ rfl (by rw [htodo]; rfl)
    rw [hoff] at hset
    cases hset
  | call _ | thread _ => exact stays_call s (fun heq ↦ hl.1 heq) h.connect
  | @proceed n step _ hthread =>
    have hold := h.none.threads n
    rw [hthread] at hold
    exact stays_callStep s (hold step List.mem_cons_self) hoff

/-- Another thread's calls go on where it stands. -/
theorem thread_of_step {l : Label} {n : Nat} (hbusy : s.threads n ≠ []) (hl : l ≠ .proceed n)
    (hstep : Step s l t) : t.threads n = s.threads n := by
  cases step_cases hstep with
  | @callStep todo _ step _ _ => rw [(marks_callStep { s with todo := todo } step).threads]
  | @call c _ =>
    change (s.call c).1.threads n = _
    rw [(marks_call s c).threads]
  | @thread m c hidle =>
    have hne : n ≠ m := by
      rintro rfl
      exact hbusy hidle
    simp only [setThread]
    rw [if_neg hne, (marks_call s c).threads]
  | @proceed m step _ _ =>
    have hne : n ≠ m := by
      rintro rfl
      exact hl rfl
    simp only [setThread]
    rw [if_neg hne, (marks_callStep s step).threads]
  | _ => rfl

/-! ## Timers that are on already -/

/-- `start` runs `startInLoop` only when no retry timer is on. -/
def StartsUntimed (s : TcpClient) (l : Label) : Prop :=
  (∀ k, l = .functor k → s.functors.head? = some .startInLoop → s.connector_.timers = []) ∧
    ∀ k, l = .resume k → s.todo.head? = some (.call .runStartInLoop) → s.connector_.timers = []

/-- The one timer that is on is the one `stopInLoop` cancels. -/
structure Tracked (s : TcpClient) : Prop where
  attempts : Attempts s
  timers : s.connector_.timers = [] ∨ (s.connector_.state_ = .kDisconnected ∧
    s.connector_.retryConnector_ = true ∧ s.connector_.timers =
      [s.connector_.retryConnectorTimerId_])
  retry : .rest .retry ∈ s.todo → s.connector_.state_ = .kDisconnected ∧ s.connector_.timers = []
  start : .startInLoop ∈ s.todo → s.connector_.timers = []

theorem tracked_init : Tracked {} where
  attempts := attempts_init
  timers := .inl rfl
  retry h := by cases h
  start h := by cases h

theorem not_mem_over {frame : Frame} {todo : List Frame} (h : Stack.Over frame todo) :
    .rest .retry ∉ todo ∧ .startInLoop ∉ todo := by
  cases h with
  | call hcalls hbelow =>
    cases hcalls with
    | retry => cases hbelow <;> simp
    | steps step => cases hbelow <;> simp
  | closing conn | nothing => simp
  | event _ => simp

theorem tracked_nil (ha : Attempts t) (htimers : t.connector_.timers = [])
    (hretry : .rest .retry ∈ t.todo → t.connector_.state_ = .kDisconnected) : Tracked t :=
  ⟨ha, .inl htimers, fun hmem ↦ ⟨hretry hmem, htimers⟩, fun _ ↦ htimers⟩

/-- State and timers are as they were, and there is no new `retry` or `startInLoop` to be run. -/
theorem Tracked.same (h : Tracked s) (ha : Attempts t)
    (hc : t.connector_.state_ = s.connector_.state_ ∧ t.connector_.timers = s.connector_.timers ∧
      t.connector_.retryConnector_ = s.connector_.retryConnector_ ∧
      t.connector_.retryConnectorTimerId_ = s.connector_.retryConnectorTimerId_)
    (htodo : ∀ f ∈ t.todo, f ∈ s.todo ∨ (f ≠ .rest .retry ∧ f ≠ .startInLoop)) : Tracked t := by
  rcases hc with ⟨hstate, htimers, hset, hid⟩
  refine ⟨ha, ?_, fun hmem ↦ ?_, fun hmem ↦ ?_⟩
  · rw [htimers, hstate, hset, hid]
    exact h.timers
  · rw [hstate, htimers]
    exact h.retry ((htodo _ hmem).resolve_right fun hne ↦ hne.1 rfl)
  · rw [htimers]
    exact h.start ((htodo _ hmem).resolve_right fun hne ↦ hne.2 rfl)

theorem Tracked.marks (h : Tracked s) (hmarks : Marks s t) {u : TcpClient} (ha : Attempts u)
    (hc : u.connector_ = t.connector_)
    (htodo : ∀ f ∈ u.todo, f ∈ s.todo ∨ (f ≠ .rest .retry ∧ f ≠ .startInLoop)) : Tracked u := by
  rcases hmarks.connector with ⟨connect, functors, _, hconnector⟩
  refine h.same ha ?_ htodo
  rw [hc, hconnector]
  exact ⟨rfl, rfl, rfl, rfl⟩

theorem Tracked.timers_nil (h : Tracked s) (hstate : s.connector_.state_ ≠ .kDisconnected) :
    s.connector_.timers = [] :=
  h.timers.resolve_right fun hon ↦ hstate hon.1

/-- `stopInLoop` finds the timer. -/
theorem Tracked.cancelRetry (h : Tracked s) : s.connector_.cancelRetry.timers = [] := by
  rcases h.timers with hnil | ⟨_, hset, hone⟩
  · have hsubset := (cancelRetry_timers s.connector_).1
    rw [hnil] at hsubset
    exact List.subset_nil.mp hsubset
  · rw [Connector.cancelRetry, if_pos hset]
    simp [cancel, hone]

theorem Tracked.expire (h : Tracked s) {timer : Nat} (htimer : timer ∈ s.connector_.timers) :
    (s.connector_.expire timer).timers = [] := by
  rcases h.timers with hnil | ⟨_, _, hone⟩
  · rw [hnil] at htimer
    cases htimer
  · rw [hone] at htimer
    cases List.mem_singleton.mp htimer
    simp [Connector.expire, hone]

theorem rest_of_mem {rest : Option Rest} {r : Rest} {todo : List Frame}
    (hmem : .rest r ∈ rest.toList.map Frame.rest ++ todo) (hr : .rest r ∉ todo) :
    rest = some r := by
  rcases List.mem_append.mp hmem with hmem | hmem
  · cases rest with
    | none => cases hmem
    | some rest =>
      cases List.mem_singleton.mp hmem
      rfl
  · exact absurd hmem hr

theorem tracked_begins {c c' : Connector} {k : Kernel} {rest : Option Rest} {todo : List Frame}
    (hc : c.startInLoop k = .ok (c', rest)) (htimers : c.timers = []) (ha : Attempts t)
    (ht : t.connector_ = c') (htodo : t.todo = rest.toList.map .rest ++ todo)
    (hretry : .rest .retry ∉ todo) : Tracked t := by
  refine tracked_nil ha (ht ▸ (startInLoop_begins hc htimers).1) fun hmem ↦ ?_
  have hrest : rest = some .retry := rest_of_mem (htodo ▸ hmem) hretry
  rw [ht]
  exact (retry_of_begins hc htimers hrest).1

theorem tracked_ends {c c' : Connector} {rest : Option Rest} {todo : List Frame}
    (hends : Ends c c' rest) (htimers : c.timers = []) (ha : Attempts t) (ht : t.connector_ = c')
    (htodo : t.todo = rest.toList.map .rest ++ todo) (hretry : .rest .retry ∉ todo) :
    Tracked t := by
  have hnil : c'.timers = [] := by
    cases hends with
    | nothing => exact htimers
    | ended _ _ hsame _ => exact hsame.trans htimers
  refine tracked_nil ha (ht ▸ hnil) fun hmem ↦ ?_
  have hrest : rest = some .retry := rest_of_mem (htodo ▸ hmem) hretry
  rw [ht]
  exact (retry_of_ends hends (timers_nil htimers) hrest).1

theorem Tracked.ends (h : Tracked s) {c : Connector} {rest : Option Rest} {todo : List Frame}
    (hends : Ends s.connector_ c rest) (ha : Attempts t) (ht : t.connector_ = c)
    (htodo : t.todo = rest.toList.map .rest ++ todo)
    (hbelow : .rest .retry ∉ todo ∧ .startInLoop ∉ todo)
    (hsub : ∀ f ∈ todo, f ∈ s.todo ∨ (f ≠ .rest .retry ∧ f ≠ .startInLoop)) : Tracked t := by
  by_cases hstate : s.connector_.state_ = .kDisconnected
  · cases hends with
    | nothing =>
      rw [Option.toList_none, List.map_nil, List.nil_append] at htodo
      exact h.same ha (by rw [ht]; exact ⟨rfl, rfl, rfl, rfl⟩) (htodo ▸ hsub)
    | ended hconnecting _ _ _ =>
      rw [hstate] at hconnecting
      cases hconnecting
  · exact tracked_ends hends (h.timers_nil hstate) ha ht htodo hbelow.1

theorem tracked_of_step {l : Label} (h : Tracked s) (hl : s.StartsUntimed l) (hstep : Step s l t) :
    Tracked t := by
  have ha := attempts_of_step h.attempts hstep
  have hbelow {frame : Frame} {todo : List Frame} (htodo : s.todo = frame :: todo) :
      .rest .retry ∉ todo ∧ .startInLoop ∉ todo :=
    not_mem_over (htodo ▸ h.attempts.stack).over
  have hsub {frame : Frame} {todo : List Frame} (htodo : s.todo = frame :: todo) :
      ∀ f ∈ todo, f ∈ s.todo ∨ (f ≠ .rest .retry ∧ f ≠ .startInLoop) :=
    fun f hf ↦ .inl (by simp [htodo, hf])
  cases step_cases hstep with
  | poll _ _ _ _ _ | swap _ _ _ | idleFunctor _ _ _ _ =>
    exact h.same ha ⟨rfl, rfl, rfl, rfl⟩ fun f hf ↦ .inl hf
  | connectorEvent _ _ _ =>
    refine h.same ha ⟨rfl, rfl, rfl, rfl⟩ fun f hf ↦ .inr ?_
    rcases mem_eventFrames hf with rfl | rfl <;> simp
  | connectionEvent _ _ _ | lost _ _ _ _ | forceCloseFunctor _ _ _ _ =>
    exact h.same ha ⟨rfl, rfl, rfl, rfl⟩ fun f hf ↦ .inr (by revert f; simp)
  | resetFunctor _ _ _ hc =>
    cases resetChannel_eq hc
    exact h.same ha ⟨rfl, rfl, rfl, rfl⟩ fun f hf ↦ .inl hf
  | startFunctor _ _ hfunctors hc =>
    exact tracked_begins hc (hl.1 _ rfl (by rw [hfunctors]; rfl)) ha rfl (List.append_nil _).symm
      (by simp)
  | stopFunctor _ _ _ hc =>
    exact tracked_ends (stopInLoop_ends hc) h.cancelRetry ha rfl (List.append_nil _).symm (by simp)
  | timer _ _ htimer hc =>
      exact tracked_begins hc (h.expire htimer) ha rfl (List.append_nil _).symm (by simp)
  | @callStep todo _ step htodo _ =>
    have hmarks := marks_callStep { s with todo := todo } step
    have hs : Tracked { s with todo := todo } :=
      h.same (h.attempts.todo (htodo ▸ h.attempts.stack).over.done
        fun f hf ↦ .inl (by simp [htodo, hf]))
        ⟨rfl, rfl, rfl, rfl⟩ (hsub htodo)
    exact hs.marks hmarks ha rfl fun f hf ↦ .inl (hmarks.todo ▸ hf)
  | @startInLoop _ _ frame _ _ htodo hframe hc =>
    have htimers : s.connector_.timers = [] := by
      rcases hframe with rfl | rfl
      · exact hl.2 _ rfl (by rw [htodo]; rfl)
      · exact h.start (by rw [htodo]; exact List.mem_cons_self)
    exact tracked_begins hc htimers ha rfl rfl (hbelow htodo).1
  | retry htodo =>
    have hretry := h.retry (by rw [htodo]; exact List.mem_cons_self)
    refine ⟨ha, ?_, fun hmem ↦ absurd hmem (hbelow htodo).1,
      fun hmem ↦ absurd hmem (hbelow htodo).2⟩
    -- one timer is armed, or none
    unfold retryIfConnect
    split
    · exact .inr ⟨hretry.1, rfl, by simp [runAfter, hretry.2]⟩
    · exact .inl hretry.2
  | newConnection htodo _ =>
    refine h.same ha ⟨rfl, rfl, rfl, rfl⟩ fun f hf ↦ ?_
    rcases List.mem_cons.mp hf with rfl | hf
    · exact .inr (by simp)
    · exact hsub htodo f hf
  | closed htodo _ | callback htodo => exact h.same ha ⟨rfl, rfl, rfl, rfl⟩ (hsub htodo)
  | handleError htodo hc =>
      exact h.ends (handleError_ends hc) ha rfl rfl (hbelow htodo) (hsub htodo)
  | handleWrite htodo hc =>
      exact h.ends (handleWrite_ends hc) ha rfl rfl (hbelow htodo) (hsub htodo)
  | removeConnection htodo _ =>
    refine h.same ha ⟨rfl, rfl, rfl, rfl⟩ fun f hf ↦ ?_
    rcases List.mem_cons.mp hf with rfl | hf
    · exact .inr (by simp)
    · exact hsub htodo f hf
  | testRetry htodo | testConnect htodo =>
    refine h.same ha ⟨rfl, rfl, rfl, rfl⟩ fun f hf ↦ ?_
    rcases List.mem_append.mp hf with hf | hf
    · refine .inr ?_
      split at hf
      · rw [List.mem_singleton.mp hf]
        simp
      · cases hf
    · exact hsub htodo f hf
  | restart htodo =>
    have hconnected := (h.attempts.head htodo trivial).1
    exact tracked_nil ha (h.timers_nil (by simp [hconnected])) fun _ ↦ rfl
  | @call c _ =>
    have hmarks := marks_call s c
    refine h.marks hmarks ha rfl fun f hf ↦ ?_
    rcases List.mem_append.mp hf with hf | hf
    · rcases List.mem_map.mp hf with ⟨step, _, rfl⟩
      exact .inr (by simp)
    · exact .inl (hmarks.todo ▸ hf)
  | @thread n c _ =>
    have hmarks := marks_call s c
    exact h.marks hmarks ha rfl fun f hf ↦ .inl (hmarks.todo ▸ hf)
  | @proceed n step _ _ =>
    have hmarks := marks_callStep s step
    exact h.marks hmarks ha rfl fun f hf ↦ .inl (hmarks.todo ▸ hf)

/-! ## Behind a `stop` -/

/-- Both flags are off and stay off. -/
theorem stays_of_run {ls : List Label} (h : Quiet s) (hoff : s.connector_.connect_ = false)
    (hrun : Run (Guarded Step Undisturbed) s ls t) :
    Quiet t ∧ t.connector_.connect_ = false ∧ Stays s.connector_ t.connector_ := by
  have hinv : Quiet t ∧ Stays s.connector_ t.connector_ := by
    refine hrun.invariant (fun t ↦ Quiet t ∧ Stays s.connector_ t.connector_) ?_ ⟨h, .refl _⟩
    rintro t l u ⟨hquiet, hstays⟩ ⟨hstep, hl⟩
    have hflag := hstays.connect.trans hoff
    exact ⟨quiet_of_step hquiet hl.1 hstep, hstays.trans (stays_of_step hquiet hflag hl hstep)⟩
  exact ⟨hinv.1, hinv.2.connect.trans hoff, hinv.2⟩

/-- While `stop` is under way: its thread is about to clear the flag of the connector, or that is
off. -/
theorem stopping_of_run {n : Nat} {ls : List Label} (h : Quiet s)
    (hthread : s.threads n = [.storeStop, .queueStopInLoop])
    (hrun : Run (Guarded Step Undisturbed) s ls t) :
    Quiet t ∧ (t.threads n = [.storeStop, .queueStopInLoop] ∨ t.connector_.connect_ = false) := by
  refine hrun.invariant
    (fun t ↦ Quiet t ∧ (t.threads n = [.storeStop, .queueStopInLoop] ∨
    t.connector_.connect_ = false)) ?_
    ⟨h, .inl hthread⟩
  rintro t l u ⟨hquiet, hflag⟩ ⟨hstep, hl⟩
  refine ⟨quiet_of_step hquiet hl.1 hstep, ?_⟩
  rcases hflag with hthread | hoff
  · by_cases hproceed : l = .proceed n
    · subst hproceed
      cases step_cases hstep with
      | proceed hsteps =>
        rw [hthread] at hsteps
        cases hsteps
        exact .inr rfl
    · have hsame := thread_of_step (by simp [hthread]) hproceed hstep
      exact .inl (hsame.trans hthread)
  · exact .inr ((stays_of_step hquiet hoff hl hstep).connect.trans hoff)

/-- **Nothing comes behind a `stop`.**  A thread calls `stop` while no `connect` is under way and
none is called any more, and no `restart` sets the flag of the connector that `stop` has cleared.
Then, from the `stopInLoop` that it has queued on (`s₃` to `s₄`), no connection is handed over and
no retry timer armed; and none is on any more, if before that `start` did not connect while one was
on. -/
theorem stopped_for_good {n : Nat} {k : Kernel} {s₀ s₁ s₂ s₃ s₄ s₅ : TcpClient}
    {during middle after : List Label}
    (hnone : s₀.NoConnect) (hstop : Step s₀ (.thread n .stop) s₁)
    (hduring : Run (Guarded Step Undisturbed) s₁ during s₂)
    (hpush : s₂.threads n = [.queueStopInLoop])
    (hmiddle : Run (Guarded Step Undisturbed) s₂ middle s₃)
    (hhead : s₃.functors.head? = some .stopInLoop) (hexec : Step s₃ (.functor k) s₄)
    (hafter : Run (Guarded Step Undisturbed) s₄ after s₅) :
    (∃ events, s₅.connector_.trace = s₄.connector_.trace ++ events ∧ ∀ e ∈ events, ¬ e.Revives) ∧
      (∀ before, Run (Guarded Step StartsUntimed) {} before s₃ → s₅.connector_.timers = []) := by
  have hquiet : Quiet s₁ ∧ s₁.threads n = [.storeStop, .queueStopInLoop] := by
    cases step_cases hstop with
    | thread hidle =>
      refine ⟨⟨rfl, ⟨hnone.todo, fun m ↦ ?_⟩⟩, if_pos rfl⟩
      simp only [TcpClient.call, setThread]
      split
      · simp [CallStep.Connects]
      · exact hnone.threads m
  -- up to where the thread stands at its push, the flag has been stored
  rcases stopping_of_run hquiet.1 hquiet.2 hduring with ⟨hquiet₂, hflag⟩
  have hoff₂ : s₂.connector_.connect_ = false := by
    refine hflag.resolve_left fun hthread ↦ ?_
    rw [hpush] at hthread
    cases hthread
  -- from the store on nobody sets a flag, so nothing is revived in any later part
  rcases stays_of_run hquiet₂ hoff₂ hmiddle with ⟨hquiet₃, hoff₃, _⟩
  have hundisturbed : s₃.Undisturbed (.functor k) := ⟨id, fun _ h ↦ by cases h⟩
  have hstays₄ := stays_of_step hquiet₃ hoff₃ hundisturbed hexec
  have hquiet₄ := quiet_of_step hquiet₃ id hexec
  rcases stays_of_run hquiet₄ (hstays₄.connect.trans hoff₃) hafter with ⟨_, _, hstays⟩
  refine ⟨hstays.trace, fun before hbefore ↦ hstays.timers ?_⟩
  -- a run that starts only without a timer keeps track of the one that is armed
  have htracked : Tracked s₃ := by
    refine hbefore.invariant Tracked ?_ tracked_init
    rintro s l t hs ⟨hstep, hl⟩
    exact tracked_of_step hs hl hstep
  -- of the functors only `stopInLoop` fits the head of the queue
  cases step_cases hexec with
  | stopFunctor _ _ _ hc =>
    cases stopInLoop_ends hc with
    | nothing => exact htracked.cancelRetry
    | ended _ _ hsame _ => exact hsame.trans htracked.cancelRetry
  | startFunctor _ _ hfunctors _ | resetFunctor _ _ hfunctors _
      | forceCloseFunctor _ _ hfunctors _ =>
    rw [hfunctors] at hhead
    cases hhead
  | idleFunctor _ _ hfunctors hidle =>
    rw [hfunctors] at hhead
    cases hhead
    rcases hidle with ⟨_, _, heq⟩ | ⟨_, heq⟩ <;> cases heq

/-- `stop` while an attempt is on. -/
theorem stopped_for_good_connecting :
    ∃ s₀ s₁ s₂ s₃ s₄ s₅ : TcpClient,
      (Run Step {} [.call .connect, .resume {}, .resume {},
      .resume { savedErrno := .EINPROGRESS }] s₀ ∧
        s₀.NoConnect ∧ Step s₀ (.thread 0 .stop) s₁ ∧
        Run (Guarded Step Undisturbed) s₁ [.proceed 0] s₂ ∧
        s₂.threads 0 = [.queueStopInLoop] ∧
        Run (Guarded Step Undisturbed) s₂ [.proceed 0, .poll [], .swap] s₃ ∧
        s₃.functors.head? = some .stopInLoop ∧ Step s₃ (.functor {}) s₄ ∧
        Run (Guarded Step Undisturbed) s₄ [.resume {}] s₅ ∧ s₃.connector_.state_ = .kConnecting ∧
        Run (Guarded Step StartsUntimed) {}
          [.call .connect, .resume {}, .resume {}, .resume { savedErrno := .EINPROGRESS },
          .thread 0 .stop, .proceed 0, .proceed 0, .poll [], .swap] s₃) ∧
      (∃ events, s₅.connector_.trace = s₄.connector_.trace ++ events ∧ ∀ e ∈ events, ¬ e.Revives) ∧
        s₅.connector_.timers = [] := by
  have hrun : ∃ s₀ s₁ s₂ s₃ s₄ s₅ : TcpClient,
      Run Step {} [.call .connect, .resume {}, .resume {},
      .resume { savedErrno := .EINPROGRESS }] s₀ ∧
        s₀.NoConnect ∧ Step s₀ (.thread 0 .stop) s₁ ∧
        Run (Guarded Step Undisturbed) s₁ [.proceed 0] s₂ ∧
        s₂.threads 0 = [.queueStopInLoop] ∧
        Run (Guarded Step Undisturbed) s₂ [.proceed 0, .poll [], .swap] s₃ ∧
        s₃.functors.head? = some .stopInLoop ∧ Step s₃ (.functor {}) s₄ ∧
        Run (Guarded Step Undisturbed) s₄ [.resume {}] s₅ ∧ s₃.connector_.state_ = .kConnecting ∧
        Run (Guarded Step StartsUntimed) {}
          [.call .connect, .resume {}, .resume {}, .resume { savedErrno := .EINPROGRESS },
          .thread 0 .stop,
            .proceed 0, .proceed 0, .poll [], .swap] s₃ :=
    ⟨_, _, _, _, _, _, .cons rfl <| .cons rfl <| .cons rfl <| .cons rfl <| .nil _,
      ⟨fun _ hf ↦ (by cases hf), fun _ _ hs ↦ (by cases hs)⟩, rfl,
      .cons ⟨rfl, id, fun _ h ↦ (by cases h)⟩ <| .nil _, rfl,
      .cons ⟨rfl, id, fun _ h ↦ (by cases h)⟩ <| .cons ⟨rfl, id, fun _ h ↦ (by cases h)⟩ <|
      .cons ⟨rfl, id, fun _ h ↦ (by cases h)⟩ <| .nil _,
      rfl, rfl, .cons ⟨rfl, id, fun _ _ h ↦ (by cases h)⟩ <| .nil _, rfl,
      .cons ⟨rfl, fun _ _ _ ↦ rfl, fun _ _ _ ↦ rfl⟩ <|
      .cons ⟨rfl, fun _ _ _ ↦ rfl, fun _ _ _ ↦ rfl⟩ <|
      .cons ⟨rfl, fun _ _ _ ↦ rfl, fun _ _ _ ↦ rfl⟩ <|
      .cons ⟨rfl, fun _ _ _ ↦ rfl, fun _ _ _ ↦ rfl⟩ <|
      .cons ⟨rfl, fun _ _ _ ↦ rfl, fun _ _ _ ↦ rfl⟩ <|
      .cons ⟨rfl, fun _ _ _ ↦ rfl, fun _ _ _ ↦ rfl⟩ <|
      .cons ⟨rfl, fun _ _ _ ↦ rfl, fun _ _ _ ↦ rfl⟩ <|
      .cons ⟨rfl, fun _ _ _ ↦ rfl, fun _ _ _ ↦ rfl⟩ <|
      .cons ⟨rfl, fun _ _ _ ↦ rfl, fun _ _ _ ↦ rfl⟩ <| .nil _⟩
  rcases hrun with ⟨s₀, s₁, s₂, s₃, s₄, s₅, hbefore, hnone, hstop, hduring, hpush, hmiddle,
    hhead, hexec, hafter, hconnecting, htracked⟩
  have hstopped := stopped_for_good hnone hstop hduring hpush hmiddle hhead hexec hafter
  exact ⟨s₀, s₁, s₂, s₃, s₄, s₅,
    ⟨hbefore, hnone, hstop, hduring, hpush, hmiddle, hhead, hexec, hafter, hconnecting, htracked⟩,
    hstopped.1, hstopped.2 _ htracked⟩

/-- `stop` falls between the two looks of `removeConnection` and the store of `restart`: behind its
`stopInLoop` a timer is armed, and a new connection handed over. -/
theorem stop_forgotten :
    ¬ ∀ (n : Nat) (k : Kernel) (before during middle after : List Label)
      (s₀ s₁ s₂ s₃ s₄ s₅ : TcpClient),
        Run Step {} before s₀ → s₀.NoConnect → Step s₀ (.thread n .stop) s₁ →
        Run (Guarded Step fun _ l ↦ ¬ l.IsConnect) s₁ during s₂ →
        s₂.threads n = [.queueStopInLoop] →
        Run (Guarded Step fun _ l ↦ ¬ l.IsConnect) s₂ middle s₃ →
        s₃.functors.head? = some .stopInLoop → Step s₃ (.functor k) s₄ →
        Run (Guarded Step fun _ l ↦ ¬ l.IsConnect) s₄ after s₅ →
        ∃ events, s₅.connector_.trace = s₄.connector_.trace ++ events ∧
          ∀ e ∈ events, ¬ e.Revives := by
  intro h
  have hbefore := show Run Step {}
        [.call .enableRetry, .call .connect, .resume {}, .resume {},
        .resume { savedErrno := .EINPROGRESS },
          .poll [.connector], .event false true false, .resume {}, .resume {}, .resume {}, .swap,
          .functor {}, .poll [.connection 1], .event false false true, .resume {}, .resume {},
          .resume {}, .resume {}] _ from
    .cons rfl <| .cons rfl <| .cons rfl <| .cons rfl <| .cons rfl <| .cons rfl <| .cons rfl <|
    .cons rfl <| .cons rfl <| .cons rfl <| .cons rfl <| .cons rfl <| .cons rfl <| .cons rfl <|
    .cons rfl <| .cons rfl <| .cons rfl <| .cons rfl <| .nil _
  -- the store of `restart` is between the two of `stop` and its push
  rcases h 0 {} _ [.proceed 0]
      [.resume {}, .proceed 0, .resume { savedErrno := .EINPROGRESS }, .swap, .functor {}]
      [.resume {}, .poll [], .swap, .functor {}, .poll [],
      .timer 1 { savedErrno := .EINPROGRESS }, .swap,
        .poll [.connector], .event false true false, .resume {}, .resume {}]
      _ _ _ _ _ _ hbefore
      ⟨fun f hf ↦ (by cases List.mem_singleton.mp hf; exact id), fun _ _ hs ↦ (by cases hs)⟩ rfl
      (.cons ⟨rfl, id⟩ <| .nil _) rfl
      (.cons ⟨rfl, id⟩ <| .cons ⟨rfl, id⟩ <| .cons ⟨rfl, id⟩ <| .cons ⟨rfl, id⟩ <|
      .cons ⟨rfl, id⟩ <|
        .nil _)
      rfl rfl
      (.cons ⟨rfl, id⟩ <| .cons ⟨rfl, id⟩ <| .cons ⟨rfl, id⟩ <| .cons ⟨rfl, id⟩ <|
      .cons ⟨rfl, id⟩ <|
        .cons ⟨rfl, id⟩ <| .cons ⟨rfl, id⟩ <| .cons ⟨rfl, id⟩ <| .cons ⟨rfl, id⟩ <|
        .cons ⟨rfl, id⟩ <|
        .cons ⟨rfl, id⟩ <| .nil _) with ⟨events, heq, hall⟩
  cases heq
  exact hall (.newConnection 2) (by decide) trivial

end TcpClient

end Pallette
