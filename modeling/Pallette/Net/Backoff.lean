import Pallette.Net.Attempts

/-!
# Backoff — how long the connector waits between two attempts

`retry` doubles the delay, up to half a minute, and nothing but `restart` sets it back.  That is
called behind a connection that has been lost: in every run, whoever calls what, the delays start
anew behind each connection and nowhere else.
-/

open Reasoning

namespace Pallette

open Connector

namespace Connector

/-- The delay behind `k` others. -/
def delay (k : Nat) : Nat :=
  min (kInitRetryDelayMs * 2 ^ k) kMaxRetryDelayMs

theorem delay_succ (k : Nat) : min (delay k * 2) kMaxRetryDelayMs = delay (k + 1) := by
  unfold delay
  rw [pow_succ, ← Nat.mul_assoc]
  omega

/-- How many retries there have been since there was a connection. -/
def retries (trace : List Event) : Nat :=
  trace.foldl (fun n e ↦
    match e with
    | .newConnection _ => 0
    | .runAfter _ => n + 1
    | .socket _ | .close _ => n) 0

/-- Every retry comes behind the delay it should. -/
def OnSchedule (trace : List Event) : Prop :=
  ∀ before delayMs after, trace = before ++ .runAfter delayMs :: after →
    delayMs = delay (retries before)

theorem retries_snoc (trace : List Event) (e : Event) :
    retries (trace ++ [e]) =
      match e with
      | .newConnection _ => 0
      | .runAfter _ => retries trace + 1
      | .socket _ | .close _ => retries trace := by
  unfold retries
  rw [List.foldl_append]
  rfl

theorem OnSchedule.snoc {trace : List Event} {e : Event} (h : OnSchedule trace)
    (he : ∀ delayMs, e = .runAfter delayMs → delayMs = delay (retries trace)) :
    OnSchedule (trace ++ [e]) := by
  intro before delayMs after heq
  obtain rfl | ⟨after, e', rfl⟩ := List.eq_nil_or_concat after
  · obtain ⟨rfl, hlast⟩ := List.append_inj' heq rfl
    exact he delayMs (List.singleton_inj.mp hlast)
  · rw [List.concat_eq_append, ← List.cons_append, ← List.append_assoc] at heq
    obtain ⟨htrace, -⟩ := List.append_inj' heq rfl
    exact h before delayMs after htrace

/-- Only a connection that stands leads into `kConnected`. -/
theorem acts_state {c c' : Connector} {rest : Option Rest} (hacts : Acts c c' rest)
    (hstate : c.state_ ≠ .kConnected) :
    c'.state_ ≠ .kConnected ∨ ∃ sockfd, rest = some (.connected sockfd) := by
  cases hacts with
  | nothing => exact .inl hstate
  | connecting _ _ => exact .inl nofun
  | refused _ _ => exact .inl hstate
  | dropped _ _ _ => exact .inl nofun
  | connected _ _ _ => exact .inr ⟨_, rfl⟩

/-- The attempts themselves leave the delays alone. -/
theorem acts_schedule {c c' : Connector} {rest : Option Rest} (hacts : Acts c c' rest) :
    c'.retryDelayMs_ = c.retryDelayMs_ ∧ retries c'.trace = retries c.trace ∧
      (OnSchedule c.trace → OnSchedule c'.trace) ∧
      (c'.state_ ≠ .kConnected → c.state_ ≠ .kConnected) ∧
      (rest = some .retry → c'.state_ ≠ .kConnected) := by
  cases hacts with
  | nothing => exact ⟨rfl, rfl, id, id, nofun⟩
  | connecting hstate _ =>
    refine ⟨rfl, retries_snoc _ _, fun h ↦ h.snoc nofun, fun _ ↦ ?_, nofun⟩
    rw [hstate]
    nofun
  | refused hstate _ =>
    have htwo : c.trace ++ [.socket c.nextSocket, .close c.nextSocket] =
        c.trace ++ [.socket c.nextSocket] ++ [.close c.nextSocket] := by
      rw [List.append_assoc]
      rfl
    have hdisconnected : c.state_ ≠ .kConnected := by
      rw [hstate]
      nofun
    refine ⟨rfl, ?_, fun h ↦ ?_, fun _ ↦ hdisconnected, fun _ ↦ hdisconnected⟩
    · dsimp only
      rw [htwo, retries_snoc, retries_snoc]
    · dsimp only
      rw [htwo]
      have hsocket : OnSchedule (c.trace ++ [.socket c.nextSocket]) := h.snoc nofun
      exact hsocket.snoc nofun
  | dropped hstate _ _ =>
    refine ⟨rfl, retries_snoc _ _, fun h ↦ h.snoc nofun, fun _ ↦ ?_, fun _ ↦ nofun⟩
    rw [hstate]
    nofun
  | connected hstate _ _ => exact ⟨rfl, rfl, id, fun hne ↦ absurd rfl hne, nofun⟩

end Connector

namespace TcpClient

/-- The frames behind the loss of a connection. -/
def Frame.Behind : Frame → Prop
  | .removeConnection _ | .testRetry | .testConnect | .restart => True
  | _ => False

/-- Those, and the retry to come. -/
def Frame.Marked : Frame → Prop
  | .removeConnection _ | .testRetry | .testConnect | .restart | .rest .retry => True
  | _ => False

theorem Frame.Behind.marked {f : Frame} (h : f.Behind) : f.Marked := by
  cases f <;> trivial

structure Backoff (s : TcpClient) : Prop where
  schedule : OnSchedule s.connector_.trace
  next : s.connector_.state_ ≠ .kConnected → s.connector_.retryDelayMs_ =
    delay (retries s.connector_.trace)
  fresh : (s.established ≠ [] ∨ ∃ f ∈ s.todo, f.Behind) → retries s.connector_.trace = 0
  retrying : .rest .retry ∈ s.todo → s.connector_.state_ ≠ .kConnected

variable {s t : TcpClient}

theorem backoff_init : Backoff {} where
  schedule before delayMs after h := by simp at h
  next _ := rfl
  fresh _ := rfl
  retrying h := by cases h

/-- A step that leaves the attempt and its delay alone, and brings neither a retry nor a loss. -/
theorem Backoff.same (h : Backoff s) (hstate : t.connector_.state_ = s.connector_.state_)
    (hdelay : t.connector_.retryDelayMs_ = s.connector_.retryDelayMs_)
    (htrace : t.connector_.trace = s.connector_.trace)
    (hestablished : t.established = s.established)
    (htodo : ∀ f ∈ t.todo, f ∈ s.todo ∨ ¬ f.Marked) : Backoff t := by
  refine ⟨htrace ▸ h.schedule, ?_, ?_, fun hmem ↦ ?_⟩
  · rw [hstate, hdelay, htrace]
    exact h.next
  · rw [hestablished, htrace]
    rintro (hne | ⟨f, hf, hbehind⟩)
    · exact h.fresh (.inl hne)
    · obtain hold | hnot := htodo f hf
      · exact h.fresh (.inr ⟨f, hold, hbehind⟩)
      · exact absurd hbehind.marked hnot
  · rw [hstate]
    obtain hold | hnot := htodo _ hmem
    · exact h.retrying hold
    · exact absurd trivial hnot

/-- A function of the connector, with what is left of it on top of frames that were there. -/
theorem Backoff.acts (h : Backoff s) (functors : List Functor) (todo : List Frame)
    {c c' : Connector}
    {rest : Option Rest} (hacts : Acts c c' rest) (hstate : c.state_ = s.connector_.state_)
    (hdelay : c.retryDelayMs_ = s.connector_.retryDelayMs_) (htrace : c.trace = s.connector_.trace)
    (htodo : ∀ f ∈ todo, f ∈ s.todo)
    (halone : ∀ sockfd, rest = some (.connected sockfd) → todo = []) :
    Backoff { s with functors := functors, connector_ := c', todo := rest.toList.map .rest ++
      todo } := by
  obtain ⟨hdelay', hretries, hschedule, hnext, hretry⟩ := acts_schedule hacts
  have hrest : ∀ f ∈ rest.toList.map Frame.rest, ¬ f.Behind := by
    cases rest with
    | none => nofun
    | some rest =>
      intro f hf
      rw [List.mem_singleton.mp hf]
      exact id
  refine ⟨hschedule (htrace ▸ h.schedule), fun hne ↦ ?_, ?_, fun hmem ↦ ?_⟩
  · show c'.retryDelayMs_ = delay (retries c'.trace)
    rw [hdelay', hretries, hdelay, htrace]
    exact h.next (hstate ▸ hnext hne)
  · show _ → retries c'.trace = 0
    rw [hretries, htrace]
    rintro (hne | ⟨f, hf, hbehind⟩)
    · exact h.fresh (.inl hne)
    · obtain hnew | hold := List.mem_append.mp hf
      · exact absurd hbehind (hrest f hnew)
      · exact h.fresh (.inr ⟨f, htodo f hold, hbehind⟩)
  · show c'.state_ ≠ .kConnected
    obtain hnew | hold := List.mem_append.mp hmem
    · obtain ⟨rest', hrest', hframe⟩ := List.mem_map.mp hnew
      obtain rfl : rest' = .retry := Frame.rest.inj hframe
      exact hretry (Option.mem_toList.mp hrest')
    · obtain hne | ⟨sockfd, hconnected⟩ := acts_state hacts (hstate ▸ h.retrying (htodo _ hold))
      · exact hne
      · rw [halone sockfd hconnected] at hold
        cases hold

theorem cancelRetry_schedule (c : Connector) : c.cancelRetry.state_ = c.state_ ∧
    c.cancelRetry.retryDelayMs_ = c.retryDelayMs_ ∧ c.cancelRetry.trace = c.trace := by
  unfold cancelRetry
  split <;> exact ⟨rfl, rfl, rfl⟩

theorem retryIfConnect_schedule {c : Connector} (h : OnSchedule c.trace)
    (hnext : c.retryDelayMs_ = delay (retries c.trace)) :
    OnSchedule c.retryIfConnect.trace ∧
      c.retryIfConnect.retryDelayMs_ = delay (retries c.retryIfConnect.trace) := by
  unfold retryIfConnect
  split
  · refine ⟨h.snoc fun delayMs hevent ↦ ?_, ?_⟩
    · cases hevent
      exact hnext
    · show min (c.retryDelayMs_ * 2) kMaxRetryDelayMs =
        delay (retries (c.trace ++ [.runAfter c.retryDelayMs_]))
      rw [retries_snoc, hnext, delay_succ]
  · exact ⟨h, hnext⟩

theorem Backoff.marks (h : Backoff s) (hmarks : Marks s t) {u : TcpClient}
    (hconnector : u.connector_ = t.connector_)
    (hestablished : u.established = t.established) (htodo : ∀ f ∈ u.todo, f ∈ s.todo ∨ ¬ f.Marked) :
    Backoff u := by
  obtain ⟨connect, functors, -, hmarked⟩ := hmarks.connector
  rw [hmarked] at hconnector
  refine h.same ?_ ?_ ?_ (hestablished.trans hmarks.established) htodo
  · rw [hconnector]
  · rw [hconnector]
  · rw [hconnector]

/-- A connection is lost: there was one, so that no retry has been since. -/
theorem Backoff.close (h : Backoff s) {conn : Nat} (hconn : conn ∈ s.established)
    {functors : List Functor} {active : List Source} : Backoff
      { s with
        functors := functors, active := active, established := s.established.erase conn
        todo := [.callback, .removeConnection conn] } := by
  refine ⟨h.schedule, h.next, fun _ ↦ h.fresh (.inl (List.ne_nil_of_mem hconn)), fun hmem ↦ ?_⟩
  simp at hmem

theorem Backoff.head (h : Backoff s) {frame : Frame} {todo : List Frame}
    (htodo : s.todo = frame :: todo) (hbehind : frame.Behind) : retries s.connector_.trace = 0 :=
  h.fresh (.inr ⟨frame, htodo ▸ List.mem_cons_self, hbehind⟩)

/-- What goes on behind the loss of a connection, before the connector hears of it. -/
theorem Backoff.behind (h : Backoff s) (hretries : retries s.connector_.trace = 0)
    (hstate : t.connector_.state_ = s.connector_.state_)
    (hdelay : t.connector_.retryDelayMs_ = s.connector_.retryDelayMs_)
    (htrace : t.connector_.trace = s.connector_.trace)
    (hretry : .rest .retry ∈ t.todo → .rest .retry ∈ s.todo) :
    Backoff t := by
  refine ⟨htrace ▸ h.schedule, ?_, fun _ ↦ ?_, fun hmem ↦ ?_⟩
  · rw [hstate, hdelay, htrace]
    exact h.next
  · rwa [htrace]
  · rw [hstate]
    exact h.retrying (hretry hmem)

theorem backoff_of_step {l : Label} (ha : Attempts s) (h : Backoff s) (hstep : Step s l t) :
    Backoff t := by
  cases step_cases hstep with
  | poll _ _ _ _ _ => exact h.same rfl rfl rfl rfl fun f hf ↦ .inl hf
  | @connectorEvent _ error write _ _ htodo _ =>
    refine h.same rfl rfl rfl rfl fun f hf ↦ .inr ?_
    obtain rfl | rfl := mem_eventFrames hf
    · exact id
    · exact id
  | connectionEvent _ _ _ =>
    refine h.same rfl rfl rfl rfl fun f hf ↦ .inr ?_
    rw [List.mem_singleton.mp hf]
    exact id
  | lost _ htodo _ hconn => exact h.close hconn
  | swap _ _ _ => exact h.same rfl rfl rfl rfl fun f hf ↦ .inl hf
  | @startFunctor functors _ _ _ _ _ _ hc =>
    obtain ⟨-, hacts⟩ := startInLoop_acts hc
    have hresult := h.acts functors [] hacts rfl rfl rfl (by simp) fun _ _ ↦ rfl
    simpa using hresult
  | @stopFunctor functors _ _ _ _ _ _ hc =>
    obtain ⟨hstate, hdelay, htrace⟩ := cancelRetry_schedule s.connector_
    have hresult := h.acts functors [] (stopInLoop_acts hc) hstate hdelay htrace (by simp)
      fun _ _ ↦ rfl
    simpa using hresult
  | resetFunctor _ _ _ hc =>
    cases resetChannel_eq hc
    exact h.same rfl rfl rfl rfl fun f hf ↦ .inl hf
  | forceCloseFunctor _ htodo _ hconn => exact h.close hconn
  | idleFunctor _ _ _ _ => exact h.same rfl rfl rfl rfl fun f hf ↦ .inl hf
  | @timer timer _ _ _ _ htodo _ hc =>
    obtain ⟨-, hacts⟩ := startInLoop_acts hc
    have hresult := h.acts s.functors [] hacts rfl rfl rfl (by simp) fun _ _ ↦ rfl
    simpa using hresult
  | @callStep todo _ step htodo _ =>
    have hmarks := marks_callStep { s with todo := todo } step
    have hrest : Backoff { s with todo := todo } := h.same rfl rfl rfl rfl
      fun f hf ↦ .inl (by simp [htodo, hf])
    exact hrest.marks hmarks rfl rfl fun f hf ↦ .inl (by rwa [hmarks.todo] at hf)
  | startInLoop htodo _ hc =>
    obtain ⟨-, hacts⟩ := startInLoop_acts hc
    refine h.acts _ _ hacts rfl rfl rfl (fun f hf ↦ by simp [htodo, hf]) fun sockfd hrest ↦ ?_
    obtain hnone | hretry := startInLoop_rest hc
    · cases hnone.symm.trans hrest
    · cases hretry.symm.trans hrest
  | @retry todo _ htodo =>
    have hstate := h.retrying (htodo ▸ List.mem_cons_self)
    obtain ⟨hschedule, hnext⟩ := retryIfConnect_schedule h.schedule (h.next hstate)
    have hnone := ha.established_nil hstate
    refine ⟨hschedule, fun _ ↦ hnext, ?_, fun _ ↦ ?_⟩
    · rintro (hne | ⟨f, hf, hbehind⟩)
      · exact absurd hnone hne
      · refine absurd ?_ (ha.not_closing hstate f (htodo ▸ List.mem_cons_of_mem _ hf))
        cases f <;> first | exact hbehind | trivial
    · rw [(retryIfConnect_same s.connector_).1]
      exact hstate
  | newConnection htodo _ =>
    have hconnected := (ha.head htodo trivial).1
    have hnil := (htodo ▸ ha.stack).over.alone trivial
    refine ⟨h.schedule.snoc (by simp), fun hne ↦ absurd hconnected hne, fun _ ↦ retries_snoc _ _,
      fun hmem ↦ ?_⟩
    simp [TcpClient.newConnection, push, hnil] at hmem
  | @closed _ _ sockfd htodo _ =>
    have hconnected := (ha.head htodo trivial).1
    have hnil := (htodo ▸ ha.stack).over.alone trivial
    refine ⟨h.schedule.snoc (by simp), fun hne ↦ absurd hconnected hne, ?_, fun hmem ↦ ?_⟩
    · rintro (hne | ⟨f, hf, -⟩)
      · exact absurd (ha.head htodo trivial).2 hne
      · rw [hnil] at hf
        cases hf
    · rw [hnil] at hmem
      cases hmem
  | handleError htodo hc =>
    refine h.acts _ _ (handleError_acts hc) rfl rfl rfl (fun f hf ↦ by simp [htodo, hf])
      fun sockfd hrest ↦ ?_
    obtain hnone | hretry := handleError_rest hc
    · cases hnone.symm.trans hrest
    · cases hretry.symm.trans hrest
  | handleWrite htodo hc =>
    exact h.acts _ _ (handleWrite_acts hc) rfl rfl rfl (fun f hf ↦ by simp [htodo, hf]) fun _ _ ↦
      (htodo ▸ ha.stack).over.alone trivial
  | callback htodo => exact h.same rfl rfl rfl rfl fun f hf ↦ .inl (by simp [htodo, hf])
  | @removeConnection _ _ conn htodo _ =>
    exact h.behind (h.head htodo trivial) rfl rfl rfl fun hmem ↦ by simpa [htodo] using hmem
  | testRetry htodo | testConnect htodo =>
    refine h.behind (h.head htodo trivial) rfl rfl rfl fun hmem ↦ ?_
    obtain hnew | hold := List.mem_append.mp hmem
    · split at hnew
      · cases List.mem_singleton.mp hnew
      · cases hnew
    · exact htodo ▸ List.mem_cons_of_mem _ hold
  | restart htodo =>
    have hretries := h.head htodo trivial
    have hnil := (htodo ▸ ha.stack).over.alone trivial
    refine ⟨h.schedule, fun _ ↦ ?_, fun _ ↦ hretries, fun hmem ↦ ?_⟩
    · show kInitRetryDelayMs = delay (retries s.connector_.trace)
      rw [hretries]
      decide
    · simp [hnil] at hmem
  | @call call _ =>
    have hmarks := marks_call s call
    refine h.marks hmarks rfl rfl fun f hf ↦ ?_
    rcases List.mem_append.mp hf with hf | hf
    · rcases List.mem_map.mp hf with ⟨step, _, rfl⟩
      exact .inr id
    · exact .inl (by rwa [hmarks.todo] at hf)
  | @thread n call _ =>
    have hmarks := marks_call s call
    exact h.marks hmarks rfl rfl fun f hf ↦ .inl (hmarks.todo ▸ hf)
  | @proceed n step _ _ =>
    have hmarks := marks_callStep s step
    exact h.marks hmarks rfl rfl fun f hf ↦ .inl (hmarks.todo ▸ hf)

/-- **Retries come on schedule.**  In every run, with calls of any threads, the retry that follows
`k` others since the last connection comes behind half a second doubled `k` times, and never more
than half a minute. -/
theorem retries_scheduled {ls : List Label} (h : Run Step {} ls s) {before after : List Event}
    {delayMs : Nat} (htrace : s.connector_.trace = before ++ .runAfter delayMs :: after) :
    delayMs = min (kInitRetryDelayMs * 2 ^ retries before) kMaxRetryDelayMs := by
  have hinv : Attempts s ∧ Backoff s := by
    refine h.invariant (fun s ↦ Attempts s ∧ Backoff s) ?_ ⟨attempts_init, backoff_init⟩
    rintro s l t ⟨ha, hs⟩ hstep
    exact ⟨attempts_of_step ha hstep, backoff_of_step ha hs hstep⟩
  exact hinv.2.schedule before delayMs after htrace

/-- What the connector has done when two attempts were refused, the third became a connection that
was lost, and the one behind it was refused. -/
def refusedBehindLoss : List Event :=
  [.socket 0, .close 0, .runAfter 500, .socket 1, .close 1, .runAfter 1000, .socket 2,
    .newConnection 2, .socket 3, .close 3]

/-- The retry behind `refusedBehindLoss`, two doublings after the first of all. -/
theorem retries_scheduled_lost :
    ∃ s, Run Step {} [.call .enableRetry, .call .connect, .resume {}, .resume {},
        .resume { savedErrno := .ECONNREFUSED }, .resume {}, .poll [],
        .timer 1 { savedErrno := .ECONNREFUSED }, .resume {},
        .timer 2 { savedErrno := .EINPROGRESS }, .swap, .poll [.connector], .event false true false,
        .resume {}, .resume {}, .resume {}, .swap, .functor {}, .poll [.connection 1],
        .event false false true, .resume {}, .resume {}, .resume {}, .resume {}, .resume {},
        .resume { savedErrno := .ECONNREFUSED }, .resume {}] s ∧
      s.connector_.trace = refusedBehindLoss ++ .runAfter 500 :: [] ∧
      500 = min (kInitRetryDelayMs * 2 ^ retries refusedBehindLoss) kMaxRetryDelayMs := by
  have hrun := show Run Step {} [.call .enableRetry, .call .connect, .resume {}, .resume {},
        .resume { savedErrno := .ECONNREFUSED }, .resume {}, .poll [],
        .timer 1 { savedErrno := .ECONNREFUSED }, .resume {},
        .timer 2 { savedErrno := .EINPROGRESS }, .swap, .poll [.connector], .event false true false,
        .resume {}, .resume {}, .resume {}, .swap, .functor {}, .poll [.connection 1],
        .event false false true, .resume {}, .resume {}, .resume {}, .resume {}, .resume {},
        .resume { savedErrno := .ECONNREFUSED }, .resume {}] _ from
    .cons rfl <| .cons rfl <| .cons rfl <| .cons rfl <| .cons rfl <| .cons rfl <| .cons rfl <|
    .cons rfl <| .cons rfl <| .cons rfl <| .cons rfl <| .cons rfl <| .cons rfl <| .cons rfl <|
      .cons rfl <|
    .cons rfl <| .cons rfl <| .cons rfl <| .cons rfl <| .cons rfl <| .cons rfl <| .cons rfl <|
      .cons rfl <|
    .cons rfl <| .cons rfl <| .cons rfl <| .cons rfl <| .nil _
  have htrace : _ = refusedBehindLoss ++ .runAfter 500 :: [] := rfl
  exact ⟨_, hrun, htrace, retries_scheduled hrun htrace⟩

end TcpClient

end Pallette
