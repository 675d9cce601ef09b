import Mathlib.Algebra.GroupWithZero.Nat
import Pallette.Threads.Queueing

/-!
# Stranded — callers of `run` that wait on `notFull_` when the workers are gone

`stop` wakes the workers only, and a worker that comes to its test of `running_` takes nothing more.
What is left of the queue takes up places: `demand` adds to it the calls that still want one.
-/

open Reasoning

namespace Pallette.ThreadPool

variable {α : Type} {s t u : ThreadPool α} {l : Label α}

/-- A worker that comes to `take` before its next test of `running_`. -/
def toTake (w : Worker) : Bool :=
  decide (w = .taking ∨ w = .waiting ∨ w = .notified)

def inRun (c : Caller α) : Bool :=
  decide (c.phase ≠ .returned)

/-- The calls of `run` under way, and the tasks for which no worker comes any more once `running_`
is off. -/
def demand (s : ThreadPool α) : Nat :=
  s.callers.countP inRun + (s.queue_.length - s.threads_.countP toTake)

theorem inRun_wake (c : Caller α) (hsleeping : notFull_.sleeping c = true) :
    inRun (notFull_.wake c) = inRun c := by
  have hphase := of_decide_eq_true hsleeping
  unfold inRun
  rw [hphase]
  rfl

theorem toTake_wake (w : Worker) (hsleeping : notEmpty_.sleeping w = true) :
    toTake (notEmpty_.wake w) = toTake w := by
  rw [of_decide_eq_true hsleeping]
  rfl

theorem countP_sleeping_add_woken (callers : List (Caller α)) :
    callers.countP notFull_.sleeping + callers.countP notFull_.woken ≤ callers.countP inRun := by
  induction callers with
  | nil => exact Nat.le_refl _
  | cons c callers ih =>
    obtain ⟨task, phase⟩ := c
    cases phase <;> simp [notFull_, inRun] at ih ⊢ <;> omega

theorem inRun_of {c : Caller α} (h : c.phase = .entering ∨ c.phase = .notified) : inRun c = true :=
  decide_eq_true (ne_returned h)

theorem demand_call (s : ThreadPool α) (task : α) : (s.call task).demand ≤ s.demand + 1 := by
  have hcount : (s.call task).callers.countP inRun ≤ s.callers.countP inRun + 1 := by
    change (s.callers ++ [_]).countP inRun ≤ _
    rw [List.countP_append]
    exact Nat.add_le_add_left List.countP_le_length _
  unfold demand
  change _ + (s.queue_.length - s.threads_.countP toTake) ≤ _
  omega

theorem demand_setWorker {i : Nat} {w w' : Worker} (hw : s.threads_[i]? = some w)
    (hsame : toTake w' = toTake w) :
    (s.setWorker i w').demand = s.demand := by
  have hcount := countP_set_add hw toTake w'
  rw [hsame] at hcount
  unfold demand
  change s.callers.countP inRun + (s.queue_.length - (s.threads_.set i w').countP toTake) = _
  omega

theorem demand_setCaller {i : Nat} {c : Caller α} {phase : CallerPhase}
    (hc : s.callers[i]? = some c) (hphase : c.phase ≠ .returned) (hnew : phase ≠ .returned) :
    (s.setCaller i c.task phase).demand = s.demand := by
  have hcount := countP_set_add hc inRun ⟨c.task, phase⟩
  have hold : inRun c = true := decide_eq_true hphase
  have hstill : inRun (⟨c.task, phase⟩ : Caller α) = true := decide_eq_true hnew
  rw [hold, hstill] at hcount
  unfold demand
  change (s.callers.set i ⟨c.task, phase⟩).countP inRun +
    (s.queue_.length - s.threads_.countP toTake) = _
  omega

theorem demand_push {i : Nat} {c : Caller α} {threads : List Worker} {choice : Option Nat}
    (hc : s.callers[i]? = some c) (hphase : c.phase = .entering ∨ c.phase = .notified)
    (hone : notEmpty_.notifyOne s.threads_ choice = some threads) :
    demand { s.setCaller i c.task .returned with
      queue_ := s.queue_ ++ [(i, c.task)], accepted := s.accepted ++ [(i, c.task)],
      threads_ := threads } + 1 =
    s.callers.countP inRun + (s.queue_.length + 1 - s.threads_.countP toTake) := by
  have hcount := countP_set_add hc inRun ⟨c.task, .returned⟩
  have hnew : inRun (⟨c.task, .returned⟩ : Caller α) = false := rfl
  rw [inRun_of hphase, hnew, Bool.toNat_true, Bool.toNat_false] at hcount
  have hthreads := CondVar.countP_notifyOne toTake_wake hone
  have hlength : (s.queue_ ++ [(i, c.task)]).length = s.queue_.length + 1 := List.length_append
  unfold demand
  change (s.callers.set i ⟨c.task, .returned⟩).countP inRun +
    ((s.queue_ ++ [(i, c.task)]).length - threads.countP toTake) + 1 = _
  omega

theorem demand_take {i : Nat} {w : Worker} {task : Nat × α} {rest : List (Nat × α)}
    {callers : List (Caller α)}
    {choice : Option Nat} (hw : s.threads_[i]? = some w) (hphase : w = .taking ∨ w = .notified)
    (hqueue : s.queue_ = task :: rest)
    (hcallers : 0 < s.maxQueueSize_ ∧ notFull_.notifyOne s.callers choice = some callers ∨
      s.maxQueueSize_ = 0 ∧ callers = s.callers) :
    demand { s.setWorker i .busy with
      queue_ := rest, taken := s.taken ++ [task], callers := callers } = s.demand := by
  have hsame : callers.countP inRun = s.callers.countP inRun := by
    rcases hcallers with ⟨_, hone⟩ | ⟨_, rfl⟩
    · exact CondVar.countP_notifyOne inRun_wake hone
    · rfl
  have hcame : toTake w = true := by
    rcases hphase with rfl | rfl <;> rfl
  have hcount := countP_set_add hw toTake .busy
  have hgone : (toTake .busy).toNat = 0 := rfl
  rw [hcame, Bool.toNat_true, hgone] at hcount
  have hlength : s.queue_.length = rest.length + 1 := by rw [hqueue, List.length_cons]
  unfold demand
  change callers.countP inRun + (rest.length - (s.threads_.set i .busy).countP toTake) = _
  omega

theorem demand_stop (s : ThreadPool α) : s.stop.demand = s.demand := by
  have hthreads : (notEmpty_.notifyAll s.threads_).countP toTake = s.threads_.countP toTake :=
    CondVar.countP_notifyAll toTake_wake
  unfold demand
  change s.callers.countP inRun + (s.queue_.length -
    (notEmpty_.notifyAll s.threads_).countP toTake) = _
  omega

/-- Once `running_` is off only a new call adds to the demand. -/
theorem demand_step (hstep : Step s l t) (hstopped : s.running_ = false) :
    (∃ task, l = .run task) ∨ t.demand ≤ s.demand := by
  cases step_cases hstep with
  | @run task => exact .inl ⟨task, rfl⟩
  | full hc hphase _ => exact .inr (Nat.le_of_eq (demand_setCaller hc (ne_returned hphase) nofun))
  | push hc hphase _ hone =>
    right
    have hpush := demand_push hc hphase hone
    unfold demand at hpush ⊢
    omega
  | wakeCaller hc hphase =>
    right
    apply Nat.le_of_eq
    apply demand_setCaller hc
    · rw [hphase]
      nofun
    · nofun
  | test hw =>
    right
    rw [hstopped]
    exact Nat.le_of_eq (demand_setWorker hw rfl)
  | wait hw hphase hqueue =>
    right
    unfold demand
    change s.callers.countP inRun + (s.queue_.length - _) ≤ _
    rw [hqueue, List.length_nil]
    omega
  | take hw hphase hqueue hcallers =>
      exact .inr (Nat.le_of_eq (demand_take hw hphase hqueue hcallers))
  | finish hw => exact .inr (Nat.le_of_eq (demand_setWorker hw rfl))
  | wakeWorker hw => exact .inr (Nat.le_of_eq (demand_setWorker hw rfl))
  | stop _ => exact .inr (Nat.le_of_eq (demand_stop s))
  | join _ _ => exact .inr (Nat.le_refl _)

/-! ## When the places suffice -/

/-- When `stop` comes there are places enough for the calls under way, and afterwards for every
further one. -/
def PlacesLeft (s : ThreadPool α) : Label α → Prop
  | .stop => s.demand ≤ s.maxQueueSize_
  | .run _ => s.running_ = false → s.demand < s.maxQueueSize_
  | _ => True

structure Served (s : ThreadPool α) : Prop where
  stopped : s.stopper = .idle ∨ s.running_ = false ∧ s.demand ≤ s.maxQueueSize_
  exited : s.stopper = .returned → ∀ w ∈ s.threads_, w = .exited

theorem bound_step (hstep : Step s l t) : t.maxQueueSize_ = s.maxQueueSize_ := by
  cases step_cases hstep <;> rfl

theorem stopper_step (hstep : Step s l t) :
    l = .stop ∨ l = .join ∨ t.stopper = s.stopper ∧ t.running_ = s.running_ := by
  cases step_cases hstep with
  | stop _ => exact .inl rfl
  | join _ _ => exact .inr (.inl rfl)
  | run | full | push | wakeCaller | test | wait | take | finish
      | wakeWorker => exact .inr (.inr ⟨rfl, rfl⟩)

theorem exited_of_notifyOne {threads threads' : List Worker} {choice : Option Nat}
    (h : ∀ w ∈ threads, w = .exited) (hone : notEmpty_.notifyOne threads choice = some threads') :
    ∀ w ∈ threads', w = .exited := by
  rcases CondVar.notifyOne_cases hone with ⟨rfl, _⟩ | ⟨j, w, hw, hsleeping, rfl⟩
  · exact h
  · rw [h w (List.mem_of_getElem? hw)] at hsleeping
    cases hsleeping

/-- Workers that have exited stay where they are. -/
theorem exited_step (hstep : Step s l t) (h : ∀ w ∈ s.threads_, w = .exited) :
    ∀ w ∈ t.threads_, w = .exited := by
  have hnot : ∀ {i : Nat} {w : Worker}, s.threads_[i]? = some w → w = .exited :=
    fun hw ↦ h _ (List.mem_of_getElem? hw)
  cases step_cases hstep with
  | push _ _ _ hone => exact exited_of_notifyOne h hone
  | test hw | finish hw | wakeWorker hw => exact nomatch hnot hw
  | wait hw hphase _ | take hw hphase _ _ =>
    have hexited := hnot hw
    rcases hphase with heq | heq <;> rw [heq] at hexited <;> cases hexited
  | run | full | wakeCaller | join => exact h
  | stop _ =>
    intro w hw
    obtain ⟨w', hw', rfl⟩ := List.mem_map.mp hw
    rw [h w' hw']
    rfl

theorem served_step (h : Served s) (hguard : PlacesLeft s l) (hstep : Step s l t) : Served t := by
  rcases stopper_step hstep with rfl | rfl | ⟨hstopper, hrunning⟩
  · cases step_cases hstep with
    | stop hidle =>
      constructor
      · right
        refine ⟨rfl, ?_⟩
        rw [demand_stop]
        exact hguard
      · exact fun hreturned ↦ nomatch hreturned
  · cases step_cases hstep with
    | join hjoining hall =>
      constructor
      · rcases h.stopped with hidle | hstopped
        · rw [hidle] at hjoining
          cases hjoining
        · exact .inr hstopped
      · exact fun _ ↦ hall
  · constructor
    · rw [hstopper, hrunning, bound_step hstep]
      rcases h.stopped with hidle | ⟨hstopped, hdemand⟩
      · exact .inl hidle
      · right
        refine ⟨hstopped, ?_⟩
        rcases demand_step hstep hstopped with ⟨task, rfl⟩ | hle
        · cases hstep
          have hroom := hguard hstopped
          have hcall := demand_call s task
          omega
        · omega
    · rw [hstopper]
      exact fun hreturned ↦ exited_step hstep (h.exited hreturned)

theorem countP_toTake_exited {threads : List Worker} (h : ∀ w ∈ threads, w = .exited) :
    threads.countP toTake = 0 := by
  rw [List.countP_eq_zero]
  intro w hw
  rw [h w hw]
  decide

variable {max n : Nat} {ls : List (Label α)}

/-- If there are always places enough, `stop` leaves nobody waiting on `notFull_` behind. -/
theorem none_stranded (h : Run (Guarded Step PlacesLeft) (started max n) ls s)
    (hreturned : s.stopper = .returned) :
    ∀ c ∈ s.callers, c.phase ≠ .waiting := by
  have hnoticed : Noticed s :=
    h.invariant Noticed (fun _ _ _ hs hstep ↦ noticed_step hs hstep.1) (noticed_started max n)
  have hserved : Served s :=
    h.invariant Served (fun _ _ _ hs hstep ↦ served_step hs hstep.2 hstep.1)
      ⟨.inl rfl, fun hreturned ↦ nomatch hreturned⟩
  have hdemand : s.demand ≤ s.maxQueueSize_ := by
    rcases hserved.stopped with hidle | hstopped
    · rw [hidle] at hreturned
      cases hreturned
    · exact hstopped.2
  have hnobody := countP_toTake_exited (hserved.exited hreturned)
  intro c hc hwaiting
  have hsleeping : 0 < s.callers.countP notFull_.sleeping :=
    List.countP_pos_iff.mpr ⟨c, hc, decide_eq_true hwaiting⟩
  have hwoken := hnoticed.places hsleeping
  have hcount := countP_sleeping_add_woken s.callers
  unfold demand at hdemand
  omega

/-- A call that gets its place from the worker that is in `take` when `stop` comes. -/
def servedLate : ThreadPool Bool where
  maxQueueSize_ := 1
  queue_ := [(1, false)]
  running_ := false
  threads_ := [.exited]
  callers := [⟨true, .returned⟩, ⟨false, .returned⟩]
  stopper := .returned
  accepted := [(0, true), (1, false)]
  taken := [(0, true)]

theorem none_stranded_served :
    Run (Guarded Step PlacesLeft) (started 1 1) [.finish 0, .test 0, .run true, .push 0 none,
    .run false,
      .push 1 none, .stop, .take 0 (some 1), .push 1 none, .finish 0, .test 0, .join] servedLate ∧
    ∀ c ∈ servedLate.callers, c.phase ≠ .waiting := by
  have hrun : Run (Guarded Step PlacesLeft) (started 1 1) [.finish 0, .test 0, .run true,
    .push 0 none,
      .run false, .push 1 none, .stop, .take 0 (some 1), .push 1 none, .finish 0, .test 0,
      .join] servedLate :=
    .cons ⟨rfl, trivial⟩ <| .cons ⟨rfl, trivial⟩ <| .cons ⟨rfl, nofun⟩ <| .cons ⟨rfl, trivial⟩ <|
    .cons ⟨rfl, nofun⟩ <| .cons ⟨rfl, trivial⟩ <| .cons ⟨rfl, Nat.le_refl 1⟩ <|
      .cons ⟨rfl, trivial⟩ <|
    .cons ⟨rfl, trivial⟩ <| .cons ⟨rfl, trivial⟩ <| .cons ⟨rfl, trivial⟩ <|
      .cons ⟨rfl, trivial⟩ <| .nil _
  exact ⟨hrun, none_stranded hrun rfl⟩

/-- The worker is in a task when `stop` comes, one more task is queued, and a call waits behind
it. -/
def waitsForever : ThreadPool Bool where
  maxQueueSize_ := 1
  queue_ := [(0, true)]
  running_ := false
  threads_ := [.exited]
  callers := [⟨true, .returned⟩, ⟨false, .waiting⟩]
  stopper := .returned
  accepted := [(0, true)]

/-- `stop` returns and a call of `run` waits on. -/
theorem stop_strands_caller :
    ¬ ∀ (max n : Nat) (ls : List (Label Bool)) (s : ThreadPool Bool), 0 < max → 0 < n →
        Run Step (started max n) ls s → s.stopper = .returned →
        ∀ c ∈ s.callers, c.phase ≠ .waiting := by
  intro h
  have hrun : Run Step (started 1 1) [.run true, .push 0 none, .run false, .push 1 none, .stop,
    .finish 0,
      .test 0, .join] waitsForever :=
    .cons rfl <| .cons rfl <| .cons rfl <| .cons rfl <| .cons rfl <| .cons rfl <| .cons rfl <|
      .cons rfl <| .nil _
  exact h 1 1 _ _ (by decide) (by decide) hrun rfl ⟨false, .waiting⟩ (by decide) rfl

/-! ## When they do not -/

/-- What a worker still has to do until it exits. -/
def Worker.left : Worker → Nat
  | .exited => 0
  | .testing => 1
  | .busy => 2
  | .taking | .notified => 3
  | .waiting => 4

def workersLeft (threads : List Worker) : Nat :=
  (threads.map Worker.left).sum

theorem workersLeft_set {threads : List Worker} {i : Nat} {w w' : Worker}
    (hw : threads[i]? = some w)
    (hless : w'.left < w.left) : workersLeft (threads.set i w') < workersLeft threads := by
  induction threads generalizing i with
  | nil => cases hw
  | cons v threads ih =>
    cases i with
    | zero =>
      cases hw
      exact Nat.add_lt_add_right hless (workersLeft threads)
    | succ i => exact Nat.add_lt_add_left (ih hw) v.left

/-- A run on after `stop` in which no call is made and no worker comes back to the queue for
nothing. -/
structure LeadsTo (s t : ThreadPool α) : Prop where
  reached : ∃ ls, Run Step s ls t
  running : t.running_ = s.running_
  demand : t.demand = s.demand

theorem LeadsTo.refl (s : ThreadPool α) : LeadsTo s s :=
  ⟨⟨[], .nil s⟩, rfl, rfl⟩

theorem LeadsTo.trans (h : LeadsTo s t) (h' : LeadsTo t u) : LeadsTo s u := by
  obtain ⟨ls, hrun⟩ := h.reached
  obtain ⟨ls', hrun'⟩ := h'.reached
  exact ⟨⟨ls ++ ls', hrun.append hrun'⟩, h'.running.trans h.running, h'.demand.trans h.demand⟩

theorem LeadsTo.of_step (hstep : Step s l t) (hrunning : t.running_ = s.running_)
    (hdemand : t.demand = s.demand) : LeadsTo s t :=
  ⟨⟨[l], .cons hstep (.nil t)⟩, hrunning, hdemand⟩

theorem LeadsTo.setWorker {i : Nat} {w w' : Worker} (hw : s.threads_[i]? = some w)
    (hstep : Step s l (s.setWorker i w')) (hsame : toTake w' = toTake w) :
    LeadsTo s (s.setWorker i w') :=
  .of_step hstep rfl (demand_setWorker hw hsame)

theorem LeadsTo.bound (h : LeadsTo s t) : t.maxQueueSize_ = s.maxQueueSize_ := by
  obtain ⟨ls, hrun⟩ := h.reached
  exact hrun.invariant (fun t ↦ t.maxQueueSize_ = s.maxQueueSize_)
    (fun _ _ _ hs hstep ↦ (bound_step hstep).trans hs) rfl

theorem exists_take {i : Nat} {w : Worker} (hstopped : s.running_ = false)
    (hw : s.threads_[i]? = some w) (hphase : w = .taking ∨ w = .notified) :
    ∃ t, LeadsTo s t ∧ t.stopper = s.stopper ∧ workersLeft t.threads_ < workersLeft s.threads_ := by
  have hleft : w.left = 3 := by
    rcases hphase with rfl | rfl <;> rfl
  have hnext (choice : Option Nat) : s.next (.take i choice) = s.take i choice := by
    apply if_pos
    rcases hphase with rfl | rfl
    · exact .inl hw
    · exact .inr hw
  cases hqueue : s.queue_ with
  | nil =>
    -- the pool is stopped: a worker that finds nothing goes back to the test of `running_`
    have hstep : Step s (.take i none) (s.setWorker i .testing) := by
      unfold Step
      rw [hnext]
      unfold take
      rw [hqueue, hstopped]
      rfl
    refine ⟨_, .of_step hstep rfl ?_, rfl, ?_⟩
    · unfold demand
      change s.callers.countP inRun + (s.queue_.length - _) = _
      rw [hqueue, List.length_nil]
      omega
    · apply workersLeft_set hw
      rw [hleft]
      decide
  | cons task rest =>
    -- whom `notFull_` wakes is open; somebody can always be chosen
    obtain ⟨choice, callers, hcallers⟩ : ∃ choice callers, 0 < s.maxQueueSize_ ∧
        notFull_.notifyOne s.callers choice = some callers ∨ s.maxQueueSize_ = 0 ∧
        callers = s.callers := by
      rcases Nat.eq_zero_or_pos s.maxQueueSize_ with hmax | hmax
      · exact ⟨none, _, .inr ⟨hmax, rfl⟩⟩
      · obtain ⟨choice, callers, hone⟩ := notFull_.exists_notifyOne s.callers
        exact ⟨choice, callers, .inl ⟨hmax, hone⟩⟩
    have hstep : Step s (.take i choice) { s.setWorker i .busy with
        queue_ := rest, taken := s.taken ++ [task], callers := callers } := by
      unfold Step
      rw [hnext]
      unfold take
      rw [hqueue]
      dsimp only
      rcases hcallers with ⟨hmax, hone⟩ | ⟨hmax, rfl⟩
      · rw [if_pos hmax, hone]
        rfl
      · rw [if_neg (by omega)]
        rfl
    refine ⟨_, .of_step hstep rfl (demand_take hw hphase hqueue hcallers), rfl, ?_⟩
    apply workersLeft_set hw
    rw [hleft]
    decide

/-- A worker that is there gets on. -/
theorem exists_worker_step {i : Nat} {w : Worker} (hstopped : s.running_ = false)
    (hw : s.threads_[i]? = some w) (hlive : w ≠ .exited) :
    ∃ t, LeadsTo s t ∧ t.stopper = s.stopper ∧ workersLeft t.threads_ < workersLeft s.threads_ := by
  cases w with
  | exited => exact (hlive rfl).elim
  | busy => exact ⟨_, .setWorker hw (l := .finish i) (if_pos hw) rfl, rfl,
      workersLeft_set hw (by decide)⟩
  | testing =>
    have hstep : Step s (.test i) (s.setWorker i .exited) := by
      have hnext : s.next (.test i) = some (s.setWorker i (if s.running_ then .taking
          else .exited)) :=
        if_pos hw
      rw [hstopped] at hnext
      exact hnext
    exact ⟨_, .setWorker hw hstep rfl, rfl, workersLeft_set hw (by decide)⟩
  | taking => exact exists_take hstopped hw (.inl rfl)
  | notified => exact exists_take hstopped hw (.inr rfl)
  | waiting =>
    have hstep : Step s (.wakeWorker i) (s.setWorker i .notified) := if_pos hw
    exact ⟨_, .setWorker hw hstep rfl, rfl, workersLeft_set hw (by decide)⟩

theorem exists_all_exited (hstopped : s.running_ = false) :
    ∃ t, LeadsTo s t ∧ t.stopper = s.stopper ∧ ∀ w ∈ t.threads_, w = .exited := by
  have hstep (t : ThreadPool α) (ht : t.running_ = false ∧ t.stopper = s.stopper)
      (hlive : ¬ ∀ w ∈ t.threads_, w = .exited) :
      ∃ u, LeadsTo t u ∧ (u.running_ = false ∧ u.stopper = s.stopper) ∧
        workersLeft u.threads_ < workersLeft t.threads_ := by
    rw [not_forall₂] at hlive
    obtain ⟨w, hmem, hlive⟩ := hlive
    obtain ⟨i, hw⟩ := List.mem_iff_getElem?.mp hmem
    obtain ⟨u, htu, hstopper, hless⟩ := exists_worker_step ht.1 hw hlive
    exact ⟨u, htu, ⟨htu.running.trans ht.1, hstopper.trans ht.2⟩, hless⟩
  obtain ⟨t, hst, ⟨_, hstopper⟩, hall⟩ := exists_done
    (fun t ↦ t.running_ = false ∧ t.stopper = s.stopper) (fun t ↦ ∀ w ∈ t.threads_, w = .exited)
    (fun t ↦ workersLeft t.threads_) LeadsTo.refl (fun _ _ _ ↦ LeadsTo.trans) hstep ⟨hstopped, rfl⟩
  exact ⟨t, hst, hstopper, hall⟩

def toPush (c : Caller α) : Bool :=
  decide (c.phase = .entering ∨ c.phase = .notified)

theorem exists_caller_step {i : Nat} {c : Caller α} (hall : ∀ w ∈ s.threads_, w = .exited)
    (hc : s.callers[i]? = some c) (hphase : c.phase = .entering ∨ c.phase = .notified) :
    ∃ t, LeadsTo s t ∧ t.stopper = s.stopper ∧ t.threads_ = s.threads_ ∧
      t.callers.countP toPush < s.callers.countP toPush := by
  have hnext : s.next (.push i none) = s.push i c.task none := by
    obtain ⟨task, phase⟩ := c
    rcases hphase with rfl | rfl <;> simp only [next, hc]
  have hpush : toPush c = true := decide_eq_true hphase
  have hless {c' : Caller α} (hc' : toPush c' = false) :
      (s.callers.set i c').countP toPush < s.callers.countP toPush := by
    have hcount := countP_set_add hc toPush c'
    rw [hpush, hc', Bool.toNat_true, Bool.toNat_false] at hcount
    omega
  unfold push at hnext
  by_cases hfull : s.isFull = true
  · rw [if_pos hfull] at hnext
    -- a full queue: the caller waits, and nobody is there to wake it
    have hwaiting : CallerPhase.waiting ≠ .returned := by decide
    exact ⟨_, .of_step hnext rfl (demand_setCaller hc (ne_returned hphase) hwaiting), rfl, rfl,
      hless rfl⟩
  · rw [if_neg hfull] at hnext
    -- every worker has returned, so the notice reaches nobody
    have hone : notEmpty_.notifyOne s.threads_ none = some s.threads_ := by
      apply if_pos
      rw [List.countP_eq_zero]
      intro w hw
      rw [hall w hw]
      decide
    dsimp only at hnext
    rw [hone] at hnext
    refine ⟨_, .of_step hnext rfl ?_, rfl, rfl, hless rfl⟩
    have hnobody := countP_toTake_exited hall
    have hsame : s.callers.countP inRun + (s.queue_.length + 1 - s.threads_.countP toTake) =
        s.demand + 1 := by
      unfold demand
      omega
    exact Nat.succ.inj ((demand_push hc hphase hone).trans hsame)

theorem phase_of_live {c : Caller α} (hlive : ¬ (c.phase = .waiting ∨ c.phase = .returned)) :
    c.phase = .entering ∨ c.phase = .notified := by
  cases hphase : c.phase with
  | entering => exact .inl rfl
  | notified => exact .inr rfl
  | waiting => exact (hlive (.inl hphase)).elim
  | returned => exact (hlive (.inr hphase)).elim

/-- With the workers gone the calls get on until each has returned or waits. -/
theorem exists_all_waiting (hall : ∀ w ∈ s.threads_, w = .exited) :
    ∃ t, LeadsTo s t ∧ t.stopper = s.stopper ∧ t.threads_ = s.threads_ ∧
      ∀ c ∈ t.callers, c.phase = .waiting ∨ c.phase = .returned := by
  have hstep (t : ThreadPool α) (ht : t.stopper = s.stopper ∧ t.threads_ = s.threads_)
      (hlive : ¬ ∀ c ∈ t.callers, c.phase = .waiting ∨ c.phase = .returned) :
      ∃ u, LeadsTo t u ∧ (u.stopper = s.stopper ∧ u.threads_ = s.threads_) ∧
        u.callers.countP toPush < t.callers.countP toPush := by
    rw [not_forall₂] at hlive
    obtain ⟨c, hmem, hlive⟩ := hlive
    obtain ⟨i, hc⟩ := List.mem_iff_getElem?.mp hmem
    obtain ⟨u, htu, hstopper, hthreads, hless⟩ :=
      exists_caller_step (by rw [ht.2]; exact hall) hc (phase_of_live hlive)
    exact ⟨u, htu, ⟨hstopper.trans ht.1, hthreads.trans ht.2⟩, hless⟩
  obtain ⟨t, hst, ⟨hstopper, hthreads⟩, hdone⟩ := exists_done
    (fun t ↦ t.stopper = s.stopper ∧ t.threads_ = s.threads_)
    (fun t ↦ ∀ c ∈ t.callers, c.phase = .waiting ∨ c.phase = .returned)
    (fun t ↦ t.callers.countP toPush) LeadsTo.refl (fun _ _ _ ↦ LeadsTo.trans) hstep ⟨rfl, rfl⟩
  exact ⟨t, hst, hstopper, hthreads, hdone⟩

theorem stopped_run (h : Run Step (started max n) ls s) :
    s.stopper = .idle ∨ s.running_ = false := by
  apply h.invariant (fun s ↦ s.stopper = .idle ∨ s.running_ = false) _ (.inl rfl)
  intro s l t hs hstep
  rcases stopper_step hstep with rfl | rfl | ⟨hstopper, hrunning⟩
  · cases step_cases hstep with
    | stop _ => exact .inr rfl
  · cases step_cases hstep with
    | join hjoining _ =>
      rw [hjoining] at hs
      exact .inr (hs.resolve_left nofun)
  · rw [hstopper, hrunning]
    exact hs

/-- The condition is exact: where the places do not suffice once `stop` has been called, they may
run out. -/
theorem exists_stranded (h : Run Step (started max n) ls s) (hstopping : s.stopper = .joining)
    (hbounded : 0 < s.maxQueueSize_) (hdemand : s.maxQueueSize_ < s.demand) :
    ∃ ls' u, Run Step s ls' u ∧ u.stopper = .returned ∧ ∃ c ∈ u.callers, c.phase = .waiting := by
  have hstopped : s.running_ = false := (stopped_run h).resolve_left (by rw [hstopping]; decide)
  obtain ⟨t, hst, hjoining, hall⟩ := exists_all_exited hstopped
  have hjoin : Step t .join { t with stopper := .returned } := by
    apply if_pos
    refine ⟨hjoining.trans hstopping, ?_⟩
    rw [List.all_eq_true]
    exact fun w hw ↦ decide_eq_true (hall w hw)
  have hreturned : LeadsTo s { t with stopper := .returned } := hst.trans (.of_step hjoin rfl rfl)
  obtain ⟨u, htu, hstopper, hthreads, hdone⟩ :=
    exists_all_waiting (s := { t with stopper := .returned }) hall
  have hsu := hreturned.trans htu
  obtain ⟨ls', hrun⟩ := hsu.reached
  refine ⟨ls', u, hrun, hstopper, ?_⟩
  have hroom := (noticed_run (h.append hrun)).bound (by rw [hsu.bound]; exact hbounded)
  have hnobody := countP_toTake_exited (hthreads ▸ hall)
  have hmore := hsu.demand
  unfold demand at hmore
  rw [hsu.bound] at hroom
  have hpos : 0 < u.callers.countP inRun := by
    unfold demand at hdemand
    omega
  obtain ⟨c, hc, hinRun⟩ := List.countP_pos_iff.mp hpos
  rcases hdone c hc with hwaiting | hback
  · exact ⟨c, hc, hwaiting⟩
  · exact absurd hback (of_decide_eq_true hinRun)

end Pallette.ThreadPool
