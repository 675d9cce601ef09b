import Mathlib.Data.List.Dedup
import Mathlib.Data.List.Nodup
import Pallette.Threads.ThreadPool

/-!
# Queueing — what becomes of the tasks, and who is told of them

The tasks leave the queue in the order they came, which is the order in which the calls of `run` had
their last turn under the mutex.  A worker sleeps for the tasks in the queue and a caller of `run`
for the free places in it, and neither kind is ever missed by all.
-/

open Reasoning

namespace Pallette.ThreadPool

variable {α : Type} {s t : ThreadPool α} {l : Label α} {callers callers' : List (Caller α)}
    {p : Nat × α}

/-! ## The order -/

theorem ne_returned {phase : CallerPhase} (h : phase = .entering ∨ phase = .notified) :
    phase ≠ .returned := by
  rcases h with heq | heq <;> rw [heq] <;> decide

/-- The call with the number of a task has brought that task, and has returned. -/
def Brought (callers : List (Caller α)) (p : Nat × α) : Prop :=
  callers[p.1]? = some ⟨p.2, .returned⟩

theorem Brought.set {i : Nat} {c c' : Caller α} (h : Brought callers p) (hc : callers[i]? = some c)
    (hphase : c.phase ≠ .returned) : Brought (callers.set i c') p := by
  have hne : i ≠ p.1 := by
    intro heq
    unfold Brought at h
    rw [heq, h] at hc
    cases hc
    exact hphase rfl
  unfold Brought
  rw [List.getElem?_set_ne hne]
  exact h

theorem Brought.append {c : Caller α} (h : Brought callers p) : Brought (callers ++ [c]) p := by
  have hlt := (List.getElem?_eq_some_iff.mp h).1
  unfold Brought
  rw [List.getElem?_append_left hlt]
  exact h

theorem Brought.notifyOne {choice : Option Nat} (h : Brought callers p)
    (hone : notFull_.notifyOne callers choice = some callers') : Brought callers' p := by
  rcases CondVar.notifyOne_cases hone with ⟨rfl, _⟩ | ⟨j, c, hc, hsleeping, rfl⟩
  · exact h
  · apply h.set hc
    rw [of_decide_eq_true hsleeping]
    decide

structure Ordered (s : ThreadPool α) : Prop where
  order : s.taken ++ s.queue_ = s.accepted
  once : (s.accepted.map Prod.fst).Nodup
  brought : ∀ p ∈ s.accepted, Brought s.callers p

theorem ordered_started (max n : Nat) : Ordered (started max n : ThreadPool α) where
  order := rfl
  once := List.nodup_nil
  brought := by simp [started]

theorem ordered_step (h : Ordered s) (hstep : Step s l t) : Ordered t := by
  cases step_cases hstep with
  | run => exact ⟨h.order, h.once, fun p hp ↦ (h.brought p hp).append⟩
  | full hc hphase _ => exact ⟨h.order, h.once, fun p hp ↦
      (h.brought p hp).set hc (ne_returned hphase)⟩
  | @push i _ c threads hc hphase _ _ =>
    constructor
    · change s.taken ++ (s.queue_ ++ [(i, c.task)]) = s.accepted ++ [(i, c.task)]
      rw [← List.append_assoc, h.order]
    · change ((s.accepted ++ [(i, c.task)]).map Prod.fst).Nodup
      rw [List.map_append, List.map_singleton]
      apply List.Nodup.append h.once (List.nodup_singleton _)
      rw [List.disjoint_singleton]
      intro hmem
      -- the call numbered `i` would have returned
      obtain ⟨p, hp, rfl⟩ := List.mem_map.mp hmem
      have hback := h.brought p hp
      unfold Brought at hback
      rw [hback] at hc
      cases hc
      exact ne_returned hphase rfl
    · intro p hp
      rcases List.mem_append.mp hp with hold | hnew
      · exact (h.brought p hold).set hc (ne_returned hphase)
      · rw [List.mem_singleton.mp hnew]
        exact List.getElem?_set_self (List.getElem?_eq_some_iff.mp hc).1
  | wakeCaller hc hphase =>
    exact ⟨h.order, h.once, fun p hp ↦ (h.brought p hp).set hc (by rw [hphase]; decide)⟩
  | @take i _ w task rest callers _ _ hqueue hcallers =>
    constructor
    · change (s.taken ++ [task]) ++ rest = s.accepted
      rw [← h.order, hqueue, List.append_assoc, List.singleton_append]
    · exact h.once
    · intro p hp
      rcases hcallers with ⟨_, hone⟩ | ⟨_, rfl⟩
      · exact (h.brought p hp).notifyOne hone
      · exact h.brought p hp
  | test | wait | finish | wakeWorker | stop | join => exact ⟨h.order, h.once, h.brought⟩

/-! ## The calls behind the tasks -/

def Label.task? : Label α → Option α
  | .run task => some task
  | _ => none

/-- The call that has its turn under the mutex. -/
def Label.caller? : Label α → Option Nat
  | .push i _ => some i
  | _ => none

def returned (callers : List (Caller α)) (i : Nat) : Bool :=
  callers[i]?.any fun c ↦ decide (c.phase = .returned)

theorem returned_eq {i : Nat} {c : Caller α} (hc : callers[i]? = some c) :
    returned callers i = decide (c.phase = .returned) := by
  rw [returned, hc, Option.any_some]

theorem returned_set {i : Nat} {c c' : Caller α} (hc : callers[i]? = some c) (j : Nat) :
    returned (callers.set i c') j =
      if j = i then decide (c'.phase = .returned) else returned callers j := by
  have hlt := (List.getElem?_eq_some_iff.mp hc).1
  split
  next heq =>
    rw [heq]
    exact returned_eq (List.getElem?_set_self hlt)
  next hne => rw [returned, returned, List.getElem?_set_ne (Ne.symm hne)]

/-- A call that has not returned moves, and does not return. -/
theorem returned_set_of_ne {i : Nat} {c c' : Caller α} (hc : callers[i]? = some c)
    (hold : c.phase ≠ .returned) (hnew : c'.phase ≠ .returned) :
    returned (callers.set i c') = returned callers := by
  funext j
  rw [returned_set hc]
  split
  next heq => rw [heq, returned_eq hc, decide_eq_false hold, decide_eq_false hnew]
  next => rfl

theorem tasks_set {i : Nat} {c : Caller α} {phase : CallerPhase} (hc : callers[i]? = some c) :
    (callers.set i ⟨c.task, phase⟩).map Caller.task = callers.map Caller.task := by
  obtain ⟨hlt, hget⟩ := List.getElem?_eq_some_iff.mp hc
  have hlt' : i < (callers.map Caller.task).length := by rwa [List.length_map]
  have hself : c.task = (callers.map Caller.task)[i] := by
    rw [List.getElem_map, hget]
  rw [List.map_set, hself, List.set_getElem_self]

theorem notifyOne_callers {choice : Option Nat}
    (hone : notFull_.notifyOne callers choice = some callers') :
    returned callers' = returned callers ∧
      callers'.map Caller.task = callers.map Caller.task := by
  rcases CondVar.notifyOne_cases hone with ⟨rfl, _⟩ | ⟨j, c, hc, hsleeping, rfl⟩
  · exact ⟨rfl, rfl⟩
  · have hwaiting : c.phase = .waiting := of_decide_eq_true hsleeping
    refine ⟨returned_set_of_ne hc (by rw [hwaiting]; decide) ?_, tasks_set hc⟩
    show CallerPhase.notified ≠ .returned
    decide

theorem dedup_append_singleton {β : Type} [DecidableEq β] (xs : List β) (a : β) :
    (xs ++ [a]).dedup = (xs.filter (· ≠ a)).dedup ++ [a] := by
  induction xs with
  | nil => rfl
  | cons x xs ih =>
    rw [List.cons_append]
    by_cases heq : x = a
    · have hmem : x ∈ xs ++ [a] := List.mem_append_right _ (List.mem_singleton.mpr heq)
      rw [List.dedup_cons_of_mem hmem, ih, List.filter_cons_of_neg (by simpa using heq)]
    · rw [List.filter_cons_of_pos (by simpa using heq)]
      by_cases hmem : x ∈ xs
      · rw [List.dedup_cons_of_mem (List.mem_append_left _ hmem), ih,
          List.dedup_cons_of_mem (List.mem_filter.mpr ⟨hmem, by simpa using heq⟩)]
      · rw [List.dedup_cons_of_notMem (by simp [hmem, heq]), ih,
          List.dedup_cons_of_notMem fun hin ↦ hmem (List.mem_filter.mp hin).1, List.cons_append]

/-- The calls are those of the labels; the tasks accepted are those of the calls that have returned,
in the order of the last turns of these calls under the mutex. -/
structure Admitted (ls : List (Label α)) (s : ThreadPool α) : Prop where
  calls : s.callers.map Caller.task = ls.filterMap Label.task?
  turns : ∀ i ∈ ls.filterMap Label.caller?, i < s.callers.length
  order : s.accepted.map Prod.fst =
    ((ls.filterMap Label.caller?).filter (returned s.callers)).dedup
  complete : s.threads_ ≠ [] → ∀ i, returned s.callers i = true → i ∈ s.accepted.map Prod.fst

theorem admitted_started (max n : Nat) : Admitted [] (started max n : ThreadPool α) where
  calls := rfl
  turns := by simp
  order := rfl
  complete _ i hreturned := by simp [returned, started] at hreturned

/-- A step that neither begins nor ends a call. -/
theorem Admitted.still {ls : List (Label α)} (h : Admitted ls s) (htask : l.task? = none)
    (hcaller : ∀ i, l.caller? = some i → i < s.callers.length ∧ returned s.callers i = false)
    (htasks : t.callers.map Caller.task = s.callers.map Caller.task)
    (hreturned : returned t.callers = returned s.callers) (haccepted : t.accepted = s.accepted)
    (hthreads : t.threads_.length = s.threads_.length) : Admitted (ls ++ [l]) t := by
  have hlength : t.callers.length = s.callers.length := by
    simpa using congrArg List.length htasks
  have hsingle : [l].filterMap Label.caller? = l.caller?.toList := by
    cases hc : l.caller? <;> simp [hc]
  constructor
  · rw [htasks, h.calls, List.filterMap_append, List.filterMap_cons_none htask,
      List.filterMap_nil, List.append_nil]
  · intro i hi
    rw [List.filterMap_append, hsingle] at hi
    rw [hlength]
    rcases List.mem_append.mp hi with hold | hnew
    · exact h.turns i hold
    · exact (hcaller i (Option.mem_toList.mp hnew)).1
  · have hnone : (l.caller?.toList).filter (returned s.callers) = [] := by
      rw [List.filter_eq_nil_iff]
      intro i hi
      rw [(hcaller i (Option.mem_toList.mp hi)).2]
      exact Bool.false_ne_true
    rw [haccepted, hreturned, List.filterMap_append, hsingle, List.filter_append, hnone,
      List.append_nil, h.order]
  · intro hworkers
    rw [haccepted, hreturned]
    apply h.complete
    intro hnil
    rw [hnil, List.length_nil, List.length_eq_zero_iff] at hthreads
    exact hworkers hthreads

theorem Admitted.call {ls : List (Label α)} (h : Admitted ls s) (task : α) :
    Admitted (ls ++ [.run task]) (s.call task) := by
  have hcaller : (ls ++ [Label.run task]).filterMap Label.caller? = ls.filterMap Label.caller? := by
    rw [List.filterMap_append]
    exact List.append_nil _
  have hold : ∀ i, i < s.callers.length →
      returned (s.call task).callers i = returned s.callers i := by
    intro i hi
    rw [returned, returned, ThreadPool.call, List.getElem?_append_left hi]
  constructor
  · rw [ThreadPool.call, List.map_append, h.calls, List.filterMap_append]
    rfl
  · intro i hi
    rw [hcaller] at hi
    rw [ThreadPool.call, List.length_append]
    exact Nat.lt_add_right _ (h.turns i hi)
  · have hfilter : (ls.filterMap Label.caller?).filter (returned (s.call task).callers) =
        (ls.filterMap Label.caller?).filter (returned s.callers) :=
      List.filter_congr fun i hi ↦ hold i (h.turns i hi)
    rw [hcaller, hfilter]
    exact h.order
  · intro hworkers i hreturned
    by_cases hi : i < s.callers.length
    · rw [hold i hi] at hreturned
      exact h.complete hworkers i hreturned
    · -- with workers the new call is on its way to the mutex
      exfalso
      have hright : (s.call task).callers[i]? =
          [(⟨task, if s.threads_ = [] then .returned else .entering⟩ : Caller α)][
            i - s.callers.length]? := by
        rw [ThreadPool.call, List.getElem?_append_right (Nat.le_of_not_lt hi)]
      have hnil : s.threads_ ≠ [] := hworkers
      rw [returned, hright, if_neg hnil] at hreturned
      cases hindex : i - s.callers.length with
      | zero => simp [hindex] at hreturned
      | succ k => simp [hindex] at hreturned

theorem Admitted.push {ls : List (Label α)} {i : Nat} {choice : Option Nat} {c : Caller α}
    {threads : List Worker} (h : Admitted ls s) (hc : s.callers[i]? = some c)
    (hphase : c.phase ≠ .returned) (hlength : threads.length = s.threads_.length) :
    Admitted (ls ++ [.push i choice]) { s.setCaller i c.task .returned with
      queue_ := s.queue_ ++ [(i, c.task)], accepted := s.accepted ++ [(i, c.task)]
      threads_ := threads } := by
  have hset := @returned_set _ s.callers i c ⟨c.task, .returned⟩ hc
  have hmap : (ls ++ [Label.push i choice]).filterMap Label.caller? =
      ls.filterMap Label.caller? ++ [i] := List.filterMap_append
  constructor
  · show (s.callers.set i _).map Caller.task = _
    rw [tasks_set hc, h.calls, List.filterMap_append]
    exact (List.append_nil _).symm
  · intro j hj
    rw [hmap] at hj
    show j < (s.callers.set i _).length
    rw [List.length_set]
    rcases List.mem_append.mp hj with hold | hnew
    · exact h.turns j hold
    · rw [List.mem_singleton.mp hnew]
      exact (List.getElem?_eq_some_iff.mp hc).1
  · -- only the last turn of the call counts, as it had to wait in those before
    have hself : returned (s.callers.set i ⟨c.task, .returned⟩) i = true := by
      rw [hset, if_pos rfl]
      rfl
    have hothers : ∀ j, (returned (s.callers.set i ⟨c.task, .returned⟩) j && decide (j ≠ i)) =
        returned s.callers j := by
      intro j
      rw [hset]
      by_cases heq : j = i
      · rw [heq, returned_eq hc, decide_eq_false hphase]
        simp
      · simp [heq]
    show (s.accepted ++ [(i, c.task)]).map Prod.fst =
      (((ls ++ [Label.push i choice]).filterMap Label.caller?).filter
        (returned (s.callers.set i ⟨c.task, .returned⟩))).dedup
    rw [hmap, List.filter_append, List.filter_cons_of_pos hself, List.filter_nil,
      dedup_append_singleton, List.filter_filter, List.map_append, h.order]
    congr 2
    apply List.filter_congr
    intro j _
    rw [← hothers j, Bool.and_comm]
  · intro hworkers j hreturned
    have hreturned : returned (s.callers.set i ⟨c.task, .returned⟩) j = true := hreturned
    show j ∈ (s.accepted ++ [(i, c.task)]).map Prod.fst
    rw [hset] at hreturned
    rw [List.map_append, List.mem_append]
    by_cases heq : j = i
    · exact .inr (List.mem_singleton.mpr heq)
    · rw [if_neg heq] at hreturned
      refine .inl (h.complete (fun hnil ↦ hworkers ?_) j hreturned)
      rw [hnil, List.length_nil] at hlength
      exact List.length_eq_zero_iff.mp hlength

theorem admitted_step {ls : List (Label α)} (h : Admitted ls s) (hstep : Step s l t) :
    Admitted (ls ++ [l]) t := by
  have hnobody : ∀ i, (none : Option Nat) = some i →
      i < s.callers.length ∧ returned s.callers i = false := fun i hi ↦ nomatch hi
  cases step_cases hstep with
  | run => exact h.call _
  | @full i choice c hc hphase _ =>
    apply h.still rfl
    · intro j hj
      cases hj
      refine ⟨(List.getElem?_eq_some_iff.mp hc).1, ?_⟩
      rw [returned_eq hc, decide_eq_false (ne_returned hphase)]
    · exact tasks_set hc
    · exact returned_set_of_ne hc (ne_returned hphase) nofun
    · rfl
    · rfl
  | push hc hphase _ hone =>
    exact h.push hc (ne_returned hphase) (CondVar.length_notifyOne hone)
  | wakeCaller hc hphase =>
    exact h.still rfl hnobody (tasks_set hc)
      (returned_set_of_ne hc (by rw [hphase]; decide) nofun) rfl rfl
  | @take i _ w task rest callers _ _ _ hcallers =>
    have hsame : returned callers = returned s.callers ∧
        callers.map Caller.task = s.callers.map Caller.task := by
      rcases hcallers with ⟨_, hone⟩ | ⟨_, rfl⟩
      · exact notifyOne_callers hone
      · exact ⟨rfl, rfl⟩
    exact h.still rfl hnobody hsame.2 hsame.1 rfl List.length_set
  | test | wait | finish | wakeWorker => exact h.still rfl hnobody rfl rfl rfl List.length_set
  | stop => exact h.still rfl hnobody rfl rfl rfl (CondVar.length_notifyAll notEmpty_ _)
  | join => exact h.still rfl hnobody rfl rfl rfl rfl

/-! ## The bound and the wakeups -/

structure Noticed (s : ThreadPool α) : Prop where
  bound : 0 < s.maxQueueSize_ → s.queue_.length ≤ s.maxQueueSize_
  tasks : notEmpty_.Covered s.threads_ s.queue_.length
  places : notFull_.Covered s.callers (s.maxQueueSize_ - s.queue_.length)
  /-- Without a bound nobody waits for a place. -/
  unbounded : s.maxQueueSize_ = 0 → s.callers.countP notFull_.sleeping = 0
  /-- Without workers nothing is queued. -/
  workerless : s.threads_ = [] → s.queue_ = [] ∧ ∀ c ∈ s.callers, c.phase = .returned

theorem noticed_started (max n : Nat) : Noticed (started max n : ThreadPool α) where
  bound _ := Nat.zero_le _
  tasks := notEmpty_.covered_zero _
  places hpos := by simp [started] at hpos
  unbounded _ := rfl
  workerless _ := ⟨rfl, by simp [started]⟩

theorem not_full (h : s.isFull = false) :
    s.maxQueueSize_ = 0 ∨ s.queue_.length < s.maxQueueSize_ := by
  unfold isFull at h
  have hnot := of_decide_eq_false h
  omega

theorem Noticed.threads_ne (h : Noticed s) {i : Nat} {c : Caller α} (hc : s.callers[i]? = some c)
    (hphase : c.phase ≠ .returned) : s.threads_ ≠ [] :=
  fun hnone ↦ hphase ((h.workerless hnone).2 c (List.mem_of_getElem? hc))

theorem Noticed.unbounded_set {i : Nat} {c c' : Caller α} (h : Noticed s)
    (hc : s.callers[i]? = some c)
    (hmax : s.maxQueueSize_ = 0) (hawake : notFull_.sleeping c' = false) :
    (s.callers.set i c').countP notFull_.sleeping = 0 := by
  have hcount := countP_set_add hc notFull_.sleeping c'
  rw [hawake, h.unbounded hmax] at hcount
  simp only [Bool.toNat_false, Nat.add_zero] at hcount
  omega

/-- A step that moves one worker only. -/
theorem Noticed.setWorker {i : Nat} {w w' : Worker} (h : Noticed s) (hw : s.threads_[i]? = some w)
    (htasks : notEmpty_.Covered (s.threads_.set i w') s.queue_.length) :
    Noticed (s.setWorker i w') where
  bound := h.bound
  tasks := htasks
  places := h.places
  unbounded := h.unbounded
  workerless hnone := by
    have hempty : s.threads_ = [] := (List.set_eq_nil_iff _ _).mp hnone
    rw [hempty] at hw
    cases hw

theorem Noticed.setCaller {i : Nat} {c : Caller α} {phase : CallerPhase} (h : Noticed s)
    (hc : s.callers[i]? = some c) (hphase : c.phase ≠ .returned)
    (hplaces : notFull_.Covered (s.callers.set i ⟨c.task, phase⟩)
    (s.maxQueueSize_ - s.queue_.length))
    (hsleeps : phase = .waiting → 0 < s.maxQueueSize_) : Noticed (s.setCaller i c.task phase) where
  bound := h.bound
  tasks := h.tasks
  places := hplaces
  unbounded hmax := by
    change s.maxQueueSize_ = 0 at hmax
    apply h.unbounded_set hc hmax
    apply decide_eq_false
    intro hwaiting
    have hpos := hsleeps hwaiting
    omega
  workerless hnone := (h.threads_ne hc hphase hnone).elim

theorem Noticed.call (h : Noticed s) (task : α) : Noticed (s.call task) := by
  have hawake : (if s.threads_ = [] then CallerPhase.returned else .entering) ≠ .waiting := by
    split <;> decide
  constructor
  · exact h.bound
  · exact h.tasks
  · exact h.places.append (decide_eq_false hawake)
  · intro hmax
    change (s.callers ++ [_]).countP notFull_.sleeping = 0
    rw [List.countP_append, h.unbounded hmax, Nat.zero_add, List.countP_singleton, if_neg]
    exact mt of_decide_eq_true hawake
  · intro hnone
    change s.threads_ = [] at hnone
    refine ⟨(h.workerless hnone).1, ?_⟩
    intro c hc
    rcases List.mem_append.mp hc with hold | hnew
    · exact (h.workerless hnone).2 c hold
    · rw [List.mem_singleton.mp hnew]
      exact if_pos hnone

theorem Noticed.push {i : Nat} {c : Caller α} {choice : Option Nat} {threads : List Worker}
    (h : Noticed s)
    (hc : s.callers[i]? = some c) (hphase : c.phase ≠ .returned) (hfull : s.isFull = false)
    (hone : notEmpty_.notifyOne s.threads_ choice = some threads) :
    Noticed { s.setCaller i c.task .returned with
      queue_ := s.queue_ ++ [(i, c.task)], accepted := s.accepted ++ [(i, c.task)],
      threads_ := threads } := by
  have hroom := not_full hfull
  have hlength : (s.queue_ ++ [(i, c.task)]).length = s.queue_.length + 1 := List.length_append
  constructor
  · intro hmax
    change 0 < s.maxQueueSize_ at hmax
    change (s.queue_ ++ [(i, c.task)]).length ≤ s.maxQueueSize_
    omega
  · change notEmpty_.Covered threads (s.queue_ ++ [(i, c.task)]).length
    rw [hlength]
    exact h.tasks.notifyOne hone
  · change notFull_.Covered (s.callers.set i ⟨c.task, .returned⟩)
      (s.maxQueueSize_ - (s.queue_ ++ [(i, c.task)]).length)
    by_cases hmax : s.maxQueueSize_ = 0
    · rw [hmax, Nat.zero_sub]
      exact notFull_.covered_zero _
    · -- the place is gone, and so may be a call that was woken for it
      apply h.places.set hc rfl
      have hwoken := (notFull_.woken c).toNat_le
      omega
  · exact fun hmax ↦ h.unbounded_set hc hmax rfl
  · intro hnone
    have hlive := List.length_pos_iff.mpr (h.threads_ne hc hphase)
    rw [← CondVar.length_notifyOne hone, List.length_pos_iff] at hlive
    exact (hlive hnone).elim

theorem Noticed.take {i : Nat} {w : Worker} {task : Nat × α} {rest : List (Nat × α)}
    {choice : Option Nat}
    (h : Noticed s) (hw : s.threads_[i]? = some w) (hqueue : s.queue_ = task :: rest)
    (hcallers : 0 < s.maxQueueSize_ ∧ notFull_.notifyOne s.callers choice = some callers ∨
      s.maxQueueSize_ = 0 ∧ callers = s.callers) :
    Noticed { s.setWorker i .busy with queue_ := rest, taken := s.taken ++ [task], callers :=
      callers } := by
  have hlength : s.queue_.length = rest.length + 1 := by rw [hqueue, List.length_cons]
  constructor
  · intro hmax
    have hold := h.bound hmax
    change rest.length ≤ s.maxQueueSize_
    omega
  · -- the task is gone, and so may be a worker that was woken for it
    apply h.tasks.set hw rfl
    have hwoken := (notEmpty_.woken w).toNat_le
    change rest.length + (notEmpty_.woken w).toNat ≤ _
    omega
  · change notFull_.Covered callers (s.maxQueueSize_ - rest.length)
    rcases hcallers with ⟨_, hone⟩ | ⟨hmax, rfl⟩
    · apply (h.places.notifyOne hone).mono
      omega
    · rw [hmax, Nat.zero_sub]
      exact notFull_.covered_zero _
  · intro hmax
    change s.maxQueueSize_ = 0 at hmax
    rcases hcallers with ⟨hpos, _⟩ | ⟨_, rfl⟩
    · omega
    · exact h.unbounded hmax
  · intro hnone
    have hempty : s.threads_ = [] := (List.set_eq_nil_iff _ _).mp hnone
    rw [hempty] at hw
    cases hw

theorem Noticed.stop (h : Noticed s) : Noticed s.stop where
  bound := h.bound
  tasks := notEmpty_.covered_notifyAll _ _
  places := h.places
  unbounded := h.unbounded
  workerless hnone := by
    apply h.workerless
    rw [← List.length_eq_zero_iff, ← CondVar.length_notifyAll notEmpty_, List.length_eq_zero_iff]
    exact hnone

theorem noticed_step (h : Noticed s) (hstep : Step s l t) : Noticed t := by
  cases step_cases hstep with
  | run => exact h.call _
  | full hc hphase hfull =>
    have hbound := of_decide_eq_true hfull
    apply h.setCaller hc (ne_returned hphase)
    · rw [Nat.sub_eq_zero_of_le hbound.2]
      exact notFull_.covered_zero _
    · exact fun _ ↦ hbound.1
  | push hc hphase hfull hone => exact h.push hc (ne_returned hphase) hfull hone
  | wakeCaller hc hphase =>
    have hawake : ∀ task : α, notFull_.sleeping ⟨task, .notified⟩ = false := fun _ ↦ rfl
    apply h.setCaller hc (by rw [hphase]; decide)
    · apply h.places.set hc (hawake _)
      rw [notFull_.woken_of_sleeping _ (decide_eq_true hphase)]
      exact Nat.le_add_right _ _
    · exact fun hwaiting ↦ nomatch hwaiting
  | test hw =>
    apply h.setWorker hw
    apply h.tasks.set hw
    · split <;> rfl
    · exact Nat.le_add_right _ _
  | wait hw _ hqueue =>
    apply h.setWorker hw
    rw [hqueue]
    exact notEmpty_.covered_zero _
  | take hw _ hqueue hcallers => exact h.take hw hqueue hcallers
  | finish hw =>
    apply h.setWorker hw
    apply h.tasks.set hw rfl
    exact Nat.le_add_right _ _
  | wakeWorker hw =>
    apply h.setWorker hw
    apply h.tasks.set hw rfl
    exact Nat.le_add_right _ _
  | stop _ => exact h.stop
  | join _ _ => exact ⟨h.bound, h.tasks, h.places, h.unbounded, h.workerless⟩

/-! ## Runs -/

variable {max n : Nat} {ls : List (Label α)}

theorem ordered_run (h : Run Step (started max n) ls s) : Ordered s :=
  h.invariant Ordered (fun _ _ _ hs hstep ↦ ordered_step hs hstep) (ordered_started max n)

theorem noticed_run (h : Run Step (started max n) ls s) : Noticed s :=
  h.invariant Noticed (fun _ _ _ hs hstep ↦ noticed_step hs hstep) (noticed_started max n)

theorem admitted_run (h : Run Step (started max n) ls s) : Admitted ls s := by
  have hadmitted := h.invariant_labels (Admitted (α := α))
    (fun _ _ _ _ hs hstep ↦ admitted_step hs hstep) (admitted_started max n)
  rwa [List.nil_append] at hadmitted

/-- In every run the tasks taken and the queue are the tasks accepted.  These are brought each by a
call of its own that has returned, and in the order of the last turns of these calls under the mutex
(`dedup` keeps the last); and every call of a pool with workers that has returned has brought its
task.  The bound holds; with tasks in the queue some worker is not asleep, and with a place in it
some caller has been woken if any waits. -/
theorem queue_accounted (h : Run Step (started max n) ls s) :
    s.taken ++ s.queue_ = s.accepted ∧
    s.callers.map Caller.task = ls.filterMap Label.task? ∧
    s.accepted.map Prod.fst =
      ((ls.filterMap Label.caller?).filter (returned s.callers)).dedup ∧
    (∀ p ∈ s.accepted, s.callers[p.1]? = some ⟨p.2, .returned⟩) ∧
    (s.threads_ ≠ [] → ∀ i task, s.callers[i]? = some ⟨task, .returned⟩ → (i, task) ∈ s.accepted) ∧
    ((s.taken ++ s.queue_).map Prod.fst).Nodup ∧
    (0 < s.maxQueueSize_ → s.queue_.length ≤ s.maxQueueSize_) ∧
    (s.queue_ ≠ [] → ∃ w ∈ s.threads_, w ≠ .waiting) ∧
    (s.isFull = false → (∃ c ∈ s.callers, c.phase = .waiting) →
      ∃ c ∈ s.callers, c.phase = .notified) := by
  have hordered := ordered_run h
  have hadmitted := admitted_run h
  have hnoticed := noticed_run h
  refine ⟨hordered.order, hadmitted.calls, hadmitted.order, hordered.brought, ?_, ?_,
    hnoticed.bound, ?_, ?_⟩
  · intro hworkers i task hcaller
    have hmem := hadmitted.complete hworkers i (returned_eq hcaller)
    obtain ⟨⟨j, task'⟩, hp, heq⟩ := List.mem_map.mp hmem
    cases heq
    -- the call has one task
    cases hcaller.symm.trans (hordered.brought _ hp)
    exact hp
  · rw [hordered.order]
    exact hordered.once
  · intro hqueue
    have hworkers : s.threads_ ≠ [] := fun hnone ↦ hqueue (hnoticed.workerless hnone).1
    obtain ⟨w, hw, hawake⟩ :=
      hnoticed.tasks.exists_awake (List.length_pos_iff.mpr hqueue) hworkers
    exact ⟨w, hw, of_decide_eq_false hawake⟩
  · intro hfull hwaiting
    obtain ⟨c, hc, hsleeps⟩ := hwaiting
    have hplace : 0 < s.maxQueueSize_ - s.queue_.length := by
      rcases not_full hfull with hmax | hroom
      · have hnone := List.countP_eq_zero.mp (hnoticed.unbounded hmax) c hc
        exact absurd (decide_eq_true hsleeps) hnone
      · omega
    obtain ⟨c', hc', hwoken⟩ :=
      hnoticed.places.exists_woken hplace ⟨c, hc, decide_eq_true hsleeps⟩
    exact ⟨c', hc', of_decide_eq_true hwoken⟩

/-- Two calls want one place; the worker that takes the first task wakes the second call. -/
def placeFreed : ThreadPool Bool where
  maxQueueSize_ := 1
  threads_ := [.busy]
  callers := [⟨true, .returned⟩, ⟨false, .notified⟩]
  accepted := [(0, true)]
  taken := [(0, true)]

theorem queue_accounted_freed :
    Run Step (started 1 1) [.run true, .push 0 none, .run false, .push 1 none, .finish 0, .test 0,
      .take 0 (some 1)] placeFreed ∧
    placeFreed.taken ++ placeFreed.queue_ = placeFreed.accepted ∧
    placeFreed.callers.map Caller.task = [true, false] ∧
    placeFreed.accepted.map Prod.fst = ([0, 1].filter (returned placeFreed.callers)).dedup ∧
    (∀ p ∈ placeFreed.accepted, placeFreed.callers[p.1]? = some ⟨p.2, .returned⟩) ∧
    (placeFreed.threads_ ≠ [] → ∀ i task, placeFreed.callers[i]? = some ⟨task, .returned⟩ →
      (i, task) ∈ placeFreed.accepted) ∧
    ((placeFreed.taken ++ placeFreed.queue_).map Prod.fst).Nodup ∧
    (0 < placeFreed.maxQueueSize_ → placeFreed.queue_.length ≤ placeFreed.maxQueueSize_) ∧
    (placeFreed.queue_ ≠ [] → ∃ w ∈ placeFreed.threads_, w ≠ .waiting) ∧
    (placeFreed.isFull = false → (∃ c ∈ placeFreed.callers, c.phase = .waiting) →
      ∃ c ∈ placeFreed.callers, c.phase = .notified) := by
  have hrun : Run Step (started 1 1) [.run true, .push 0 none, .run false, .push 1 none, .finish 0,
      .test 0, .take 0 (some 1)] placeFreed :=
    .cons rfl <| .cons rfl <| .cons rfl <| .cons rfl <| .cons rfl <| .cons rfl <| .cons rfl <|
    .nil _
  exact ⟨hrun, queue_accounted hrun⟩

end Pallette.ThreadPool
