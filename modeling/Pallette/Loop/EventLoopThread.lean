import Mathlib.Data.Prod.Lex
import Mathlib.Order.WellFounded
import Pallette.Loop.EventLoop
import Pallette.Reasoning.Run

/-!
# EventLoopThread — a loop in a thread of its own, and the destructor that ends it

The worker publishes `loop_` before it enters `loop()`, and `startLoop` returns as soon as it sees
it.  `quit` stores what it has read from `looping_`, and `loop()` clears `quit_` behind the store to
`looping_`: a `quit` that falls ahead of either is lost, and the destructor joins a thread that does
not end.
-/

open Reasoning

namespace Pallette

namespace EventLoopThread

/-- Where the worker stands in `threadFunc`. -/
inductive WorkerState
  | callback
  | published
  | looping
  | returned
  | ended
deriving DecidableEq, Repr

/-- Where the owner stands: in `startLoop`, between the two calls, and in the destructor. -/
inductive OwnerState
  | starting
  | started
  | exiting
  | quitLoad
  | quitStore (looping : Bool)
  | quitWakeup
  | joining
  | destroyed
deriving DecidableEq, Repr

/-- A step of the worker or of the owner, or one inside the loop. -/
inductive Label (α : Type*)
  | publish
  | enter
  | loop (l : EventLoop.Label α)
  | leave
  | clearLoop
  | startLoop
  | destructor
  | testLoop
  | quitLoad
  | quitStore
  | quitWakeup
  | join
deriving DecidableEq, Repr

/-- The steps of the loop that run inside `loop()`, and the calls of `queueInLoop` by anybody:
`quit` is called by the destructor. -/
def InLoop {α : Type*} : EventLoop.Label α → Prop
  | .loop | .leave | .quit | .thread _ .quit => False
  | _ => True

instance {α : Type*} (l : EventLoop.Label α) : Decidable (InLoop l) := by
  unfold InLoop
  split <;> infer_instance

end EventLoopThread

open EventLoopThread

structure EventLoopThread (α : Type*) where
  loop : EventLoop α := {}
  loop_ : Bool := false
  exiting_ : Bool := false
  worker : WorkerState := .callback
  owner : OwnerState := .starting

namespace EventLoopThread

variable {α : Type*}

def next (s : EventLoopThread α) : Label α → Option (EventLoopThread α)
  | .publish => if s.worker = .callback then some { s with loop_ := true, worker := .published }
      else none
  | .enter =>
      if s.worker = .published then
        (s.loop.next .loop).map fun loop ↦ { s with loop := loop, worker := .looping }
      else none
  | .loop l =>
      if InLoop l then (s.loop.next l).map fun loop ↦ { s with loop := loop } else none
  | .leave =>
      if s.worker = .looping then
        (s.loop.next .leave).map fun loop ↦ { s with loop := loop, worker := .returned }
      else none
  | .clearLoop => if s.worker = .returned then some { s with loop_ := false, worker := .ended }
      else none
  | .startLoop => if s.owner = .starting ∧ s.loop_ then some { s with owner := .started } else none
  | .destructor => if s.owner = .started then some { s with exiting_ := true, owner := .exiting }
      else none
  | .testLoop =>
      -- a worker that has ended is not joined
      if s.owner = .exiting then some { s with owner := if s.loop_ then .quitLoad else .destroyed }
        else none
  | .quitLoad =>
      if s.owner = .quitLoad then some { s with owner := .quitStore s.loop.looping_ } else none
  | .quitStore =>
      match s.owner with
      | .quitStore looping =>
          some { s with loop := { s.loop with quit_ := looping }, owner := .quitWakeup }
      | _ => none
  | .quitWakeup =>
      if s.owner = .quitWakeup then some { s with loop := s.loop.wakeup, owner := .joining }
        else none
  | .join => if s.owner = .joining ∧ s.worker = .ended then some { s with owner := .destroyed }
      else none

def Step (s : EventLoopThread α) (l : Label α) (t : EventLoopThread α) : Prop :=
  s.next l = some t

/-- What a step can be. -/
inductive StepCases (s : EventLoopThread α) : Label α → EventLoopThread α → Prop
  | publish : s.worker = .callback → StepCases s .publish { s with
      loop_ := true, worker := .published }
  | enter {loop : EventLoop α} : s.worker = .published → EventLoop.Step s.loop .loop loop →
      StepCases s .enter { s with loop := loop, worker := .looping }
  | loop {l : EventLoop.Label α} {loop : EventLoop α} : InLoop l → EventLoop.Step s.loop l loop →
      StepCases s (.loop l) { s with loop := loop }
  | leave {loop : EventLoop α} : s.worker = .looping → EventLoop.Step s.loop .leave loop →
      StepCases s .leave { s with loop := loop, worker := .returned }
  | clearLoop : s.worker = .returned →
      StepCases s .clearLoop { s with loop_ := false, worker := .ended }
  | startLoop : s.owner = .starting → s.loop_ = true →
      StepCases s .startLoop { s with owner := .started }
  | destructor : s.owner = .started →
      StepCases s .destructor { s with exiting_ := true, owner := .exiting }
  | testLoop : s.owner = .exiting →
      StepCases s .testLoop { s with owner := if s.loop_ then .quitLoad else .destroyed }
  | quitLoad : s.owner = .quitLoad →
      StepCases s .quitLoad { s with owner := .quitStore s.loop.looping_ }
  | quitStore {looping : Bool} : s.owner = .quitStore looping →
      StepCases s .quitStore { s with loop := { s.loop with quit_ := looping }, owner :=
        .quitWakeup }
  | quitWakeup : s.owner = .quitWakeup →
      StepCases s .quitWakeup { s with loop := s.loop.wakeup, owner := .joining }
  | join : s.owner = .joining → s.worker = .ended → StepCases s .join { s with owner := .destroyed }

theorem step_cases {s t : EventLoopThread α} {l : Label α} (h : Step s l t) : StepCases s l t := by
  unfold Step at h
  cases l with
  | publish | clearLoop | destructor | testLoop | quitLoad | quitWakeup =>
    rcases Option.ite_none_right_eq_some.mp h with ⟨hready, heq⟩
    cases heq
    constructor
    exact hready
  | startLoop =>
    rcases Option.ite_none_right_eq_some.mp h with ⟨hready, heq⟩
    cases heq
    exact .startLoop hready.1 hready.2
  | join =>
    rcases Option.ite_none_right_eq_some.mp h with ⟨hready, heq⟩
    cases heq
    exact .join hready.1 hready.2
  | enter =>
    rcases Option.ite_none_right_eq_some.mp h with ⟨hready, heq⟩
    rcases Option.map_eq_some_iff.mp heq with ⟨loop, hloop, rfl⟩
    exact .enter hready hloop
  | loop l =>
    rcases Option.ite_none_right_eq_some.mp h with ⟨hready, heq⟩
    rcases Option.map_eq_some_iff.mp heq with ⟨loop, hloop, rfl⟩
    exact .loop hready hloop
  | leave =>
    rcases Option.ite_none_right_eq_some.mp h with ⟨hready, heq⟩
    rcases Option.map_eq_some_iff.mp heq with ⟨loop, hloop, rfl⟩
    exact .leave hready hloop
  | quitStore =>
    simp only [next] at h
    split at h
    next looping howner =>
      cases h
      exact .quitStore howner
    next => cases h

/-! ## What the loop does to `quit_` -/

/-- No other thread is in `quit`. -/
def NoQuit (loop : EventLoop α) : Prop :=
  ∀ n looping, loop.threads n ≠ .quitStore looping

/-- How a step inside `loop()` moves the owner thread of the loop. -/
inductive Move (loop loop' : EventLoop α) : Prop
  | stays : loop'.phase = loop.phase → loop'.quit_ = loop.quit_ → Move loop loop'
  | clears : loop.phase = .entered → loop'.phase = .testing → loop'.quit_ = false → Move loop loop'
  | advances : loop.phase ≠ .outside → loop.phase ≠ .entered → loop'.phase ≠ .outside →
      loop'.phase ≠ .entered → (loop'.phase = .leaving → loop.quit_ = true) →
      loop'.quit_ = loop.quit_ → Move loop loop'

theorem noQuit_setThread {loop : EventLoop α} (h : NoQuit loop) (n : Nat)
    {st : EventLoop.ThreadState}
    (hst : ∀ looping, st ≠ .quitStore looping) : NoQuit (loop.setThread n st) := by
  intro m looping
  simp only [EventLoop.setThread]
  split
  · exact hst looping
  · exact h m looping

theorem move_of_step {loop loop' : EventLoop α} {l : EventLoop.Label α} (hno : NoQuit loop)
    (hl : InLoop l) (h : EventLoop.Step loop l loop') :
    Move loop loop' ∧ loop'.looping_ = loop.looping_ ∧ NoQuit loop' := by
  cases EventLoop.step_cases h with
  | loop _ | leave _ | quit _ => exact hl.elim
  | clearQuit hphase => exact ⟨.clears hphase rfl rfl, rfl, hno⟩
  | test hphase =>
    refine ⟨.advances (by simp [hphase]) (by simp [hphase]) ?_ ?_ (fun hleaving ↦ ?_) rfl, rfl, hno⟩
    · dsimp only
      split <;> simp
    · dsimp only
      split <;> simp
    · dsimp only at hleaving
      split at hleaving
      next hquit => exact hquit
      next => cases hleaving
  | handleRead hphase | startFunctors hphase | swap hphase | ret hphase | release hphase =>
    exact ⟨.advances (by simp [hphase]) (by simp [hphase]) (by simp) (by simp) (by simp) rfl,
      rfl, hno⟩
  | pollReturn hphase _ | run hphase _ | endFunctors hphase _ =>
    exact ⟨.advances (by simp [hphase]) (by simp [hphase]) (by simp) (by simp) (by simp) rfl,
      rfl, hno⟩
  | queueInLoop _ =>
    simp only [EventLoop.queueInLoop]
    split
    · exact ⟨.stays rfl rfl, rfl, hno⟩
    · exact ⟨.stays rfl rfl, rfl, hno⟩
  | @thread n call _ =>
    cases call with
    | queueInLoop cb => exact ⟨.stays rfl rfl, rfl, noQuit_setThread hno n (by simp)⟩
    | quit => exact hl.elim
  | @proceed n _ =>
    unfold EventLoop.threadProceed
    cases hthread : loop.threads n with
    | idle => exact ⟨.stays rfl rfl, rfl, hno⟩
    | wakeup | quitWakeup => exact ⟨.stays rfl rfl, rfl, noQuit_setThread hno n (by simp)⟩
    -- no other thread is about to quit the loop
    | quitStore looping => exact absurd hthread (hno n looping)

/-! ## The destructor's `quit` -/

/-- The destructor has stored `quit_`. -/
def QuitCalled (s : EventLoopThread α) : Prop :=
  s.owner = .quitWakeup ∨ s.owner = .joining

/-- The worker is behind its `while`, or in it with `quit_` set. -/
def QuitHeard (s : EventLoopThread α) : Prop :=
  s.worker = .returned ∨ s.worker = .ended ∨
    (s.worker = .looping ∧ s.loop.phase ≠ .entered ∧ s.loop.quit_ = true)

/-- The destructor calls `quit` on a loop that has begun: `looping_` is read when it is set (or
behind the loop), and `quit_` stored when `loop()` has cleared it. -/
def QuitInTime (s : EventLoopThread α) : Label α → Prop
  | .quitLoad => s.loop.looping_ = true ∨ s.worker = .returned ∨ s.worker = .ended
  | .quitStore => s.loop.phase ≠ .entered
  | _ => True

/-- What holds of the worker in any run. -/
structure Inv (s : EventLoopThread α) : Prop where
  noQuit : NoQuit s.loop
  outside : s.worker ≠ .looping → s.loop.looping_ = false ∧ s.loop.phase = .outside
  inside : s.worker = .looping → s.loop.phase ≠ .outside

/-- What holds of `quit` in a run in which it is in time. -/
structure Timely (s : EventLoopThread α) : Prop where
  loaded : ∀ looping, s.owner = .quitStore looping →
    s.worker = .returned ∨ s.worker = .ended ∨ (s.worker = .looping ∧ looping = true)
  heard : s.QuitCalled → s.QuitHeard

theorem inv_of_step {s t : EventLoopThread α} {l : Label α} (h : Inv s) (hstep : Step s l t) :
    Inv t := by
  cases step_cases hstep with
  | publish hworker => exact ⟨h.noQuit, fun _ ↦ h.outside (by simp [hworker]), by simp⟩
  | enter _ hloop =>
    cases EventLoop.step_cases hloop with
    | loop _ => exact ⟨h.noQuit, fun hne ↦ absurd rfl hne, by simp⟩
  | loop hl hloop =>
    rcases move_of_step h.noQuit hl hloop with ⟨hmove, hlooping, hno⟩
    refine ⟨hno, fun hworker ↦ ?_, fun hworker ↦ ?_⟩
    · rcases h.outside hworker with ⟨hfalse, houtside⟩
      refine ⟨hlooping.trans hfalse, ?_⟩
      cases hmove with
      | stays hphase _ => exact hphase.trans houtside
      | clears hentered _ _ =>
        rw [houtside] at hentered
        cases hentered
      | advances hne _ _ _ _ _ => exact absurd houtside hne
    · have hinside := h.inside hworker
      cases hmove with
      | stays hphase _ => rwa [hphase]
      | clears _ htesting _ => simp [htesting]
      | advances _ _ hne _ _ _ => exact hne
  | leave _ hloop =>
    cases EventLoop.step_cases hloop with
    | leave _ => exact ⟨h.noQuit, fun _ ↦ ⟨rfl, rfl⟩, by simp⟩
  | clearLoop hworker => exact ⟨h.noQuit, fun _ ↦ h.outside (by simp [hworker]), by simp⟩
  | startLoop _ _ | destructor _ | testLoop _ | quitLoad _ | join _ _ =>
    exact ⟨h.noQuit, h.outside, h.inside⟩
  | quitStore _ => exact ⟨h.noQuit, h.outside, h.inside⟩
  | quitWakeup _ => exact ⟨h.noQuit, h.outside, h.inside⟩

theorem inv_init : Inv ({} : EventLoopThread α) :=
  ⟨by simp [NoQuit], by simp, by simp⟩

theorem quitHeard_loop {s : EventLoopThread α} {loop : EventLoop α} (hmove : Move s.loop loop)
    (h : s.QuitHeard) : QuitHeard { s with loop := loop } := by
  rcases h with hworker | hworker | ⟨hworker, hentered, hquit⟩
  · exact .inl hworker
  · exact .inr (.inl hworker)
  · refine .inr (.inr ⟨hworker, ?_⟩)
    cases hmove with
    | stays hphase hsame => exact ⟨by rwa [hphase], hsame.trans hquit⟩
    | clears hphase _ _ => exact absurd hphase hentered
    | advances _ _ _ hphase _ hsame => exact ⟨hphase, hsame.trans hquit⟩

theorem QuitHeard.not_before {s : EventLoopThread α} (h : s.QuitHeard) :
    s.worker ≠ .callback ∧ s.worker ≠ .published := by
  rcases h with hworker | hworker | ⟨hworker, _, _⟩
  · simp [hworker]
  · simp [hworker]
  · simp [hworker]

theorem QuitHeard.in_loop {s : EventLoopThread α} (h : s.QuitHeard)
    (hworker : s.worker = .looping) :
    s.loop.phase ≠ .entered ∧ s.loop.quit_ = true := by
  rcases h with hw | hw | ⟨_, hloop⟩
  · rw [hworker] at hw
    cases hw
  · rw [hworker] at hw
    cases hw
  · exact hloop

theorem Timely.loaded_not_before {s : EventLoopThread α} (h : Timely s) {looping : Bool}
    (howner : s.owner = .quitStore looping) : s.worker ≠ .callback ∧ s.worker ≠ .published := by
  rcases h.loaded looping howner with hworker | hworker | ⟨hworker, _⟩
  · simp [hworker]
  · simp [hworker]
  · simp [hworker]

theorem timely_of_step {s t : EventLoopThread α} {l : Label α} (hinv : Inv s) (h : Timely s)
    (hstep : Step s l t) (hl : QuitInTime s l) : Timely t := by
  cases step_cases hstep with
  | publish hworker =>
    -- the destructor has not read `loop_` before it is published
    exact ⟨fun _ howner ↦ absurd hworker (h.loaded_not_before howner).1,
      fun hcalled ↦ absurd hworker (h.heard hcalled).not_before.1⟩
  | enter hworker _ =>
    exact ⟨fun _ howner ↦ absurd hworker (h.loaded_not_before howner).2,
      fun hcalled ↦ absurd hworker (h.heard hcalled).not_before.2⟩
  | loop hin hloop =>
    have hmove := (move_of_step hinv.noQuit hin hloop).1
    exact ⟨h.loaded, fun hcalled ↦ quitHeard_loop hmove (h.heard hcalled)⟩
  | leave _ _ => exact ⟨fun _ _ ↦ .inl rfl, fun _ ↦ .inl rfl⟩
  | clearLoop _ => exact ⟨fun _ _ ↦ .inr (.inl rfl), fun _ ↦ .inr (.inl rfl)⟩
  | startLoop _ _ | destructor _ | join _ _ => exact ⟨by simp, by simp [QuitCalled]⟩
  | testLoop _ =>
    refine ⟨fun looping howner ↦ ?_, fun hcalled ↦ ?_⟩
    · dsimp only at howner
      split at howner <;> cases howner
    · unfold QuitCalled at hcalled
      dsimp only at hcalled
      split at hcalled <;> simp at hcalled
  | quitLoad _ =>
    refine ⟨fun looping howner ↦ ?_, by simp [QuitCalled]⟩
    cases howner
    -- the load is in time when the worker loops, or when it is behind the loop
    rcases hl with hlooping | hworker | hworker
    · by_cases hworker : s.worker = .looping
      · exact .inr (.inr ⟨hworker, hlooping⟩)
      · rw [(hinv.outside hworker).1] at hlooping
        cases hlooping
    · exact .inl hworker
    · exact .inr (.inl hworker)
  | quitStore howner =>
    refine ⟨by simp, fun _ ↦ ?_⟩
    rcases h.loaded _ howner with hworker | hworker | ⟨hworker, htrue⟩
    · exact .inl hworker
    · exact .inr (.inl hworker)
    · exact .inr (.inr ⟨hworker, hl, htrue⟩)
  | quitWakeup howner => exact ⟨by simp, fun _ ↦ h.heard (.inl howner)⟩

/-- **A `quit` in time is heard.**  In every run in which the destructor's `quit` is in time,
whenever it has been called the worker is behind its `while` or in it with `quit_` set: it does not
loop any more, and the join comes to its end. -/
theorem quit_heard {ls : List (Label α)} {s : EventLoopThread α}
    (h : Run (Guarded Step QuitInTime) {} ls s) : s.QuitCalled → s.QuitHeard := by
  have hinv : Inv s ∧ Timely s := by
    refine h.invariant (fun s ↦ Inv s ∧ Timely s) ?_ ⟨inv_init, ⟨by simp, by simp [QuitCalled]⟩⟩
    rintro s l t ⟨hs, hs'⟩ ⟨hstep, hl⟩
    exact ⟨inv_of_step hs hstep, timely_of_step hs hs' hstep hl⟩
  exact hinv.2.heard

/-- The destructor's `quit` falls into the loop, behind the store that clears `quit_`. -/
theorem quit_heard_looping :
    ∃ s : EventLoopThread Nat, Run (Guarded Step QuitInTime) {}
        [.publish, .startLoop, .enter, .loop .clearQuit, .loop .test, .destructor, .testLoop,
        .quitLoad,
          .quitStore] s ∧ s.QuitCalled ∧ s.QuitHeard := by
  have hrun := show Run (Guarded Step QuitInTime) ({} : EventLoopThread Nat)
        [.publish, .startLoop, .enter, .loop .clearQuit, .loop .test, .destructor, .testLoop,
        .quitLoad, .quitStore] _ from
    .cons ⟨rfl, trivial⟩ <| .cons ⟨rfl, trivial⟩ <| .cons ⟨rfl, trivial⟩ <| .cons ⟨rfl, trivial⟩ <|
    .cons ⟨rfl, trivial⟩ <| .cons ⟨rfl, trivial⟩ <| .cons ⟨rfl, trivial⟩ <| .cons ⟨rfl, .inl rfl⟩ <|
    .cons ⟨rfl, by simp [QuitInTime]⟩ <| .nil _
  exact ⟨_, hrun, .inl rfl, quit_heard hrun (.inl rfl)⟩

/-- `startLoop` returns and the destructor calls `quit` before the worker is in `loop()`: it reads
`looping_` false, stores that, and the worker goes to sleep with nobody left to end it. -/
theorem quit_before_loop_lost :
    ¬ ∀ (ls : List (Label Nat)) (s : EventLoopThread Nat), Run Step {} ls s → s.QuitCalled →
        s.QuitHeard := by
  intro h
  have hrun := show Run Step ({} : EventLoopThread Nat)
        [.publish, .startLoop, .destructor, .testLoop, .quitLoad, .quitStore, .quitWakeup, .enter,
          .loop .clearQuit, .loop .test] _ from
    .cons rfl <| .cons rfl <| .cons rfl <| .cons rfl <| .cons rfl <| .cons rfl <| .cons rfl <|
    .cons rfl <| .cons rfl <| .cons rfl <| .nil _
  rcases h _ _ hrun (.inr rfl) with hworker | hworker | ⟨_, _, hquit⟩
  · cases hworker
  · cases hworker
  · cases hquit

/-! ## The join comes to its end -/

/-- The steps of the worker. -/
def Label.IsWorker : Label α → Prop
  | .publish | .enter | .leave | .clearLoop => True
  | .loop (.queueInLoop _) | .loop (.thread _ _) | .loop (.proceed _) => False
  | .loop _ => True
  | _ => False

/-- How far the worker is from its end: the phases that are still to come, and within a batch the
functors. -/
def remaining (s : EventLoopThread α) : Nat ×ₗ Nat :=
  match s.worker with
  | .ended => toLex (0, 0)
  | .returned => toLex (1, 0)
  | .callback => toLex (12, 0)
  | .published => toLex (11, 0)
  | .looping =>
      match s.loop.phase with
      | .leaving => toLex (2, 0)
      | .testing => toLex (3, 0)
      | .releasing => toLex (4, 0)
      | .running => toLex (5, 2 * s.loop.functors.length)
      | .functor => toLex (5, 2 * s.loop.functors.length + 1)
      | .swapping => toLex (6, 0)
      | .handling false => toLex (7, 0)
      | .handling true => toLex (8, 0)
      | .polling => toLex (9, 0)
      | .entered | .outside => toLex (10, 0)

theorem remaining_of_looping {s : EventLoopThread α} (hinv : Inv s)
    (hphase : s.loop.phase ≠ .outside) :
    s.worker = .looping := by
  by_contra hworker
  exact hphase (hinv.outside hworker).2

/-- With `quit_` set, every step of the worker brings it nearer to its end. -/
theorem remaining_lt {s t : EventLoopThread α} {l : Label α} (hinv : Inv s) (h : s.QuitHeard)
    (hstep : Step s l t) (hl : l.IsWorker) : t.remaining < s.remaining := by
  cases step_cases hstep with
  | publish hworker => exact absurd hworker h.not_before.1
  | enter hworker _ => exact absurd hworker h.not_before.2
  | leave hworker hloop =>
    cases EventLoop.step_cases hloop with
    | leave hphase => simp [remaining, hworker, hphase, Prod.Lex.toLex_lt_toLex]
  | clearLoop hworker => simp [remaining, hworker, Prod.Lex.toLex_lt_toLex]
  | startLoop _ _ | destructor _ | testLoop _ | quitLoad _ | quitStore _ | quitWakeup _
      | join _ _ =>
    exact hl.elim
  | loop hin hloop =>
    -- a loop in some phase is one the worker is in
    have hlooping : ∀ phase, s.loop.phase = phase → phase ≠ .outside → s.worker = .looping :=
      fun phase hphase hne ↦ remaining_of_looping hinv (by rwa [hphase])
    cases EventLoop.step_cases hloop with
    | loop _ | leave _ | quit _ => exact hin.elim
    | queueInLoop _ | thread _ | proceed _ => exact hl.elim
    | clearQuit hphase =>
      have hworker := hlooping _ hphase (by decide)
      -- `quit_` has been stored, so it is not cleared any more
      exact absurd hphase (h.in_loop hworker).1
    | test hphase =>
      have hworker := hlooping _ hphase (by decide)
      have hquit := (h.in_loop hworker).2
      simp [remaining, hworker, hphase, hquit, Prod.Lex.toLex_lt_toLex]
    | @pollReturn woken hphase _ =>
      have hworker := hlooping _ hphase (by decide)
      cases woken <;> simp [remaining, hworker, hphase, Prod.Lex.toLex_lt_toLex]
    | handleRead hphase | startFunctors hphase | swap hphase | ret hphase | release hphase =>
      have hworker := hlooping _ hphase (by decide)
      simp [remaining, hworker, hphase, EventLoop.swap, Prod.Lex.toLex_lt_toLex]
    | run hphase hfunctors =>
      have hworker := hlooping _ hphase (by decide)
      simp [remaining, hworker, hphase, hfunctors, Prod.Lex.toLex_lt_toLex]
      omega
    | endFunctors hphase _ =>
      have hworker := hlooping _ hphase (by decide)
      simp [remaining, hworker, hphase, Prod.Lex.toLex_lt_toLex]

/-- Nobody else moves it. -/
theorem remaining_eq {s t : EventLoopThread α} {l : Label α} (hstep : Step s l t)
    (hl : ¬ l.IsWorker) :
    t.remaining = s.remaining := by
  cases step_cases hstep with
  | publish _ | enter _ _ | leave _ _ | clearLoop _ => exact absurd trivial hl
  | startLoop _ _ | destructor _ | testLoop _ | quitLoad _ | join _ _ => rfl
  | quitStore _ | quitWakeup _ => rfl
  | loop hin hloop =>
    cases EventLoop.step_cases hloop with
    | loop _ | leave _ | quit _ => exact hin.elim
    | queueInLoop _ =>
      simp only [EventLoop.queueInLoop]
      split <;> rfl
    | @thread n call _ => cases call <;> rfl
    | @proceed n _ =>
      unfold EventLoop.threadProceed
      cases s.loop.threads n <;> rfl
    | _ => exact absurd trivial hl

theorem loop_can_step {s : EventLoopThread α} {l : EventLoop.Label α} {loop : EventLoop α}
    (hl : InLoop l)
    (hloop : EventLoop.Step s.loop l loop) : Step s (.loop l) { s with loop := loop } := by
  unfold Step
  simp only [next]
  rw [if_pos hl, show s.loop.next l = some loop from hloop]
  rfl

/-- The worker can go on until it has ended: `poll` returns at the latest after its timeout. -/
theorem worker_can_step {s : EventLoopThread α} (hinv : Inv s) (hworker : s.worker ≠ .ended) :
    ∃ (l : Label α) (t : EventLoopThread α), l.IsWorker ∧ Step s l t := by
  cases hw : s.worker with
  | ended => exact absurd hw hworker
  | callback => exact ⟨.publish, _, trivial, if_pos hw⟩
  | returned => exact ⟨.clearLoop, _, trivial, if_pos hw⟩
  | published =>
    have houtside := (hinv.outside (by simp [hw])).2
    exact ⟨.enter, _, trivial, by simp [Step, next, hw, EventLoop.next, houtside]; rfl⟩
  | looping =>
    cases hphase : s.loop.phase with
    | outside => exact absurd hphase (hinv.inside hw)
    | leaving => exact ⟨.leave, _, trivial, by simp [Step, next, hw, EventLoop.next, hphase]; rfl⟩
    | entered => exact ⟨.loop .clearQuit, _, trivial, loop_can_step trivial (if_pos hphase)⟩
    | testing => exact ⟨.loop .test, _, trivial, loop_can_step trivial (if_pos hphase)⟩
    | polling =>
      exact ⟨.loop (.pollReturn false), _, trivial,
        loop_can_step trivial (if_pos ⟨hphase, by simp⟩)⟩
    | handling woken =>
      cases woken with
      | true => exact ⟨.loop .handleRead, _, trivial, loop_can_step trivial (if_pos hphase)⟩
      | false => exact ⟨.loop .startFunctors, _, trivial, loop_can_step trivial (if_pos hphase)⟩
    | swapping => exact ⟨.loop .swap, _, trivial, loop_can_step trivial (if_pos hphase)⟩
    | running =>
      cases hfunctors : s.loop.functors with
      | nil => exact ⟨.loop .endFunctors, _, trivial,
          loop_can_step trivial (if_pos ⟨hphase, hfunctors⟩)⟩
      | cons cb rest =>
        have hrun : EventLoop.Step s.loop .run { s.loop with
            functors := rest, executed := s.loop.executed ++ [(cb, s.loop.batches)],
            phase := .functor } := by
          simp [EventLoop.Step, EventLoop.next, hphase, hfunctors]
        exact ⟨.loop .run, _, trivial, loop_can_step trivial hrun⟩
    | functor => exact ⟨.loop .ret, _, trivial, loop_can_step trivial (if_pos hphase)⟩
    | releasing => exact ⟨.loop .release, _, trivial, loop_can_step trivial (if_pos hphase)⟩

theorem quitCalled_of_step {s t : EventLoopThread α} {l : Label α} (hstep : Step s l t)
    (hcalled : s.QuitCalled) (hworker : s.worker ≠ .ended) : t.QuitCalled := by
  cases step_cases hstep with
  | publish _ | enter _ _ | loop _ _ | leave _ _ | clearLoop _ => exact hcalled
  | startLoop howner _ | destructor howner | testLoop howner | quitLoad howner | quitStore howner =>
    rcases hcalled with hc | hc <;> rw [howner] at hc <;> cases hc
  | quitWakeup _ => exact .inr rfl
  | join _ hended => exact absurd hended hworker

/-- **The join comes to its end.**  In every infinite run in which the destructor's `quit` is in
time and has been called, and in which the worker always gets to run again until it has ended, it
does end. -/
theorem worker_ends {f : Nat → EventLoopThread α} {l : Nat → Label α} (hinit : f 0 = {})
    (hstep : ∀ i, Guarded Step QuitInTime (f i) (l i) (f (i + 1)))
    (hcalled : ∃ i, (f i).QuitCalled)
    (hfair : ∀ i, (f i).worker ≠ .ended → ∃ j, i ≤ j ∧ (l j).IsWorker) :
    ∃ i, (f i).worker = .ended := by
  by_contra hnever
  rw [not_exists] at hnever
  have hinv : ∀ i, Inv (f i) ∧ Timely (f i) := by
    intro i
    induction i with
    | zero =>
      rw [hinit]
      exact ⟨inv_init, ⟨by simp, by simp [QuitCalled]⟩⟩
    | succ i ih =>
      exact ⟨inv_of_step ih.1 (hstep i).1, timely_of_step ih.1 ih.2 (hstep i).1 (hstep i).2⟩
  rcases hcalled with ⟨start, hstart⟩
  have hcalled : ∀ k, (f (start + k)).QuitCalled := by
    intro k
    induction k with
    | zero => exact hstart
    | succ k ih => exact quitCalled_of_step (hstep (start + k)).1 ih (hnever _)
  have hle : ∀ i, start ≤ i → (f (i + 1)).remaining ≤ (f i).remaining ∧
      ((l i).IsWorker → (f (i + 1)).remaining < (f i).remaining) := by
    intro i hi
    have hheard : (f i).QuitHeard := by
      have hc := hcalled (i - start)
      rw [Nat.add_sub_cancel' hi] at hc
      exact (hinv i).2.heard hc
    have hlt := remaining_lt (hinv i).1 hheard (hstep i).1
    by_cases hl : (l i).IsWorker
    · exact ⟨(hlt hl).le, hlt⟩
    · exact ⟨(remaining_eq (hstep i).1 hl).le, hlt⟩
  have hanti : ∀ i j, start ≤ i → i ≤ j → (f j).remaining ≤ (f i).remaining := by
    intro i j hi hij
    induction j, hij using Nat.le_induction with
    | base => exact le_rfl
    | succ j hij ih => exact (hle j (hi.trans hij)).1.trans ih
  -- from where it is least on, no step of the worker is possible any more
  rcases WellFounded.has_min (wellFounded_lt (α := Nat ×ₗ Nat)) {m | ∃ i, start ≤ i ∧
    (f i).remaining = m}
    ⟨_, start, le_rfl, rfl⟩ with ⟨m, ⟨i, hi, rfl⟩, hmin⟩
  rcases hfair i (hnever i) with ⟨j, hij, hl⟩
  have hlt := ((hle j (hi.trans hij)).2 hl).trans_le (hanti i j hi hij)
  exact hmin _ ⟨j + 1, by omega, rfl⟩ hlt

/-! ## A `quit` that is lost -/

/-- The worker is in its `while`, or on the way to it, and `quit_` is not set there. -/
def QuitLost (s : EventLoopThread α) : Prop :=
  s.worker = .callback ∨ s.worker = .published ∨
    (s.worker = .looping ∧ (s.loop.phase = .entered ∨
      (s.loop.phase ≠ .outside ∧ s.loop.phase ≠ .leaving ∧ s.loop.quit_ = false)))

/-- The worker is not behind its loop. -/
theorem QuitLost.not_behind {s : EventLoopThread α} (h : s.QuitLost) :
    s.worker ≠ .returned ∧ s.worker ≠ .ended := by
  rcases h with hworker | hworker | ⟨hworker, _⟩
  · simp [hworker]
  · simp [hworker]
  · simp [hworker]

theorem quitLost_of_step {s t : EventLoopThread α} {l : Label α} (hinv : Inv s)
    (hcalled : s.QuitCalled) (h : s.QuitLost) (hstep : Step s l t) : t.QuitCalled ∧ t.QuitLost := by
  cases step_cases hstep with
  | publish _ => exact ⟨hcalled, .inr (.inl rfl)⟩
  | enter _ hloop =>
    cases EventLoop.step_cases hloop with
    | loop _ => exact ⟨hcalled, .inr (.inr ⟨rfl, .inl rfl⟩)⟩
  | loop hl hloop =>
    refine ⟨hcalled, ?_⟩
    rcases h with hworker | hworker | ⟨hworker, hphase⟩
    · exact .inl hworker
    · exact .inr (.inl hworker)
    · refine .inr (.inr ⟨hworker, ?_⟩)
      cases (move_of_step hinv.noQuit hl hloop).1 with
      | stays hsame hquit =>
        dsimp only
        rw [hsame, hquit]
        exact hphase
      | clears _ htesting hquit => exact .inr (by simp [htesting, hquit])
      | advances _ hentered hout _ hleaving hquit =>
        rcases hphase with hphase | ⟨_, _, hfalse⟩
        · exact absurd hphase hentered
        -- the test finds `quit_` clear
        · refine .inr ⟨hout, fun hleaves ↦ ?_, hquit.trans hfalse⟩
          rw [hleaving hleaves] at hfalse
          cases hfalse
  | leave hworker hloop =>
    cases EventLoop.step_cases hloop with
    | leave hleaving =>
      rcases h with hw | hw | ⟨_, hphase | ⟨_, hne, _⟩⟩
      · rw [hworker] at hw
        cases hw
      · rw [hworker] at hw
        cases hw
      · rw [hleaving] at hphase
        cases hphase
      · exact absurd hleaving hne
  | clearLoop hworker => exact absurd hworker h.not_behind.1
  | startLoop howner _ | destructor howner | testLoop howner | quitLoad howner | quitStore howner =>
    rcases hcalled with hc | hc <;> rw [howner] at hc <;> cases hc
  | quitWakeup _ => exact ⟨.inr rfl, h⟩
  | join _ hworker => exact absurd hworker h.not_behind.2

/-- Once it is lost the worker never ends, and the join waits for it forever. -/
theorem join_forever {ls : List (Label α)} {s t : EventLoopThread α} (hinv : Inv s)
    (hcalled : s.QuitCalled) (h : s.QuitLost) (hrun : Run Step s ls t) :
    t.QuitCalled ∧ t.worker ≠ .ended := by
  have hall : Inv t ∧ t.QuitCalled ∧ t.QuitLost := by
    refine hrun.invariant (fun s ↦ Inv s ∧ s.QuitCalled ∧ s.QuitLost) ?_ ⟨hinv, hcalled, h⟩
    rintro s l t ⟨hs, hcalled, hlost⟩ hstep
    exact ⟨inv_of_step hs hstep, quitLost_of_step hs hcalled hlost hstep⟩
  exact ⟨hall.2.1, hall.2.2.not_behind.2⟩

end EventLoopThread

end Pallette
