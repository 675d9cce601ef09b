import Pallette.Threads.CountDownLatch

/-!
# Thread — the object, and the thread it starts

`start` gives the new thread pointers into the object, to `tid_` and to `latch_`, and returns when
it has used them.  From then on the object can go at any time, whatever the thread still does.
-/

open Reasoning

namespace Pallette

namespace Thread

/-- Where the thread stands that has the object. -/
inductive Owner
  | idle
  | starting
  | joining
  -- behind `~Thread`
  | gone
deriving DecidableEq, Repr

/-- Where the new thread stands, if there is one. -/
inductive Worker
  | absent
  | storeTid
  | countDown
  | running
  | ended
deriving DecidableEq, Repr

inductive Fault
  | startedTwice
  | noTid
  | notStarted
  | joinedTwice
  -- the object is not there any more
  | dangling
deriving DecidableEq, Repr

inductive Label
  -- with what `pthread_create` makes of it
  | start (created : Bool)
  | test
  | wake
  | join
  | joined
  | destroy
  | storeTid (tid : Nat)
  | countDown
  -- `func_` returns
  | finish
deriving DecidableEq, Repr

end Thread

open Thread

/-- `datas` counts the `ThreadData` objects there are, `calls` the calls of `func_` that have
returned. -/
structure Thread where
  started_ : Bool := false
  joined_ : Bool := false
  tid_ : Nat := 0
  latch_ : CountDownLatch := { count_ := 1 }
  owner : Owner := .idle
  worker : Worker := .absent
  detached : Bool := false
  datas : Nat := 0
  calls : Nat := 0
deriving DecidableEq, Repr

namespace Thread

variable (s : Thread)

def start (created : Bool) : Except Fault Thread :=
  if s.started_ then .error .startedTwice
  else if created then
    .ok { s with
      started_ := true, owner := .starting, worker := .storeTid, datas := s.datas + 1
      latch_ := { s.latch_ with waiters := s.latch_.waiters ++ [.entering] } }
  -- the data is deleted again
  else .ok { s with started_ := false }

/-- What `start` does behind a test in `latch_.wait`. -/
def tested (latch : CountDownLatch) : Except Fault Thread :=
  if latch.waiters[0]? = some .returned then
    if 0 < s.tid_ then .ok { s with latch_ := latch, owner := .idle } else .error .noTid
  else .ok { s with latch_ := latch }

def join : Except Fault Thread :=
  if !s.started_ then .error .notStarted
  else if s.joined_ then .error .joinedTwice
  else .ok { s with joined_ := true, owner := .joining }

/-- One step, with the fault in it; `none` when it cannot be taken. -/
def next : Label → Option (Except Fault Thread)
  | .start created => if s.owner = .idle then some (s.start created) else none
  | .test => if s.owner = .starting then (s.latch_.next (.test 0)).map s.tested else none
  | .wake =>
      if s.owner = .starting then (s.latch_.next (.wakeWaiter 0)).map
        fun latch ↦ .ok { s with latch_ := latch }
      else none
  | .join => if s.owner = .idle then some s.join else none
  | .joined => if s.owner = .joining ∧ s.worker = .ended then some (.ok { s with owner := .idle })
      else none
  | .destroy =>
      if s.owner = .idle then
        some (.ok { s with owner := .gone, detached := s.started_ && !s.joined_ }) else none
  | .storeTid tid =>
      if s.worker = .storeTid ∧ 0 < tid then
        some (if s.owner = .gone then .error .dangling else
          .ok { s with tid_ := tid, worker := .countDown })
      else none
  | .countDown =>
      if s.worker = .countDown then
        some (if s.owner = .gone then .error .dangling
          else .ok { s with latch_ := s.latch_.countDown, worker := .running })
      else none
  | .finish =>
      if s.worker = .running then
        some (.ok { s with worker := .ended, calls := s.calls + 1, datas := s.datas - 1 })
      else none

def Step (s : Thread) (l : Label) (t : Thread) : Prop :=
  s.next l = some (.ok t)

/-- What the assertions of `start` and `join` are about. -/
def Misused (s : Thread) (l : Label) : Prop :=
  s.owner = .idle ∧
    ((∃ created, l = .start created) ∧ s.started_ = true ∨ l = .join ∧
    (s.started_ = false ∨ s.joined_ = true))

/-! ## The life of a thread -/

/-- Behind `countDown` the new thread has its data and nothing else. -/
def OnItsOwn (s : Thread) : Prop :=
  0 < s.tid_ ∧ (s.worker = .running ∧ s.datas = 1 ∧ s.calls = 0 ∨ s.worker = .ended ∧ s.datas = 0 ∧
    s.calls = 1)

inductive Phase (s : Thread) : Prop
  | fresh :
      s.started_ = false → s.joined_ = false → s.owner = .idle ∨ s.owner = .gone →
      s.worker = .absent →
      s.latch_ = { count_ := 1 } → s.datas = 0 → s.calls = 0 → Phase s
  | waiting (w : CountDownLatch.Waiter) :
      s.started_ = true → s.joined_ = false → s.owner = .starting →
      s.latch_ = { count_ := 1, waiters := [w] } →
      w ≠ .returned → s.worker = .storeTid ∨ s.worker = .countDown ∧ 0 < s.tid_ → s.datas = 1 →
      s.calls = 0 → Phase s
  | released (w : CountDownLatch.Waiter) :
      s.started_ = true → s.joined_ = false → s.owner = .starting →
      s.latch_ = { count_ := 0, waiters := [w] } →
      w = .entering ∨ w = .notified → s.OnItsOwn → Phase s
  | up :
      s.started_ = true → s.owner ≠ .starting → s.OnItsOwn →
      (s.owner = .joining → s.joined_ = true) →
      (s.joined_ = true → s.owner ≠ .joining → s.worker = .ended) → Phase s

variable {s} {t : Thread} {result : Except Fault Thread}

theorem Phase.start (h : Phase s) (created : Bool) (hstarted : s.started_ = false) :
    ∃ t, s.start created = .ok t ∧ Phase t := by
  cases h with
  | waiting _ hup => exact absurd (hstarted.symm.trans hup) Bool.false_ne_true
  | released _ hup => exact absurd (hstarted.symm.trans hup) Bool.false_ne_true
  | up hup => exact absurd (hstarted.symm.trans hup) Bool.false_ne_true
  | fresh _ hjoined howner hworker hlatch hdatas hcalls =>
    unfold Thread.start
    rw [hstarted, if_neg Bool.false_ne_true]
    cases created with
    | true =>
      refine ⟨_, rfl, .waiting .entering rfl hjoined rfl ?_ nofun (.inl rfl) ?_ hcalls⟩
      · show CountDownLatch.mk s.latch_.count_ (s.latch_.waiters ++ [.entering]) = _
        rw [hlatch]
        rfl
      · show s.datas + 1 = 1
        rw [hdatas]
    | false => exact ⟨_, rfl, .fresh rfl hjoined howner hworker hlatch hdatas hcalls⟩

/-- The starter tests the count: it goes on sleeping before `countDown` and returns behind it. -/
theorem Phase.test (h : Phase s) (hstarting : s.owner = .starting) {latch : CountDownLatch}
    (hlatch : s.latch_.next (.test 0) = some latch) : ∃ t, s.tested latch = .ok t ∧ Phase t := by
  cases h with
  | fresh _ _ howner =>
    obtain hidle | hgone := howner
    · cases hidle.symm.trans hstarting
    · cases hgone.symm.trans hstarting
  | up _ hup => exact absurd hstarting hup
  | waiting w hstarted hjoined howner hwaiters hnot hworker hdatas hcalls =>
    have hwaiting : latch = { count_ := 1, waiters := [.waiting] } := by
      rw [hwaiters] at hlatch
      cases w <;> cases hlatch <;> rfl
    subst hwaiting
    exact ⟨_, rfl, .waiting .waiting hstarted hjoined howner rfl nofun hworker hdatas hcalls⟩
  | released w hstarted hjoined howner hwaiters hw hown =>
    have hreturned : latch = { count_ := 0, waiters := [.returned] } := by
      rw [hwaiters] at hlatch
      obtain rfl | rfl := hw <;> cases hlatch <;> rfl
    subst hreturned
    refine ⟨{ s with latch_ := { count_ := 0, waiters := [.returned] }, owner := .idle }, ?_,
      .up hstarted nofun hown nofun ?_⟩
    · exact (if_pos rfl).trans (if_pos hown.1)
    · intro hup
      cases hjoined.symm.trans hup

theorem Phase.wake (h : Phase s) (hstarting : s.owner = .starting) {latch : CountDownLatch}
    (hlatch : s.latch_.next (.wakeWaiter 0) = some latch) : Phase { s with latch_ := latch } := by
  cases h with
  | fresh _ _ howner =>
    obtain hidle | hgone := howner
    · cases hidle.symm.trans hstarting
    · cases hgone.symm.trans hstarting
  | up _ hup => exact absurd hstarting hup
  | waiting w hstarted hjoined howner hwaiters hnot hworker hdatas hcalls =>
    rw [hwaiters] at hlatch
    cases w <;> cases hlatch
    exact .waiting .notified hstarted hjoined howner rfl nofun hworker hdatas hcalls
  | released w hstarted hjoined howner hwaiters hw hown =>
    rw [hwaiters] at hlatch
    obtain rfl | rfl := hw <;> cases hlatch

theorem Phase.join (h : Phase s) (hidle : s.owner = .idle) (hstarted : s.started_ = true)
    (hjoined : s.joined_ = false) :
    ∃ t, s.join = .ok t ∧ Phase t := by
  cases h with
  | fresh hnot => exact absurd (hnot.symm.trans hstarted) Bool.false_ne_true
  | waiting _ _ _ howner => cases hidle.symm.trans howner
  | released _ _ _ howner => cases hidle.symm.trans howner
  | up _ _ hown =>
    refine ⟨{ s with joined_ := true, owner := .joining }, ?_,
      .up hstarted nofun hown (fun _ ↦ rfl) ?_⟩
    · unfold Thread.join
      rw [hstarted, hjoined]
      rfl
    · intro _ hne
      exact absurd rfl hne

theorem Phase.joined (h : Phase s) (hjoining : s.owner = .joining) (hended : s.worker = .ended) :
    Phase { s with owner := .idle } := by
  cases h with
  | fresh _ _ howner =>
    obtain hidle | hgone := howner
    · cases hidle.symm.trans hjoining
    · cases hgone.symm.trans hjoining
  | waiting _ _ _ howner => cases hjoining.symm.trans howner
  | released _ _ _ howner => cases hjoining.symm.trans howner
  | up hstarted _ hown => exact .up hstarted nofun hown nofun fun _ _ ↦ hended

theorem Phase.destroy (h : Phase s) (hidle : s.owner = .idle) (detached : Bool) :
    Phase { s with owner := .gone, detached := detached } := by
  cases h with
  | fresh hstarted hjoined _ hworker hlatch hdatas hcalls =>
    exact .fresh hstarted hjoined (.inr rfl) hworker hlatch hdatas hcalls
  | waiting _ _ _ howner => cases hidle.symm.trans howner
  | released _ _ _ howner => cases hidle.symm.trans howner
  | up hstarted _ hown _ hjoined =>
    refine .up hstarted nofun hown nofun fun hup _ ↦ ?_
    exact hjoined hup (by rw [hidle]; nofun)

/-- The new thread uses the pointers while the starter waits. -/
theorem Phase.storeTid (h : Phase s) (hworker : s.worker = .storeTid) {tid : Nat} (htid : 0 < tid) :
    s.owner ≠ .gone ∧ Phase { s with tid_ := tid, worker := .countDown } := by
  have hnot (hown : s.OnItsOwn) : False := by
    obtain ⟨-, ⟨hrunning, -⟩ | ⟨hended, -⟩⟩ := hown
    · cases hworker.symm.trans hrunning
    · cases hworker.symm.trans hended
  cases h with
  | fresh _ _ _ habsent => cases hworker.symm.trans habsent
  | released _ _ _ _ _ _ hown => exact (hnot hown).elim
  | up _ _ hown => exact (hnot hown).elim
  | waiting w hstarted hjoined howner hlatch hw _ hdatas hcalls =>
    refine ⟨?_, .waiting w hstarted hjoined howner hlatch hw (.inr ⟨rfl, htid⟩) hdatas hcalls⟩
    rw [howner]
    nofun

theorem Phase.countDown (h : Phase s) (hworker : s.worker = .countDown) :
    s.owner ≠ .gone ∧ Phase { s with latch_ := s.latch_.countDown, worker := .running } := by
  have hnot (hown : s.OnItsOwn) : False := by
    obtain ⟨-, ⟨hrunning, -⟩ | ⟨hended, -⟩⟩ := hown
    · cases hworker.symm.trans hrunning
    · cases hworker.symm.trans hended
  cases h with
  | fresh _ _ _ habsent => cases hworker.symm.trans habsent
  | released _ _ _ _ _ _ hown => exact (hnot hown).elim
  | up _ _ hown => exact (hnot hown).elim
  | waiting w hstarted hjoined howner hlatch hw hphase hdatas hcalls =>
    refine ⟨by rw [howner]; nofun, ?_⟩
    have htid : 0 < s.tid_ := by
      obtain hstore | ⟨-, htid⟩ := hphase
      · cases hworker.symm.trans hstore
      · exact htid
    -- `notify_all` reaches the starter if it sleeps
    obtain ⟨w', hw', hlatch'⟩ : ∃ w', (w' = .entering ∨ w' = .notified) ∧
        s.latch_.countDown = { count_ := 0, waiters := [w'] } := by
      rw [hlatch]
      cases w with
      | entering => exact ⟨.entering, .inl rfl, rfl⟩
      | waiting => exact ⟨.notified, .inr rfl, rfl⟩
      | notified => exact ⟨.notified, .inr rfl, rfl⟩
      | returned => exact absurd rfl hw
    exact .released w' hstarted hjoined howner hlatch' hw' ⟨htid, .inl ⟨rfl, hdatas, hcalls⟩⟩

theorem Phase.finish (h : Phase s) (hworker : s.worker = .running) :
    Phase { s with worker := .ended, calls := s.calls + 1, datas := s.datas - 1 } := by
  have hended (hown : s.OnItsOwn) :
      OnItsOwn { s with worker := .ended, calls := s.calls + 1, datas := s.datas - 1 } := by
    obtain ⟨htid, ⟨-, hdatas, hcalls⟩ | ⟨hended, -⟩⟩ := hown
    · refine ⟨htid, .inr ⟨rfl, ?_, ?_⟩⟩
      · show s.datas - 1 = 0
        omega
      · show s.calls + 1 = 1
        omega
    · cases hworker.symm.trans hended
  cases h with
  | fresh _ _ _ habsent => cases hworker.symm.trans habsent
  | waiting _ _ _ _ _ _ hphase =>
    obtain hstore | ⟨hcount, -⟩ := hphase
    · cases hworker.symm.trans hstore
    · cases hworker.symm.trans hcount
  | released w hstarted hjoined howner hlatch hw hown =>
    exact .released w hstarted hjoined howner hlatch hw (hended hown)
  | up hstarted howner hown hjoining _ =>
      exact .up hstarted howner (hended hown) hjoining fun _ _ ↦ rfl

/-- **Step lemma.**  A step fails if `start` or `join` is called when it must not be, and only
then. -/
theorem Phase.step (h : Phase s) {l : Label} (hnext : s.next l = some result) :
    Misused s l ∧ (∃ fault, result = .error fault) ∨ ¬ Misused s l ∧ ∃ t, result = .ok t ∧
    Phase t := by
  have hother (hstart : ∀ created, l ≠ .start created) (hjoin : l ≠ .join) : ¬ Misused s l := by
    rintro ⟨-, ⟨⟨created, rfl⟩, -⟩ | ⟨rfl, -⟩⟩
    · exact hstart created rfl
    · exact hjoin rfl
  cases l with
  | start created =>
    simp only [next] at hnext
    obtain ⟨hidle, hresult⟩ := Option.ite_none_right_eq_some.mp hnext
    cases hresult
    cases hstarted : s.started_ with
    | true =>
      refine .inl ⟨⟨hidle, .inl ⟨⟨created, rfl⟩, hstarted⟩⟩, .startedTwice, ?_⟩
      unfold Thread.start
      rw [if_pos hstarted]
    | false =>
      refine .inr ⟨?_, h.start created hstarted⟩
      rintro ⟨-, ⟨-, htrue⟩ | ⟨heq, -⟩⟩
      · cases hstarted.symm.trans htrue
      · cases heq
  | test =>
    simp only [next] at hnext
    obtain ⟨hstarting, hresult⟩ := Option.ite_none_right_eq_some.mp hnext
    obtain ⟨latch, hlatch, rfl⟩ := Option.map_eq_some_iff.mp hresult
    exact .inr ⟨hother nofun nofun, h.test hstarting hlatch⟩
  | wake =>
    simp only [next] at hnext
    obtain ⟨hstarting, hresult⟩ := Option.ite_none_right_eq_some.mp hnext
    obtain ⟨latch, hlatch, rfl⟩ := Option.map_eq_some_iff.mp hresult
    exact .inr ⟨hother nofun nofun, _, rfl, h.wake hstarting hlatch⟩
  | join =>
    simp only [next] at hnext
    obtain ⟨hidle, hresult⟩ := Option.ite_none_right_eq_some.mp hnext
    cases hresult
    by_cases hmisused : s.started_ = false ∨ s.joined_ = true
    · refine .inl ⟨⟨hidle, .inr ⟨rfl, hmisused⟩⟩, ?_⟩
      unfold Thread.join
      cases hstarted : s.started_ with
      | false => exact ⟨_, rfl⟩
      | true =>
        obtain hfalse | htrue := hmisused
        · cases hstarted.symm.trans hfalse
        · rw [htrue]
          exact ⟨_, rfl⟩
    · obtain ⟨hstarted, hjoined⟩ := not_or.mp hmisused
      refine .inr ⟨?_, h.join hidle (by simpa using hstarted) (by simpa using hjoined)⟩
      rintro ⟨-, ⟨⟨created, heq⟩, -⟩ | ⟨-, hno⟩⟩
      · cases heq
      · exact hmisused hno
  | joined =>
    simp only [next] at hnext
    obtain ⟨⟨hjoining, hended⟩, hresult⟩ := Option.ite_none_right_eq_some.mp hnext
    cases hresult
    exact .inr ⟨hother nofun nofun, _, rfl, h.joined hjoining hended⟩
  | destroy =>
    simp only [next] at hnext
    obtain ⟨hidle, hresult⟩ := Option.ite_none_right_eq_some.mp hnext
    cases hresult
    exact .inr ⟨hother nofun nofun, _, rfl, h.destroy hidle _⟩
  | storeTid tid =>
    simp only [next] at hnext
    obtain ⟨⟨hworker, htid⟩, hresult⟩ := Option.ite_none_right_eq_some.mp hnext
    obtain ⟨hthere, hphase⟩ := h.storeTid hworker htid
    rw [if_neg hthere] at hresult
    cases hresult
    exact .inr ⟨hother nofun nofun, _, rfl, hphase⟩
  | countDown =>
    simp only [next] at hnext
    obtain ⟨hworker, hresult⟩ := Option.ite_none_right_eq_some.mp hnext
    obtain ⟨hthere, hphase⟩ := h.countDown hworker
    rw [if_neg hthere] at hresult
    cases hresult
    exact .inr ⟨hother nofun nofun, _, rfl, hphase⟩
  | finish =>
    simp only [next] at hnext
    obtain ⟨hworker, hresult⟩ := Option.ite_none_right_eq_some.mp hnext
    cases hresult
    exact .inr ⟨hother nofun nofun, _, rfl, h.finish hworker⟩

theorem phase_new : Phase {} :=
  .fresh rfl rfl (.inl rfl) rfl rfl rfl rfl

/-- `start` does not wait for ever: the new thread gets on, or the starter. -/
theorem Phase.enabled (h : Phase s) (hstarting : s.owner = .starting) :
    ∃ l t, l ≠ .wake ∧ l ≠ .finish ∧ Step s l t := by
  cases h with
  | fresh _ _ howner =>
    obtain hidle | hgone := howner
    · cases hidle.symm.trans hstarting
    · cases hgone.symm.trans hstarting
  | up _ hup => exact absurd hstarting hup
  | waiting w _ _ _ _ _ hworker =>
    have hthere : s.owner ≠ .gone := by rw [hstarting]; nofun
    obtain hstore | ⟨hcount, -⟩ := hworker
    · refine ⟨.storeTid 1, { s with tid_ := 1, worker := .countDown }, nofun, nofun, ?_⟩
      simp only [Step, next]
      rw [if_pos ⟨hstore, Nat.zero_lt_one⟩, if_neg hthere]
    · refine ⟨.countDown, { s with latch_ := s.latch_.countDown, worker := .running }, nofun,
        nofun, ?_⟩
      simp only [Step, next]
      rw [if_pos hcount, if_neg hthere]
  | released w hstarted hjoined howner hlatch hw hown =>
    obtain ⟨latch, htest⟩ : ∃ latch, s.latch_.next (.test 0) = some latch := by
      rw [hlatch]
      obtain rfl | rfl := hw <;> exact ⟨_, rfl⟩
    obtain ⟨t, htested, -⟩ := (Phase.released w hstarted hjoined howner hlatch hw hown).test
      hstarting htest
    refine ⟨.test, t, nofun, nofun, ?_⟩
    simp only [Step, next]
    rw [if_pos hstarting, htest, Option.map_some, htested]

/-- What can be relied on. -/
structure Lifecycle (s : Thread) : Prop where
  tid : s.started_ = true → s.owner ≠ .starting → 0 < s.tid_
  calls : s.calls = if s.worker = .ended then 1 else 0
  datas : s.datas = if s.worker = .absent ∨ s.worker = .ended then 0 else 1
  joined : s.joined_ = true → s.owner ≠ .joining → s.worker = .ended

theorem OnItsOwn.counts (h : s.OnItsOwn) :
    s.calls = (if s.worker = .ended then 1 else 0) ∧
      s.datas = if s.worker = .absent ∨ s.worker = .ended then 0 else 1 := by
  obtain ⟨-, ⟨hworker, hdatas, hcalls⟩ | ⟨hworker, hdatas, hcalls⟩⟩ :=
    h <;> simp [hworker, hdatas, hcalls]

theorem Phase.lifecycle (h : Phase s) : Lifecycle s := by
  cases h with
  | fresh hstarted hjoined howner hworker hlatch hdatas hcalls =>
    refine ⟨fun hup ↦ absurd (hstarted.symm.trans hup) Bool.false_ne_true, ?_, ?_, fun hup ↦ ?_⟩
    · simp [hworker, hcalls]
    · simp [hworker, hdatas]
    · cases hjoined.symm.trans hup
  | waiting w hstarted hjoined howner hlatch hw hworker hdatas hcalls =>
    refine ⟨fun _ hne ↦ absurd howner hne, ?_, ?_, fun hup ↦ ?_⟩
    · obtain hstore | ⟨hcount, -⟩ := hworker
      · simp [hstore, hcalls]
      · simp [hcount, hcalls]
    · obtain hstore | ⟨hcount, -⟩ := hworker
      · simp [hstore, hdatas]
      · simp [hcount, hdatas]
    · cases hjoined.symm.trans hup
  | released w hstarted hjoined howner hlatch hw hown =>
    refine ⟨fun _ _ ↦ hown.1, hown.counts.1, hown.counts.2, fun hup ↦ ?_⟩
    cases hjoined.symm.trans hup
  | up hstarted howner hown _ hjoined => exact ⟨fun _ _ ↦ hown.1, hown.counts.1, hown.counts.2,
      hjoined⟩

/-- **The life of a thread.**  In every order of the steps of the two threads, the end of the object
included: the new thread uses the object only while it is there, the data is deleted and the
function called once, `join` returns behind it, `start` comes to its end and leaves a thread with a
number; and an assertion fails exactly where the object is started twice, or joined before it is
started or twice. -/
theorem fails_iff {ls : List Label} (h : Run Step {} ls s) :
    Lifecycle s ∧ (s.owner = .starting → ∃ l t, l ≠ .wake ∧ l ≠ .finish ∧ Step s l t) ∧
      ∀ l, (∃ fault, s.next l = some (.error fault)) ↔ Misused s l := by
  have hphase : Phase s := by
    refine h.invariant Phase (fun s l t hs hstep ↦ ?_) phase_new
    obtain ⟨-, fault, herror⟩ | ⟨-, u, hu, hphase⟩ := hs.step hstep
    · cases herror
    · cases hu
      exact hphase
  refine ⟨hphase.lifecycle, hphase.enabled, fun l ↦ ⟨?_, ?_⟩⟩
  · rintro ⟨fault, herror⟩
    obtain ⟨hmisused, -⟩ | ⟨-, t, ht, -⟩ := hphase.step herror
    · exact hmisused
    · cases ht
  · intro hmisused
    obtain ⟨result, hnext⟩ : ∃ result, s.next l = some result := by
      obtain ⟨hidle, ⟨⟨created, rfl⟩, -⟩ | ⟨rfl, -⟩⟩ := hmisused
      · exact ⟨_, if_pos hidle⟩
      · exact ⟨_, if_pos hidle⟩
    obtain ⟨-, fault, rfl⟩ | ⟨hno, -⟩ := hphase.step hnext
    · exact ⟨fault, hnext⟩
    · exact absurd hmisused hno

/-- The object is destroyed as soon as `start` has returned, and the thread runs on. -/
theorem fails_iff_detached :
    ∃ s, Run Step {} [.start true, .test, .storeTid 4, .countDown, .test, .destroy, .finish] s ∧
      s.detached = true ∧
      Lifecycle s ∧ (s.owner = .starting → ∃ l t, l ≠ .wake ∧ l ≠ .finish ∧ Step s l t) ∧
      ∀ l, (∃ fault, s.next l = some (.error fault)) ↔ Misused s l := by
  have hrun := show Run Step {} [.start true, .test, .storeTid 4, .countDown, .test, .destroy,
      .finish] _ from
    .cons rfl (.cons rfl (.cons rfl (.cons rfl (.cons rfl (.cons rfl (.cons rfl (.nil _)))))))
  exact ⟨_, hrun, rfl, fails_iff hrun⟩

end Thread

end Pallette
