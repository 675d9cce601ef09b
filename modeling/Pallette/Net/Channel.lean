import Mathlib.Tactic.Common

/-!
# Channel — the interest of one descriptor and what the poller has told the kernel

`events_` is the interest set of the channel, `registered` the entry the kernel keeps for its
descriptor.  `update` goes through `EpollPoller::updateChannel`: a channel that is not in the epoll
set is added, with whatever interest it has, and a channel that is in it is taken out when it has
none.
-/

namespace Pallette

/-- The bits of an epoll event mask that `Channel` looks at. -/
structure EventMask where
  EPOLLIN : Bool := false
  EPOLLPRI : Bool := false
  EPOLLOUT : Bool := false
  EPOLLERR : Bool := false
  EPOLLHUP : Bool := false
deriving DecidableEq, Repr

namespace EventMask

def union (a b : EventMask) : EventMask :=
  ⟨a.EPOLLIN || b.EPOLLIN, a.EPOLLPRI || b.EPOLLPRI, a.EPOLLOUT || b.EPOLLOUT,
    a.EPOLLERR || b.EPOLLERR, a.EPOLLHUP || b.EPOLLHUP⟩

/-- `a & ~b` -/
def without (a b : EventMask) : EventMask :=
  ⟨a.EPOLLIN && !b.EPOLLIN, a.EPOLLPRI && !b.EPOLLPRI, a.EPOLLOUT && !b.EPOLLOUT,
    a.EPOLLERR && !b.EPOLLERR, a.EPOLLHUP && !b.EPOLLHUP⟩

def kNoneEvent : EventMask := {}
def kReadEvent : EventMask := { EPOLLIN := true, EPOLLPRI := true }
def kWriteEvent : EventMask := { EPOLLOUT := true }

/-- What `epoll_wait` may report for a descriptor registered with `interest`: errors and hang-ups
whatever the interest is, else only what was asked for. -/
def MayReport (interest revents : EventMask) : Prop :=
  revents ≠ kNoneEvent ∧ (revents.EPOLLIN → interest.EPOLLIN) ∧
    (revents.EPOLLPRI → interest.EPOLLPRI) ∧
    (revents.EPOLLOUT → interest.EPOLLOUT)

instance (interest revents : EventMask) : Decidable (MayReport interest revents) :=
  inferInstanceAs (Decidable (_ ∧ _))

end EventMask

open EventMask

/-- The states a channel has in the poller. -/
inductive PollerIndex
  | kNew
  | kAdded
  | kDeleted
deriving DecidableEq, Repr

/-- The assertions of `TcpConnection`, `Channel` and `EpollPoller` that depend on more than the
calling thread. -/
inductive Assertion
  | handleClose
  | connectEstablished
  | channelRemove
  | removeChannel
deriving DecidableEq, Repr

structure Channel where
  events_ : EventMask := {}
  index_ : PollerIndex := .kNew
  addedToLoop_ : Bool := false
  registered : Option EventMask := none
deriving DecidableEq, Repr

namespace Channel

def isNoneEvent (c : Channel) : Bool :=
  decide (c.events_ = kNoneEvent)

def isWriting (c : Channel) : Bool :=
  c.events_.EPOLLOUT

def isReading (c : Channel) : Bool :=
  c.events_.EPOLLIN || c.events_.EPOLLPRI

/-- `EpollPoller::updateChannel` -/
def updateChannel (c : Channel) : Channel :=
  match c.index_ with
  -- `EPOLL_CTL_ADD`, also for an empty interest
  | .kNew | .kDeleted => { c with index_ := .kAdded, registered := some c.events_ }
  | .kAdded =>
      -- `EPOLL_CTL_DEL`, but the channel stays in the map
      if c.isNoneEvent then { c with index_ := .kDeleted, registered := none }
      else { c with registered := some c.events_ }

def update (c : Channel) : Channel :=
  updateChannel { c with addedToLoop_ := true }

def enableReading (c : Channel) : Channel := update { c with events_ := c.events_.union kReadEvent }
def disableReading (c : Channel) : Channel :=
  update { c with events_ := c.events_.without kReadEvent }
def enableWriting (c : Channel) : Channel :=
  update { c with events_ := c.events_.union kWriteEvent }
def disableWriting (c : Channel) : Channel :=
  update { c with events_ := c.events_.without kWriteEvent }
def disableAll (c : Channel) : Channel := update { c with events_ := kNoneEvent }

/-- `EpollPoller::removeChannel` -/
def removeChannel (c : Channel) : Except Assertion Channel :=
  if c.index_ = .kNew ∨ !c.isNoneEvent then .error .removeChannel
  else .ok { c with index_ := .kNew, registered := none }

def remove (c : Channel) : Except Assertion Channel :=
  if c.isNoneEvent then removeChannel { c with addedToLoop_ := false } else .error .channelRemove

/-! ## What an update leaves behind -/

/-- The kernel knows nothing but the current interest of the channel. -/
def Synced (c : Channel) : Prop :=
  ∀ interest, c.registered = some interest → interest = c.events_

@[simp] theorem update_events (c : Channel) : c.update.events_ = c.events_ := by
  unfold update updateChannel
  split
  · rfl
  · rfl
  · split <;> rfl

/-- Whatever is updated is in the map of the poller behind it. -/
theorem update_index (c : Channel) : c.update.index_ ≠ .kNew := by
  unfold update updateChannel
  cases c.index_ with
  | kNew | kDeleted => simp
  | kAdded =>
    dsimp only
    split
    · simp
    · simp

theorem update_index_eq (c : Channel) :
    c.update.index_ = if c.index_ = .kAdded ∧ c.events_ = kNoneEvent then .kDeleted else
    .kAdded := by
  unfold update updateChannel
  cases c.index_ with
  | kNew | kDeleted => simp
  | kAdded =>
    dsimp only
    by_cases hnone : c.events_ = kNoneEvent
    · simp [isNoneEvent, hnone]
    · simp [isNoneEvent, hnone]

theorem update_registered (c : Channel) :
    c.update.registered = some c.events_ ∨
      (c.update.registered = none ∧ c.events_ = kNoneEvent) := by
  unfold update updateChannel
  split
  · exact .inl rfl
  · exact .inl rfl
  · split
    next hnone => exact .inr ⟨rfl, of_decide_eq_true hnone⟩
    next => exact .inl rfl

theorem update_synced (c : Channel) : c.update.Synced := by
  intro interest h
  rw [update_events]
  rcases update_registered c with hsome | ⟨hnone, _⟩
  · rw [hsome] at h
    exact (Option.some.inj h).symm
  · rw [hnone] at h
    cases h

/-- A channel that wants to write is registered for it. -/
theorem update_registered_writing {c : Channel} (h : c.isWriting = true) :
    c.update.registered = some c.events_ := by
  rcases update_registered c with hsome | ⟨_, hnone⟩
  · exact hsome
  · rw [isWriting, hnone] at h
    cases h

@[simp] theorem disableReading_events (c : Channel) :
    c.disableReading.events_ = c.events_.without kReadEvent := update_events _

@[simp] theorem disableAll_events (c : Channel) : c.disableAll.events_ = kNoneEvent :=
  update_events _

theorem union_readEvent_out (a : EventMask) : (a.union kReadEvent).EPOLLOUT = a.EPOLLOUT := by
  simp [union, kReadEvent]

theorem without_readEvent_out (a : EventMask) : (a.without kReadEvent).EPOLLOUT = a.EPOLLOUT := by
  simp [without, kReadEvent]

/-- The channel wants to write exactly if `pending`, and the kernel knows. -/
structure Tracks (c : Channel) (pending : Bool) : Prop where
  writing : c.isWriting = pending
  synced : c.Synced
  registered : pending = true → c.registered = some c.events_

theorem update_tracks (c : Channel) : c.update.Tracks c.isWriting := by
  refine ⟨by rw [isWriting, update_events, isWriting], update_synced c, fun h ↦ ?_⟩
  rw [update_registered_writing h, update_events]

theorem enableReading_tracks {c : Channel} {p : Bool} (h : c.Tracks p) :
    c.enableReading.Tracks p := by
  have htracks := update_tracks { c with events_ := c.events_.union kReadEvent }
  rwa [isWriting, union_readEvent_out, ← isWriting, h.writing] at htracks

theorem disableReading_tracks {c : Channel} {p : Bool} (h : c.Tracks p) :
    c.disableReading.Tracks p := by
  have htracks := update_tracks { c with events_ := c.events_.without kReadEvent }
  rwa [isWriting, without_readEvent_out, ← isWriting, h.writing] at htracks

theorem enableWriting_tracks (c : Channel) : c.enableWriting.Tracks true := by
  have htracks := update_tracks { c with events_ := c.events_.union kWriteEvent }
  rwa [show isWriting { c with events_ := c.events_.union kWriteEvent } = true by
    simp [isWriting, union, kWriteEvent]] at htracks

theorem disableWriting_tracks (c : Channel) : c.disableWriting.Tracks false := by
  have htracks := update_tracks { c with events_ := c.events_.without kWriteEvent }
  rwa [show isWriting { c with events_ := c.events_.without kWriteEvent } = false by
    simp [isWriting, without, kWriteEvent]] at htracks

/-- Interest in writing, at the kernel. -/
theorem Tracks.registered_iff {c : Channel} {p : Bool} (h : c.Tracks p) :
    (∃ interest, c.registered = some interest ∧ interest.EPOLLOUT = true) ↔ p = true := by
  constructor
  · rintro ⟨interest, hreg, hout⟩
    rw [h.synced interest hreg] at hout
    rw [← h.writing]
    exact hout
  · intro hp
    exact ⟨c.events_, h.registered hp, h.writing.trans hp⟩

/-- Nothing is left of a disabled channel but, at most, an entry that asks for nothing. -/
def Disabled (c : Channel) : Prop :=
  c.events_ = kNoneEvent ∧ c.Synced

theorem disableAll_disabled (c : Channel) : c.disableAll.Disabled :=
  ⟨disableAll_events c, update_synced _⟩

theorem Disabled.disableReading {c : Channel} (h : c.Disabled) : c.disableReading.Disabled := by
  refine ⟨?_, update_synced _⟩
  rw [disableReading_events, h.1]
  rfl

theorem remove_cases (c : Channel) :
    (∃ a, c.remove = .error a ∧ a ≠ .handleClose) ∨
      ∃ c', c.remove = .ok c' ∧ c'.events_ = kNoneEvent ∧ c'.registered = none := by
  unfold remove removeChannel
  split
  next hnone =>
    split
    next => exact .inl ⟨_, rfl, by decide⟩
    next => exact .inr ⟨_, rfl, of_decide_eq_true hnone, rfl⟩
  next => exact .inl ⟨_, rfl, by decide⟩

theorem remove_eq {c c' : Channel} (h : c.remove = .ok c') :
    c' = { c with addedToLoop_ := false, index_ := .kNew, registered := none } := by
  unfold remove removeChannel at h
  split at h
  · split at h <;> cases h
    rfl
  · cases h

theorem events_of_remove {c c' : Channel} (h : c.remove = .ok c') : c.events_ = c'.events_ := by
  unfold remove removeChannel at h
  split at h
  · split at h <;> cases h
    rfl
  · cases h

/-- What is removed has no interest left. -/
theorem remove_tracks {c c' : Channel} {p : Bool} (h : c.Tracks p) (hr : c.remove = .ok c') :
    c'.Tracks p := by
  rcases remove_cases c with ⟨a, ha, _⟩ | ⟨c₁, hc₁, hevents, hreg⟩
  · rw [ha] at hr
    cases hr
  · rw [hc₁] at hr
    cases hr
    -- `remove` asks for an empty interest, and so does not find one in writing
    have hp : p = false := by
      rw [← h.writing, isWriting, events_of_remove hc₁, hevents]
      rfl
    subst hp
    refine ⟨by rw [isWriting, hevents]; rfl, fun interest hi ↦ ?_, by simp⟩
    rw [hreg] at hi
    cases hi

theorem disabled_of_unregistered {c : Channel} (hevents : c.events_ = kNoneEvent)
    (hreg : c.registered = none) : c.Disabled := by
  refine ⟨hevents, fun interest h ↦ ?_⟩
  rw [hreg] at h
  cases h

/-- Of a disabled channel only errors and hang-ups are reported. -/
theorem Disabled.mayReport {c : Channel} (h : c.Disabled) {interest revents : EventMask}
    (hreg : c.registered = some interest) (hrep : MayReport interest revents) :
    revents.EPOLLIN = false ∧ revents.EPOLLPRI = false ∧ revents.EPOLLOUT = false := by
  rw [h.2 interest hreg, h.1] at hrep
  rcases hrep with ⟨_, hin, hpri, hout⟩
  -- each bit needs an interest, and there is none
  refine ⟨?_, ?_, ?_⟩ <;> rw [← Bool.not_eq_true] <;> intro hset
  · exact absurd (hin hset) (by decide)
  · exact absurd (hpri hset) (by decide)
  · exact absurd (hout hset) (by decide)

end Channel

end Pallette
