import Mathlib.Data.Fintype.Defs
import Pallette.Net.Channel
import Pallette.Reasoning.OrdMap
import Pallette.Reasoning.Run

/-!
# EpollPoller — many channels, the map of the poller and the kernel's set

A channel is known by its address, of a type of its own.  Three places say whether it is registered:
its own `index_`, `channels_`, and the epoll set, which keeps the mask and the pointer the kernel
hands back.  `view` is what one channel sees of it: there every call is the one of `Channel`, and
those on other channels make no difference.
-/

open Reasoning

namespace Pallette

open EventMask

namespace EpollPoller

inductive CtlOp
  | EPOLL_CTL_ADD
  | EPOLL_CTL_MOD
  | EPOLL_CTL_DEL
deriving DecidableEq, Repr

inductive Fault
  | assertion
  | epollCtl (op : CtlOp)
deriving DecidableEq, Repr

/-- The calls on a channel that reach the poller. -/
inductive Call
  | enableReading
  | disableReading
  | enableWriting
  | disableWriting
  | disableAll
  | remove
deriving DecidableEq, Repr

/-- The fields of a `Channel` the poller works with. -/
structure Polled where
  fd_ : Int
  events_ : EventMask := {}
  index_ : PollerIndex := .kNew
  addedToLoop_ : Bool := false
deriving DecidableEq, Repr

/-- `epoll_ctl`, which fails for a descriptor that is there already or is not there. -/
def epollCtl {ι : Type} (set : OrdMap Int (EventMask × ι)) (op : CtlOp) (fd : Int)
    (event : EventMask × ι) : Except Fault (OrdMap Int (EventMask × ι)) :=
  match op, set.find? fd with
  | .EPOLL_CTL_ADD, none => .ok (set.insert fd event)
  | .EPOLL_CTL_MOD, some _ => .ok (set.insert fd event)
  | .EPOLL_CTL_DEL, some _ => .ok (set.erase fd)
  | op, _ => .error (.epollCtl op)

def assert (p : Prop) [Decidable p] : Except Fault Unit :=
  if p then .ok () else .error .assertion

theorem of_assert {p : Prop} [Decidable p] {u : Unit} (h : assert p = .ok u) : p := by
  by_contra hp
  rw [assert, if_neg hp] at h
  cases h

end EpollPoller

open EpollPoller

structure EpollPoller (ι : Type) where
  channel : ι → Polled
  channels_ : OrdMap Int ι := .empty
  epollSet : OrdMap Int (EventMask × ι) := .empty

namespace EpollPoller

variable {ι : Type} [DecidableEq ι]

def setChannel (s : EpollPoller ι) (c : ι) (channel : Polled) : EpollPoller ι :=
  { s with channel := fun d ↦ if d = c then channel else s.channel d }

def setIndex (s : EpollPoller ι) (c : ι) (index : PollerIndex) : EpollPoller ι :=
  s.setChannel c { s.channel c with index_ := index }

def update (s : EpollPoller ι) (op : CtlOp) (c : ι) : Except Fault (EpollPoller ι) := do
  let set ← epollCtl s.epollSet op (s.channel c).fd_ ((s.channel c).events_, c)
  return { s with epollSet := set }

def updateChannel (s : EpollPoller ι) (c : ι) : Except Fault (EpollPoller ι) :=
  let fd := (s.channel c).fd_
  match (s.channel c).index_ with
  | .kNew => do
      assert (s.channels_.find? fd = none)
      let s := { s with channels_ := s.channels_.insert fd c }
      (s.setIndex c .kAdded).update .EPOLL_CTL_ADD c
  | .kDeleted => do
      -- two asserts of the source: that the descriptor is in the map, and whose it is there
      assert (s.channels_.find? fd = some c)
      (s.setIndex c .kAdded).update .EPOLL_CTL_ADD c
  | .kAdded => do
      assert (s.channels_.find? fd = some c)
      if (s.channel c).events_ = kNoneEvent then
        let s ← s.update .EPOLL_CTL_DEL c
        return s.setIndex c .kDeleted
      else s.update .EPOLL_CTL_MOD c

def removeChannel (s : EpollPoller ι) (c : ι) : Except Fault (EpollPoller ι) := do
  let fd := (s.channel c).fd_
  let index := (s.channel c).index_
  assert (s.channels_.find? fd = some c)
  assert ((s.channel c).events_ = kNoneEvent)
  assert (index = .kAdded ∨ index = .kDeleted)
  let s := { s with channels_ := s.channels_.erase fd }
  let s ← if index = .kAdded then s.update .EPOLL_CTL_DEL c else .ok s
  return s.setIndex c .kNew

/-- `Channel::update` behind an assignment of `events_`. -/
def channelUpdate (s : EpollPoller ι) (c : ι) (events : EventMask) : Except Fault (EpollPoller ι) :=
  (s.setChannel c { s.channel c with events_ := events, addedToLoop_ := true }).updateChannel c

/-- `Channel::remove` -/
def channelRemove (s : EpollPoller ι) (c : ι) : Except Fault (EpollPoller ι) := do
  assert ((s.channel c).events_ = kNoneEvent)
  (s.setChannel c { s.channel c with addedToLoop_ := false }).removeChannel c

def call (s : EpollPoller ι) (c : ι) : Call → Except Fault (EpollPoller ι)
  | .enableReading => s.channelUpdate c ((s.channel c).events_.union kReadEvent)
  | .disableReading => s.channelUpdate c ((s.channel c).events_.without kReadEvent)
  | .enableWriting => s.channelUpdate c ((s.channel c).events_.union kWriteEvent)
  | .disableWriting => s.channelUpdate c ((s.channel c).events_.without kWriteEvent)
  | .disableAll => s.channelUpdate c kNoneEvent
  | .remove => s.channelRemove c

def hasChannel (s : EpollPoller ι) (c : ι) : Bool :=
  decide (s.channels_.find? (s.channel c).fd_ = some c)

/-- A poller none of whose channels is registered yet. -/
def fresh (fd : ι → Int) : EpollPoller ι where
  channel c := { fd_ := fd c }

/-- The use the poller is made for: what is removed is registered and has no interest, and what is
registered anew has a descriptor no other registered channel has. -/
def Allowed (s : EpollPoller ι) (c : ι) : Call → Prop
  | .remove => (s.channel c).index_ ≠ .kNew ∧ (s.channel c).events_ = kNoneEvent
  | _ => ∀ d, d ≠ c → (s.channel d).index_ ≠ .kNew → (s.channel d).fd_ ≠ (s.channel c).fd_

instance [Fintype ι] (s : EpollPoller ι) (c : ι) (call : Call) : Decidable (Allowed s c call) :=
  match call with
  | .remove => inferInstanceAs (Decidable (_ ∧ _))
  | .enableReading | .disableReading | .enableWriting | .disableWriting | .disableAll =>
    inferInstanceAs (Decidable (∀ d, d ≠ c → (s.channel d).index_ ≠ .kNew →
      (s.channel d).fd_ ≠ (s.channel c).fd_))

/-- The calls of a run, each on its channel. -/
def Step (s : EpollPoller ι) (l : ι × Call) (t : EpollPoller ι) : Prop :=
  s.call l.1 l.2 = .ok t

/-! ## The three places agree -/

/-- What the epoll set holds for a descriptor whose channel is `channel`. -/
def entry (c : ι) (channel : Polled) : Option (EventMask × ι) :=
  if channel.index_ = .kAdded then some (channel.events_, c) else none

structure Consistent (s : EpollPoller ι) : Prop where
  keys : ∀ fd c, s.channels_.find? fd = some c → (s.channel c).fd_ = fd
  mapped : ∀ c, (s.channel c).index_ ≠ .kNew ↔ s.channels_.find? (s.channel c).fd_ = some c
  set : ∀ fd, s.epollSet.find? fd = (s.channels_.find? fd).bind fun c ↦ entry c (s.channel c)

omit [DecidableEq ι] in
theorem consistent_fresh (fd : ι → Int) : Consistent (fresh fd) where
  keys _ _ h := by cases h
  mapped c := by simp [fresh]
  set fd := rfl

/-- `t` is `s` with one channel as given, and the map and the set for its descriptor as its index
says. -/
structure Replaced (s t : EpollPoller ι) (c : ι) (p : Polled) : Prop where
  channel : t.channel = (s.setChannel c p).channel
  map : ∀ fd, t.channels_.find? fd =
    if fd = (s.channel c).fd_ then if p.index_ = .kNew then none else some c
      else s.channels_.find? fd
  set : ∀ fd, t.epollSet.find? fd = if fd = (s.channel c).fd_ then entry c p
    else s.epollSet.find? fd

variable {s t : EpollPoller ι} {c : ι} {p : Polled}

/-- The assertion of `~Channel` about the loop is one about `index_`. -/
theorem Consistent.hasChannel_iff (h : Consistent s) (c : ι) :
    s.hasChannel c = true ↔ (s.channel c).index_ ≠ .kNew := by
  rw [h.mapped c]
  exact decide_eq_true_iff

@[simp] theorem setChannel_self (s : EpollPoller ι) (c : ι) (p : Polled) :
    (s.setChannel c p).channel c = p :=
  if_pos rfl

@[simp] theorem setChannel_channels (s : EpollPoller ι) (c : ι) (p : Polled) :
    (s.setChannel c p).channels_ = s.channels_ := rfl

@[simp] theorem setChannel_epollSet (s : EpollPoller ι) (c : ι) (p : Polled) :
    (s.setChannel c p).epollSet = s.epollSet := rfl

theorem setChannel_setChannel (s : EpollPoller ι) (c : ι) (p q : Polled) :
    (s.setChannel c p).setChannel c q = s.setChannel c q := by
  simp only [setChannel]
  congr 1
  funext d
  split <;> rfl

theorem Replaced.self (h : Replaced s t c p) : t.channel c = p := by
  rw [h.channel, setChannel_self]

theorem Replaced.other (h : Replaced s t c p) {d : ι} (hd : d ≠ c) : t.channel d = s.channel d := by
  rw [h.channel]
  exact if_neg hd

/-- No other channel is registered for the descriptor of this one. -/
def Free (s : EpollPoller ι) (c : ι) : Prop :=
  ∀ d, d ≠ c → (s.channel d).index_ ≠ .kNew → (s.channel d).fd_ ≠ (s.channel c).fd_

theorem Consistent.replaced (h : Consistent s) (hfree : Free s c) (hfd : p.fd_ = (s.channel c).fd_)
    (hr : Replaced s t c p) : Consistent t := by
  refine ⟨fun fd d hd ↦ ?_, fun d ↦ ?_, fun fd ↦ ?_⟩
  · rw [hr.map] at hd
    split at hd
    next heq =>
      split at hd
      · cases hd
      · cases hd
        rw [hr.self, hfd, heq]
    next hne =>
      have hkey := h.keys fd d hd
      have hdc : d ≠ c := by
        rintro rfl
        exact hne hkey.symm
      rw [hr.other hdc]
      exact hkey
  · by_cases hdc : d = c
    · subst hdc
      rw [hr.self, hfd, hr.map, if_pos rfl]
      split
      next hnew => simp [hnew]
      next hnew => simp [hnew]
    · rw [hr.other hdc, hr.map]
      split
      next heq =>
        -- of the channels with this descriptor none but `c` is registered
        have hnew : (s.channel d).index_ = .kNew := by
          by_contra hne
          exact hfree d hdc hne heq
        refine iff_of_false (fun hne ↦ hne hnew) fun hsome ↦ ?_
        split at hsome
        · cases hsome
        · cases hsome
          exact hdc rfl
      next hne => exact h.mapped d
  · rw [hr.set, hr.map]
    split
    next heq =>
      split
      next hnew => simp [entry, hnew]
      next hnew => rw [Option.bind_some, hr.self]
    next hne =>
      rw [h.set fd]
      cases hfind : s.channels_.find? fd with
      | none => rfl
      | some d =>
        have hdc : d ≠ c := by
          rintro rfl
          exact hne (h.keys fd d hfind).symm
        rw [Option.bind_some, Option.bind_some, hr.other hdc]

/-! ## What one channel sees -/

/-- The channel as `Channel` has it, with its own entry in the epoll set. -/
def view (s : EpollPoller ι) (c : ι) : Channel where
  events_ := (s.channel c).events_
  index_ := (s.channel c).index_
  addedToLoop_ := (s.channel c).addedToLoop_
  registered := (entry c (s.channel c)).map Prod.fst

omit [DecidableEq ι] in
theorem Consistent.absent (h : Consistent s) (hfree : Free s c)
    (hnew : (s.channel c).index_ = .kNew) :
    s.channels_.find? (s.channel c).fd_ = none := by
  cases hfind : s.channels_.find? (s.channel c).fd_ with
  | none => rfl
  | some d =>
    have hkey := h.keys _ d hfind
    have hregistered : (s.channel d).index_ ≠ .kNew := by
      rw [h.mapped d, hkey]
      exact hfind
    have hdc : d ≠ c := by
      rintro rfl
      exact hregistered hnew
    exact absurd hkey (hfree d hdc hregistered)

theorem updateChannel_new (hindex : (s.channel c).index_ = .kNew)
    (hmap : s.channels_.find? (s.channel c).fd_ = none)
    (hset : s.epollSet.find? (s.channel c).fd_ = none) :
    s.updateChannel c = .ok { s.setIndex c .kAdded with
      channels_ := s.channels_.insert (s.channel c).fd_ c
      epollSet := s.epollSet.insert (s.channel c).fd_ ((s.channel c).events_, c) } := by
  simp [updateChannel, hindex, assert, hmap, setIndex, setChannel, update, epollCtl, hset, bind,
    Except.bind, pure, Except.pure]

theorem updateChannel_deleted (hindex : (s.channel c).index_ = .kDeleted)
    (hmap : s.channels_.find? (s.channel c).fd_ = some c)
    (hset : s.epollSet.find? (s.channel c).fd_ = none) :
    s.updateChannel c = .ok { s.setIndex c .kAdded with
      epollSet := s.epollSet.insert (s.channel c).fd_ ((s.channel c).events_, c) } := by
  simp [updateChannel, hindex, assert, hmap, setIndex, setChannel, update, epollCtl, hset, bind,
    Except.bind, pure, Except.pure]

theorem updateChannel_disabled (hindex : (s.channel c).index_ = .kAdded)
    (hmap : s.channels_.find? (s.channel c).fd_ = some c) {e : EventMask × ι}
    (hset : s.epollSet.find? (s.channel c).fd_ = some e)
    (hnone : (s.channel c).events_ = kNoneEvent) :
    s.updateChannel c = .ok { s.setIndex c .kDeleted with
      epollSet := s.epollSet.erase (s.channel c).fd_ } := by
  simp [updateChannel, hindex, assert, hmap, hnone, setIndex, setChannel, update, epollCtl,
    hset, bind, Except.bind, pure, Except.pure]

theorem updateChannel_modified (hindex : (s.channel c).index_ = .kAdded)
    (hmap : s.channels_.find? (s.channel c).fd_ = some c) {e : EventMask × ι}
    (hset : s.epollSet.find? (s.channel c).fd_ = some e)
    (hnone : (s.channel c).events_ ≠ kNoneEvent) :
    s.updateChannel c = .ok { s with
      epollSet := s.epollSet.insert (s.channel c).fd_ ((s.channel c).events_, c) } := by
  simp [updateChannel, hindex, assert, hmap, hnone, update, epollCtl, hset, bind, Except.bind, pure,
    Except.pure]

omit [DecidableEq ι] in
theorem Consistent.find (h : Consistent s) (c : ι) (hindex : (s.channel c).index_ ≠ .kNew) :
    s.channels_.find? (s.channel c).fd_ = some c ∧
      s.epollSet.find? (s.channel c).fd_ = entry c (s.channel c) := by
  have hmap := (h.mapped c).mp hindex
  refine ⟨hmap, ?_⟩
  rw [h.set, hmap]
  rfl

omit [DecidableEq ι] in
/-- What is in the map already stays there under the same descriptor. -/
theorem find?_self {m : OrdMap Int ι} {fd : Int} (h : m.find? fd = some c) (fd' : Int) :
    m.find? fd' = if fd' = fd then some c else m.find? fd' := by
  split
  next heq => rw [heq, h]
  next => rfl

/-- The channel as it is behind `Channel::update` with these events. -/
def updated (s : EpollPoller ι) (c : ι) (events : EventMask) : Polled :=
  { s.channel c with
    events_ := events
    addedToLoop_ := true
    index_ := (Channel.update { s.view c with events_ := events }).index_ }

omit [DecidableEq ι] in
theorem updated_eq (s : EpollPoller ι) (c : ι) (events : EventMask) :
    s.updated c events = { s.channel c with
      events_ := events
      addedToLoop_ := true
      index_ := if (s.channel c).index_ = .kAdded ∧ events = kNoneEvent then .kDeleted
      else .kAdded } := by
  rw [updated, Channel.update_index_eq]
  rfl

/-- An update of a channel does not fail, and replaces it by what `Channel::update` makes of it. -/
theorem channelUpdate_ok (h : Consistent s) (hfree : Free s c) (events : EventMask) :
    ∃ t, s.channelUpdate c events = .ok t ∧ Replaced s t c (s.updated c events) := by
  unfold channelUpdate
  rw [updated_eq]
  cases hindex : (s.channel c).index_ with
  | kNew =>
    have hmap := h.absent hfree hindex
    have hset : s.epollSet.find? (s.channel c).fd_ = none := by
      rw [h.set, hmap]
      rfl
    refine ⟨_, updateChannel_new (by simpa using hindex) (by simpa using hmap)
      (by simpa using hset), ?_, fun fd ↦ ?_, fun fd ↦ ?_⟩
    · simp [setIndex, setChannel_setChannel]
    · simp [OrdMap.find?_insert]
    · simp [OrdMap.find?_insert, entry]
  | kDeleted =>
    rcases h.find c (by simp [hindex]) with ⟨hmap, hset⟩
    rw [entry, if_neg (by simp [hindex])] at hset
    refine ⟨_, updateChannel_deleted (by simpa using hindex) (by simpa using hmap)
      (by simpa using hset), ?_, fun fd ↦ ?_, fun fd ↦ ?_⟩
    · simp [setIndex, setChannel_setChannel]
    · simpa [setIndex] using find?_self hmap fd
    · simp [OrdMap.find?_insert, entry]
  | kAdded =>
    rcases h.find c (by simp [hindex]) with ⟨hmap, hset⟩
    rw [entry, if_pos hindex] at hset
    -- without interest the descriptor leaves the epoll set, and else it is modified
    by_cases hnone : events = kNoneEvent
    · refine ⟨_, updateChannel_disabled (by simpa using hindex) (by simpa using hmap)
        (by simpa using hset)
        (by simpa using hnone), ?_, fun fd ↦ ?_, fun fd ↦ ?_⟩
      · simp [setIndex, setChannel_setChannel, hnone]
      · simpa [setIndex, hnone] using find?_self hmap fd
      · simp [OrdMap.find?_erase, entry, hnone]
    · refine ⟨_, updateChannel_modified (by simpa using hindex) (by simpa using hmap)
        (by simpa using hset)
        (by simpa using hnone), ?_, fun fd ↦ ?_, fun fd ↦ ?_⟩
      · simp [hnone, hindex]
      · simpa [hnone] using find?_self hmap fd
      · simp [OrdMap.find?_insert, entry, hnone]

theorem removeChannel_ok (hmap : s.channels_.find? (s.channel c).fd_ = some c)
    (hset : s.epollSet.find? (s.channel c).fd_ = entry c (s.channel c))
    (hindex : (s.channel c).index_ ≠ .kNew) (hnone : (s.channel c).events_ = kNoneEvent) :
    ∃ t, s.removeChannel c = .ok t ∧ Replaced s t c { s.channel c with index_ := .kNew } := by
  cases hold : (s.channel c).index_ with
  | kNew => exact absurd hold hindex
  | kAdded =>
    rw [entry, if_pos hold] at hset
    refine ⟨{ s.setIndex c .kNew with
      channels_ := s.channels_.erase (s.channel c).fd_
      epollSet := s.epollSet.erase (s.channel c).fd_ }, ?_, rfl, fun fd ↦ ?_, fun fd ↦ ?_⟩
    · simp [removeChannel, assert, hmap, hnone, hold, update, epollCtl, hset, setIndex,
        setChannel, bind, Except.bind, pure, Except.pure]
    · simp [OrdMap.find?_erase]
    · simp [OrdMap.find?_erase, entry]
  | kDeleted =>
    rw [entry, if_neg (by simp [hold])] at hset
    refine ⟨{ s.setIndex c .kNew with channels_ := s.channels_.erase (s.channel c).fd_ }, ?_, rfl,
      fun fd ↦ ?_, fun fd ↦ ?_⟩
    · simp [removeChannel, assert, hmap, hnone, hold, setIndex, setChannel, bind, Except.bind, pure,
        Except.pure]
    · simp [OrdMap.find?_erase]
    · simp only [setIndex, setChannel_epollSet, entry, reduceCtorEq, if_false]
      split
      next heq => rw [heq, hset]
      next => rfl

/-- The channel as it is behind `Channel::remove`. -/
def removed (s : EpollPoller ι) (c : ι) : Polled :=
  { s.channel c with addedToLoop_ := false, index_ := .kNew }

theorem channelRemove_ok (h : Consistent s) (hindex : (s.channel c).index_ ≠ .kNew)
    (hnone : (s.channel c).events_ = kNoneEvent) :
    ∃ t, s.channelRemove c = .ok t ∧ Replaced s t c (s.removed c) := by
  rcases h.find c hindex with ⟨hmap, hset⟩
  rcases removeChannel_ok (s := s.setChannel c { s.channel c with addedToLoop_ := false }) (c := c)
    (by simpa using hmap) (by simpa [entry] using hset) (by simpa using hindex)
      (by simpa using hnone) with
    ⟨t, ht, hr⟩
  refine ⟨t, ?_, ?_, fun fd ↦ ?_, fun fd ↦ ?_⟩
  · unfold channelRemove
    rw [assert, if_pos hnone]
    exact ht
  · rw [hr.channel, setChannel_setChannel, setChannel_self]
    rfl
  · simpa [removed] using hr.map fd
  · simpa [removed, entry] using hr.set fd

/-! ## One call -/

/-- The call as `Channel` has it. -/
def Call.onChannel (channel : Channel) : Call → Except Assertion Channel
  | .enableReading => .ok channel.enableReading
  | .disableReading => .ok channel.disableReading
  | .enableWriting => .ok channel.enableWriting
  | .disableWriting => .ok channel.disableWriting
  | .disableAll => .ok channel.disableAll
  | .remove => channel.remove

/-- What a call that is allowed comes to. -/
structure Answers (s t : EpollPoller ι) (c : ι) (call : Call) : Prop where
  consistent : Consistent t
  self : call.onChannel (s.view c) = .ok (t.view c)
  other : ∀ d, d ≠ c → t.view d = s.view d

theorem view_other (hr : Replaced s t c p) {d : ι} (hd : d ≠ c) : t.view d = s.view d := by
  unfold view
  rw [hr.other hd]

theorem view_updated {events : EventMask} (hr : Replaced s t c (s.updated c events)) :
    t.view c = Channel.update { s.view c with events_ := events } := by
  rw [view, hr.self, updated_eq]
  unfold Channel.update Channel.updateChannel
  cases hindex : (s.channel c).index_ with
  | kNew | kDeleted => simp [view, entry, hindex]
  | kAdded =>
    by_cases hnone : events = kNoneEvent
    · simp [view, entry, hindex, hnone, Channel.isNoneEvent]
    · simp [view, entry, hindex, hnone, Channel.isNoneEvent]

theorem answers_update (h : Consistent s) (hfree : Free s c) {call : Call} {events : EventMask}
    (hcall : s.call c call = s.channelUpdate c events)
    (hchannel : call.onChannel (s.view c) =
    .ok (Channel.update { s.view c with events_ := events })) :
    ∃ t, s.call c call = .ok t ∧ Answers s t c call := by
  rcases channelUpdate_ok h hfree events with ⟨t, ht, hr⟩
  refine ⟨t, hcall.trans ht, h.replaced hfree ?_ hr, ?_, fun d hd ↦ view_other hr hd⟩
  · rw [updated_eq]
  · rw [hchannel, view_updated hr]

theorem answers_remove (h : Consistent s) (hallowed : Allowed s c .remove) :
    ∃ t, s.call c .remove = .ok t ∧ Answers s t c .remove := by
  rcases channelRemove_ok h hallowed.1 hallowed.2 with ⟨t, ht, hr⟩
  have hfree : Free s c := by
    intro d hd hindex hsame
    -- the map has one channel for a descriptor
    have hfind := (h.find d hindex).1
    rw [hsame, (h.find c hallowed.1).1] at hfind
    exact hd (Option.some.inj hfind).symm
  have hfd : (s.removed c).fd_ = (s.channel c).fd_ := rfl
  refine ⟨t, ht, h.replaced hfree hfd hr, ?_, fun d hd ↦ view_other hr hd⟩
  have hview : t.view c = { s.view c with addedToLoop_ := false, index_ := .kNew, registered :=
      none } := by
    rw [view, hr.self]
    rfl
  rw [hview]
  simp [Call.onChannel, Channel.remove, Channel.removeChannel, Channel.isNoneEvent, view,
    hallowed.1, hallowed.2]

/-- **One call** that is allowed fails nothing, keeps the three places in agreement, and is for its
channel what `Channel` says and for the others nothing. -/
theorem answers_call (h : Consistent s) {call : Call} (hallowed : Allowed s c call) :
    ∃ t, s.call c call = .ok t ∧ Answers s t c call := by
  cases call with
  | enableReading | disableReading | enableWriting | disableWriting | disableAll =>
    exact answers_update h hallowed rfl rfl
  | remove => exact answers_remove h hallowed

/-! ## Runs -/

/-- The three places of a channel, and whose descriptors are registered. -/
structure Agrees (s : EpollPoller ι) : Prop where
  new : ∀ c, (s.channel c).index_ = .kNew ↔ s.channels_.find? (s.channel c).fd_ ≠ some c
  added : ∀ c, (s.channel c).index_ = .kAdded ↔
    s.epollSet.find? (s.channel c).fd_ = some ((s.channel c).events_, c)
  deleted : ∀ c, (s.channel c).index_ = .kDeleted ↔
    s.channels_.find? (s.channel c).fd_ = some c ∧ s.epollSet.find? (s.channel c).fd_ = none
  map : ∀ fd c, s.channels_.find? fd = some c → (s.channel c).fd_ = fd
  set : ∀ fd mask c, s.epollSet.find? fd = some (mask, c) →
    (s.channel c).fd_ = fd ∧ mask = (s.channel c).events_ ∧ (s.channel c).index_ = .kAdded

omit [DecidableEq ι] in
theorem Consistent.agrees (h : Consistent s) : Agrees s := by
  have hset : ∀ fd mask c, s.epollSet.find? fd = some (mask, c) →
      (s.channel c).fd_ = fd ∧ mask = (s.channel c).events_ ∧ (s.channel c).index_ = .kAdded := by
    intro fd mask c hfind
    rw [h.set] at hfind
    rcases Option.bind_eq_some_iff.mp hfind with ⟨d, hd, hentry⟩
    unfold entry at hentry
    split at hentry
    next hadded =>
      cases hentry
      exact ⟨h.keys fd c hd, rfl, hadded⟩
    next => cases hentry
  have hadded : ∀ c, (s.channel c).index_ = .kAdded ↔
      s.epollSet.find? (s.channel c).fd_ = some ((s.channel c).events_, c) := by
    intro c
    constructor
    · intro hindex
      rw [(h.find c (by simp [hindex])).2, entry, if_pos hindex]
    · intro hfind
      -- the entry holds the address of the channel, so it is that channel's
      exact (hset _ _ c hfind).2.2
  refine ⟨fun c ↦ ?_, hadded, fun c ↦ ?_, h.keys, hset⟩
  · rw [ne_eq, ← h.mapped c, not_not]
  · rw [← h.mapped c]
    constructor
    · intro hindex
      refine ⟨by simp [hindex], ?_⟩
      rw [(h.find c (by simp [hindex])).2, entry, if_neg (by simp [hindex])]
    · rintro ⟨hindex, hnone⟩
      cases hold : (s.channel c).index_ with
      | kNew => exact absurd hold hindex
      | kAdded =>
        rw [(hadded c).mp hold] at hnone
        cases hnone
      | kDeleted => rfl

/-- **Registration agrees.**  In every run of allowed calls on any number of channels, a channel is
in `channels_`, in the epoll set with its mask and address, or in neither, as its index says;
nothing else is in the two; and no allowed call fails an assertion or is refused by `epoll_ctl`. -/
theorem registration_agrees {fd : ι → Int} {ls : List (ι × Call)}
    (h : Run (Guarded Step fun s l ↦ Allowed s l.1 l.2) (fresh fd) ls s) :
    Agrees s ∧ ∀ c call, Allowed s c call → ∃ t, s.call c call = .ok t := by
  have hs : Consistent s := by
    refine h.invariant Consistent ?_ (consistent_fresh fd)
    rintro s ⟨c, call⟩ t hs ⟨hstep, hallowed⟩
    rcases answers_call hs hallowed with ⟨u, hu, hanswers⟩
    cases hstep.symm.trans hu
    exact hanswers.consistent
  refine ⟨hs.agrees, fun c call hallowed ↦ ?_⟩
  rcases answers_call hs hallowed with ⟨t, ht, _⟩
  exact ⟨t, ht⟩

/-- Two channels of one descriptor, one behind the other. -/
theorem registration_agrees_reused :
    ∃ s, Run (Guarded Step fun s l ↦ Allowed s l.1 l.2) (fresh fun _ : Bool ↦ 5)
        [(false, .enableWriting), (false, .disableAll), (false, .remove),
        (true, .enableReading)] s ∧
      Agrees s ∧ ∀ c call, Allowed s c call → ∃ t, s.call c call = .ok t := by
  have hrun := show Run (Guarded Step fun s l ↦ Allowed s l.1 l.2) (fresh fun _ : Bool ↦ 5)
        [(false, .enableWriting), (false, .disableAll), (false, .remove),
        (true, .enableReading)] _ from
    .cons ⟨rfl, show Allowed _ _ _ by decide⟩ <| .cons ⟨rfl, show Allowed _ _ _ by decide⟩ <|
    .cons ⟨rfl, show Allowed _ _ _ by decide⟩ <| .cons ⟨rfl, show Allowed _ _ _ by decide⟩ <| .nil _
  exact ⟨_, hrun, registration_agrees hrun⟩

/-- A channel that is not registered while another one is for the same descriptor: its index is
`kNew`, and yet its descriptor is in `channels_` and in the epoll set. -/
theorem unregistered_shares_fd :
    ¬ ∀ (fd : Bool → Int) (ls : List (Bool × Call)) (s : EpollPoller Bool),
        Run (Guarded Step fun s l ↦ Allowed s l.1 l.2) (fresh fd) ls s → ∀ c,
          ((s.channel c).index_ = .kNew ↔ s.channels_.find? (s.channel c).fd_ = none) ∧
          ((s.channel c).index_ = .kAdded ↔ s.epollSet.find? (s.channel c).fd_ ≠ none) := by
  intro h
  have hrun := show Run (Guarded Step fun s l ↦ Allowed s l.1 l.2) (fresh fun _ : Bool ↦ 5)
        [(true, .enableReading)] _ from .cons ⟨rfl, show Allowed _ _ _ by decide⟩ <| .nil _
  exact absurd ((h _ _ _ hrun false).1.mp rfl) (by decide)

end EpollPoller

end Pallette
