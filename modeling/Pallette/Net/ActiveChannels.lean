import Pallette.Basic
import Pallette.Net.EpollPoller

/-!
# ActiveChannels — the channels the poller has reported, and their handlers

`poll` fills `activeChannels_`, and `EventLoop::loop` runs the handlers of these channels one after
the other, whatever interest a channel has by then.  A handler is user code, as is what runs between
two polls: it makes any calls on any channels.
-/

open Reasoning

namespace Pallette

open EventMask EpollPoller

/-- `remaining` are the channels the loop over `activeChannels_` still has in front of it. -/
structure ActiveChannels (ι : Type) where
  poller_ : EpollPoller ι
  activeChannels_ : List ι := []
  remaining : List ι := []
  currentActiveChannel_ : Option ι := none
  eventHandling_ : Bool := false

namespace ActiveChannels

inductive Label (ι : Type)
  | poll (events : List (Int × EventMask))
  | handleEvent
  | endHandling
  | call (c : ι) (call : Call)
deriving DecidableEq, Repr

variable {ι : Type} [DecidableEq ι]

/-- What `epoll_wait` may return: each descriptor at most once. -/
def Reports (poller : EpollPoller ι) (events : List (Int × EventMask)) : Prop :=
  (events.map Prod.fst).Nodup ∧
    ∀ e ∈ events, ∃ entry ∈ poller.epollSet.find? e.1, MayReport entry.1 e.2

instance (poller : EpollPoller ι) (events : List (Int × EventMask)) :
    Decidable (Reports poller events) :=
  inferInstanceAs (Decidable (_ ∧ ∀ e ∈ events, ∃ entry ∈ poller.epollSet.find? e.1, _))

/-- The pointers the kernel hands back. -/
def fillActiveChannels (poller : EpollPoller ι) (events : List (Int × EventMask)) : List ι :=
  events.filterMap fun e ↦ (poller.epollSet.find? e.1).map Prod.snd

variable (s : ActiveChannels ι)

/-- User code runs in a handler, and where no handlers are run. -/
def inUserCode : Bool :=
  !s.eventHandling_ || s.currentActiveChannel_.isSome

/-- A call on a channel, by way of the loop. -/
def call (c : ι) (call : Call) : Except Fault (ActiveChannels ι) := do
  -- `removeChannel` does not let go of a channel that waits for its handler
  if call = .remove ∧ s.eventHandling_ = true then
    assert (s.currentActiveChannel_ = some c ∨ c ∉ s.activeChannels_)
  let poller ← s.poller_.call c call
  return { s with poller_ := poller }

/-- One step; `none` when it is not due. -/
def next : Label ι → Option (Except Fault (ActiveChannels ι))
  | .poll events =>
      if s.eventHandling_ = false ∧ Reports s.poller_ events then
        let active := fillActiveChannels s.poller_ events
        some (.ok { s with activeChannels_ := active, remaining := active, eventHandling_ := true })
      else none
  | .handleEvent =>
      match s.eventHandling_, s.remaining with
      | true, channel :: rest =>
          some (.ok { s with currentActiveChannel_ := some channel, remaining := rest })
      | _, _ => none
  | .endHandling =>
      if s.eventHandling_ = true ∧ s.remaining = [] then
        some (.ok { s with currentActiveChannel_ := none, eventHandling_ := false })
      else none
  | .call c call => if s.inUserCode then some (s.call c call) else none

def Step (s : ActiveChannels ι) (l : Label ι) (t : ActiveChannels ι) : Prop :=
  s.next l = some (.ok t)

/-- What a step can be. -/
inductive StepCases (s : ActiveChannels ι) : Label ι → ActiveChannels ι → Prop
  | poll {events : List (Int × EventMask)} : s.eventHandling_ = false → Reports s.poller_ events →
      StepCases s (.poll events) { s with
        activeChannels_ := fillActiveChannels s.poller_ events
        remaining := fillActiveChannels s.poller_ events, eventHandling_ := true }
  | handleEvent {channel : ι} {rest : List ι} : s.remaining = channel :: rest →
      StepCases s .handleEvent { s with currentActiveChannel_ := some channel, remaining := rest }
  | endHandling : s.remaining = [] →
      StepCases s .endHandling { s with currentActiveChannel_ := none, eventHandling_ := false }
  | call {c : ι} {call : Call} {poller : EpollPoller ι} : s.inUserCode = true →
      (call = .remove → s.eventHandling_ = true →
        s.currentActiveChannel_ = some c ∨ c ∉ s.activeChannels_) →
      s.poller_.call c call = .ok poller → StepCases s (.call c call) { s with poller_ := poller }

variable {s} {t : ActiveChannels ι} {l : Label ι}

theorem call_cases {c : ι} {call : Call} (h : s.call c call = .ok t) :
    ∃ poller, (call = .remove → s.eventHandling_ = true →
      s.currentActiveChannel_ = some c ∨ c ∉ s.activeChannels_) ∧
      s.poller_.call c call = .ok poller ∧ t = { s with poller_ := poller } := by
  unfold ActiveChannels.call at h
  by_cases hchecked : call = .remove ∧ s.eventHandling_ = true
  · rw [if_pos hchecked] at h
    obtain ⟨_, hassert, hrest⟩ := ok_of_bind h
    obtain ⟨poller, hpoller, heq⟩ := ok_of_bind hrest
    cases heq
    exact ⟨poller, fun _ _ ↦ of_assert hassert, hpoller, rfl⟩
  · rw [if_neg hchecked] at h
    obtain ⟨poller, hpoller, heq⟩ := ok_of_bind h
    cases heq
    exact ⟨poller, fun hremove hhandling ↦ absurd ⟨hremove, hhandling⟩ hchecked, hpoller, rfl⟩

theorem step_cases (h : Step s l t) : StepCases s l t := by
  unfold Step at h
  cases l with
  | poll events =>
    obtain ⟨hready, heq⟩ := Option.ite_none_right_eq_some.mp h
    cases heq
    exact .poll hready.1 hready.2
  | handleEvent =>
    simp only [next] at h
    split at h
    next hremaining =>
      cases h
      exact .handleEvent hremaining
    next => cases h
  | endHandling =>
    obtain ⟨hready, heq⟩ := Option.ite_none_right_eq_some.mp h
    cases heq
    exact .endHandling hready.2
  | call c call =>
    obtain ⟨huser, hcall⟩ := Option.ite_none_right_eq_some.mp h
    obtain ⟨poller, hchecked, hpoller, rfl⟩ := call_cases (Option.some.inj hcall)
    exact .call huser hchecked hpoller

omit [DecidableEq ι] in
/-- What is reported is in the epoll set. -/
theorem mem_fillActiveChannels {poller : EpollPoller ι} {events : List (Int × EventMask)} {c : ι}
    (h : c ∈ fillActiveChannels poller events) :
    ∃ fd mask, poller.epollSet.find? fd = some (mask, c) := by
  obtain ⟨e, -, he⟩ := List.mem_filterMap.mp h
  obtain ⟨⟨mask, d⟩, hfind, rfl⟩ := Option.map_eq_some_iff.mp he
  exact ⟨e.1, mask, hfind⟩

end ActiveChannels

end Pallette
