import Pallette.Net.ActiveChannels

/-!
# Disabling — channels without interest, and the epoll set

A channel is taken out of the epoll set by an update that finds it there and without interest.  An
update that does not find it there puts it in, whatever its interest is: one that was never
registered, or that is disabled for the second time, goes in with an empty mask, and the kernel
reports its hang-ups.  A channel that has been reported already gets its handler run, whatever is
called on it meanwhile.
-/

open Reasoning

namespace Pallette

namespace EpollPoller

open EventMask

variable {ι : Type} [DecidableEq ι] {s t : EpollPoller ι} {c : ι} {call : Call}

/-- The interest a channel has behind a call. -/
def Call.interest (events : EventMask) : Call → EventMask
  | .enableReading => events.union kReadEvent
  | .disableReading => events.without kReadEvent
  | .enableWriting => events.union kWriteEvent
  | .disableWriting => events.without kWriteEvent
  | .disableAll => kNoneEvent
  | .remove => events

/-- A call that leaves its channel without interest finds it in the epoll set. -/
def DisablesAdded (s : EpollPoller ι) (l : ι × Call) : Prop :=
  l.2 ≠ .remove → l.2.interest (s.channel l.1).events_ = kNoneEvent →
    (s.channel l.1).index_ = .kAdded

theorem call_update (s : EpollPoller ι) (c : ι) (hcall : call ≠ .remove) :
    s.call c call = s.channelUpdate c (call.interest (s.channel c).events_) := by
  cases call with
  | remove => exact absurd rfl hcall
  | enableReading | disableReading | enableWriting | disableWriting | disableAll => rfl

/-! ## Calls that return -/

/-- The assertions of `updateChannel` notice another channel that is registered for the
descriptor. -/
theorem free_of_updateChannel (h : Consistent s) {p : Polled} (hfd : p.fd_ = (s.channel c).fd_)
    (hindex : p.index_ = (s.channel c).index_)
    (hcall : (s.setChannel c p).updateChannel c = .ok t) :
    Free s c := by
  intro d hd hregistered hsame
  have hfind := (h.mapped d).mp hregistered
  rw [hsame] at hfind
  have hmine : s.channels_.find? (s.channel c).fd_ ≠ some c := by
    rw [hfind]
    intro heq
    exact hd (Option.some.inj heq)
  unfold updateChannel at hcall
  simp only [setChannel_self, setChannel_channels, hfd, hindex] at hcall
  cases hold : (s.channel c).index_ with
  | kNew =>
    rw [hold] at hcall
    obtain ⟨_, hassert, _⟩ := ok_of_bind hcall
    rw [hfind] at hassert
    cases of_assert hassert
  | kAdded | kDeleted =>
    rw [hold] at hcall
    obtain ⟨_, hassert, _⟩ := ok_of_bind hcall
    exact hmine (of_assert hassert)

theorem allowed_of_call (h : Consistent s) (hcall : s.call c call = .ok t) : Allowed s c call := by
  by_cases hremove : call = .remove
  · subst hremove
    obtain ⟨_, hnone, hremoved⟩ := ok_of_bind (show s.channelRemove c = .ok t from hcall)
    obtain ⟨_, hmapped, _⟩ := ok_of_bind hremoved
    have hfind := of_assert hmapped
    simp only [setChannel_self, setChannel_channels] at hfind
    exact ⟨(h.mapped c).mpr hfind, of_assert hnone⟩
  · rw [call_update s c hremove] at hcall
    have hfree := free_of_updateChannel (p := { s.channel c with
      events_ := call.interest (s.channel c).events_, addedToLoop_ := true }) h rfl rfl hcall
    cases call with
    | remove => exact absurd rfl hremove
    | enableReading | disableReading | enableWriting | disableWriting | disableAll => exact hfree

/-- A call that returns is as `Channel` has it, whoever else is there. -/
theorem answers_of_call (h : Consistent s) (hcall : s.call c call = .ok t) :
    Answers s t c call := by
  obtain ⟨u, hu, hanswers⟩ := answers_call h (allowed_of_call h hcall)
  rw [hcall] at hu
  cases hu
  exact hanswers

/-! ## The call that disables -/

omit [DecidableEq ι] in
theorem view_of_update (h : Answers s t c call) (hcall : call ≠ .remove) :
    t.view c = Channel.update { s.view c with events_ := call.interest (s.channel c).events_ } := by
  have hself := h.self
  cases call with
  | remove => exact absurd rfl hcall
  | enableReading | disableReading | enableWriting | disableWriting | disableAll =>
    exact (Except.ok.inj hself).symm

omit [DecidableEq ι] in
theorem events_of_update (h : Answers s t c call) (hcall : call ≠ .remove) :
    (t.channel c).events_ = call.interest (s.channel c).events_ := by
  change (t.view c).events_ = _
  rw [view_of_update h hcall, Channel.update_events]

omit [DecidableEq ι] in
theorem index_of_update (h : Answers s t c call) (hcall : call ≠ .remove) :
    (t.channel c).index_ =
      if (s.channel c).index_ = .kAdded ∧ call.interest (s.channel c).events_ = kNoneEvent
        then .kDeleted
      else .kAdded := by
  change (t.view c).index_ = _
  rw [view_of_update h hcall, Channel.update_index_eq]
  rfl

theorem removed_of_call (h : Consistent s) (hcall : s.call c .remove = .ok t) :
    (t.channel c).index_ = .kNew ∧ t.epollSet.find? (t.channel c).fd_ = none := by
  have hallowed := allowed_of_call h hcall
  obtain ⟨u, hu, hr⟩ := channelRemove_ok h hallowed.1 hallowed.2
  cases hcall.symm.trans hu
  constructor
  · rw [hr.self]
    rfl
  · rw [hr.self]
    exact (hr.set (s.channel c).fd_).trans (if_pos rfl)

/-- What leaves a channel without interest leaves it out of the epoll set exactly if it finds it
there. -/
theorem unwatched_iff (h : Consistent s) (hcall : s.call c call = .ok t)
    (hnone : (t.channel c).events_ = kNoneEvent) :
    t.epollSet.find? (t.channel c).fd_ = none ↔ DisablesAdded s (c, call) := by
  by_cases hremove : call = .remove
  · subst hremove
    exact iff_of_true (removed_of_call h hcall).2 (fun hne ↦ absurd rfl hne)
  · have hanswers := answers_of_call h hcall
    have hinterest := (events_of_update hanswers hremove).symm.trans hnone
    have hindex := index_of_update hanswers hremove
    have hregistered : (t.channel c).index_ ≠ .kNew := by
      rw [hindex]
      split <;> simp
    rw [(hanswers.consistent.find c hregistered).2, entry]
    by_cases hadded : (s.channel c).index_ = .kAdded
    · rw [if_pos ⟨hadded, hinterest⟩] at hindex
      rw [if_neg (by simp [hindex])]
      exact iff_of_true rfl (fun _ _ ↦ hadded)
    · rw [if_neg (fun hboth ↦ hadded hboth.1)] at hindex
      rw [if_pos hindex]
      exact iff_of_false (by simp) (fun hdisables ↦ hadded (hdisables hremove hinterest))

/-! ## Runs -/

/-- What is in the epoll set has an interest. -/
def Interested (s : EpollPoller ι) : Prop :=
  ∀ c, (s.channel c).index_ = .kAdded → (s.channel c).events_ ≠ kNoneEvent

theorem interested_of_call (h : Consistent s) (hs : Interested s) (hcall : s.call c call = .ok t)
    (hdisables : DisablesAdded s (c, call)) : Interested t := by
  have hanswers := answers_of_call h hcall
  intro d hadded
  by_cases hd : d = c
  · subst hd
    by_cases hremove : call = .remove
    · subst hremove
      rw [(removed_of_call h hcall).1] at hadded
      cases hadded
    · rw [events_of_update hanswers hremove]
      intro hnone
      rw [index_of_update hanswers hremove, if_pos ⟨hdisables hremove hnone, hnone⟩] at hadded
      cases hadded
  · have hview := hanswers.other d hd
    have hevents : (t.channel d).events_ = (s.channel d).events_ := congrArg Channel.events_ hview
    have hindex : (t.channel d).index_ = (s.channel d).index_ := congrArg Channel.index_ hview
    rw [hevents]
    apply hs
    rw [← hindex]
    exact hadded

end EpollPoller

/-! ## The handlers -/

namespace ActiveChannels

open EventMask EpollPoller

variable {ι : Type} [DecidableEq ι] {s t : ActiveChannels ι} {l : Label ι}

/-- A call that leaves its channel without interest finds it in the epoll set, and the channel does
not wait for its handler. -/
def Disables (s : ActiveChannels ι) : Label ι → Prop
  | .call c call => call ≠ .remove →
      call.interest (s.poller_.channel c).events_ = kNoneEvent →
      (s.poller_.channel c).index_ = .kAdded ∧ c ∉ s.remaining
  | _ => True

/-- The channels in the epoll set have an interest, and so have those that wait for their
handler. -/
structure Watched (s : ActiveChannels ι) : Prop where
  consistent : Consistent s.poller_
  added : Interested s.poller_
  waiting : ∀ c ∈ s.remaining, (s.poller_.channel c).events_ ≠ kNoneEvent

theorem Watched.call {poller : EpollPoller ι} {c : ι} {call : Call} (h : Watched s)
    (hcall : s.poller_.call c call = .ok poller) (hdisables : Disables s (.call c call)) :
    Watched { s with poller_ := poller } := by
  have hanswers := answers_of_call h.consistent hcall
  have hadded : DisablesAdded s.poller_ (c, call) :=
    fun hremove hnone ↦ (hdisables hremove hnone).1
  refine ⟨hanswers.consistent, interested_of_call h.consistent h.added hcall hadded, ?_⟩
  intro d hd
  by_cases hdc : d = c
  · subst hdc
    by_cases hremove : call = .remove
    · -- `remove` asserts that there is no interest
      subst hremove
      exact absurd (allowed_of_call h.consistent hcall).2 (h.waiting d hd)
    · intro hnone
      rw [events_of_update hanswers hremove] at hnone
      exact (hdisables hremove hnone).2 hd
  · have hevents : (poller.channel d).events_ = (s.poller_.channel d).events_ :=
      congrArg Channel.events_ (hanswers.other d hdc)
    show (poller.channel d).events_ ≠ kNoneEvent
    rw [hevents]
    exact h.waiting d hd

theorem Watched.step (h : Watched s) (hstep : Step s l t) (hdisables : Disables s l) :
    Watched t := by
  cases step_cases hstep with
  | poll hidle hreports =>
    refine ⟨h.consistent, h.added, fun c hc ↦ ?_⟩
    obtain ⟨fd, mask, hfind⟩ := mem_fillActiveChannels hc
    exact h.added c (h.consistent.agrees.set fd mask c hfind).2.2
  | handleEvent hremaining =>
    refine ⟨h.consistent, h.added, fun c hc ↦ h.waiting c ?_⟩
    rw [hremaining]
    exact List.mem_cons_of_mem _ hc
  | endHandling hnone => exact ⟨h.consistent, h.added, h.waiting⟩
  | call huser hchecked hcall => exact h.call hcall hdisables

/-- **Disabled channels are neither watched nor dispatched.**  In every run of polls, handlers and
calls on any number of channels in which a call that leaves its channel without interest finds it in
the epoll set and not waiting for its handler, no channel without interest is in the set, and none
gets its handler run; and the next such call leaves the descriptor out of the set and the channel
without a handler to come exactly if it meets that condition. -/
theorem disabled_unwatched {fd : ι → Int} {ls : List (Label ι)}
    (h : Run (Guarded Step Disables) { poller_ := fresh fd } ls s) :
    (∀ fd mask c, s.poller_.epollSet.find? fd = some (mask, c) →
        (s.poller_.channel c).events_ ≠ kNoneEvent) ∧
      (∀ t c, Step s .handleEvent t → t.currentActiveChannel_ = some c →
        (s.poller_.channel c).events_ ≠ kNoneEvent) ∧
      ∀ c call t, Step s (.call c call) t → (t.poller_.channel c).events_ = kNoneEvent →
        (t.poller_.epollSet.find? (t.poller_.channel c).fd_ = none ∧ c ∉ t.remaining ↔
          Disables s (.call c call)) := by
  have hinv : Watched s := by
    apply h.invariant Watched
    · intro s l t hs hstep
      exact hs.step hstep.1 hstep.2
    · exact ⟨consistent_fresh fd, fun c hadded ↦ (by cases hadded), fun c hc ↦ (by cases hc)⟩
  refine ⟨?_, ?_, ?_⟩
  · intro fd mask c hfind
    exact hinv.added c (hinv.consistent.agrees.set fd mask c hfind).2.2
  · intro t c hstep hcurrent
    cases step_cases hstep with
    | handleEvent hremaining =>
      cases hcurrent
      exact hinv.waiting c (hremaining ▸ List.mem_cons_self)
  · intro c call t hstep hnone
    cases step_cases hstep with
    | call huser hchecked hcall =>
      have hunwatched := unwatched_iff hinv.consistent hcall hnone
      by_cases hremove : call = .remove
      · -- what is removed has no interest, so it does not wait
        subst hremove
        have hidle : c ∉ s.remaining :=
          fun hc ↦ hinv.waiting c hc (allowed_of_call hinv.consistent hcall).2
        exact iff_of_true ⟨hunwatched.mpr fun hne ↦ absurd rfl hne, hidle⟩
          fun hne ↦ absurd rfl hne
      · have hinterest := (events_of_update (answers_of_call hinv.consistent hcall)
          hremove).symm.trans
          hnone
        constructor
        · rintro ⟨hout, hidle⟩ _ _
          exact ⟨hunwatched.mp hout hremove hinterest, hidle⟩
        · intro hdisables
          obtain ⟨hadded, hidle⟩ := hdisables hremove hinterest
          exact ⟨hunwatched.mpr fun _ _ ↦ hadded, hidle⟩

/-- A handler disables its own channel while another one waits. -/
theorem disabled_unwatched_once :
    ∃ s, Run (Guarded Step Disables) { poller_ := fresh fun c : Bool ↦ if c then 5 else 6 }
        [.call true .enableReading, .call false .enableReading,
          .poll [(5, kReadEvent), (6, kReadEvent)], .handleEvent, .call true .disableAll] s ∧
      s.currentActiveChannel_ = some true ∧ s.remaining = [false] ∧
      (∀ fd mask c, s.poller_.epollSet.find? fd = some (mask, c) →
        (s.poller_.channel c).events_ ≠ kNoneEvent) ∧
      (∀ t c, Step s .handleEvent t → t.currentActiveChannel_ = some c →
        (s.poller_.channel c).events_ ≠ kNoneEvent) ∧
      ∀ c call t, Step s (.call c call) t → (t.poller_.channel c).events_ = kNoneEvent →
        (t.poller_.epollSet.find? (t.poller_.channel c).fd_ = none ∧ c ∉ t.remaining ↔
          Disables s (.call c call)) := by
  have hinterest : ∀ {s : ActiveChannels Bool} {c : Bool},
      Disables s (.call c .enableReading) := fun _ hnone ↦ absurd (congrArg EventMask.EPOLLIN hnone)
        (by simp [Call.interest, EventMask.union, kReadEvent, kNoneEvent])
  have hrun := show Run (Guarded Step Disables)
        { poller_ := fresh fun c : Bool ↦ if c then 5 else 6 }
        [.call true .enableReading, .call false .enableReading,
          .poll [(5, kReadEvent), (6, kReadEvent)], .handleEvent, .call true .disableAll] _ from
    .cons ⟨rfl, hinterest⟩ <| .cons ⟨rfl, hinterest⟩ <| .cons ⟨rfl, trivial⟩ <|
    .cons ⟨rfl, trivial⟩ <| .cons ⟨rfl, fun _ _ ↦ ⟨rfl, by decide⟩⟩ <| .nil _
  exact ⟨_, hrun, rfl, rfl, disabled_unwatched hrun⟩

/-- Disabled for the second time, a channel is in the epoll set again; and one that waits for its
handler gets it although the handler in front has disabled it. -/
theorem disabled_twice_watched :
    (¬ ∀ (ls : List (Label Unit)) (s t : ActiveChannels Unit) (call : Call),
        Run Step { poller_ := fresh fun _ ↦ 5 } ls s → Step s (.call () call) t → call ≠ .remove →
        (t.poller_.channel ()).events_ = kNoneEvent →
        t.poller_.epollSet.find? (t.poller_.channel ()).fd_ = none) ∧
      ¬ ∀ (ls : List (Label Bool)) (s t : ActiveChannels Bool) (c : Bool),
        Run Step { poller_ := fresh fun c : Bool ↦ if c then 5 else 6 } ls s →
        Step s .handleEvent t → t.currentActiveChannel_ = some c →
        (s.poller_.channel c).events_ ≠ kNoneEvent := by
  constructor
  · intro h
    have hrun := show Run Step { poller_ := fresh fun _ : Unit ↦ 5 }
        [.call () .enableReading, .call () .disableAll] _ from .cons rfl <| .cons rfl <| .nil _
    exact absurd (h _ _ _ .disableReading hrun rfl (by decide) rfl) (by decide)
  · intro h
    have hrun := show Run Step { poller_ := fresh fun c : Bool ↦ if c then 5 else 6 }
        [.call true .enableReading, .call false .enableReading,
          .poll [(5, kReadEvent), (6, kReadEvent)], .handleEvent, .call false .disableAll] _ from
      .cons rfl <| .cons rfl <| .cons rfl <| .cons rfl <| .cons rfl <| .nil _
    exact h _ _ _ false hrun rfl rfl rfl

end ActiveChannels

end Pallette
