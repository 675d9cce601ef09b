import Pallette.Signal.SignalSlot

/-!
# Snapshot — what a call iterates over, and which slots it invokes

The list a call holds is written to by nobody, since `copyOnWrite` leaves `slots_` at a list that no
call holds; and that one has the slots that are alive, in the order of their connecting.
-/

open Reasoning

namespace Pallette.Signal

variable {s t : Signal} {l : Label} {slot : Nat}

/-! ## Alive -/

/-- `lock` gives something while there is a handle or a call that executes the slot. -/
theorem expired_eq (s : Signal) (slot : Nat) : s.expired slot = !s.alive slot := by
  have hcount : 0 < s.calls.countP (fun c ↦ decide (c.slotImpl = some slot)) ↔
      ∃ c ∈ s.calls, c.slotImpl = some slot := by
    simp [List.countP_pos_iff]
  unfold expired alive useCount
  rw [← decide_not]
  apply decide_eq_decide.mpr
  rw [← hcount]
  omega

@[simp] theorem alive_iff : s.alive slot = true ↔ 0 < s.handles slot ∨
    ∃ c ∈ s.calls, c.slotImpl = some slot :=
  decide_eq_true_iff

theorem handles_set {impl impl' : SlotImpl} (himpl : s.slotImpls[slot]? = some impl) (other : Nat) :
    handles { s with slotImpls := s.slotImpls.set slot impl' } other =
      if other = slot then impl'.handles else s.handles other := by
  have hlt := (List.getElem?_eq_some_iff.mp himpl).1
  unfold handles
  dsimp only
  by_cases hsame : other = slot
  · rw [if_pos hsame, hsame, List.getElem?_set_self hlt]
    rfl
  · rw [if_neg hsame, List.getElem?_set_ne (Ne.symm hsame)]

theorem handles_of {impl : SlotImpl} (himpl : s.slotImpls[slot]? = some impl) :
    s.handles slot = impl.handles := by
  unfold handles
  rw [himpl]
  rfl

theorem aliveSlots_congr (hlength : t.slotImpls.length = s.slotImpls.length)
    (halive : ∀ slot, t.alive slot = s.alive slot) : t.aliveSlots = s.aliveSlots := by
  unfold aliveSlots
  rw [hlength]
  exact List.filter_congr fun slot _ ↦ halive slot

/-! ## The lists -/

@[simp] theorem copyOnWrite_slotImpls (s : Signal) : s.copyOnWrite.slotImpls = s.slotImpls := by
  unfold copyOnWrite
  split <;> rfl

@[simp] theorem copyOnWrite_calls (s : Signal) : s.copyOnWrite.calls = s.calls := by
  unfold copyOnWrite
  split <;> rfl

@[simp] theorem copyOnWrite_returned (s : Signal) : s.copyOnWrite.returned = s.returned := by
  unfold copyOnWrite
  split <;> rfl

/-- `slots_` points at a list, and each call holds the list it started with. -/
structure Held (s : Signal) : Prop where
  here : s.slots_ < s.lists.length
  held : ∀ c ∈ s.calls, c.slots < s.lists.length ∧ s.deref c.slots = c.connected

theorem held_copyOnWrite (h : Held s) :
    Held s.copyOnWrite ∧ s.copyOnWrite.deref s.copyOnWrite.slots_ = s.deref s.slots_ ∧
      ∀ c ∈ s.calls, c.slots ≠ s.copyOnWrite.slots_ := by
  unfold copyOnWrite
  by_cases hunique : s.unique = true
  · rw [if_pos hunique]
    exact ⟨h, rfl, fun c hc ↦ of_decide_eq_true (List.all_eq_true.mp hunique c hc)⟩
  · rw [if_neg hunique]
    refine ⟨⟨?_, ?_⟩, ?_, ?_⟩
    · change s.lists.length < (s.lists ++ [s.deref s.slots_]).length
      rw [List.length_append, List.length_singleton]
      exact Nat.lt_succ_self _
    · intro c hc
      obtain ⟨hlt, heq⟩ := h.held c hc
      constructor
      · change c.slots < (s.lists ++ [s.deref s.slots_]).length
        rw [List.length_append]
        exact Nat.lt_add_right _ hlt
      · rw [← heq]
        unfold deref
        rw [List.getElem?_append_left hlt]
    · change ((s.lists ++ [s.deref s.slots_])[s.lists.length]?).getD [] = _
      rw [List.getElem?_concat_length]
      rfl
    · intro c hc
      exact Nat.ne_of_lt (h.held c hc).1

theorem held_store (h : Held s) (hunique : ∀ c ∈ s.calls, c.slots ≠ s.slots_) (list : List Nat) :
    Held (s.store list) ∧ (s.store list).deref s.slots_ = list := by
  refine ⟨⟨?_, ?_⟩, ?_⟩
  · change s.slots_ < (s.lists.set s.slots_ list).length
    rw [List.length_set]
    exact h.here
  · intro c hc
    obtain ⟨hlt, heq⟩ := h.held c hc
    constructor
    · change c.slots < (s.lists.set s.slots_ list).length
      rw [List.length_set]
      exact hlt
    · rw [← heq]
      unfold deref store
      rw [List.getElem?_set_ne (Ne.symm (hunique c hc))]
  · unfold deref store
    rw [List.getElem?_set_self h.here]
    rfl

/-- What the slot list is written with after `copyOnWrite` becomes the slot list, and no call sees
it. -/
theorem held_write (h : Held s) (list : List Nat) :
    Held (s.copyOnWrite.store list) ∧
      (s.copyOnWrite.store list).deref (s.copyOnWrite.store list).slots_ = list := by
  obtain ⟨hheld, _, hunique⟩ := held_copyOnWrite h
  exact held_store hheld (by rw [copyOnWrite_calls]; exact hunique) list

theorem clean_eq (h : Held s) :
    s.clean = s.copyOnWrite.store ((s.deref s.slots_).filter s.alive) := by
  have hexpired (slot : Nat) : s.copyOnWrite.expired slot = s.expired slot := by
    unfold expired useCount handles
    rw [copyOnWrite_slotImpls, copyOnWrite_calls]
  unfold clean
  dsimp only
  rw [(held_copyOnWrite h).2.1]
  congr 1
  apply List.filter_congr
  intro slot _
  rw [hexpired, expired_eq, Bool.not_not]

theorem add_eq (h : Held s) (slot : Nat) :
    s.add slot = s.copyOnWrite.store (s.deref s.slots_ ++ [slot]) := by
  unfold add
  dsimp only
  rw [(held_copyOnWrite h).2.1]

/-! ## Steps -/

/-- The slots that are alive are in the slot list, in the order of their connecting. -/
structure Current (s : Signal) : Prop extends Held s where
  current : s.deref s.slots_ = s.aliveSlots

theorem current_init : Current {} where
  here := Nat.zero_lt_one
  held := by simp
  current := rfl

theorem alive_store_copyOnWrite (s : Signal) (list : List Nat) (slot : Nat) :
    (s.copyOnWrite.store list).alive slot = s.alive slot := by
  unfold alive handles store
  dsimp only
  rw [copyOnWrite_slotImpls, copyOnWrite_calls]

theorem aliveSlots_store_copyOnWrite (s : Signal) (list : List Nat) :
    (s.copyOnWrite.store list).aliveSlots = s.aliveSlots := by
  apply aliveSlots_congr
  · exact congrArg List.length (copyOnWrite_slotImpls s)
  · exact alive_store_copyOnWrite s list

/-- Where nothing becomes alive and nothing dies the lists stay as they are. -/
theorem Current.of_alive (h : Current s) (hheld : Held t)
    (hlists : t.deref t.slots_ = s.deref s.slots_)
    (hlength : t.slotImpls.length = s.slotImpls.length)
    (halive : ∀ slot, t.alive slot = s.alive slot) :
    Current t := by
  refine ⟨hheld, ?_⟩
  rw [hlists, h.current]
  exact (aliveSlots_congr hlength halive).symm

/-- A reference to a slot that was alive is gone. -/
theorem current_dropped (was : Nat → Bool) (hheld : Held t)
    (hwas : t.deref t.slots_ = (List.range t.slotImpls.length).filter was) (hslot : was slot = true)
    (hless : ∀ other, t.alive other = true → was other = true)
    (hothers : ∀ other, other ≠ slot → was other = true → t.alive other = true) :
    Current (t.dropped slot) := by
  unfold dropped
  by_cases hgone : t.expired slot = true
  · rw [if_pos hgone, clean_eq hheld, hwas, List.filter_filter]
    obtain ⟨hwrite, hlist⟩ := held_write hheld
      ((List.range t.slotImpls.length).filter fun other ↦ t.alive other && was other)
    refine ⟨hwrite, ?_⟩
    rw [hlist, aliveSlots_store_copyOnWrite]
    apply List.filter_congr
    intro other _
    by_cases halive : t.alive other = true
    · rw [halive, hless other halive]
      rfl
    · rw [Bool.not_eq_true] at halive
      rw [halive]
      rfl
  · rw [if_neg hgone]
    refine ⟨hheld, ?_⟩
    rw [hwas]
    apply List.filter_congr
    intro other _
    by_cases hsame : other = slot
    · rw [expired_eq, Bool.not_eq_true, Bool.not_eq_false'] at hgone
      rw [hsame, hslot, hgone]
    · rw [Bool.eq_iff_iff]
      exact ⟨hothers other hsame, hless other⟩

theorem alive_connected {impl : SlotImpl} (hslot : slot < s.slotImpls.length) :
    alive { s with slotImpls := s.slotImpls ++ [impl] } slot = s.alive slot := by
  unfold alive handles
  dsimp only
  rw [List.getElem?_append_left hslot]

theorem current_connect (h : Current s) (tied : Bool) : Current (s.connect tied) := by
  have hheld : Held { s with slotImpls := s.slotImpls ++ [⟨tied, 1⟩] } := ⟨h.here, h.held⟩
  unfold connect
  rw [add_eq hheld]
  obtain ⟨hwrite, hlist⟩ := held_write hheld (s.deref s.slots_ ++ [s.slotImpls.length])
  refine ⟨hwrite, ?_⟩
  rw [aliveSlots_store_copyOnWrite]
  refine hlist.trans ?_
  rw [h.current]
  unfold aliveSlots
  rw [List.length_append, List.length_singleton, List.range_succ, List.filter_append]
  congr 1
  · apply List.filter_congr
    intro slot hslot
    exact (alive_connected (List.mem_range.mp hslot)).symm
  · have hnew : alive { s with slotImpls := s.slotImpls ++ [⟨tied, 1⟩] } s.slotImpls.length =
        true := by
      rw [alive_iff]
      left
      unfold handles
      rw [List.getElem?_concat_length]
      exact Nat.zero_lt_one
    rw [List.filter_singleton, hnew]
    rfl

theorem alive_of_cons {c : Call} {calls : List Call} (hcalls : s.calls = c :: calls) (slot : Nat) :
    s.alive slot = true ↔
      0 < s.handles slot ∨ c.slotImpl = some slot ∨ ∃ c ∈ calls, c.slotImpl = some slot := by
  rw [alive_iff, hcalls]
  simp

theorem current_copyHandle {impl : SlotImpl} (h : Current s)
    (himpl : s.slotImpls[slot]? = some impl) (hhandles : 0 < impl.handles) :
    Current { s with slotImpls := s.slotImpls.set slot { impl with
    handles := impl.handles + 1 } } := by
  apply h.of_alive
  · exact ⟨h.here, h.held⟩
  · rfl
  · exact List.length_set
  · intro other
    rw [Bool.eq_iff_iff, alive_iff, alive_iff, handles_set himpl]
    by_cases hsame : other = slot
    · rw [if_pos hsame, hsame, handles_of himpl]
      exact ⟨fun _ ↦ .inl hhandles, fun _ ↦ .inl (Nat.succ_pos _)⟩
    · rw [if_neg hsame]

theorem current_releaseHandle {impl : SlotImpl} (h : Current s)
    (himpl : s.slotImpls[slot]? = some impl) (hhandles : 0 < impl.handles) :
    Current (dropped { s with
      slotImpls := s.slotImpls.set slot { impl with handles := impl.handles - 1 } } slot) := by
  refine current_dropped s.alive ⟨h.here, h.held⟩ ?_ ?_ ?_ ?_
  · dsimp only
    rw [List.length_set]
    exact h.current
  · rw [alive_iff, handles_of himpl]
    exact .inl hhandles
  · intro other halive
    rw [alive_iff, handles_set himpl] at halive
    rw [alive_iff]
    refine halive.imp_left ?_
    intro hpos
    by_cases hsame : other = slot
    · rw [hsame, handles_of himpl]
      exact hhandles
    · rw [if_neg hsame] at hpos
      exact hpos
  · intro other hne halive
    rw [alive_iff] at halive
    rw [alive_iff, handles_set himpl, if_neg hne]
    exact halive

theorem current_call (h : Current s) : Current s.call := by
  apply h.of_alive
  · refine ⟨h.here, ?_⟩
    intro c hc
    rcases List.mem_cons.mp hc with rfl | hold
    · exact ⟨h.here, h.current⟩
    · exact h.held c hold
  · rfl
  · rfl
  · intro other
    rw [Bool.eq_iff_iff, alive_of_cons rfl, alive_iff]
    exact or_congr_right (by simp)

theorem Held.innermost {c : Call} {calls : List Call} (h : Held s) (hcalls : s.calls = c :: calls) :
    (c.slots < s.lists.length ∧ s.deref c.slots = c.connected) ∧
      ∀ d ∈ calls, d.slots < s.lists.length ∧ s.deref d.slots = d.connected := by
  have hheld := h.held
  rw [hcalls] at hheld
  exact List.forall_mem_cons.mp hheld

/-- The innermost call gets on, with the same list. -/
theorem Held.replace {c c' : Call} {calls : List Call} (h : Held s) (hcalls : s.calls = c :: calls)
    (hslots : c'.slots = c.slots) (hconnected : c'.connected = c.connected) :
    Held { s with calls := c' :: calls } := by
  obtain ⟨hc, hrest⟩ := h.innermost hcalls
  refine ⟨h.here, ?_⟩
  intro d hd
  rcases List.mem_cons.mp hd with rfl | hold
  · rw [hslots, hconnected]
    exact hc
  · exact hrest d hold

theorem current_visit {c : Call} {calls : List Call} {guard : Bool} (h : Current s)
    (hcalls : s.calls = c :: calls) (hidle : c.slotImpl = none) :
    Current { s with calls := s.visit c slot guard :: calls } := by
  apply h.of_alive
  · exact h.toHeld.replace hcalls rfl rfl
  · rfl
  · rfl
  · intro other
    -- a slot whose callback is called was alive before
    have hinvoked : (s.visit c slot guard).slotImpl = some other → s.alive other = true := by
      intro hslot
      obtain ⟨hlock, heq⟩ := Option.ite_none_right_eq_some.mp hslot
      cases heq
      rw [Bool.and_eq_true, expired_eq, Bool.not_not] at hlock
      exact hlock.1
    rw [alive_of_cons hcalls, hidle] at hinvoked
    rw [Bool.eq_iff_iff, alive_of_cons rfl, alive_of_cons hcalls, hidle]
    constructor
    · intro halive
      rcases halive with hhandles | hvisit | hrest
      · exact .inl hhandles
      · exact hinvoked hvisit
      · exact .inr (.inr hrest)
    · exact Or.imp_right (Or.imp_left nofun)

theorem current_finish {c : Call} {calls returned : List Call} (h : Current s)
    (hcalls : s.calls = c :: calls)
    (hidle : c.slotImpl = none) : Current { s with calls := calls, returned := returned } := by
  apply h.of_alive
  · exact ⟨h.here, (h.toHeld.innermost hcalls).2⟩
  · rfl
  · rfl
  · intro other
    rw [Bool.eq_iff_iff, alive_of_cons hcalls, hidle, alive_iff]
    exact or_congr_right (by simp)

theorem current_cbReturns {c : Call} {calls : List Call} (h : Current s)
    (hcalls : s.calls = c :: calls) (hslot : c.slotImpl = some slot) :
    Current (dropped { s with calls := { c with slotImpl := none } :: calls } slot) := by
  refine current_dropped s.alive (h.toHeld.replace hcalls rfl rfl) h.current ?_ ?_ ?_
  · rw [alive_of_cons hcalls]
    exact .inr (.inl hslot)
  · intro other halive
    rw [alive_of_cons rfl] at halive
    rw [alive_of_cons hcalls]
    exact halive.imp_right (Or.imp_left nofun)
  · intro other hne halive
    rw [alive_of_cons hcalls, hslot] at halive
    rw [alive_of_cons rfl]
    exact halive.imp_right (Or.imp_left fun heq ↦ (hne (Option.some.inj heq).symm).elim)

theorem current_step (h : Current s) (hstep : Step s l t) : Current t := by
  cases step_cases hstep with
  | connect => exact current_connect h _
  | copyHandle himpl hhandles => exact current_copyHandle h himpl hhandles
  | releaseHandle himpl hhandles => exact current_releaseHandle h himpl hhandles
  | call => exact current_call h
  | visit hcalls hidle _ => exact current_visit h hcalls hidle
  | finish hcalls hidle _ => exact current_finish h hcalls hidle
  | cbReturns hcalls hslot => exact current_cbReturns h hcalls hslot

/-! ## Calls -/

/-- The connects without a tie. -/
def Untied (_ : Signal) : Label → Prop
  | .connect tied => tied = false
  | _ => True

/-- How far a call has got: it has come to the first slots that were connected, to each once, and
has invoked those that were alive. -/
structure Progress (c : Call) : Prop where
  reached : c.visits.map Visit.slot = c.connected.take c.it
  invoked : ∀ v ∈ c.visits, v.invoked = v.alive
  sorted : c.connected.Pairwise (· < ·)
  before : ∀ slot ∈ c.connected, slot < c.before

structure Calls (s : Signal) : Prop where
  untied : ∀ impl ∈ s.slotImpls, impl.tied_ = false
  progress : ∀ c ∈ s.calls, Progress c
  returned : ∀ c ∈ s.returned, Progress c ∧ c.visits.map Visit.slot = c.connected

theorem calls_init : Calls {} where
  untied := by simp
  progress := by simp
  returned := by simp

theorem tied_of_untied (h : ∀ impl ∈ s.slotImpls, impl.tied_ = false) (slot : Nat) :
    s.tied slot = false := by
  unfold tied
  cases himpl : s.slotImpls[slot]? with
  | none => rfl
  | some impl => exact h impl (List.mem_of_getElem? himpl)

theorem Progress.start (s : Signal) :
    Progress ⟨s.slots_, 0, none, s.aliveSlots, s.slotImpls.length, []⟩ where
  reached := List.take_zero.symm
  invoked := by simp
  sorted := List.Pairwise.filter _ List.pairwise_lt_range
  before slot hslot := List.mem_range.mp (List.mem_of_mem_filter hslot)

theorem Progress.visit {c : Call} {guard : Bool} (h : Progress c) (huntied : s.tied slot = false)
    (hslot : c.connected[c.it]? = some slot) : Progress (s.visit c slot guard) where
  reached := by
    change (c.visits ++ [_]).map Visit.slot = c.connected.take (c.it + 1)
    rw [List.map_append, h.reached, List.take_add_one, hslot]
    rfl
  invoked v hv := by
    rcases List.mem_append.mp hv with hold | hnew
    · exact h.invoked v hold
    · rw [List.mem_singleton.mp hnew]
      change (!s.expired slot && (!s.tied slot || guard)) = s.alive slot
      rw [huntied, expired_eq, Bool.not_not, Bool.not_false, Bool.true_or, Bool.and_true]
  sorted := h.sorted
  before := h.before

theorem Calls.write (h : Calls s) (list : List Nat) : Calls (s.copyOnWrite.store list) := by
  constructor
  · change ∀ impl ∈ s.copyOnWrite.slotImpls, _
    rw [copyOnWrite_slotImpls]
    exact h.untied
  · change ∀ c ∈ s.copyOnWrite.calls, _
    rw [copyOnWrite_calls]
    exact h.progress
  · change ∀ c ∈ s.copyOnWrite.returned, _
    rw [copyOnWrite_returned]
    exact h.returned

theorem Calls.dropped (h : Calls s) (slot : Nat) : Calls (s.dropped slot) := by
  unfold Signal.dropped
  split
  · exact h.write _
  · exact h

theorem Calls.setHandles {impl : SlotImpl} (h : Calls s) (himpl : s.slotImpls[slot]? = some impl)
    (n : Nat) :
    Calls { s with slotImpls := s.slotImpls.set slot { impl with handles := n } } where
  untied other hother := by
    rcases List.mem_or_eq_of_mem_set hother with hold | heq
    · exact h.untied other hold
    · rw [heq]
      exact h.untied impl (List.mem_of_getElem? himpl)
  progress := h.progress
  returned := h.returned

theorem Calls.innermost {c : Call} {calls : List Call} (h : Calls s)
    (hcalls : s.calls = c :: calls) :
    Progress c ∧ ∀ d ∈ calls, Progress d := by
  have hprogress := h.progress
  rw [hcalls] at hprogress
  exact List.forall_mem_cons.mp hprogress

theorem calls_step (hcurrent : Current s) (h : Calls s) (huntied : Untied s l)
    (hstep : Step s l t) :
    Calls t := by
  cases step_cases hstep with
  | @connect tied =>
    have hcalls : Calls { s with slotImpls := s.slotImpls ++ [⟨tied, 1⟩] } := by
      refine ⟨?_, h.progress, h.returned⟩
      intro impl himpl
      rcases List.mem_append.mp himpl with hold | hnew
      · exact h.untied impl hold
      · rw [List.mem_singleton.mp hnew]
        exact huntied
    exact hcalls.write _
  | copyHandle himpl _ => exact h.setHandles himpl _
  | releaseHandle himpl _ => exact (h.setHandles himpl _).dropped _
  | call =>
    refine ⟨h.untied, ?_, h.returned⟩
    intro c hc
    rcases List.mem_cons.mp hc with rfl | hold
    · exact .start s
    · exact h.progress c hold
  | @visit guard c calls slot hcalls _ hslot =>
    obtain ⟨hc, hrest⟩ := h.innermost hcalls
    rw [(hcurrent.innermost hcalls).1.2] at hslot
    have hvisit : Progress (s.visit c slot guard) := hc.visit (tied_of_untied h.untied slot) hslot
    exact ⟨h.untied, List.forall_mem_cons.mpr ⟨hvisit, hrest⟩, h.returned⟩
  | @finish guard c calls hcalls _ hend =>
    obtain ⟨hc, hrest⟩ := h.innermost hcalls
    refine ⟨h.untied, hrest, ?_⟩
    intro d hd
    rcases List.mem_append.mp hd with hold | hnew
    · exact h.returned d hold
    · rw [List.mem_singleton.mp hnew]
      refine ⟨hc, ?_⟩
      -- the iterator is at the end
      rw [(hcurrent.innermost hcalls).1.2, List.getElem?_eq_none_iff] at hend
      rw [hc.reached, List.take_of_length_le hend]
  | @cbReturns c calls slot hcalls hslot =>
    obtain ⟨hc, hrest⟩ := h.innermost hcalls
    have hreturned : Progress { c with slotImpl := none } :=
      ⟨hc.reached, hc.invoked, hc.sorted, hc.before⟩
    have hunder : Calls { s with calls := { c with slotImpl := none } :: calls } :=
      ⟨h.untied, List.forall_mem_cons.mpr ⟨hreturned, hrest⟩, h.returned⟩
    exact hunder.dropped slot

/-- In every run the slot list is the alive slots in the order of their connecting, and each call
comes to the slots that were connected when it started, in that order and to no other, and invokes
those alive then. -/
theorem call_invokes_alive {ls : List Label} (h : Run (Guarded Step Untied) {} ls s) :
    s.deref s.slots_ = s.aliveSlots ∧
    (∀ c ∈ s.calls, c.visits.map Visit.slot = c.connected.take c.it) ∧
    (∀ c ∈ s.returned, c.visits.map Visit.slot = c.connected) ∧
    ∀ c ∈ s.calls ++ s.returned,
      (∀ v ∈ c.visits, v.invoked = v.alive) ∧ c.connected.Pairwise (· < ·) ∧
        ∀ slot ∈ c.connected, slot < c.before := by
  have hinv : Current s ∧ Calls s :=
    h.invariant (fun s ↦ Current s ∧ Calls s)
      (fun _ _ _ hs hstep ↦ ⟨current_step hs.1 hstep.1, calls_step hs.1 hs.2 hstep.2 hstep.1⟩)
      ⟨current_init, calls_init⟩
  obtain ⟨hcurrent, hcalls⟩ := hinv
  refine ⟨hcurrent.current, fun c hc ↦ (hcalls.progress c hc).reached,
    fun c hc ↦ (hcalls.returned c hc).2, ?_⟩
  intro c hc
  have hprogress : Progress c := by
    rcases List.mem_append.mp hc with hunder | hreturned
    · exact hcalls.progress c hunder
    · exact (hcalls.returned c hreturned).1
  exact ⟨hprogress.invoked, hprogress.sorted, hprogress.before⟩

/-- From the callback of slot 0 a slot is connected, slot 1 is released and `call` is called: the
inner call invokes the slots 0 and 2, the outer one slot 0 only. -/
def nested : Signal where
  lists := [[0, 1], [0, 2]]
  slots_ := 1
  slotImpls := [⟨false, 1⟩, ⟨false, 0⟩, ⟨false, 1⟩]
  returned :=
    [⟨1, 2, none, [0, 2], 3, [⟨0, true, true⟩, ⟨2, true, true⟩]⟩,
      ⟨0, 2, none, [0, 1], 2, [⟨0, true, true⟩, ⟨1, false, false⟩]⟩]

theorem call_invokes_alive_nested :
    Run (Guarded Step Untied) {} [.connect false, .connect false, .call, .next true, .connect false,
      .releaseHandle 1, .call, .next true, .cbReturns, .next true, .cbReturns, .next true,
      .cbReturns, .next true, .next true] nested ∧
    nested.deref nested.slots_ = nested.aliveSlots ∧
    (∀ c ∈ nested.calls, c.visits.map Visit.slot = c.connected.take c.it) ∧
    (∀ c ∈ nested.returned, c.visits.map Visit.slot = c.connected) ∧
    ∀ c ∈ nested.calls ++ nested.returned,
      (∀ v ∈ c.visits, v.invoked = v.alive) ∧ c.connected.Pairwise (· < ·) ∧
        ∀ slot ∈ c.connected, slot < c.before := by
  have hrun : Run (Guarded Step Untied) {} [.connect false, .connect false, .call, .next true,
    .connect false,
      .releaseHandle 1, .call, .next true, .cbReturns, .next true, .cbReturns, .next true,
      .cbReturns,
      .next true, .next true] nested :=
    .cons ⟨rfl, rfl⟩ <| .cons ⟨rfl, rfl⟩ <| .cons ⟨rfl, trivial⟩ <| .cons ⟨rfl, trivial⟩ <|
    .cons ⟨rfl, rfl⟩ <| .cons ⟨rfl, trivial⟩ <| .cons ⟨rfl, trivial⟩ <| .cons ⟨rfl, trivial⟩ <|
    .cons ⟨rfl, trivial⟩ <| .cons ⟨rfl, trivial⟩ <| .cons ⟨rfl, trivial⟩ <| .cons ⟨rfl, trivial⟩ <|
    .cons ⟨rfl, trivial⟩ <| .cons ⟨rfl, trivial⟩ <| .cons ⟨rfl, trivial⟩ <| .nil _
  exact ⟨hrun, call_invokes_alive hrun⟩

end Pallette.Signal
