import Mathlib.Data.List.Basic
import Pallette.Reasoning.Run

/-!
# SignalSlot — a signal, its slots, and calls that run while the slots change

A slot has the number of its `connect`.  The lists of slots live at addresses, `slots_` is one, and
each call of `call` holds the one it started with: `slots_.unique()` is that no call under way does.
A call takes a step for each slot it comes to and one when the callback returns.  Everything else
may come at any time, from a callback or from what a slot destroys.
-/

open Reasoning

namespace Pallette

namespace Signal

structure SlotImpl where
  tied_ : Bool
  /-- How many handles there are. -/
  handles : Nat
deriving DecidableEq, Repr

/-- A slot that an iteration came to: whether it was alive then, and whether its callback was
called. -/
structure Visit where
  slot : Nat
  alive : Bool
  invoked : Bool
deriving DecidableEq, Repr

/-- A call of `call`.  Noted are the slots that were connected when it started, how many there had
ever been, and the slots it has come to. -/
structure Call where
  slots : Nat
  it : Nat := 0
  -- the slot whose callback runs
  slotImpl : Option Nat := none
  connected : List Nat
  before : Nat
  visits : List Visit := []
deriving DecidableEq, Repr

inductive Label
  | connect (tied : Bool)
  | copyHandle (slot : Nat)
  | releaseHandle (slot : Nat)
  | call
  -- `guard` is whether what the slot is tied to is there
  | next (guard : Bool)
  | cbReturns
deriving DecidableEq, Repr

end Signal

open Signal

/-- `calls` are the calls under way, the innermost first. -/
structure Signal where
  lists : List (List Nat) := [[]]
  slots_ : Nat := 0
  slotImpls : List SlotImpl := []
  calls : List Call := []
  returned : List Call := []
deriving DecidableEq, Repr

namespace Signal

variable (s : Signal)

def handles (slot : Nat) : Nat :=
  (s.slotImpls[slot]?.map SlotImpl.handles).getD 0

/-- A slot is alive while there is a handle or a call executes it. -/
def alive (slot : Nat) : Bool :=
  decide (0 < s.handles slot ∨ ∃ c ∈ s.calls, c.slotImpl = some slot)

def aliveSlots : List Nat :=
  (List.range s.slotImpls.length).filter s.alive

def useCount (slot : Nat) : Nat :=
  s.handles slot + s.calls.countP fun c ↦ decide (c.slotImpl = some slot)

def expired (slot : Nat) : Bool :=
  decide (s.useCount slot = 0)

def tied (slot : Nat) : Bool :=
  (s.slotImpls[slot]?.map SlotImpl.tied_).getD false

def deref (slots : Nat) : List Nat :=
  s.lists[slots]?.getD []

def unique : Bool :=
  s.calls.all fun c ↦ decide (c.slots ≠ s.slots_)

/-- The list at `slots_` is written in place. -/
def store (list : List Nat) : Signal :=
  { s with lists := s.lists.set s.slots_ list }

def copyOnWrite : Signal :=
  if s.unique then s
  else { s with lists := s.lists ++ [s.deref s.slots_], slots_ := s.lists.length }

def clean : Signal :=
  let s := s.copyOnWrite
  s.store ((s.deref s.slots_).filter fun slot ↦ !s.expired slot)

def add (slot : Nat) : Signal :=
  let s := s.copyOnWrite
  s.store (s.deref s.slots_ ++ [slot])

def connect (tied : Bool) : Signal :=
  add { s with slotImpls := s.slotImpls ++ [⟨tied, 1⟩] } s.slotImpls.length

/-- What follows when a reference to a slot is gone: `SlotImpl::~SlotImpl`, if it was the last. -/
def dropped (slot : Nat) : Signal :=
  if s.expired slot then s.clean else s

def call : Signal :=
  { s with calls := ⟨s.slots_, 0, none, s.aliveSlots, s.slotImpls.length, []⟩ :: s.calls }

/-- The body of the loop up to the callback, `++it` included. -/
def visit (c : Call) (slot : Nat) (guard : Bool) : Call :=
  let invoked := !s.expired slot && (!s.tied slot || guard)
  { c with
    it := c.it + 1
    slotImpl := if invoked then some slot else none
    visits := c.visits ++ [⟨slot, s.alive slot, invoked⟩] }

/-- One step; `none` when it cannot be taken. -/
def next : Label → Option Signal
  | .connect tied => some (s.connect tied)
  | .copyHandle slot =>
      match s.slotImpls[slot]? with
      | some impl =>
          if 0 < impl.handles then
            some { s with slotImpls := s.slotImpls.set slot { impl with
              handles := impl.handles + 1 } }
          else none
      | none => none
  | .releaseHandle slot =>
      match s.slotImpls[slot]? with
      | some impl =>
          if 0 < impl.handles then
            some (dropped { s with
              slotImpls := s.slotImpls.set slot { impl with handles := impl.handles - 1 } } slot)
          else none
      | none => none
  | .call => some s.call
  | .next guard =>
      match s.calls with
      | c :: calls =>
          if c.slotImpl = none then
            match (s.deref c.slots)[c.it]? with
            | some slot => some { s with calls := s.visit c slot guard :: calls }
            | none => some { s with calls := calls, returned := s.returned ++ [c] }
          else none
      | [] => none
  | .cbReturns =>
      match s.calls with
      | c :: calls =>
          match c.slotImpl with
          | some slot => some (dropped { s with calls := { c with slotImpl := none } ::
              calls } slot)
          | none => none
      | [] => none

def Step (s : Signal) (l : Label) (t : Signal) : Prop :=
  s.next l = some t

/-- What a step can be. -/
inductive StepCases (s : Signal) : Label → Signal → Prop
  | connect {tied : Bool} : StepCases s (.connect tied) (s.connect tied)
  | copyHandle {slot : Nat} {impl : SlotImpl} : s.slotImpls[slot]? = some impl → 0 < impl.handles →
      StepCases s (.copyHandle slot)
        { s with slotImpls := s.slotImpls.set slot { impl with handles := impl.handles + 1 } }
  | releaseHandle {slot : Nat} {impl : SlotImpl} : s.slotImpls[slot]? = some impl →
      0 < impl.handles →
      StepCases s (.releaseHandle slot) (dropped { s with
        slotImpls := s.slotImpls.set slot { impl with handles := impl.handles - 1 } } slot)
  | call : StepCases s .call s.call
  | visit {guard : Bool} {c : Call} {calls : List Call} {slot : Nat} : s.calls = c :: calls →
      c.slotImpl = none → (s.deref c.slots)[c.it]? = some slot →
      StepCases s (.next guard) { s with calls := s.visit c slot guard :: calls }
  | finish {guard : Bool} {c : Call} {calls : List Call} : s.calls = c :: calls →
      c.slotImpl = none → (s.deref c.slots)[c.it]? = none →
      StepCases s (.next guard) { s with calls := calls, returned := s.returned ++ [c] }
  | cbReturns {c : Call} {calls : List Call} {slot : Nat} : s.calls = c :: calls →
      c.slotImpl = some slot →
      StepCases s .cbReturns (dropped { s with calls := { c with slotImpl := none } :: calls } slot)

theorem step_cases {s t : Signal} {l : Label} (h : Step s l t) : StepCases s l t := by
  unfold Step at h
  cases l with
  | connect tied =>
    cases h
    exact .connect
  | copyHandle slot =>
    simp only [next] at h
    split at h
    next impl himpl =>
      obtain ⟨hhandles, heq⟩ := Option.ite_none_right_eq_some.mp h
      cases heq
      exact .copyHandle himpl hhandles
    next => cases h
  | releaseHandle slot =>
    simp only [next] at h
    split at h
    next impl himpl =>
      obtain ⟨hhandles, heq⟩ := Option.ite_none_right_eq_some.mp h
      cases heq
      exact .releaseHandle himpl hhandles
    next => cases h
  | call =>
    cases h
    exact .call
  | next guard =>
    simp only [next] at h
    split at h
    next c calls hcalls =>
      obtain ⟨hidle, heq⟩ := Option.ite_none_right_eq_some.mp h
      split at heq
      next slot hslot =>
        cases heq
        exact .visit hcalls hidle hslot
      next hend =>
        cases heq
        exact .finish hcalls hidle hend
    next => cases h
  | cbReturns =>
    simp only [next] at h
    split at h
    next c calls hcalls =>
      split at h
      next slot hslot =>
        cases h
        exact .cbReturns hcalls hslot
      next => cases h
    next => cases h

end Signal

end Pallette
