import Mathlib.Logic.Function.Basic

/-!
# Any — one object of any type, on the heap or inside

An `any` keeps its object behind a pointer or in its own words, as `requires_allocation` says of the
type; what is done to the object goes through the table of its type.  Here an object has a number:
the union holds the number of the object that lives in it or that its pointer points to.  Objects
are made and destroyed, and what is not alive can neither be copied nor destroyed.
-/

namespace Pallette

namespace Any

inductive Fault
  -- the object in the union is not alive
  | dead
  -- there is none in the union
  | noObject
deriving DecidableEq, Repr

/-- The `any`s of the program by number, the temporary of `operator=`, the local of `any::swap` and
the union that is the local of `vtable_stack::swap`. -/
inductive Addr
  | named (x : Nat)
  | temporary
  | tmp
  | tmpStorage
deriving DecidableEq, Repr

/-- The two fields of every `any`, and the objects that are alive. -/
structure State (T V : Type) where
  vtable : Addr → Option T := fun _ ↦ none
  storage : Addr → Option Nat := fun _ ↦ none
  objects : Nat → Option (T × V) := fun _ ↦ none
  made : Nat := 0

namespace State

variable {T V : Type} (requiresAllocation : T → Bool) (s : State T V)

/-- The object of a union, if it is alive. -/
def object (a : Addr) : Except Fault (Nat × (T × V)) :=
  match s.storage a with
  | none => .error .noObject
  | some o =>
      match s.objects o with
      | none => .error .dead
      | some w => .ok (o, w)

/-- A constructor call. -/
def new (dest : Addr) (w : T × V) : State T V :=
  { s with
    storage := Function.update s.storage dest (some s.made)
    objects := Function.update s.objects s.made (some w)
    made := s.made + 1 }

def setVtable (a : Addr) (vtable : Option T) : State T V :=
  { s with vtable := Function.update s.vtable a vtable }

/-! ## The table of a type -/

/-- `delete` of a null pointer does nothing. -/
def destroy (type : T) (a : Addr) : Except Fault (State T V) :=
  if requiresAllocation type ∧ s.storage a = none then .ok s
  else (s.object a).map fun object ↦ { s with objects := Function.update s.objects object.1 none }

def copy (src dest : Addr) : Except Fault (State T V) :=
  (s.object src).map fun object ↦ s.new dest object.2

def move (type : T) (src dest : Addr) : Except Fault (State T V) :=
  if requiresAllocation type then
    let s := { s with storage := Function.update s.storage dest (s.storage src) }
    .ok { s with storage := Function.update s.storage src none }
  else do
    let s ← s.copy src dest
    s.destroy requiresAllocation type src

def swapStorage (type : T) (lhs rhs : Addr) : Except Fault (State T V) :=
  if requiresAllocation type then
    .ok { s with storage :=
      Function.update (Function.update s.storage lhs (s.storage rhs)) rhs (s.storage lhs) }
  else do
    let s ← s.move requiresAllocation type rhs .tmpStorage
    let s ← s.move requiresAllocation type lhs rhs
    s.move requiresAllocation type .tmpStorage lhs

/-- The `move` of a table that may be null. -/
def moveAny (vtable : Option T) (src dest : Addr) : Except Fault (State T V) :=
  match vtable with
  | none => .ok s
  | some type => s.move requiresAllocation type src dest

/-! ## The members -/

/-- The constructor from a value. -/
def construct (a : Addr) (w : T × V) : State T V :=
  (s.setVtable a (some w.1)).new a w

def copyConstruct (a rhs : Addr) : Except Fault (State T V) :=
  match s.vtable rhs with
  | none => .ok (s.setVtable a none)
  | some type => (s.setVtable a (some type)).copy rhs a

/-- Behind it the table of `rhs` is null, as it was if `rhs` was empty. -/
def moveConstruct (a rhs : Addr) : Except Fault (State T V) :=
  ((s.setVtable a (s.vtable rhs)).moveAny requiresAllocation (s.vtable rhs) rhs a).map
    fun s ↦ s.setVtable rhs none

def clear (a : Addr) : Except Fault (State T V) :=
  match s.vtable a with
  | none => .ok s
  | some type => (s.destroy requiresAllocation type a).map fun s ↦ s.setVtable a none

/-- The second half of `swap`: from `self` to `rhs`, and from `tmp` to `self`. -/
def swapMoved (self rhs : Addr) : Except Fault (State T V) := do
  let s := s.setVtable rhs (s.vtable self)
  let s ← s.moveAny requiresAllocation (s.vtable self) self rhs
  let s := s.setVtable self (s.vtable .tmp)
  let s ← s.moveAny requiresAllocation (s.vtable .tmp) .tmp self
  return s.setVtable .tmp none

def swap [DecidableEq T] (self rhs : Addr) : Except Fault (State T V) :=
  if s.vtable self ≠ s.vtable rhs then do
    let s ← s.moveConstruct requiresAllocation .tmp rhs
    let s ← s.swapMoved requiresAllocation self rhs
    s.clear requiresAllocation .tmp
  else
    match s.vtable self with
    | none => .ok s
    | some type => s.swapStorage requiresAllocation type self rhs

/-- What the three assignments have in common: the temporary is there, and goes. -/
def assign [DecidableEq T] (x : Nat) : Except Fault (State T V) := do
  let s ← s.swap requiresAllocation .temporary (.named x)
  s.clear requiresAllocation .temporary

/-- `any_cast` to a pointer, and what it points to. -/
def anyCast [DecidableEq T] (x : Nat) (type : T) : Except Fault (Option V) :=
  if s.vtable (.named x) = some type then (s.object (.named x)).map fun object ↦ some object.2.2
    else .ok none

end State

inductive Op (T V : Type)
  | assign (x : Nat) (type : T) (value : V)
  | assignCopy (x rhs : Nat)
  | assignMove (x rhs : Nat)
  | clear (x : Nat)
  | swap (x rhs : Nat)

variable {T V : Type} [DecidableEq T] (requiresAllocation : T → Bool)

def State.next (s : State T V) : Op T V → Except Fault (State T V)
  | .assign x type value => (s.construct .temporary (type, value)).assign requiresAllocation x
  | .assignCopy x rhs => do
      let s ← s.copyConstruct .temporary (.named rhs)
      s.assign requiresAllocation x
  | .assignMove x rhs => do
      let s ← s.moveConstruct requiresAllocation .temporary (.named rhs)
      s.assign requiresAllocation x
  | .clear x => s.clear requiresAllocation (.named x)
  | .swap x rhs => s.swap requiresAllocation (.named x) (.named rhs)

/-! ## What an `any` is for -/

/-- Each variable holds a value with its type, or nothing. -/
abbrev Contents (T V : Type) : Type :=
  Nat → Option (T × V)

def Contents.next (m : Contents T V) : Op T V → Contents T V
  | .assign x type value => Function.update m x (some (type, value))
  | .assignCopy x rhs => Function.update m x (m rhs)
  | .assignMove x rhs => Function.update (Function.update m rhs none) x (m rhs)
  | .clear x => Function.update m x none
  | .swap x rhs => Function.update (Function.update m x (m rhs)) rhs (m x)

end Any

end Pallette
