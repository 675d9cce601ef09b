import Mathlib.Data.List.Basic
import Mathlib.Logic.Function.Basic
import Pallette.Basic
import Pallette.Reasoning.Run

/-!
# Acceptor — the listening socket, and a descriptor in reserve

Without a free descriptor `accept` cannot take a connection off the queue, not even to refuse it,
and the listening socket stays readable.  `handleRead` then gives up a descriptor it keeps for this,
takes the connection, closes it and reserves again.  Other threads open and close descriptors
between any two of these calls.
-/

open Reasoning

namespace Pallette

namespace Acceptor

/-- Who has an open descriptor. -/
inductive Owner
  | listening
  | reserve
  -- taken off the queue, and not passed on
  | accepted (conn : Nat)
  | connection (conn : Nat)
  | other
deriving DecidableEq, Repr

inductive Errno
  | EAGAIN
  | EMFILE
  | other (code : Nat)
deriving DecidableEq, Repr

/-- The call `handleRead` makes next. -/
inductive Rest
  | closeConnfd (connfd : Nat)
  | closeIdle
  | acceptIdle
  | closeAccepted
  | openIdle
deriving DecidableEq, Repr

inductive Fault
  -- the descriptor is another's
  | foreign (fd : Nat)
deriving DecidableEq, Repr

end Acceptor

open Acceptor

/-- The acceptor and the kernel's side: at most `limit` descriptors, and the connections that wait,
oldest first.  `fates` are those taken off the queue, with whether they were passed on; -1 is
`none`. -/
structure Acceptor where
  limit : Nat
  table : Nat → Option Owner
  acceptSocket_ : Nat
  idleFd_ : Option Nat
  newConnectionCallback_ : Bool
  queue : List Nat := []
  arrived : List Nat := []
  fates : List (Nat × Bool) := []
  rest : Option Rest := none

namespace Acceptor

variable (s : Acceptor)

/-! ## The kernel -/

def lowestFree (limit : Nat) (table : Nat → Option Owner) : Option Nat :=
  (List.range limit).find? fun fd ↦ decide (table fd = none)

def setOwner (fd : Nat) (owner : Option Owner) : Acceptor :=
  { s with table := Function.update s.table fd owner }

/-- The new descriptor and the connection behind it. -/
def accept : Except Errno (Nat × Nat × Acceptor) :=
  match lowestFree s.limit s.table, s.queue with
  | none, _ => .error .EMFILE
  | some _, [] => .error .EAGAIN
  | some fd, conn :: queue => .ok (fd, conn, { s with queue := queue })

/-- Nothing happens to a descriptor that is not open. -/
def close : Option Nat → Except Fault Acceptor
  | none => .ok s
  | some fd =>
      match s.table fd with
      | none => .ok s
      | some .reserve => .ok (s.setOwner fd none)
      | some (.accepted _) => .ok (s.setOwner fd none)
      | some _ => .error (.foreign fd)

/-! ## The acceptor -/

/-- The constructor, up to its assertion about `idleFd_`. -/
def new (limit : Nat) (table : Nat → Option Owner) (newConnectionCallback_ : Bool) :
    Option Acceptor := do
  let sockfd ← lowestFree limit table
  let table := Function.update table sockfd (some .listening)
  let idleFd ← lowestFree limit table
  return {
    limit, newConnectionCallback_
    table := Function.update table idleFd (some .reserve)
    acceptSocket_ := sockfd
    idleFd_ := some idleFd }

/-- `handleRead` up to its branch; `log` is what the message it logs leaves of `errno`. -/
def handleRead (log : Errno → Errno) : Acceptor :=
  match s.accept with
  | .ok (connfd, conn, s) =>
      if s.newConnectionCallback_ then
        { s.setOwner connfd (some (.connection conn)) with fates := s.fates ++ [(conn, true)] }
      else
        { s.setOwner connfd (some (.accepted conn)) with
          fates := s.fates ++ [(conn, false)], rest := some (.closeConnfd connfd) }
  | .error e => if log e = .EMFILE then { s with rest := some .closeIdle } else s

def acceptIdle : Acceptor :=
  match s.accept with
  | .ok (fd, conn, s) =>
      { s.setOwner fd (some (.accepted conn)) with
        idleFd_ := some fd, fates := s.fates ++ [(conn, false)], rest := some .closeAccepted }
  | .error _ => { s with idleFd_ := none, rest := some .closeAccepted }

def openIdle : Acceptor :=
  match lowestFree s.limit s.table with
  | some fd => { s.setOwner fd (some .reserve) with idleFd_ := some fd, rest := none }
  | none => { s with idleFd_ := none, rest := none }

/-- `~Acceptor`, with its `Socket`. -/
def destructor : Except Fault Acceptor := do
  let s ← s.close s.idleFd_
  match s.table s.acceptSocket_ with
  | none => return s
  | some .listening => return s.setOwner s.acceptSocket_ none
  | some _ => throw (.foreign s.acceptSocket_)

def resume : Rest → Except Fault Acceptor
  | .closeConnfd connfd => (s.close (some connfd)).map fun s ↦ { s with rest := none }
  | .closeIdle => (s.close s.idleFd_).map fun s ↦ { s with rest := some .acceptIdle }
  | .acceptIdle => .ok s.acceptIdle
  | .closeAccepted => (s.close s.idleFd_).map fun s ↦ { s with rest := some .openIdle }
  | .openIdle => .ok s.openIdle

/-! ## Runs -/

inductive Label
  | arrive (conn : Nat)
  -- of other threads, and of the connections passed on
  | opens
  | closes (fd : Nat)
  | handleRead (log : Errno → Errno)
  | resume

def next : Label → Option (Except Fault Acceptor)
  | .arrive conn => some (.ok { s with queue := s.queue ++ [conn], arrived := s.arrived ++ [conn] })
  | .opens => (lowestFree s.limit s.table).map fun fd ↦ .ok (s.setOwner fd (some .other))
  | .closes fd =>
      match s.table fd with
      | some .other => some (.ok (s.setOwner fd none))
      | some (.connection _) => some (.ok (s.setOwner fd none))
      | _ => none
  | .handleRead log => if s.rest = none then some (.ok (s.handleRead log)) else none
  | .resume => s.rest.map s.resume

def Step (s : Acceptor) (l : Label) (t : Acceptor) : Prop :=
  s.next l = some (.ok t)

/-! ## Whose the descriptors are -/

/-- The one open descriptor with such an owner, or that there is none. -/
def Has (table : Nat → Option Owner) (p : Owner → Prop) (held : Option Nat) : Prop :=
  ∀ fd, (∃ owner, table fd = some owner ∧ p owner) ↔ held = some fd

section

variable {table : Nat → Option Owner} {p : Owner → Prop} {held : Option Nat} {fd : Nat}
    {owner : Owner}

theorem Has.set_other (h : Has table p held) (hfree : table fd = none) (howner : ¬ p owner) :
    Has (Function.update table fd (some owner)) p held := by
  intro fd'
  by_cases hfd : fd' = fd
  · subst hfd
    rw [Function.update_self, ← h fd', hfree]
    apply iff_of_false
    · rintro ⟨owner', ⟨⟩, howner'⟩
      exact howner howner'
    · rintro ⟨owner', ⟨⟩, -⟩
  · rw [Function.update_of_ne hfd]
    exact h fd'

theorem Has.set_self (h : Has table p none) (howner : p owner) :
    Has (Function.update table fd (some owner)) p (some fd) := by
  intro fd'
  by_cases hfd : fd' = fd
  · subst hfd
    rw [Function.update_self]
    exact iff_of_true ⟨owner, rfl, howner⟩ rfl
  · rw [Function.update_of_ne hfd, h fd']
    apply iff_of_false nofun
    intro hsame
    exact hfd (Option.some.inj hsame).symm

theorem Has.clear_other (h : Has table p held) (hne : held ≠ some fd) :
    Has (Function.update table fd none) p held := by
  intro fd'
  by_cases hfd : fd' = fd
  · subst hfd
    rw [Function.update_self]
    apply iff_of_false _ hne
    rintro ⟨owner', ⟨⟩, -⟩
  · rw [Function.update_of_ne hfd]
    exact h fd'

theorem Has.clear_self (h : Has table p (some fd)) :
    Has (Function.update table fd none) p none := by
  intro fd'
  refine iff_of_false ?_ nofun
  by_cases hfd : fd' = fd
  · subst hfd
    rw [Function.update_self]
    rintro ⟨owner', ⟨⟩, -⟩
  · rw [Function.update_of_ne hfd, h fd']
    intro hsame
    exact hfd (Option.some.inj hsame).symm

/-- Two kinds of owners do not meet in one descriptor. -/
theorem Has.ne {q : Owner → Prop} {held' : Option Nat} (h : Has table p held)
    (h' : Has table q held')
    (hpq : ∀ owner, p owner → ¬ q owner) (hheld : held = some fd) : held' ≠ some fd := by
  intro hheld'
  obtain ⟨owner, htable, howner⟩ := (h fd).mpr hheld
  obtain ⟨owner', htable', howner'⟩ := (h' fd).mpr hheld'
  cases htable.symm.trans htable'
  exact hpq owner howner howner'

theorem free_of_lowestFree {limit : Nat} (h : lowestFree limit table = some fd) :
    table fd = none ∧ fd < limit := by
  unfold lowestFree at h
  have hfree := List.find?_some h
  exact ⟨of_decide_eq_true hfree, List.mem_range.mp (List.mem_of_find?_eq_some h)⟩

theorem full_of_lowestFree {limit : Nat} (h : lowestFree limit table = none) (hfd : fd < limit) :
    table fd ≠ none := by
  intro hfree
  have hno := List.find?_eq_none.mp h fd (List.mem_range.mpr hfd)
  exact hno (decide_eq_true hfree)

end

def Owner.IsAccepted (owner : Owner) : Prop :=
  ∃ conn, owner = .accepted conn

/-- The descriptor that is in reserve. -/
def reserved (s : Acceptor) : Option Nat :=
  match s.rest with
  | none | some .closeIdle | some (.closeConnfd _) => s.idleFd_
  | some .acceptIdle | some .closeAccepted | some .openIdle => none

/-- The descriptor of a connection that will not be passed on. -/
def inHand (s : Acceptor) : Option Nat :=
  match s.rest with
  | some (.closeConnfd connfd) => some connfd
  | some .closeAccepted => s.idleFd_
  | none | some .closeIdle | some .acceptIdle | some .openIdle => none

/-- The acceptor has what it should and nothing else, and the connections come off the queue in
their order. -/
structure Sound (s : Acceptor) : Prop where
  listening : Has s.table (· = .listening) (some s.acceptSocket_)
  reserve : Has s.table (· = .reserve) s.reserved
  accepted : Has s.table Owner.IsAccepted s.inHand
  order : s.fates.map Prod.fst ++ s.queue = s.arrived
  below : ∀ fd, s.idleFd_ = some fd → fd < s.limit

variable {s} {t : Acceptor}

theorem sound_new {limit : Nat} {table : Nat → Option Owner} {callback : Bool}
    (hothers : ∀ fd owner, table fd = some owner → owner = .other)
    (h : new limit table callback = some s) :
    Sound s := by
  have hnone (p : Owner → Prop) (hp : ¬ p .other) : Has table p none := by
    refine fun fd ↦ iff_of_false ?_ nofun
    rintro ⟨owner, howner, hholds⟩
    rw [hothers fd owner howner] at hholds
    exact hp hholds
  unfold new at h
  obtain ⟨sockfd, hsock, h⟩ := Option.bind_eq_some_iff.mp h
  obtain ⟨idleFd, hidle, h⟩ := Option.bind_eq_some_iff.mp h
  cases h
  have hfree := (free_of_lowestFree hsock).1
  obtain ⟨hfree', hlt⟩ := free_of_lowestFree hidle
  have hlistening : Has (Function.update table sockfd (some .listening)) (· = .listening)
      (some sockfd) :=
    (hnone _ nofun).set_self rfl
  have hreserve : Has (Function.update table sockfd (some .listening)) (· = .reserve) none :=
    (hnone _ nofun).set_other hfree nofun
  have haccepted : Has (Function.update table sockfd (some .listening)) Owner.IsAccepted none :=
    (hnone _ nofun).set_other hfree nofun
  refine ⟨hlistening.set_other hfree' nofun, hreserve.set_self rfl,
    haccepted.set_other hfree' nofun, rfl, fun fd hfd ↦ ?_⟩
  cases hfd
  exact hlt

/-! ## The steps -/

theorem accept_ok {fd conn : Nat} (h : s.accept = .ok (fd, conn, t)) :
    s.table fd = none ∧ fd < s.limit ∧ ∃ queue, s.queue = conn :: queue ∧
    t = { s with queue := queue } := by
  unfold accept at h
  split at h
  next => cases h
  next => cases h
  next fd' conn' queue hfree hqueue =>
    cases h
    obtain ⟨htable, hlt⟩ := free_of_lowestFree hfree
    exact ⟨htable, hlt, queue, hqueue, rfl⟩

/-- A connection that comes off the queue is the oldest. -/
theorem Sound.order_accept (h : Sound s) {conn : Nat} {queue : List Nat}
    (hqueue : s.queue = conn :: queue)
    (passed : Bool) : (s.fates ++ [(conn, passed)]).map Prod.fst ++ queue = s.arrived := by
  rw [← h.order, hqueue, List.map_append, List.append_assoc]
  rfl

theorem Sound.opens (h : Sound s) {fd : Nat} (hfree : s.table fd = none) :
    Sound (s.setOwner fd (some .other)) :=
  ⟨h.listening.set_other hfree nofun, h.reserve.set_other hfree nofun,
    h.accepted.set_other hfree nofun, h.order, h.below⟩

/-- What another closes is not the acceptor's. -/
theorem Sound.closes (h : Sound s) {fd : Nat} {owner : Owner} (howner : s.table fd = some owner)
    (htheirs : owner ≠ .listening ∧ owner ≠ .reserve ∧ ¬ owner.IsAccepted) :
    Sound (s.setOwner fd none) := by
  have hne {p : Owner → Prop} {held : Option Nat} (hhas : Has s.table p held) (hp : ¬ p owner) :
      held ≠ some fd := by
    intro hheld
    obtain ⟨owner', howner', hholds⟩ := (hhas fd).mpr hheld
    cases howner.symm.trans howner'
    exact hp hholds
  exact ⟨h.listening.clear_other (hne h.listening htheirs.1),
    h.reserve.clear_other (hne h.reserve htheirs.2.1),
    h.accepted.clear_other (hne h.accepted htheirs.2.2), h.order, h.below⟩

theorem Sound.handleRead (h : Sound s) (hrest : s.rest = none) (log : Errno → Errno) :
    Sound (s.handleRead log) := by
  have hreserve : Has s.table (· = .reserve) s.idleFd_ := by
    simpa only [reserved, hrest] using h.reserve
  have haccepted : Has s.table Owner.IsAccepted none := by
    simpa only [inHand, hrest] using h.accepted
  unfold Acceptor.handleRead
  split
  next connfd conn t haccept =>
    obtain ⟨hfree, -, queue, hqueue, rfl⟩ := accept_ok haccept
    split
    · exact ⟨h.listening.set_other hfree nofun, h.reserve.set_other hfree nofun,
        h.accepted.set_other hfree nofun, h.order_accept hqueue true, h.below⟩
    · exact ⟨h.listening.set_other hfree nofun, hreserve.set_other hfree nofun,
        haccepted.set_self ⟨conn, rfl⟩, h.order_accept hqueue false, h.below⟩
  next =>
    split
    · exact ⟨h.listening, hreserve, haccepted, h.order, h.below⟩
    · exact h

theorem Sound.acceptIdle (h : Sound s) (hrest : s.rest = some .acceptIdle) :
    Sound s.acceptIdle := by
  have hreserve : Has s.table (· = .reserve) none := by simpa only [reserved, hrest] using h.reserve
  have haccepted : Has s.table Owner.IsAccepted none := by
    simpa only [inHand, hrest] using h.accepted
  unfold Acceptor.acceptIdle
  split
  next idleFd conn t haccept =>
    obtain ⟨hfree, hlt, queue, hqueue, rfl⟩ := accept_ok haccept
    refine ⟨h.listening.set_other hfree nofun, hreserve.set_other hfree nofun,
      haccepted.set_self ⟨conn, rfl⟩, h.order_accept hqueue false, fun fd hfd ↦ ?_⟩
    cases hfd
    exact hlt
  next => exact ⟨h.listening, hreserve, haccepted, h.order, nofun⟩

theorem Sound.openIdle (h : Sound s) (hrest : s.rest = some .openIdle) : Sound s.openIdle := by
  have hreserve : Has s.table (· = .reserve) none := by simpa only [reserved, hrest] using h.reserve
  have haccepted : Has s.table Owner.IsAccepted none := by
    simpa only [inHand, hrest] using h.accepted
  unfold Acceptor.openIdle
  split
  next idleFd hlowest =>
    obtain ⟨hfree, hlt⟩ := free_of_lowestFree hlowest
    refine ⟨h.listening.set_other hfree nofun, hreserve.set_self rfl,
      haccepted.set_other hfree nofun, h.order, fun fd hfd ↦ ?_⟩
    cases hfd
    exact hlt
  next => exact ⟨h.listening, hreserve, haccepted, h.order, nofun⟩

/-- `close` of what is in reserve, or of -1. -/
theorem Sound.close_reserved (h : Sound s) :
    ∃ table, s.close s.reserved = .ok { s with table := table } ∧
      Has table (· = .listening) (some s.acceptSocket_) ∧
      Has table (· = .reserve) none ∧ Has table Owner.IsAccepted s.inHand := by
  cases hheld : s.reserved with
  | none => exact ⟨s.table, rfl, h.listening, hheld ▸ h.reserve, h.accepted⟩
  | some fd =>
    obtain ⟨owner, htable, rfl⟩ := (h.reserve fd).mpr hheld
    refine ⟨Function.update s.table fd none, by simp only [close, htable, setOwner], ?_, ?_, ?_⟩
    · exact h.listening.clear_other (h.reserve.ne h.listening (by rintro _ rfl; nofun) hheld)
    · exact (hheld ▸ h.reserve).clear_self
    · exact h.accepted.clear_other (h.reserve.ne h.accepted
        (by rintro _ rfl ⟨conn, hconn⟩; cases hconn) hheld)

/-- `close` of a connection in hand, or of -1. -/
theorem Sound.close_inHand (h : Sound s) :
    ∃ table, s.close s.inHand = .ok { s with table := table } ∧
      Has table (· = .listening) (some s.acceptSocket_) ∧
      Has table (· = .reserve) s.reserved ∧ Has table Owner.IsAccepted none := by
  cases hheld : s.inHand with
  | none => exact ⟨s.table, rfl, h.listening, h.reserve, hheld ▸ h.accepted⟩
  | some fd =>
    obtain ⟨owner, htable, conn, rfl⟩ := (h.accepted fd).mpr hheld
    refine ⟨Function.update s.table fd none, by simp only [close, htable, setOwner], ?_, ?_, ?_⟩
    · exact h.listening.clear_other (h.accepted.ne h.listening
        (by rintro _ ⟨conn, rfl⟩; nofun) hheld)
    · exact h.reserve.clear_other (h.accepted.ne h.reserve (by rintro _ ⟨conn, rfl⟩; nofun) hheld)
    · exact (hheld ▸ h.accepted).clear_self

theorem Sound.resume (h : Sound s) {rest : Rest} (hrest : s.rest = some rest) :
    ∃ t, s.resume rest = .ok t ∧ Sound t := by
  cases rest with
  | closeConnfd connfd =>
    obtain ⟨table, hclose, hlistening, hreserve, haccepted⟩ := h.close_inHand
    simp only [inHand, hrest] at hclose
    simp only [reserved, hrest] at hreserve
    refine ⟨{ s with table := table, rest := none }, ?_,
      ⟨hlistening, hreserve, haccepted, h.order, h.below⟩⟩
    simp only [Acceptor.resume]
    rw [hclose]
    rfl
  | closeIdle =>
    obtain ⟨table, hclose, hlistening, hreserve, haccepted⟩ := h.close_reserved
    simp only [reserved, hrest] at hclose
    simp only [inHand, hrest] at haccepted
    refine ⟨{ s with table := table, rest := some .acceptIdle }, ?_,
      ⟨hlistening, hreserve, haccepted, h.order, h.below⟩⟩
    simp only [Acceptor.resume]
    rw [hclose]
    rfl
  | acceptIdle => exact ⟨_, rfl, h.acceptIdle hrest⟩
  | closeAccepted =>
    obtain ⟨table, hclose, hlistening, hreserve, haccepted⟩ := h.close_inHand
    simp only [inHand, hrest] at hclose
    simp only [reserved, hrest] at hreserve
    refine ⟨{ s with table := table, rest := some .openIdle }, ?_,
      ⟨hlistening, hreserve, haccepted, h.order, h.below⟩⟩
    simp only [Acceptor.resume]
    rw [hclose]
    rfl
  | openIdle => exact ⟨_, rfl, h.openIdle hrest⟩

theorem closes_cases {fd : Nat} (h : Step s (.closes fd) t) :
    (∃ owner, s.table fd = some owner ∧ owner ≠ .listening ∧ owner ≠ .reserve ∧
    ¬ owner.IsAccepted) ∧
      t = s.setOwner fd none := by
  simp only [Step, next] at h
  split at h
  next howner =>
    cases h
    exact ⟨⟨_, howner, nofun, nofun, nofun⟩, rfl⟩
  next howner =>
    cases h
    exact ⟨⟨_, howner, nofun, nofun, nofun⟩, rfl⟩
  next => cases h

theorem handleRead_cases {log : Errno → Errno} (h : Step s (.handleRead log) t) :
    s.rest = none ∧ t = s.handleRead log := by
  simp only [Step, next] at h
  split at h
  next hrest =>
    cases h
    exact ⟨hrest, rfl⟩
  next => cases h

/-- **Step lemma.**  No step closes what is another's, whoever comes between. -/
theorem Sound.step (h : Sound s) {l : Label} {result : Except Fault Acceptor}
    (hnext : s.next l = some result) :
    ∃ t, result = .ok t ∧ Sound t := by
  cases l with
  | arrive conn =>
    cases hnext
    refine ⟨_, rfl, h.listening, h.reserve, h.accepted, ?_, h.below⟩
    show s.fates.map Prod.fst ++ (s.queue ++ [conn]) = s.arrived ++ [conn]
    rw [← List.append_assoc, h.order]
  | opens =>
    obtain ⟨fd, hlowest, rfl⟩ := Option.map_eq_some_iff.mp hnext
    exact ⟨_, rfl, h.opens (free_of_lowestFree hlowest).1⟩
  | closes fd =>
    simp only [next] at hnext
    split at hnext
    next howner =>
      cases hnext
      exact ⟨_, rfl, h.closes howner ⟨nofun, nofun, nofun⟩⟩
    next conn howner =>
      cases hnext
      exact ⟨_, rfl, h.closes howner ⟨nofun, nofun, nofun⟩⟩
    next => cases hnext
  | handleRead log =>
    simp only [next] at hnext
    split at hnext
    next hrest =>
      cases hnext
      exact ⟨_, rfl, h.handleRead hrest log⟩
    next => cases hnext
  | resume =>
    obtain ⟨rest, hrest, rfl⟩ := Option.map_eq_some_iff.mp hnext
    exact h.resume hrest

/-- At rest there is only the reserve and the listening socket to close. -/
theorem Sound.destructor (h : Sound s) (hrest : s.rest = none) :
    ∃ t, s.destructor = .ok t ∧
      ∀ fd owner, t.table fd = some owner → owner ≠ .listening ∧ owner ≠ .reserve ∧
      ¬ owner.IsAccepted := by
  obtain ⟨table, hclose, hlistening, hreserve, haccepted⟩ := h.close_reserved
  simp only [reserved, inHand, hrest] at hclose haccepted
  obtain ⟨owner, hsocket, rfl⟩ := (hlistening s.acceptSocket_).mpr rfl
  refine ⟨{ s with table := Function.update table s.acceptSocket_ none, rest := none }, ?_,
    fun fd owner howner ↦ ?_⟩
  · simp only [Acceptor.destructor, hclose, bind, Except.bind, hsocket, setOwner, pure, Except.pure]
  have hclear := hlistening.clear_self fd
  have hreserve' := @Has.clear_other _ _ _ s.acceptSocket_ hreserve nofun fd
  have haccepted' := @Has.clear_other _ _ _ s.acceptSocket_ haccepted nofun fd
  refine ⟨fun hsame ↦ ?_, fun hsame ↦ ?_, fun hsame ↦ ?_⟩
  · exact absurd (hclear.mp ⟨owner, howner, hsame⟩) nofun
  · exact absurd (hreserve'.mp ⟨owner, howner, hsame⟩) nofun
  · exact absurd (haccepted'.mp ⟨owner, howner, hsame⟩) nofun

/-- **Whose the descriptors are.**  Whatever other threads open and close between two calls: the
acceptor closes nothing that is not its own and forgets nothing it owns, at its end neither, and the
connections come off the queue each once and in the order they arrived. -/
theorem descriptors_owned {limit : Nat} {table : Nat → Option Owner} {callback : Bool}
    {s₀ : Acceptor} {ls : List Label} (hothers : ∀ fd owner, table fd = some owner → owner = .other)
    (hnew : new limit table callback = some s₀)
    (h : Run Step s₀ ls s) :
    Sound s ∧ (∀ l fault, s.next l ≠ some (.error fault)) ∧
      (s.rest = none → ∃ t, s.destructor = .ok t ∧
        ∀ fd owner, t.table fd = some owner → owner ≠ .listening ∧ owner ≠ .reserve ∧
        ¬ owner.IsAccepted) := by
  have hs : Sound s := by
    refine h.invariant Sound (fun s l t hs hstep ↦ ?_) (sound_new hothers hnew)
    obtain ⟨u, hu, hsound⟩ := hs.step hstep
    cases hu
    exact hsound
  refine ⟨hs, fun l fault herror ↦ ?_, hs.destructor⟩
  obtain ⟨t, ht, -⟩ := hs.step herror
  cases ht

/-- An acceptor in a process that may have three descriptors. -/
def ofThree : Acceptor :=
  (new 3 (fun _ ↦ none) true).get rfl

theorem new_ofThree : new 3 (fun _ ↦ none) true = some ofThree :=
  (Option.some_get _).symm

theorem no_others (fd : Nat) (owner : Owner)
    (howner : (fun _ ↦ none : Nat → Option Owner) fd = some owner) :
    owner = .other := by
  cases howner

/-- Another thread takes the descriptor that was given up, and the reserve is lost. -/
theorem descriptors_owned_lost :
    ∃ s, Run Step ofThree [.opens, .arrive 7, .handleRead id, .resume, .opens, .resume, .resume,
      .resume] s ∧
      s.idleFd_ = none ∧ s.queue = [7] ∧ Sound s ∧ (∀ l fault, s.next l ≠ some (.error fault)) ∧
      (s.rest = none → ∃ t, s.destructor = .ok t ∧
        ∀ fd owner, t.table fd = some owner → owner ≠ .listening ∧ owner ≠ .reserve ∧
        ¬ owner.IsAccepted) := by
  have hrun := show Run Step ofThree
      [.opens, .arrive 7, .handleRead id, .resume, .opens, .resume, .resume, .resume] _ from
    .cons rfl <| .cons rfl <| .cons rfl <| .cons rfl <| .cons rfl <| .cons rfl <| .cons rfl <|
      .cons rfl <| .nil _
  exact ⟨_, hrun, rfl, rfl, descriptors_owned no_others new_ofThree hrun⟩

/-! ## Progress without descriptors -/

/-- The log leaves `errno` as it was, and nobody opens a descriptor while the reserve is given
up. -/
def Quiet (s : Acceptor) (l : Label) : Prop :=
  (∀ log, l = .handleRead log → log .EMFILE = .EMFILE) ∧
    (l = .opens →
      s.rest ≠ some .acceptIdle ∧ s.rest ≠ some .closeAccepted ∧ s.rest ≠ some .openIdle)

/-- There is a descriptor to be had. -/
def Room (s : Acceptor) : Prop :=
  ∃ fd, fd < s.limit ∧ s.table fd = none

/-- The reserve is there, or room for it. -/
def Spare (s : Acceptor) : Prop :=
  match s.rest with
  | none | some .closeIdle | some (.closeConnfd _) => s.idleFd_ ≠ none
  | some .acceptIdle | some .openIdle => s.Room
  | some .closeAccepted => s.idleFd_ ≠ none ∨ s.Room

/-- Of a call of `handleRead` with a connection in the queue, behind `n` connections taken before
it. -/
def Takes (n : Nat) (s : Acceptor) : Prop :=
  match s.rest with
  | some .closeIdle | some .acceptIdle => s.queue ≠ [] ∧ s.fates.length = n
  | none | some (.closeConnfd _) | some .closeAccepted | some .openIdle => s.fates.length = n + 1

theorem exists_lowestFree (h : s.Room) : ∃ fd, lowestFree s.limit s.table = some fd := by
  obtain ⟨fd, hlt, hfree⟩ := h
  cases hlowest : lowestFree s.limit s.table with
  | none => exact absurd hfree (full_of_lowestFree hlowest hlt)
  | some fd' => exact ⟨fd', rfl⟩

theorem close_cases {fd? : Option Nat} (h : s.close fd? = .ok t) :
    t = s ∧ (∀ fd, fd? = some fd → s.table fd = none) ∨ ∃ fd, fd? = some fd ∧
    t = s.setOwner fd none := by
  cases fd? with
  | none =>
    cases h
    exact .inl ⟨rfl, nofun⟩
  | some fd =>
    simp only [close] at h
    split at h
    next hfree =>
      cases h
      refine .inl ⟨rfl, fun fd' hfd ↦ ?_⟩
      cases hfd
      exact hfree
    next =>
      cases h
      exact .inr ⟨fd, rfl, rfl⟩
    next =>
      cases h
      exact .inr ⟨fd, rfl, rfl⟩
    next => cases h

theorem Room.setOwner (h : s.Room) (fd : Nat) : (s.setOwner fd none).Room := by
  obtain ⟨fd', hlt, hfree⟩ := h
  refine ⟨fd', hlt, ?_⟩
  show Function.update s.table fd none fd' = none
  by_cases hfd : fd' = fd
  · rw [hfd, Function.update_self]
  · rw [Function.update_of_ne hfd, hfree]

/-- What is closed makes room. -/
theorem room_of_close {fd? : Option Nat} (hbelow : ∀ fd, fd? = some fd → fd < s.limit)
    (hclose : s.close fd? = .ok t) (h : fd? ≠ none ∨ s.Room) : t.Room := by
  obtain ⟨rfl, hfree⟩ | ⟨fd, rfl, rfl⟩ := close_cases hclose
  · cases fd? with
    | none => exact h.resolve_left (by simp)
    | some fd => exact ⟨fd, hbelow fd rfl, hfree fd rfl⟩
  · exact ⟨fd, hbelow fd rfl, Function.update_self ..⟩

theorem idleFd_of_close {fd? : Option Nat} (hclose : s.close fd? = .ok t) :
    t.idleFd_ = s.idleFd_ ∧ t.queue = s.queue ∧ t.fates = s.fates := by
  obtain ⟨rfl, -⟩ | ⟨fd, -, rfl⟩ := close_cases hclose <;> exact ⟨rfl, rfl, rfl⟩

theorem Spare.handleRead (h : s.Spare) (hrest : s.rest = none) (log : Errno → Errno) :
    (s.handleRead log).Spare := by
  have hidle : s.idleFd_ ≠ none := by simpa only [Spare, hrest] using h
  unfold Acceptor.handleRead
  split
  next connfd conn t haccept =>
    obtain ⟨-, -, queue, -, rfl⟩ := accept_ok haccept
    split
    · simp only [Spare, setOwner, hrest]
      exact hidle
    · exact hidle
  next =>
    split
    · exact hidle
    · exact h

theorem Spare.resume (hs : Sound s) (h : s.Spare) {rest : Rest} (hrest : s.rest = some rest)
    (hresume : s.resume rest = .ok t) : t.Spare := by
  simp only [Spare, hrest] at h
  cases rest with
  | closeConnfd connfd =>
    obtain ⟨u, hclose, rfl⟩ := ok_of_map hresume
    show u.idleFd_ ≠ none
    rw [(idleFd_of_close hclose).1]
    exact h
  | closeIdle =>
    obtain ⟨u, hclose, rfl⟩ := ok_of_map hresume
    show u.Room
    exact room_of_close hs.below hclose (.inl h)
  | acceptIdle =>
    cases hresume
    unfold Acceptor.acceptIdle
    split
    · exact .inl nofun
    · exact .inr h
  | closeAccepted =>
    obtain ⟨u, hclose, rfl⟩ := ok_of_map hresume
    show u.Room
    exact room_of_close hs.below hclose h
  | openIdle =>
    cases hresume
    obtain ⟨fd, hlowest⟩ := exists_lowestFree h
    unfold Acceptor.openIdle
    rw [hlowest]
    exact nofun

/-- Others can take the room only where the acceptor needs none. -/
theorem Spare.mono (h : s.Spare) (hrest : t.rest = s.rest) (hidle : t.idleFd_ = s.idleFd_)
    (hroom : s.rest = some .acceptIdle ∨ s.rest = some .closeAccepted ∨ s.rest = some .openIdle →
    s.Room → t.Room) :
    t.Spare := by
  unfold Spare at h ⊢
  rw [hrest, hidle]
  cases hcall : s.rest with
  | none =>
    rw [hcall] at h
    exact h
  | some rest =>
    rw [hcall] at h
    cases rest with
    | closeConnfd connfd => exact h
    | closeIdle => exact h
    | acceptIdle => exact hroom (.inl hcall) h
    | closeAccepted => exact h.imp_right (hroom (.inr (.inl hcall)))
    | openIdle => exact hroom (.inr (.inr hcall)) h

theorem Spare.step (hs : Sound s) (h : s.Spare) {l : Label} (hquiet : s.Quiet l)
    (hstep : Step s l t) : t.Spare := by
  cases l with
  | arrive conn =>
    cases hstep
    exact h.mono rfl rfl fun _ hroom ↦ hroom
  | opens =>
    obtain ⟨fd, -, ht⟩ := Option.map_eq_some_iff.mp hstep
    cases ht
    obtain ⟨hacceptIdle, hcloseAccepted, hopenIdle⟩ := hquiet.2 rfl
    refine h.mono rfl rfl fun hwindow ↦ ?_
    exact absurd hwindow (not_or.mpr ⟨hacceptIdle, not_or.mpr ⟨hcloseAccepted, hopenIdle⟩⟩)
  | closes fd =>
    obtain ⟨-, rfl⟩ := closes_cases hstep
    exact h.mono rfl rfl fun _ hroom ↦ hroom.setOwner fd
  | handleRead log =>
    obtain ⟨hrest, rfl⟩ := handleRead_cases hstep
    exact h.handleRead hrest log
  | resume =>
    obtain ⟨rest, hrest, hresume⟩ := Option.map_eq_some_iff.mp hstep
    exact h.resume hs hrest hresume

theorem Takes.mono {n : Nat} (h : s.Takes n) (hrest : t.rest = s.rest) (hfates : t.fates = s.fates)
    (hqueue : s.queue ≠ [] → t.queue ≠ []) : t.Takes n := by
  unfold Takes at h ⊢
  rw [hrest, hfates]
  cases hcall : s.rest with
  | none =>
    rw [hcall] at h
    exact h
  | some rest =>
    rw [hcall] at h
    cases rest with
    | closeConnfd connfd => exact h
    | closeIdle => exact h.imp_left hqueue
    | acceptIdle => exact h.imp_left hqueue
    | closeAccepted => exact h
    | openIdle => exact h

/-- A call that finds a connection takes it, or gives up the reserve for it. -/
theorem takes_handleRead (hrest : s.rest = none) (hqueue : s.queue ≠ []) {log : Errno → Errno}
    (hlog : log .EMFILE = .EMFILE) : (s.handleRead log).Takes s.fates.length := by
  obtain ⟨conn, queue, hqueue⟩ := List.exists_cons_of_ne_nil hqueue
  cases hlowest : lowestFree s.limit s.table with
  | some fd =>
    have haccept : s.accept = .ok (fd, conn, { s with queue := queue }) := by
      simp only [accept, hlowest, hqueue]
    unfold Acceptor.handleRead
    rw [haccept]
    dsimp only
    split
    · simp only [Takes, setOwner, hrest, List.length_append, List.length_singleton]
    · simp only [Takes, List.length_append, List.length_singleton]
  | none =>
    have haccept : s.accept = .error .EMFILE := by simp only [accept, hlowest]
    unfold Acceptor.handleRead
    rw [haccept]
    dsimp only
    rw [if_pos hlog]
    show s.queue ≠ [] ∧ s.fates.length = s.fates.length
    exact ⟨by rw [hqueue]; nofun, rfl⟩

theorem Takes.resume {n : Nat} (hspare : s.Spare) (h : s.Takes n) {rest : Rest}
    (hrest : s.rest = some rest) (hresume : s.resume rest = .ok t) : t.Takes n := by
  simp only [Takes, hrest] at h
  cases rest with
  | closeConnfd connfd =>
    obtain ⟨u, hclose, rfl⟩ := ok_of_map hresume
    show u.fates.length = n + 1
    rw [(idleFd_of_close hclose).2.2]
    exact h
  | closeIdle =>
    obtain ⟨u, hclose, rfl⟩ := ok_of_map hresume
    obtain ⟨-, hqueue, hfates⟩ := idleFd_of_close hclose
    show u.queue ≠ [] ∧ u.fates.length = n
    rw [hqueue, hfates]
    exact h
  | acceptIdle =>
    cases hresume
    simp only [Spare, hrest] at hspare
    obtain ⟨fd, hlowest⟩ := exists_lowestFree hspare
    obtain ⟨conn, queue, hqueue⟩ := List.exists_cons_of_ne_nil h.1
    have haccept : s.accept = .ok (fd, conn, { s with queue := queue }) := by
      simp only [accept, hlowest, hqueue]
    unfold Acceptor.acceptIdle
    rw [haccept]
    show (s.fates ++ [(conn, false)]).length = n + 1
    rw [List.length_append, h.2, List.length_singleton]
  | closeAccepted =>
    obtain ⟨u, hclose, rfl⟩ := ok_of_map hresume
    show u.fates.length = n + 1
    rw [(idleFd_of_close hclose).2.2]
    exact h
  | openIdle =>
    cases hresume
    unfold Acceptor.openIdle
    split
    · exact h
    · exact h

theorem Takes.step {n : Nat} (hspare : s.Spare) (h : s.Takes n) {l : Label}
    (hcall : ∀ log, l ≠ .handleRead log) (hstep : Step s l t) : t.Takes n := by
  cases l with
  | arrive conn =>
    cases hstep
    exact h.mono rfl rfl fun _ ↦ List.append_ne_nil_of_right_ne_nil _ (List.cons_ne_nil _ _)
  | opens =>
    obtain ⟨fd, -, ht⟩ := Option.map_eq_some_iff.mp hstep
    cases ht
    exact h.mono rfl rfl fun hqueue ↦ hqueue
  | closes fd =>
    obtain ⟨-, rfl⟩ := closes_cases hstep
    exact h.mono rfl rfl fun hqueue ↦ hqueue
  | handleRead log => exact absurd rfl (hcall log)
  | resume =>
    obtain ⟨rest, hrest, hresume⟩ := Option.map_eq_some_iff.mp hstep
    exact h.resume hspare hrest hresume

theorem spare_of_run {limit : Nat} {table : Nat → Option Owner} {callback : Bool} {s₀ : Acceptor}
    {ls : List Label} (hothers : ∀ fd owner, table fd = some owner → owner = .other)
    (hnew : new limit table callback = some s₀)
    (h : Run (Guarded Step Quiet) s₀ ls s) : Sound s ∧ s.Spare := by
  refine h.invariant (fun s ↦ Sound s ∧ s.Spare) (fun s l t hs hstep ↦ ?_)
    ⟨sound_new hothers hnew, ?_⟩
  · obtain ⟨u, hu, hsound⟩ := hs.1.step hstep.1
    cases hu
    exact ⟨hsound, hs.2.step hs.1 hstep.2 hstep.1⟩
  · unfold new at hnew
    obtain ⟨sockfd, -, hnew⟩ := Option.bind_eq_some_iff.mp hnew
    obtain ⟨idleFd, -, hnew⟩ := Option.bind_eq_some_iff.mp hnew
    cases hnew
    exact nofun

theorem takes_of_run {n : Nat} {ls : List Label} (h : Run (Guarded Step Quiet) s ls t)
    (honce : ∀ log, Label.handleRead log ∉ ls) (hs : Sound s) (hspare : s.Spare)
    (htakes : s.Takes n) :
    t.Spare ∧ t.Takes n := by
  induction h with
  | nil => exact ⟨hspare, htakes⟩
  | @cons s u t l ls hstep _ ih =>
    obtain ⟨u', hu, hsound⟩ := hs.step hstep.1
    cases hu
    refine ih (fun log hmem ↦ honce log (List.mem_cons_of_mem _ hmem)) hsound
      (hspare.step hs hstep.2 hstep.1)
      (htakes.step hspare (fun log hcall ↦ ?_) hstep.1)
    exact honce log (hcall ▸ List.mem_cons_self)

/-- **Progress.**  However full the table is: a call of `handleRead` that finds a connection in the
queue takes one, and has its reserve again when it is through, unless another thread opens a
descriptor while the reserve is given up. -/
theorem takes_one {limit : Nat} {table : Nat → Option Owner} {callback : Bool} {s₀ u : Acceptor}
    {before ls : List Label} {log : Errno → Errno}
    (hothers : ∀ fd owner, table fd = some owner → owner = .other)
    (hnew : new limit table callback = some s₀) (hbefore : Run (Guarded Step Quiet) s₀ before s)
    (hqueue : s.queue ≠ [])
    (hcall : Guarded Step Quiet s (.handleRead log) u) (h : Run (Guarded Step Quiet) u ls t)
    (honce : ∀ log, Label.handleRead log ∉ ls) (hrest : t.rest = none) :
    t.fates.length = s.fates.length + 1 ∧ t.idleFd_ ≠ none := by
  obtain ⟨hsound, hspare⟩ := spare_of_run hothers hnew hbefore
  obtain ⟨hidle, rfl⟩ := handleRead_cases hcall.1
  obtain ⟨hspare, htakes⟩ := takes_of_run h honce (hsound.handleRead hidle log)
    (hspare.handleRead hidle log)
    (takes_handleRead hidle hqueue (hcall.2.1 log rfl))
  simp only [Takes, hrest] at htakes
  simp only [Spare, hrest] at hspare
  exact ⟨htakes, hspare⟩

/-- All descriptors are taken, and a connection waits. -/
def exhausted : Acceptor :=
  { ofThree.setOwner 2 (some .other) with queue := [7], arrived := [7] }

/-- The connection is taken all the same, and the reserve is back. -/
theorem takes_one_exhausted :
    ∃ u t, Run (Guarded Step Quiet) ofThree [.opens, .arrive 7] exhausted ∧
      Guarded Step Quiet exhausted (.handleRead id) u ∧
      Run (Guarded Step Quiet) u [.resume, .resume, .arrive 8, .resume, .resume] t ∧
      t.fates.length = exhausted.fates.length + 1 ∧ t.idleFd_ ≠ none := by
  have hbefore := show Run (Guarded Step Quiet) ofThree [.opens, .arrive 7] exhausted from
    .cons ⟨rfl, nofun, fun _ ↦ ⟨nofun, nofun, nofun⟩⟩ (.cons ⟨rfl, nofun, nofun⟩ (.nil _))
  have hcall := show Guarded Step Quiet exhausted (.handleRead id) (exhausted.handleRead id) from
    ⟨rfl, fun log hlog ↦ by cases hlog; rfl, nofun⟩
  have hrest := show Run (Guarded Step Quiet) (exhausted.handleRead id)
      [.resume, .resume, .arrive 8, .resume, .resume] _ from
    .cons ⟨rfl, nofun, nofun⟩ (.cons ⟨rfl, nofun, nofun⟩ (.cons ⟨rfl, nofun, nofun⟩
      (.cons ⟨rfl, nofun, nofun⟩ (.cons ⟨rfl, nofun, nofun⟩ (.nil _)))))
  exact ⟨_, _, hbefore, hcall, hrest,
    takes_one no_others new_ofThree hbefore (List.cons_ne_nil _ _) hcall hrest (by simp) rfl⟩

theorem accept_full (hfull : lowestFree s.limit s.table = none) : s.accept = .error .EMFILE := by
  simp only [accept, hfull]

/-- Without the reserve a call in a full table leaves everything as it was, and the socket
readable. -/
theorem call_spins (hrest : s.rest = none) (hidle : s.idleFd_ = none)
    (hfull : lowestFree s.limit s.table = none)
    {log : Errno → Errno} (hlog : log .EMFILE = .EMFILE) :
    Run Step s [.handleRead log, .resume, .resume, .resume, .resume] s := by
  obtain ⟨limit, table, acceptSocket_, idleFd_, newConnectionCallback_, queue, arrived, fates,
    rest⟩ := s
  subst hrest hidle
  have hread (s : Acceptor) (hfull : lowestFree s.limit s.table = none) :
      s.handleRead log = { s with rest := some .closeIdle } := by
    unfold Acceptor.handleRead
    rw [accept_full hfull]
    exact if_pos hlog
  have haccept (s : Acceptor) (hfull : lowestFree s.limit s.table = none) :
      s.acceptIdle = { s with idleFd_ := none, rest := some .closeAccepted } := by
    unfold Acceptor.acceptIdle
    rw [accept_full hfull]
  have hopen (s : Acceptor) (hfull : lowestFree s.limit s.table = none) :
      s.openIdle = { s with idleFd_ := none, rest := none } := by
    unfold Acceptor.openIdle
    rw [hfull]
  exact .cons (congrArg (some ∘ Except.ok) (hread _ hfull)) (.cons rfl
    (.cons (congrArg (some ∘ Except.ok) (haccept _ hfull)) (.cons rfl
      (.cons (congrArg (some ∘ Except.ok) (hopen _ hfull)) (.nil _)))))

end Acceptor

end Pallette
