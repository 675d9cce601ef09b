import Pallette.Basic
import Pallette.Reasoning.Bisect

/-!
# TimeZone — local time from the table of transitions, and back

A `time_t` is an integer of any size.  `gmtime_r` and `timegm` are the C library's.
-/

open Reasoning

namespace Pallette

/-- `struct tm`, with the text that `tm_zone` points at. -/
structure Tm where
  tm_sec : Int := 0
  tm_min : Int := 0
  tm_hour : Int := 0
  tm_mday : Int := 0
  tm_mon : Int := 0
  tm_year : Int := 0
  tm_wday : Int := 0
  tm_yday : Int := 0
  tm_isdst : Int := 0
  tm_gmtoff : Int := 0
  tm_zone : Bytes := []
deriving DecidableEq, Repr

namespace TimeZone

/-- What stops a call: an index out of range, or an assertion that fails. -/
inductive Fault
  | outOfRange
  | assertion
deriving DecidableEq, Repr

structure Transition where
  gmttime : Int
  localtime : Int
  localtimeIdx : Nat
deriving DecidableEq, Repr

structure Localtime where
  gmtOffset : Int
  isDst : Bool
  arrbIdx : Nat
deriving DecidableEq, Repr

structure Comp where
  compareGmt : Bool
deriving DecidableEq, Repr

def Comp.less (comp : Comp) (lhs rhs : Transition) : Bool :=
  if comp.compareGmt then decide (lhs.gmttime < rhs.gmttime)
    else decide (lhs.localtime < rhs.localtime)

def Comp.equal (comp : Comp) (lhs rhs : Transition) : Bool :=
  if comp.compareGmt then decide (lhs.gmttime = rhs.gmttime)
    else decide (lhs.localtime = rhs.localtime)

/-- `TimeZone::Data`; nothing uses its `names`. -/
structure Data where
  transitions : List Transition := []
  localtimes : List Localtime := []
  abbreviation : Bytes := []
deriving DecidableEq, Repr

/-- `v[i]`, with the index checked. -/
def elem {α : Type} (v : List α) (i : Nat) : Except Fault α :=
  match v[i]? with
  | some x => .ok x
  | none => .error .outOfRange

/-- The text at `&s[i]`, which ends at a null byte or at the end of the string. -/
def cString (s : Bytes) (i : Nat) : Except Fault Bytes :=
  if i ≤ s.length then .ok ((s.drop i).takeWhile (· ≠ 0)) else .error .outOfRange

/-- The part of `findLocaltime` behind its search, with the place that was found. -/
def atFound (data : Data) (sentry : Transition) (comp : Comp) (transI : Nat) :
    Except Fault Localtime :=
  match data.transitions[transI]? with
  | some transition =>
      if comp.equal sentry transition then elem data.localtimes transition.localtimeIdx
      else if transI = 0 then .error .assertion
      else do
        let transition ← elem data.transitions (transI - 1)
        elem data.localtimes transition.localtimeIdx
  | none => do
      let back ← elem data.transitions (data.transitions.length - 1)
      elem data.localtimes back.localtimeIdx

def findLocaltime (data : Data) (sentry : Transition) (comp : Comp) : Except Fault Localtime :=
  match data.transitions with
  | [] => elem data.localtimes 0
  | front :: _ =>
      if comp.less sentry front then elem data.localtimes 0
      else
        atFound data sentry comp (lowerBound (fun transition ↦ comp.less transition sentry)
          data.transitions)

end TimeZone

open TimeZone

/-- Without data the zone is not valid. -/
structure TimeZone where
  data_ : Option Data := none
deriving DecidableEq, Repr

namespace TimeZone

def valid (zone : TimeZone) : Bool :=
  zone.data_.isSome

/-- `*data_`, behind the assertion that there is data. -/
def data (zone : TimeZone) : Except Fault Data :=
  match zone.data_ with
  | some data => .ok data
  | none => .error .assertion

/-- The constructor for a fixed offset. -/
def fixed (eastOfUtc : Int) (name : Bytes) : TimeZone where
  data_ := some { localtimes := [⟨eastOfUtc, false, 0⟩], abbreviation := name }

def toLocalTime (gmtime_r : Int → Tm) (zone : TimeZone) (seconds : Int) : Except Fault Tm := do
  let data ← zone.data
  let found ← findLocaltime data ⟨seconds, 0, 0⟩ ⟨true⟩
  let text ← cString data.abbreviation found.arrbIdx
  .ok { gmtime_r (seconds + found.gmtOffset) with
    tm_isdst := if found.isDst then 1 else 0
    tm_gmtoff := found.gmtOffset
    tm_zone := text }

def fromLocalTime (gmtime_r : Int → Tm) (timegm : Tm → Int) (zone : TimeZone) (localTm : Tm) :
    Except Fault Int := do
  let data ← zone.data
  let seconds := timegm localTm
  let found ← findLocaltime data ⟨0, seconds, 0⟩ ⟨false⟩
  if localTm.tm_isdst = 0 then .ok (seconds - found.gmtOffset)
  else
    let tryTm ← toLocalTime gmtime_r zone (seconds - found.gmtOffset)
    if tryTm.tm_isdst = 0 ∧ tryTm.tm_hour = localTm.tm_hour ∧ tryTm.tm_min = localTm.tm_min then
      -- the source calls this a hack
      .ok (seconds - 3600 - found.gmtOffset)
    else .ok (seconds - found.gmtOffset)

end TimeZone

end Pallette
