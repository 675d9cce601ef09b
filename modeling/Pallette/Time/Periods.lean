import Pallette.Time.TimeZone

/-!
# Periods — the local times one after the other

Period 0 lasts until the first transition and has the first local time of all, period `j + 1` begins
at transition `j`.  In a table that ascends `findLocaltime` gives the period of the time that is
asked for; in any table whose indices are in range it gives some local time of it.
-/

open Reasoning

namespace Pallette.TimeZone

variable {data : Data} {sentry transition : Transition} {comp : Comp} {v : Int} {i j : Nat}

theorem elem_eq {α : Type} {xs : List α} {x : α} (h : xs[i]? = some x) : elem xs i = .ok x := by
  unfold elem
  rw [h]

theorem getElem?_of_elem {α : Type} {xs : List α} {x : α} (h : elem xs i = .ok x) :
    xs[i]? = some x := by
  unfold elem at h
  split at h
  next y hy =>
    cases h
    exact hy
  next => cases h

theorem elem_of_lt {α : Type} {xs : List α} (h : i < xs.length) : ∃ x ∈ xs, elem xs i = .ok x :=
  ⟨xs[i], List.getElem_mem h, elem_eq (List.getElem?_eq_getElem h)⟩

def Comp.key (comp : Comp) (transition : Transition) : Int :=
  if comp.compareGmt then transition.gmttime else transition.localtime

theorem less_iff {lhs rhs : Transition} : comp.less lhs rhs = true ↔
    comp.key lhs < comp.key rhs := by
  unfold Comp.less Comp.key
  split <;> exact decide_eq_true_iff

theorem equal_iff {lhs rhs : Transition} : comp.equal lhs rhs = true ↔
    comp.key lhs = comp.key rhs := by
  unfold Comp.equal Comp.key
  split <;> exact decide_eq_true_iff

def period (data : Data) : Nat → Except Fault Localtime
  | 0 => elem data.localtimes 0
  | j + 1 => do
      let transition ← elem data.transitions j
      elem data.localtimes transition.localtimeIdx

theorem period_succ (h : data.transitions[j]? = some transition) :
    period data (j + 1) = elem data.localtimes transition.localtimeIdx := by
  change (elem data.transitions j >>= fun transition ↦
    elem data.localtimes transition.localtimeIdx) = _
  rw [elem_eq h]
  rfl

/-! ## A table that ascends -/

def Ascending (comp : Comp) (data : Data) : Prop :=
  data.transitions.Pairwise fun x y ↦ comp.key x < comp.key y

/-- At `v` the first `j` transitions are over. -/
structure Reached (comp : Comp) (data : Data) (v : Int) (j : Nat) : Prop where
  le_length : j ≤ data.transitions.length
  before : ∀ i transition, i < j → data.transitions[i]? = some transition → comp.key transition ≤ v
  behind : ∀ i transition, j ≤ i → data.transitions[i]? = some transition → v < comp.key transition

theorem any_of_some {α : Type} {xs : List α} {x : α} (p : α → Bool) (h : xs[i]? = some x) :
    xs[i]?.any p = p x := by
  rw [h]
  rfl

theorem exists_reached (hasc : Ascending comp data) (v : Int) : ∃ j, Reached comp data v j := by
  have hboundary := boundary_lowerBound (fun transition ↦ decide (comp.key transition ≤ v))
    data.transitions
  have hdown : data.transitions.Pairwise fun x y ↦
      decide (comp.key y ≤ v) = true → decide (comp.key x ≤ v) = true := by
    apply hasc.imp
    intro x y hlt hle
    have hle := of_decide_eq_true hle
    exact decide_eq_true (by omega)
  refine ⟨_, hboundary.le_length, ?_, ?_⟩
  · intro i transition hi hget
    have hbelow := hboundary.below_of_lt hdown hi
    rw [any_of_some _ hget] at hbelow
    exact of_decide_eq_true hbelow
  · intro i transition hi hget
    have hnot := hboundary.not_below_of_le hdown hi
    rw [any_of_some _ hget] at hnot
    exact Int.not_le.mp (of_decide_eq_false hnot)

theorem Ascending.key_lt (h : Ascending comp data) {x y : Transition} (hij : i < j)
    (hx : data.transitions[i]? = some x) (hy : data.transitions[j]? = some y) :
    comp.key x < comp.key y := by
  obtain ⟨hi, rfl⟩ := List.getElem?_eq_some_iff.mp hx
  obtain ⟨hj, rfl⟩ := List.getElem?_eq_some_iff.mp hy
  exact List.pairwise_iff_getElem.mp h i j hi hj hij

theorem lowerBound_less (hbelow : ∀ k x, k < i → data.transitions[k]? = some x →
    comp.key x < comp.key sentry)
    (hlt : i ≤ data.transitions.length)
    (hnot : ∀ k x, i ≤ k → data.transitions[k]? = some x → comp.key sentry ≤ comp.key x) :
    lowerBound (fun transition ↦ comp.less transition sentry) data.transitions = i := by
  apply lowerBound_eq
  · intro k hk
    have hget := List.getElem?_eq_getElem (Nat.lt_of_lt_of_le hk hlt)
    rw [any_of_some _ hget, less_iff]
    exact hbelow k _ hk hget
  · intro k hk
    cases hget : data.transitions[k]? with
    | none => rfl
    | some x =>
      have hle := hnot k x hk hget
      rw [Option.any_some, ← Bool.not_eq_true, less_iff]
      omega

theorem findLocaltime_early (h : ∀ front, data.transitions[0]? = some front →
    comp.less sentry front = true) :
    findLocaltime data sentry comp = elem data.localtimes 0 := by
  unfold findLocaltime
  split
  next => rfl
  next front rest hfront => exact if_pos (h front (by rw [hfront]; rfl))

theorem findLocaltime_late {front : Transition} (hfront : data.transitions[0]? = some front)
    (h : comp.less sentry front = false) :
    findLocaltime data sentry comp =
      atFound data sentry comp (lowerBound (fun transition ↦ comp.less transition sentry)
        data.transitions) := by
  unfold findLocaltime
  split
  next hempty =>
    rw [hempty] at hfront
    cases hfront
  next front' rest hcons =>
    rw [hcons] at hfront
    cases hfront
    exact if_neg (by rw [h]; nofun)

/-- The search stops at the transition that begins the period, or else behind it. -/
theorem atFound_eq (hasc : Ascending comp data) (h : Reached comp data (comp.key sentry) (j + 1)) :
    atFound data sentry comp (lowerBound (fun transition ↦ comp.less transition sentry)
      data.transitions) =
      period data (j + 1) := by
  obtain ⟨last, hlast⟩ : ∃ last, data.transitions[j]? = some last :=
    ⟨_, List.getElem?_eq_getElem h.le_length⟩
  have hle := h.before j last (Nat.lt_succ_self j) hlast
  rw [period_succ hlast]
  by_cases hequal : comp.equal sentry last = true
  · have hkey := equal_iff.mp hequal
    -- the sentry is at the transition itself: the search ends there
    have hbound : lowerBound (fun transition ↦ comp.less transition sentry) data.transitions =
        j := by
      apply lowerBound_less
      · intro i x hi hx
        rw [hkey]
        exact hasc.key_lt hi hx hlast
      · exact Nat.le_of_lt h.le_length
      · intro i x hi hx
        rcases Nat.lt_or_eq_of_le hi with hlt | heq
        · exact Int.le_of_lt (hkey ▸ hasc.key_lt hlt hlast hx)
        · rw [heq, hx] at hlast
          cases hlast
          exact Int.le_of_eq hkey
    unfold atFound
    rw [hbound, hlast]
    exact if_pos hequal
  · have hless : comp.key last < comp.key sentry := by
      rw [equal_iff] at hequal
      omega
    -- the sentry lies behind it: the search goes one further, and the code steps back
    have hbound : lowerBound (fun transition ↦ comp.less transition sentry) data.transitions =
        j + 1 := by
      apply lowerBound_less
      · intro i x hi hx
        rcases Nat.lt_or_eq_of_le (Nat.le_of_lt_succ hi) with hlt | heq
        · exact Int.lt_trans (hasc.key_lt hlt hx hlast) hless
        · rw [heq, hlast] at hx
          cases hx
          exact hless
      · exact h.le_length
      · exact fun i x hi hx ↦ Int.le_of_lt (h.behind i x hi hx)
    unfold atFound
    rw [hbound]
    cases hnext : data.transitions[j + 1]? with
    | none =>
      have hend := List.getElem?_eq_none_iff.mp hnext
      have hlength : data.transitions.length - 1 = j := by
        have hlt := h.le_length
        omega
      dsimp only
      rw [hlength, elem_eq hlast]
      rfl
    | some next =>
      have hlater := h.behind (j + 1) next (Nat.le_refl _) hnext
      dsimp only
      rw [if_neg (by rw [equal_iff]; omega), if_neg (Nat.succ_ne_zero j), Nat.add_sub_cancel,
        elem_eq hlast]
      rfl

theorem findLocaltime_eq (hasc : Ascending comp data) (h : Reached comp data (comp.key sentry) j) :
    findLocaltime data sentry comp = period data j := by
  cases j with
  | zero =>
    rw [findLocaltime_early fun front hfront ↦
      less_iff.mpr (h.behind 0 front (Nat.le_refl 0) hfront)]
    rfl
  | succ j =>
    have hpos : 0 < data.transitions.length := Nat.lt_of_lt_of_le (Nat.succ_pos j) h.le_length
    have hfront := List.getElem?_eq_getElem hpos
    have hlate := h.before 0 _ (Nat.succ_pos j) hfront
    rw [findLocaltime_late hfront (by rw [← Bool.not_eq_true, less_iff]; omega)]
    exact atFound_eq hasc h

/-! ## Any table -/

/-- The indices are in range. -/
structure Indexed (data : Data) : Prop where
  localtimes : data.localtimes ≠ []
  transitions : ∀ transition ∈ data.transitions, transition.localtimeIdx < data.localtimes.length

theorem Indexed.atFound (h : Indexed data) {front : Transition}
    (hfront : data.transitions[0]? = some front) (hlate : comp.less sentry front = false) :
    ∃ found ∈ data.localtimes, atFound data sentry comp
      (lowerBound (fun transition ↦ comp.less transition sentry) data.transitions) = .ok found := by
  have hboundary := boundary_lowerBound (fun transition ↦ comp.less transition sentry)
    data.transitions
  generalize lowerBound (fun transition ↦ comp.less transition sentry) data.transitions =
    transI at hboundary
  have hstep (i : Nat) (hi : i < data.transitions.length) : ∃ found ∈ data.localtimes,
      (elem data.transitions i >>= fun transition ↦ elem data.localtimes transition.localtimeIdx) =
        .ok found := by
    obtain ⟨transition, hmem, heq⟩ := elem_of_lt hi
    rw [heq]
    exact elem_of_lt (h.transitions transition hmem)
  have hpos : 0 < data.transitions.length := (List.getElem?_eq_some_iff.mp hfront).1
  unfold TimeZone.atFound
  cases hget : data.transitions[transI]? with
  | none => exact hstep (data.transitions.length - 1) (by omega)
  | some transition =>
    dsimp only
    by_cases hequal : comp.equal sentry transition = true
    · rw [if_pos hequal]
      exact elem_of_lt (h.transitions transition (List.mem_of_getElem? hget))
    · rw [if_neg hequal]
      have hne : transI ≠ 0 := by
        rintro rfl
        -- the first transition is neither later than what is searched for nor earlier, so it is
        -- equal
        rw [hfront] at hget
        cases hget
        have hnot := hboundary.not_below
        rw [any_of_some _ hfront, ← Bool.not_eq_true, less_iff] at hnot
        rw [← Bool.not_eq_true, less_iff] at hlate
        rw [equal_iff] at hequal
        omega
      rw [if_neg hne]
      have hlt := (List.getElem?_eq_some_iff.mp hget).1
      exact hstep (transI - 1) (by omega)

/-- `findLocaltime` uses no index out of range and its assertion holds, whatever the order of the
table. -/
theorem Indexed.findLocaltime (h : Indexed data) (sentry : Transition) (comp : Comp) :
    ∃ found ∈ data.localtimes, findLocaltime data sentry comp = .ok found := by
  by_cases hearly : ∀ front, data.transitions[0]? = some front → comp.less sentry front = true
  · rw [findLocaltime_early hearly]
    exact elem_of_lt (List.length_pos_iff.mpr h.localtimes)
  · push Not at hearly
    obtain ⟨front, hfront, hlate⟩ := hearly
    rw [ne_eq, Bool.not_eq_true] at hlate
    rw [findLocaltime_late hfront hlate]
    exact h.atFound hfront hlate

/-! ## A linear scan -/

/-- What a scan from the front remembers at the end: the last transition that is over at `v`. -/
def scan (comp : Comp) (v : Int) (transitions : List Transition) : Option Transition :=
  transitions.foldl (fun last transition ↦ if comp.key transition ≤ v then some transition
    else last) none

/-- What `findLocaltime` stands for. -/
def linearScan (data : Data) (sentry : Transition) (comp : Comp) : Option Localtime :=
  match scan comp (comp.key sentry) data.transitions with
  | some transition => data.localtimes[transition.localtimeIdx]?
  | none => data.localtimes.head?

theorem scan_append (xs ys : List Transition) (h : ∀ y ∈ ys, v < comp.key y) :
    scan comp v (xs ++ ys) = scan comp v xs := by
  unfold scan
  rw [List.foldl_append]
  generalize xs.foldl _ none = last
  induction ys with
  | nil => rfl
  | cons y ys ih =>
    have hlater := h y List.mem_cons_self
    rw [List.foldl_cons, if_neg (by omega)]
    exact ih fun z hz ↦ h z (List.mem_cons_of_mem y hz)

theorem scan_concat (xs : List Transition) (h : comp.key transition ≤ v) :
    scan comp v (xs ++ [transition]) = some transition := by
  unfold scan
  rw [List.foldl_append, List.foldl_cons, List.foldl_nil, if_pos h]

theorem Reached.scan_drop (h : Reached comp data v j) :
    scan comp v data.transitions = scan comp v (data.transitions.take j) := by
  have hlater : ∀ y ∈ data.transitions.drop j, v < comp.key y := by
    intro y hy
    obtain ⟨i, hget⟩ := List.mem_iff_getElem?.mp hy
    rw [List.getElem?_drop] at hget
    exact h.behind (j + i) y (Nat.le_add_right j i) hget
  have happend := scan_append (data.transitions.take j) _ hlater
  rw [List.take_append_drop] at happend
  exact happend

theorem Reached.scan (h : Reached comp data v (j + 1))
    (hlast : data.transitions[j]? = some transition) :
    scan comp v data.transitions = some transition := by
  rw [h.scan_drop, List.take_add_one, hlast]
  exact scan_concat _ (h.before j transition (Nat.lt_succ_self j) hlast)

theorem Reached.linearScan (h : Reached comp data (comp.key sentry) j) {found : Localtime}
    (hfound : period data j = .ok found) : linearScan data sentry comp = some found := by
  unfold TimeZone.linearScan
  cases j with
  | zero =>
    rw [h.scan_drop, List.take_zero]
    exact List.head?_eq_getElem? .. ▸ getElem?_of_elem hfound
  | succ j =>
    have hlast := List.getElem?_eq_getElem h.le_length
    rw [h.scan hlast]
    rw [period_succ hlast] at hfound
    exact getElem?_of_elem hfound

/-- The search is a linear scan: it gives the local time of the last transition that is over, or the
first one of all.  Its assertion holds and no index is out of range. -/
theorem findLocaltime_linearScan (h : Indexed data) (hasc : Ascending comp data)
    (sentry : Transition) :
    ∃ found, linearScan data sentry comp = some found ∧
      findLocaltime data sentry comp = .ok found := by
  obtain ⟨found, _, hfound⟩ := h.findLocaltime sentry comp
  obtain ⟨j, hreached⟩ := exists_reached hasc (comp.key sentry)
  have hperiod : period data j = .ok found := by
    rw [← findLocaltime_eq hasc hreached]
    exact hfound
  exact ⟨found, hreached.linearScan hperiod, hfound⟩

/-- An hour of summer time, asked for at the second at which it begins. -/
def oneSummer : Data where
  transitions := [⟨1000, 4600, 1⟩, ⟨4600, 4600, 0⟩]
  localtimes := [⟨0, false, 0⟩, ⟨3600, true, 0⟩]

theorem findLocaltime_oneSummer :
    ∃ found, linearScan oneSummer ⟨1000, 0, 0⟩ ⟨true⟩ = some found ∧
      findLocaltime oneSummer ⟨1000, 0, 0⟩ ⟨true⟩ = .ok found :=
  findLocaltime_linearScan ⟨by decide, by decide⟩ (by unfold Ascending; decide) ⟨1000, 0, 0⟩

/-! ## The calls -/

variable {gmtime_r : Int → Tm} {timegm : Tm → Int} {t : Int} {found : Localtime}

/-- The `struct tm` of an instant in a period that has `found`. -/
def localTm (gmtime_r : Int → Tm) (data : Data) (found : Localtime) (t : Int) : Tm :=
  { gmtime_r (t + found.gmtOffset) with
    tm_isdst := if found.isDst then 1 else 0
    tm_gmtoff := found.gmtOffset
    tm_zone := (data.abbreviation.drop found.arrbIdx).takeWhile (· ≠ 0) }

theorem toLocalTime_found (gmtime_r : Int → Tm)
    (hfound : findLocaltime data ⟨t, 0, 0⟩ ⟨true⟩ = .ok found)
    (htext : found.arrbIdx ≤ data.abbreviation.length) :
    toLocalTime gmtime_r ⟨some data⟩ t = .ok (localTm gmtime_r data found t) := by
  have htext' : cString data.abbreviation found.arrbIdx =
      .ok ((data.abbreviation.drop found.arrbIdx).takeWhile (· ≠ 0)) := if_pos htext
  unfold toLocalTime
  change (findLocaltime data ⟨t, 0, 0⟩ ⟨true⟩ >>= _) = _
  rw [hfound]
  change (cString data.abbreviation found.arrbIdx >>= _) = _
  rw [htext']
  rfl

/-- With the local time found, and the instant it first stands for if `tm_isdst` is on. -/
theorem fromLocalTime_found {seconds : Int} {tm tryTm : Tm} (hseconds : timegm tm = seconds)
    (hfound : findLocaltime data ⟨0, seconds, 0⟩ ⟨false⟩ = .ok found)
    (htry : toLocalTime gmtime_r ⟨some data⟩ (seconds - found.gmtOffset) = .ok tryTm) :
    fromLocalTime gmtime_r timegm ⟨some data⟩ tm = .ok
      (if tm.tm_isdst ≠ 0 ∧ tryTm.tm_isdst = 0 ∧ tryTm.tm_hour = tm.tm_hour ∧
      tryTm.tm_min = tm.tm_min then
        seconds - 3600 - found.gmtOffset
      else seconds - found.gmtOffset) := by
  unfold fromLocalTime
  change (findLocaltime data ⟨0, timegm tm, 0⟩ ⟨false⟩ >>= _) = _
  rw [hseconds, hfound]
  change (if tm.tm_isdst = 0 then _ else
    toLocalTime gmtime_r ⟨some data⟩ (seconds - found.gmtOffset) >>= _) = _
  by_cases hdst : tm.tm_isdst = 0
  · rw [if_pos hdst, if_neg (fun hall ↦ hall.1 hdst)]
  · rw [if_neg hdst, htry]
    change (if tryTm.tm_isdst = 0 ∧ _ then _ else _) = _
    by_cases hsame : tryTm.tm_isdst = 0 ∧ tryTm.tm_hour = tm.tm_hour ∧ tryTm.tm_min = tm.tm_min
    · rw [if_pos hsame, if_pos ⟨hdst, hsame⟩]
    · rw [if_neg hsame, if_neg (fun hall ↦ hsame hall.2)]

end Pallette.TimeZone
