import Pallette.Time.Periods

/-!
# LocalTime — to local time and back

A local time read forwards belongs to the period its instant is in, or, where the clocks go back
behind it, to the next one.  In that case `tm_isdst` says that it was the former, and
`fromLocalTime` goes back by 3600 seconds.
-/

open Reasoning

namespace Pallette.TimeZone

variable {data : Data} {gmtime_r : Int → Tm} {timegm : Tm → Int} {t : Int} {j k : Nat}
    {old new : Localtime} {next : Transition}

/-- `timegm` undoes `gmtime_r`, and looks at the date and the time of day only. -/
structure Inverse (gmtime_r : Int → Tm) (timegm : Tm → Int) : Prop where
  timegm_gmtime_r : ∀ s, timegm (gmtime_r s) = s
  timegm_fields : ∀ tm isdst gmtoff zone,
    timegm { tm with tm_isdst := isdst, tm_gmtoff := gmtoff, tm_zone := zone } = timegm tm

/-- A table as a zone file has it: the indices in range, the transitions ascending and at least two
days apart, the offsets at most a day, and the clocks going back only when summer time ends. -/
structure Regular (data : Data) : Prop extends Indexed data where
  abbreviations : ∀ found ∈ data.localtimes, found.arrbIdx ≤ data.abbreviation.length
  localtime : ∀ i transition found, data.transitions[i]? = some transition →
    period data (i + 1) = .ok found →
    transition.localtime = transition.gmttime + found.gmtOffset
  gmtAscending : Ascending ⟨true⟩ data
  localAscending : Ascending ⟨false⟩ data
  apart : ∀ i x y, data.transitions[i]? = some x → data.transitions[i + 1]? = some y →
    x.gmttime + 2 * 86400 ≤ y.gmttime
  offsets : ∀ found ∈ data.localtimes, -86400 ≤ found.gmtOffset ∧ found.gmtOffset ≤ 86400
  backward : ∀ i old new, period data i = .ok old → period data (i + 1) = .ok new →
    new.gmtOffset < old.gmtOffset → old.isDst = true ∧ new.isDst = false

/-- The local time at `t` comes again: `t` is in the last `shift` seconds before the clocks go back
by as much. -/
def Repeats (data : Data) (t shift : Int) : Prop :=
  ∃ j next old new, data.transitions[j]? = some next ∧ period data j = .ok old ∧
    period data (j + 1) = .ok new ∧ shift = old.gmtOffset - new.gmtOffset ∧
    next.gmttime - shift ≤ t ∧ t < next.gmttime

/-! ## The period of an instant and that of its local time -/

theorem elem_mem {α : Type} {xs : List α} {x : α} {i : Nat} (h : elem xs i = .ok x) : x ∈ xs :=
  List.mem_of_getElem? (getElem?_of_elem h)

theorem period_mem (h : period data j = .ok old) : old ∈ data.localtimes := by
  cases j with
  | zero => exact elem_mem h
  | succ j =>
    obtain ⟨transition, _, hfound⟩ := ok_of_bind h
    exact elem_mem hfound

theorem Indexed.period (h : Indexed data) (hj : j ≤ data.transitions.length) :
    ∃ found ∈ data.localtimes, period data j = .ok found := by
  cases j with
  | zero => exact elem_of_lt (List.length_pos_iff.mpr h.localtimes)
  | succ j =>
    have hget := List.getElem?_eq_getElem hj
    rw [period_succ hget]
    exact elem_of_lt (h.transitions _ (List.mem_of_getElem? hget))

theorem Reached.unique {comp : Comp} {v : Int} (hj : Reached comp data v j)
    (hk : Reached comp data v k) :
    j = k := by
  rcases Nat.lt_trichotomy j k with hlt | heq | hgt
  · have hget := List.getElem?_eq_getElem (Nat.lt_of_lt_of_le hlt hk.le_length)
    have hle := hk.before j _ hlt hget
    have hv := hj.behind j _ (Nat.le_refl j) hget
    omega
  · exact heq
  · have hget := List.getElem?_eq_getElem (Nat.lt_of_lt_of_le hgt hj.le_length)
    have hle := hj.before k _ hgt hget
    have hv := hk.behind k _ (Nat.le_refl k) hget
    omega

/-- In an ascending table only the transitions at the two ends of a period count. -/
theorem Ascending.reached {comp : Comp} {v : Int} (h : Ascending comp data)
    (hj : j ≤ data.transitions.length)
    (hlast : ∀ i last, j = i + 1 → data.transitions[i]? = some last → comp.key last ≤ v)
    (hnext : ∀ next, data.transitions[j]? = some next → v < comp.key next) :
    Reached comp data v j where
  le_length := hj
  before i transition hi hget := by
    obtain ⟨m, rfl⟩ := Nat.exists_eq_succ_of_ne_zero (Nat.ne_of_gt (Nat.zero_lt_of_lt hi))
    have hm := List.getElem?_eq_getElem hj
    have hle := hlast m _ rfl hm
    rcases Nat.lt_succ_iff_lt_or_eq.mp hi with hlt | rfl
    · have hkey := h.key_lt hlt hget hm
      omega
    · rw [hm] at hget
      cases hget
      exact hle
  behind i transition hi hget := by
    have hlt := (List.getElem?_eq_some_iff.mp hget).1
    have hj := List.getElem?_eq_getElem (Nat.lt_of_le_of_lt hi hlt)
    have hv := hnext _ hj
    rcases Nat.lt_or_eq_of_le hi with hlt | rfl
    · have hkey := h.key_lt hlt hj hget
      omega
    · rw [hj] at hget
      cases hget
      exact hv

/-- The local time at `t` is still that of the period of `t`. -/
theorem Regular.reached_same (h : Regular data) (hk : Reached ⟨true⟩ data t k)
    (hold : period data k = .ok old)
    (hearly : ∀ next new, data.transitions[k]? = some next → period data (k + 1) = .ok new →
      t + old.gmtOffset < next.gmttime + new.gmtOffset) : Reached ⟨false⟩ data
        (t + old.gmtOffset) k := by
  apply h.localAscending.reached hk.le_length
  · rintro i last rfl hlast
    change last.localtime ≤ _
    have hbegun : last.gmttime ≤ t := hk.before i last (Nat.lt_succ_self i) hlast
    rw [h.localtime i last old hlast hold]
    omega
  · intro next hnext
    change _ < next.localtime
    have hlt := (List.getElem?_eq_some_iff.mp hnext).1
    obtain ⟨new, _, hnew⟩ := h.toIndexed.period hlt
    rw [h.localtime k next new hnext hnew]
    exact hearly next new hnext hnew

/-- The local time at `t` is one that the next period has too. -/
theorem Regular.reached_next (h : Regular data) (hk : Reached ⟨true⟩ data t k)
    (hold : period data k = .ok old)
    (hnext : data.transitions[k]? = some next) (hnew : period data (k + 1) = .ok new)
    (hlate : next.gmttime + new.gmtOffset ≤ t + old.gmtOffset) :
    Reached ⟨false⟩ data (t + old.gmtOffset) (k + 1) := by
  have hnow : t < next.gmttime := hk.behind k next (Nat.le_refl k) hnext
  have hday := h.offsets old (period_mem hold)
  apply h.localAscending.reached (List.getElem?_eq_some_iff.mp hnext).1
  · intro i last hi hlast
    cases hi
    rw [hnext] at hlast
    cases hlast
    change next.localtime ≤ _
    rw [h.localtime k next new hnext hnew]
    exact hlate
  · intro second hsecond
    change _ < second.localtime
    obtain ⟨newer, hmem, hnewer⟩ := h.toIndexed.period (List.getElem?_eq_some_iff.mp hsecond).1
    have hapart := h.apart k next second hnext hsecond
    have hday' := h.offsets newer hmem
    rw [h.localtime (k + 1) second newer hsecond hnewer]
    omega

/-- The second time the local time at `t` comes it is in the next period. -/
theorem Regular.reached_again (h : Regular data) (hk : Reached ⟨true⟩ data t k)
    (hold : period data k = .ok old)
    (hnext : data.transitions[k]? = some next) (hnew : period data (k + 1) = .ok new)
    (hlate : next.gmttime + new.gmtOffset ≤ t + old.gmtOffset) :
    Reached ⟨true⟩ data (t + old.gmtOffset - new.gmtOffset) (k + 1) := by
  have hnow : t < next.gmttime := hk.behind k next (Nat.le_refl k) hnext
  have hday := h.offsets old (period_mem hold)
  have hday' := h.offsets new (period_mem hnew)
  apply h.gmtAscending.reached (List.getElem?_eq_some_iff.mp hnext).1
  · intro i last hi hlast
    cases hi
    rw [hnext] at hlast
    cases hlast
    change next.gmttime ≤ _
    omega
  · intro second hsecond
    have hapart := h.apart k next second hnext hsecond
    change _ < second.gmttime
    omega

/-- An instant whose local time comes again is in the period before. -/
theorem Regular.reached_of_repeats (h : Regular data) (hnext : data.transitions[j]? = some next)
    (hold : period data j = .ok old) (hnew : period data (j + 1) = .ok new)
    (hbegun : next.gmttime - (old.gmtOffset - new.gmtOffset) ≤ t) (hnow : t < next.gmttime) :
    Reached ⟨true⟩ data t j := by
  have hday := h.offsets old (period_mem hold)
  have hday' := h.offsets new (period_mem hnew)
  apply h.gmtAscending.reached (Nat.le_of_lt (List.getElem?_eq_some_iff.mp hnext).1)
  · rintro i last rfl hlast
    have hapart := h.apart i last next hlast hnext
    change last.gmttime ≤ _
    omega
  · intro next' hnext'
    rw [hnext] at hnext'
    cases hnext'
    exact hnow

/-! ## The calls -/

theorem localTm_isdst (found : Localtime) :
    (localTm gmtime_r data found t).tm_isdst = 0 ↔ found.isDst = false := by
  unfold localTm
  cases found.isDst <;> simp

theorem Inverse.localTm (h : Inverse gmtime_r timegm) (data : Data) (found : Localtime) :
    timegm (localTm gmtime_r data found t) = t + found.gmtOffset := by
  unfold TimeZone.localTm
  rw [h.timegm_fields, h.timegm_gmtime_r]

theorem findLocaltime_gmt (hasc : Ascending ⟨true⟩ data) (hk : Reached ⟨true⟩ data t k) :
    findLocaltime data ⟨t, 0, 0⟩ ⟨true⟩ = period data k :=
  findLocaltime_eq hasc hk

theorem findLocaltime_local {seconds : Int} (hasc : Ascending ⟨false⟩ data)
    (hk : Reached ⟨false⟩ data seconds k) :
    findLocaltime data ⟨0, seconds, 0⟩ ⟨false⟩ = period data k :=
  findLocaltime_eq hasc hk

theorem toLocalTime_eq (gmtime_r : Int → Tm) (h : Regular data) (hk : Reached ⟨true⟩ data t k)
    (hold : period data k = .ok old) :
    toLocalTime gmtime_r ⟨some data⟩ t = .ok (localTm gmtime_r data old t) :=
  toLocalTime_found gmtime_r ((findLocaltime_gmt h.gmtAscending hk).trans hold)
    (h.abbreviations old (period_mem hold))

theorem roundTrip_same (h : Regular data) (hinverse : Inverse gmtime_r timegm)
    (hk : Reached ⟨true⟩ data t k) (hold : period data k = .ok old)
    (hlocal : Reached ⟨false⟩ data (t + old.gmtOffset) k) :
    (toLocalTime gmtime_r ⟨some data⟩ t >>= fromLocalTime gmtime_r timegm ⟨some data⟩) = .ok t := by
  have hto := toLocalTime_eq gmtime_r h hk hold
  have hfound : findLocaltime data ⟨0, t + old.gmtOffset, 0⟩ ⟨false⟩ = .ok old :=
    (findLocaltime_local h.localAscending hlocal).trans hold
  have hback : t + old.gmtOffset - old.gmtOffset = t := by omega
  have hfrom := fromLocalTime_found (hinverse.localTm data old) hfound (by rw [hback]; exact hto)
  rw [hto]
  refine hfrom.trans ?_
  rw [if_neg (fun hall ↦ hall.1 hall.2.1), hback]

theorem roundTrip_next (h : Regular data) (hinverse : Inverse gmtime_r timegm)
    (hk : Reached ⟨true⟩ data t k) (hold : period data k = .ok old)
    (hnext : data.transitions[k]? = some next) (hnew : period data (k + 1) = .ok new)
    (hlate : next.gmttime + new.gmtOffset ≤ t + old.gmtOffset) :
    (toLocalTime gmtime_r ⟨some data⟩ t >>= fromLocalTime gmtime_r timegm ⟨some data⟩) =
      .ok (t + (old.gmtOffset - new.gmtOffset) - 3600) := by
  have hnow : t < next.gmttime := hk.behind k next (Nat.le_refl k) hnext
  have hdst := h.backward k old new hold hnew (by omega)
  have hto := toLocalTime_eq gmtime_r h hk hold
  have hfound : findLocaltime data ⟨0, t + old.gmtOffset, 0⟩ ⟨false⟩ = .ok new :=
    (findLocaltime_local h.localAscending (h.reached_next hk hold hnext hnew hlate)).trans hnew
  have hagain := toLocalTime_eq gmtime_r h (h.reached_again hk hold hnext hnew hlate) hnew
  have hfrom := fromLocalTime_found (hinverse.localTm data old) hfound hagain
  -- the two have the same date and time of day
  have hsame : t + old.gmtOffset - new.gmtOffset + new.gmtOffset = t + old.gmtOffset := by omega
  rw [hto]
  refine hfrom.trans ?_
  -- `fromLocalTime` takes an hour off when the clock shows the same time again
  rw [if_pos]
  · congr 1
    omega
  · refine ⟨?_, (localTm_isdst new).mpr hdst.2, ?_, ?_⟩
    · rw [ne_eq, localTm_isdst, hdst.1]
      nofun
    · change (gmtime_r _).tm_hour = (gmtime_r _).tm_hour
      rw [hsame]
    · change (gmtime_r _).tm_min = (gmtime_r _).tm_min
      rw [hsame]

/-- **Round trip.**  An instant survives the way to local time and back exactly if its local time
does not come again, or does so after 3600 seconds. -/
theorem roundTrip_iff (h : Regular data) (hinverse : Inverse gmtime_r timegm) (t : Int) :
    (toLocalTime gmtime_r ⟨some data⟩ t >>= fromLocalTime gmtime_r timegm ⟨some data⟩) = .ok t ↔
      ∀ shift, Repeats data t shift → shift = 3600 := by
  obtain ⟨k, hk⟩ := exists_reached h.gmtAscending t
  obtain ⟨old, _, hold⟩ := h.toIndexed.period hk.le_length
  by_cases hlate : ∃ next new, data.transitions[k]? = some next ∧ period data (k + 1) = .ok new ∧
      next.gmttime + new.gmtOffset ≤ t + old.gmtOffset
  · obtain ⟨next, new, hnext, hnew, hlate⟩ := hlate
    rw [roundTrip_next h hinverse hk hold hnext hnew hlate]
    have hnow : t < next.gmttime := hk.behind k next (Nat.le_refl k) hnext
    constructor
    · intro heq shift hrepeats
      have hback := Except.ok.inj heq
      obtain ⟨j, next', old', new', hnext', hold', hnew', rfl, hbegun, hnow'⟩ := hrepeats
      -- an instant lies in one period, so the shift is the one at its end
      have hj := hk.unique (h.reached_of_repeats hnext' hold' hnew' hbegun hnow')
      subst hj
      rw [hold] at hold'
      rw [hnew] at hnew'
      cases hold'
      cases hnew'
      omega
    · intro hall
      have hshift := hall (old.gmtOffset - new.gmtOffset)
        ⟨k, next, old, new, hnext, hold, hnew, rfl, by omega, hnow⟩
      congr 1
      omega
  · push Not at hlate
    refine iff_of_true (roundTrip_same h hinverse hk hold (h.reached_same hk hold hlate)) ?_
    intro shift hrepeats
    obtain ⟨j, next, old', new, hnext, hold', hnew, rfl, hbegun, hnow⟩ := hrepeats
    have hj := hk.unique (h.reached_of_repeats hnext hold' hnew hbegun hnow)
    subst hj
    rw [hold] at hold'
    cases hold'
    -- its local time would come again, and it does not
    have hearly := hlate next new hnext hnew
    omega

/-- `gmtime_r` as it is for January 1970. -/
def januaryTm (s : Int) : Tm where
  tm_sec := s % 60
  tm_min := s / 60 % 60
  tm_hour := s / 3600 % 24
  tm_mday := s / 86400 + 1
  tm_year := 70
  tm_wday := (s / 86400 + 4) % 7
  tm_yday := s / 86400
  tm_zone := ascii "GMT"

/-- `timegm` as it is for January 1970. -/
def ofJanuaryTm (tm : Tm) : Int :=
  (tm.tm_mday - 1) * 86400 + tm.tm_hour * 3600 + tm.tm_min * 60 + tm.tm_sec

theorem inverse_january : Inverse januaryTm ofJanuaryTm where
  timegm_gmtime_r s := by
    change (s / 86400 + 1 - 1) * 86400 + s / 3600 % 24 * 3600 + s / 60 % 60 * 60 + s % 60 = s
    omega
  timegm_fields _ _ _ _ := rfl

/-- Summer time, ten hours and `shift` seconds ahead, until 8 January 1970. -/
def summerEnds (shift : Int) : Data where
  transitions := [⟨604800, 640800, 1⟩]
  localtimes := [⟨36000 + shift, true, 0⟩, ⟨36000, false, 5⟩]
  abbreviation := ascii "AEDT" ++ 0 :: ascii "AEST" ++ [0]

theorem regular_summerEnds {shift : Int} (hpos : 0 < shift) (hday : shift ≤ 50400) :
    Regular (summerEnds shift) where
  localtimes := nofun
  transitions transition htransition := by
    rw [List.mem_singleton.mp htransition]
    exact Nat.one_lt_two
  abbreviations found hfound := by
    rcases List.mem_cons.mp hfound with rfl | hfound
    · exact Nat.zero_le _
    · rw [List.mem_singleton.mp hfound]
      change 5 ≤ (ascii "AEDT" ++ 0 :: ascii "AEST" ++ [0]).length
      decide
  localtime i transition found htransition hfound := by
    cases i with
    | zero =>
      cases htransition
      cases hfound
      rfl
    | succ i => cases htransition
  gmtAscending := List.pairwise_singleton _ _
  localAscending := List.pairwise_singleton _ _
  apart i _ _ _ hy := by cases hy
  offsets found hfound := by
    rcases List.mem_cons.mp hfound with rfl | hfound
    · change -86400 ≤ 36000 + shift ∧ 36000 + shift ≤ 86400
      omega
    · rw [List.mem_singleton.mp hfound]
      decide
  backward i old new hold hnew _ := by
    cases i with
    | zero =>
      cases hold
      cases hnew
      exact ⟨rfl, rfl⟩
    | succ i => cases hnew

/-- In the repeated hour. -/
theorem roundTrip_iff_hour :
    (toLocalTime januaryTm ⟨some (summerEnds 3600)⟩ 603000 >>=
        fromLocalTime januaryTm ofJanuaryTm ⟨some (summerEnds 3600)⟩) = .ok 603000 ↔
      ∀ shift, Repeats (summerEnds 3600) 603000 shift → shift = 3600 :=
  roundTrip_iff (regular_summerEnds (by decide) (by decide)) inverse_january 603000

/-- Where summer time is half an hour, the way back ends half an hour early. -/
theorem half_hour_lost :
    ¬ ∀ (gmtime_r : Int → Tm) (timegm : Tm → Int) (data : Data), Inverse gmtime_r timegm →
    Regular data →
        ∀ t, (toLocalTime gmtime_r ⟨some data⟩ t >>= fromLocalTime gmtime_r timegm ⟨some data⟩) =
          .ok t := by
  intro h
  have hback := h januaryTm ofJanuaryTm (summerEnds 1800) inverse_january
    (regular_summerEnds (by decide) (by decide)) 603900
  exact absurd hback (by decide)

end Pallette.TimeZone
