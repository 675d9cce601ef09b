import Pallette.Time.Date
import Pallette.Time.TimeZone

/-!
# UtcTime — a `time_t` as a date and a time of day in UTC, and back

The `time_t` is 64 bits wide, and no result here leaves it: what is an `int` in the source is
checked for overflow or, where a `time_t` is cast to it, keeps its low 32 bits.
-/

open Reasoning

namespace Pallette

namespace TimeZone

def kSecondsPerDay : Int := 24 * 60 * 60

def fillHMS (seconds : Nat) (utc : Tm) : Tm :=
  let utc := { utc with tm_sec := (seconds % 60 : Nat) }
  let minutes := seconds / 60
  let utc := { utc with tm_min := (minutes % 60 : Nat) }
  { utc with tm_hour := (minutes / 60 : Nat) }

/-- The seconds of a day and the days, when dividing has rounded to zero: a day is borrowed for a
negative time. -/
def borrowDay (seconds days : Int) : Option (Int × Int) :=
  if seconds < 0 then do some (← asInt (seconds + kSecondsPerDay), ← asInt (days - 1))
  else some (seconds, days)

def toUtcTime (secondsSinceEpoch : Int) (yday : Bool) : Option Tm := do
  let utc : Tm := { tm_zone := ascii "GMT" }
  let seconds := (secondsSinceEpoch.tmod kSecondsPerDay).bmod (2 ^ 32)
  let days := (secondsSinceEpoch.tdiv kSecondsPerDay).bmod (2 ^ 32)
  let (seconds, days) ← borrowDay seconds days
  let utc := fillHMS (seconds % 2 ^ 32).toNat utc
  let date : Date := ⟨← asInt (days + (← Date.kJulianDayOf1970_01_01))⟩
  let ymd ← date.yearMonthDay
  let tm_year ← asInt (ymd.year - 1900)
  let tm_mon ← asInt (ymd.month - 1)
  let tm_wday ← date.weekDay
  let utc := { utc with tm_year := tm_year, tm_mon := tm_mon, tm_mday := ymd.day, tm_wday :=
    tm_wday }
  if yday then
    let startOfYear ← Date.ofYearMonthDay ymd.year 1 1
    let tm_yday ← asInt (date.julianDayNumber - startOfYear.julianDayNumber)
    some { utc with tm_yday := tm_yday }
  else some utc

def fromUtcTime (year month day hour minute seconds : Int) : Option Int := do
  let date ← Date.ofYearMonthDay year month day
  let secondsInDay ← asInt ((← asInt ((← asInt (hour * 3600)) + (← asInt (minute * 60)))) + seconds)
  let days ← asInt (date.julianDayNumber - (← Date.kJulianDayOf1970_01_01))
  some (days * kSecondsPerDay + secondsInDay)

/-- The overload for a `struct tm`. -/
def fromUtcTimeOfTm (utc : Tm) : Option Int := do
  fromUtcTime (← asInt (utc.tm_year + 1900)) (← asInt (utc.tm_mon + 1)) utc.tm_mday utc.tm_hour
    utc.tm_min utc.tm_sec

theorem fillHMS_eq (seconds : Nat) (utc : Tm) :
    fillHMS seconds utc =
      { utc with
        tm_sec := seconds % 60, tm_min := seconds / 60 % 60, tm_hour := seconds / 60 / 60 } := by
  unfold fillHMS
  dsimp only
  rw [Int.natCast_emod, Int.natCast_ediv, Int.natCast_emod, Int.natCast_ediv]
  rfl

theorem borrowDay_eq {t : Int} (hlow : -2440588 ≤ t / 86400) (hhigh : t / 86400 ≤ 534398279) :
    borrowDay ((t.tmod kSecondsPerDay).bmod (2 ^ 32)) ((t.tdiv kSecondsPerDay).bmod (2 ^ 32)) =
      some (t % 86400, t / 86400) := by
  change borrowDay ((t.tmod 86400).bmod (2 ^ 32)) ((t.tdiv 86400).bmod (2 ^ 32)) = _
  rw [Int.tmod_eq_emod, Int.tdiv_eq_ediv]
  by_cases hwhole : 0 ≤ t ∨ (86400 : Int) ∣ t
  · -- nothing is rounded up: no day to borrow
    rw [if_pos hwhole, if_pos hwhole, Int.bmod_eq_of_le (by omega) (by omega),
      Int.bmod_eq_of_le (by omega) (by omega), borrowDay, if_neg (by omega)]
    congr 2 <;> omega
  · -- a negative time within a day: the quotient is one too large, the remainder a day too small
    have hsign : (86400 : Int).sign = 1 := rfl
    rw [if_neg hwhole, if_neg hwhole, hsign, Int.bmod_eq_of_le (by omega) (by omega),
      Int.bmod_eq_of_le (by omega) (by omega), borrowDay, if_pos (by omega)]
    simp (disch := omega) only [kSecondsPerDay, ↓asInt_bind]
    congr 2 <;> omega

/-- A time of the calendar as a broken-down time, without the day of the year unless it is asked
for. -/
def tmOf (time : CivilTime) (yday : Bool) : Tm where
  tm_sec := time.second
  tm_min := time.minute
  tm_hour := time.hour
  tm_mday := time.date.day
  tm_mon := time.date.month - 1
  tm_year := time.date.year - 1900
  tm_wday := time.date.weekDay
  tm_yday := if yday then time.date.dayOfYear else 0
  tm_zone := ascii "GMT"

theorem toUtcTime_eq {time : CivilTime} (h : Date.Supported time.date.julianDayNumber)
    (yday : Bool) :
    toUtcTime time.secondsSinceEpoch yday = some (tmOf time yday) := by
  have hyear := Date.year_mem h
  have htaken := Date.getYearMonthDay_civil h
  have hfirst := Date.ofYearMonthDay_newYear (show -4799 ≤ time.date.year by omega) hyear.2
  have hweek := Date.weekDay_civil h
  have hday := time.secondsSinceEpoch_ediv
  have hmem := time.secondOfDay_mem
  have hsecond : ((time.secondOfDay % 2 ^ 32).toNat : Int) = time.secondOfDay := by omega
  obtain ⟨hmonth, hmonthLe⟩ := And.intro time.date.month_pos time.date.month_le
  obtain ⟨hlow, hhigh⟩ := h
  unfold CivilDate.julianDayNumber at hlow hhigh
  -- from here on the seconds of the day and the day number are those of the calendar
  rw [toUtcTime, borrowDay_eq (by omega) (by omega), hday, time.secondsSinceEpoch_emod,
    Date.julianDayOf1970_01_01_eq]
  simp (disch := omega) only [↓some_bind, ↓asInt_bind, Date.yearMonthDay, fillHMS_eq, hsecond]
  change (Date.getYearMonthDay time.date.julianDayNumber >>= _) = _
  rw [htaken, some_bind, Date.YearMonthDay.ofCivil]
  dsimp only
  rw [asInt_bind (by omega) (by omega), asInt_bind (by omega) (by omega)]
  change (Date.weekDay ⟨time.date.julianDayNumber⟩ >>= _) = _
  rw [hweek, some_bind, time.second_eq, time.minute_eq, time.hour_eq]
  cases yday with
  | false => rfl
  | true =>
    -- the day of the year counts from the number of the first of January
    have hyday : time.date.daysSinceEpoch + 2440588 -
      (CivilDate.newYear time.date.year).julianDayNumber =
        time.date.dayOfYear := by
      have hdays := time.date.daysSinceEpoch_newYear
      unfold CivilDate.julianDayNumber
      omega
    have hnonneg := time.date.dayOfYear_nonneg
    have hlt := time.date.dayOfYear_lt_year
    rw [if_pos rfl, hfirst, some_bind]
    unfold Date.julianDayNumber
    dsimp only
    rw [hyday, asInt_bind (by omega) (by split at hlt <;> omega)]
    rfl

theorem fromUtcTime_eq {time : CivilTime} (h : Date.Supported time.date.julianDayNumber) :
    fromUtcTime time.date.year time.date.month time.date.day time.hour time.minute time.second =
      some time.secondsSinceEpoch := by
  have hyear := Date.year_mem h
  have hnumber := @Date.ofYearMonthDay_eq time.date (by omega) hyear.2
  obtain ⟨hlow, hhigh⟩ := h
  obtain ⟨-, -, ⟨hhour, hhourLt⟩, ⟨hminute, hminuteLt⟩, hsecond, hsecondLt⟩ := time.fields_mem
  unfold CivilDate.julianDayNumber at hlow hhigh hnumber
  rw [fromUtcTime, hnumber, Date.julianDayOf1970_01_01_eq]
  simp (disch := omega) only [↓some_bind, ↓asInt_bind, Date.julianDayNumber]
  rw [Int.add_sub_cancel]
  rfl

theorem fromUtcTimeOfTm_eq {time : CivilTime} (h : Date.Supported time.date.julianDayNumber)
    (yday : Bool) :
    fromUtcTimeOfTm (tmOf time yday) = some time.secondsSinceEpoch := by
  have hback := fromUtcTime_eq h
  have hyear := Date.year_mem h
  obtain ⟨hmonth, hmonthLe⟩ := And.intro time.date.month_pos time.date.month_le
  unfold fromUtcTimeOfTm tmOf
  dsimp only
  rw [asInt_bind (by omega) (by omega), asInt_bind (by omega) (by omega), Int.sub_add_cancel,
    Int.sub_add_cancel]
  exact hback

theorem exists_civilTime {t : Int} (h : Date.Supported (t / 86400 + 2440588)) :
    ∃ time : CivilTime, time.secondsSinceEpoch = t ∧ time.date.julianDayNumber =
      t / 86400 + 2440588 := by
  obtain ⟨date, hdate, -⟩ := Date.getYearMonthDay_eq h
  have hnonneg : 0 ≤ t % 86400 := Int.emod_nonneg t (by decide)
  have hlt : t % 86400 < 86400 := Int.emod_lt_of_pos t (by decide)
  have hsecond := @CivilTime.secondOfDay_ofSecond date (t % 86400) hnonneg hlt
  have hdays : date.daysSinceEpoch = t / 86400 := by
    unfold CivilDate.julianDayNumber at hdate
    omega
  refine ⟨.ofSecond date (t % 86400) hnonneg hlt, ?_, hdate⟩
  rw [CivilTime.secondsSinceEpoch, hsecond]
  change date.daysSinceEpoch * 86400 + t % 86400 = t
  rw [hdays]
  omega

/-- `gmtime_r` as the C library documents it, for the day numbers a `Date` can have. -/
def IsGmtime (gmtime_r : Int → Tm) : Prop :=
  ∀ time : CivilTime, Date.Supported time.date.julianDayNumber →
    gmtime_r time.secondsSinceEpoch = tmOf time true

theorem isGmtime_toUtcTime : IsGmtime fun t ↦ (toUtcTime t true).getD {} := by
  intro time h
  dsimp only
  rw [toUtcTime_eq h]
  rfl

/-- Over the whole range of day numbers the broken-down time is the one of the calendar, with its
weekday and its day of the year, and the two directions are inverse to each other. -/
theorem utcTime_round_trip :
    (∀ t, Date.Supported (t / 86400 + 2440588) →
      (∃ time : CivilTime, time.secondsSinceEpoch = t ∧ toUtcTime t true = some (tmOf time true)) ∧
      ∀ yday, toUtcTime t yday >>= fromUtcTimeOfTm = some t) ∧
    ∀ time : CivilTime, Date.Supported time.date.julianDayNumber →
      ∃ t, fromUtcTime time.date.year time.date.month time.date.day
          time.hour time.minute time.second = some t ∧
        ∀ yday, toUtcTime t yday = some (tmOf time yday) := by
  constructor
  · intro t h
    obtain ⟨time, rfl, hdate⟩ := exists_civilTime h
    rw [← hdate] at h
    refine ⟨⟨time, rfl, toUtcTime_eq h true⟩, ?_⟩
    intro yday
    rw [toUtcTime_eq h, some_bind]
    exact fromUtcTimeOfTm_eq h yday
  · intro time h
    exact ⟨time.secondsSinceEpoch, fromUtcTime_eq h, toUtcTime_eq h⟩

/-- The last second of 1969, and the leap day of a century. -/
theorem utcTime_round_trip_borrowed :
    toUtcTime (-1) false >>= fromUtcTimeOfTm = some (-1) ∧
      ∃ t, fromUtcTime 2000 2 29 23 59 59 = some t ∧
        (toUtcTime t true).map (fun utc ↦ (utc.tm_mon, utc.tm_mday, utc.tm_wday, utc.tm_yday)) =
          some (1, 29, 2, 59) := by
  have hborrowed := (utcTime_round_trip.1 (-1) (by decide)).2 false
  obtain ⟨t, hback, hforth⟩ := utcTime_round_trip.2
    ⟨⟨2000, 2, 29, by decide, by decide, by decide, by decide⟩, 23, 59, 59,
      by decide, by decide, by decide, by decide, by decide, by decide⟩ (by decide)
  refine ⟨hborrowed, t, hback, ?_⟩
  rw [hforth true]
  decide

end TimeZone

end Pallette
