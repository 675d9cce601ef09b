import Pallette.Basic
import Pallette.Reasoning.Calendar

/-!
# Date — the Julian day number of a date, and back

Every operation on `int` is checked for overflow.
-/

open Reasoning

namespace Pallette

structure Date where
  julianDayNumber_ : Int
deriving DecidableEq, Repr

namespace Date

structure YearMonthDay where
  year : Int
  month : Int
  day : Int
deriving DecidableEq, Repr

def getJulianDayNumber (year month day : Int) : Option Int := do
  let a ← divInt (← asInt (14 - month)) 12
  let y ← asInt ((← asInt (year + 4800)) - a)
  let m ← asInt ((← asInt (month + (← asInt (12 * a)))) - 3)
  let months ← divInt (← asInt ((← asInt (153 * m)) + 2)) 5
  let days ← asInt ((← asInt (day + months)) + (← asInt (y * 365)))
  let days ← asInt (days + (← divInt y 4))
  let days ← asInt (days - (← divInt y 100))
  let days ← asInt (days + (← divInt y 400))
  asInt (days - 32045)

def getYearMonthDay (julianDayNumber : Int) : Option YearMonthDay := do
  let a ← asInt (julianDayNumber + 32044)
  let b ← divInt (← asInt ((← asInt (4 * a)) + 3)) 146097
  let c ← asInt (a - (← divInt (← asInt (b * 146097)) 4))
  let d ← divInt (← asInt ((← asInt (4 * c)) + 3)) 1461
  let e ← asInt (c - (← divInt (← asInt (1461 * d)) 4))
  let m ← divInt (← asInt ((← asInt (5 * e)) + 2)) 153
  let months ← divInt (← asInt ((← asInt (153 * m)) + 2)) 5
  let day ← asInt ((← asInt (e - months)) + 1)
  let month ← asInt ((← asInt (m + 3)) - (← asInt (12 * (← divInt m 10))))
  let year ← asInt ((← asInt (b * 100)) + d)
  let year ← asInt ((← asInt (year - 4800)) + (← divInt m 10))
  some ⟨year, month, day⟩

def kDaysPerWeek : Int := 7

def kJulianDayOf1970_01_01 : Option Int :=
  getJulianDayNumber 1970 1 1

/-- The constructor from a year, a month and a day. -/
def ofYearMonthDay (year month day : Int) : Option Date :=
  (getJulianDayNumber year month day).map Date.mk

def julianDayNumber (date : Date) : Int :=
  date.julianDayNumber_

def yearMonthDay (date : Date) : Option YearMonthDay :=
  getYearMonthDay date.julianDayNumber_

def weekDay (date : Date) : Option Int :=
  (asInt (date.julianDayNumber_ + 1)).map fun days ↦ days.tmod kDaysPerWeek

theorem julianDayOf1970_01_01_eq : kJulianDayOf1970_01_01 = some 2440588 := by
  decide

/-- The year, the month and the day of a date of the calendar. -/
def YearMonthDay.ofCivil (date : CivilDate) : YearMonthDay :=
  ⟨date.year, date.month, date.day⟩

theorem getJulianDayNumber_run {year month day a y m : Int} (ha : (14 - month) / 12 = a)
    (hy : year + 4800 - a = y)
    (hm : month + 12 * a - 3 = m) (hmonth : 1 ≤ month ∧ month ≤ 12) (hday : 1 ≤ day ∧ day ≤ 31)
    (hyMem : 0 ≤ y ∧ y ≤ 1504800) (hmMem : 0 ≤ m ∧ m ≤ 11) :
    getJulianDayNumber year month day =
      some (day + (153 * m + 2) / 5 + y * 365 + y / 4 - y / 100 + y / 400 - 32045) := by
  have haMem : 0 ≤ a ∧ a ≤ 1 := by omega
  rw [getJulianDayNumber, asInt_bind (by omega) (by omega),
    divInt_bind (by omega) (by omega) (by decide), ha]
  clear ha
  rw [asInt_bind (by omega) (by omega), asInt_bind (by omega) (by omega), hy]
  clear hy
  rw [asInt_bind (by omega) (by omega), asInt_bind (by omega) (by omega),
    asInt_bind (by omega) (by omega), hm]
  clear hm
  simp (disch := omega) only [↓asInt_bind, ↓divInt_bind, asInt_eq]

/-- In front of the year -4799 the years divide the wrong way; past the other bound is no day number
that `getYearMonthDay` can take apart. -/
theorem getJulianDayNumber_eq {date : CivilDate} (hlow : -4799 ≤ date.year)
    (hhigh : date.year ≤ 1500000) :
    getJulianDayNumber date.year date.month date.day = some date.julianDayNumber := by
  obtain ⟨hpos, hle⟩ := And.intro date.month_pos date.month_le
  have hlast := date.day_le_max
  have hnumber := date.daysSinceEpoch_march
  have hyear := date.year_eq
  have hmonth := date.month_eq
  have hmarch := date.marchMonth_mem
  have hrun := @getJulianDayNumber_run date.year date.month date.day (date.year - date.marchYear)
    (date.marchYear + 4800) date.marchMonth (by omega) (by omega) (by omega) ⟨hpos, hle⟩
    ⟨date.day_pos, hlast⟩ (by omega) hmarch
  rw [hrun, CivilDate.julianDayNumber, hnumber]
  congr 1
  omega

theorem ofYearMonthDay_eq {date : CivilDate} (hlow : -4799 ≤ date.year)
    (hhigh : date.year ≤ 1500000) :
    ofYearMonthDay date.year date.month date.day = some ⟨date.julianDayNumber⟩ := by
  rw [ofYearMonthDay, getJulianDayNumber_eq hlow hhigh]
  rfl

theorem ofYearMonthDay_newYear {year : Int} (hlow : -4799 ≤ year) (hhigh : year ≤ 1500000) :
    ofYearMonthDay year 1 1 = some ⟨(CivilDate.newYear year).julianDayNumber⟩ :=
  @ofYearMonthDay_eq (CivilDate.newYear year) hlow hhigh

/-- The day numbers that `getYearMonthDay` can take apart. -/
def Supported (julianDayNumber : Int) : Prop :=
  0 ≤ julianDayNumber ∧ julianDayNumber ≤ 536838867

instance (julianDayNumber : Int) : Decidable (Supported julianDayNumber) :=
  inferInstanceAs (Decidable (_ ∧ _))

theorem isLeap_of_cycle {century year : Int} (hnonneg : 0 ≤ year) (hlt : year < 100)
    (hfour : year % 4 = 3)
    (hcentury : year = 99 → century % 4 = 3) : IsLeap (century * 100 + year - 4800 + 1) := by
  unfold IsLeap
  omega

theorem getYearMonthDay_run {j a b c d e m : Int} (ha : j + 32044 = a)
    (hb : (4 * a + 3) / 146097 = b)
    (hc : a - b * 146097 / 4 = c) (hd : (4 * c + 3) / 1461 = d) (he : c - 1461 * d / 4 = e)
    (hm : (5 * e + 2) / 153 = m) (haMem : 0 ≤ a ∧ a ≤ 536870911) (hbMem : 0 ≤ b ∧ b ≤ 14699)
    (hcMem : 0 ≤ c ∧ c ≤ 36524) (hdMem : 0 ≤ d ∧ d ≤ 99) (heMem : 0 ≤ e ∧ e ≤ 365)
    (hmMem : 0 ≤ m ∧ m ≤ 11) :
    getYearMonthDay j =
      some ⟨b * 100 + d - 4800 + m / 10, m + 3 - 12 * (m / 10), e - (153 * m + 2) / 5 + 1⟩ := by
  rw [getYearMonthDay, ha, asInt_bind (by omega) (by omega)]
  rw [asInt_bind (by omega) (by omega), asInt_bind (by omega) (by omega),
    divInt_bind (by omega) (by omega) (by decide), hb]
  clear hb ha
  rw [asInt_bind (by omega) (by omega), divInt_bind (by omega) (by omega) (by decide),
    asInt_bind (by omega) (by omega), hc]
  clear hc
  rw [asInt_bind (by omega) (by omega), asInt_bind (by omega) (by omega),
    divInt_bind (by omega) (by omega) (by decide), hd]
  clear hd
  rw [asInt_bind (by omega) (by omega), divInt_bind (by omega) (by omega) (by decide),
    asInt_bind (by omega) (by omega), he]
  clear he
  rw [asInt_bind (by omega) (by omega), asInt_bind (by omega) (by omega),
    divInt_bind (by omega) (by omega) (by decide), hm]
  clear hm
  simp (disch := omega) only [↓asInt_bind, ↓divInt_bind]

/-- The closed form takes every number apart whose fourfold fits an `int`. -/
theorem getYearMonthDay_eq {julianDayNumber : Int} (h : Supported julianDayNumber) :
    ∃ date : CivilDate, date.julianDayNumber = julianDayNumber ∧
      getYearMonthDay julianDayNumber = some (.ofCivil date) := by
  obtain ⟨hlow, hhigh⟩ := h
  -- the numbers of the closed form, under its own names
  obtain ⟨a, ha⟩ : ∃ a, julianDayNumber + 32044 = a := ⟨_, rfl⟩
  obtain ⟨b, hb⟩ : ∃ b, (4 * a + 3) / 146097 = b := ⟨_, rfl⟩
  obtain ⟨c, hc⟩ : ∃ c, a - b * 146097 / 4 = c := ⟨_, rfl⟩
  obtain ⟨d, hd⟩ : ∃ d, (4 * c + 3) / 1461 = d := ⟨_, rfl⟩
  obtain ⟨e, he⟩ : ∃ e, c - 1461 * d / 4 = e := ⟨_, rfl⟩
  obtain ⟨m, hm⟩ : ∃ m, (5 * e + 2) / 153 = m := ⟨_, rfl⟩
  obtain ⟨hcMem, hdMem, heMem, hleap, hday⟩ := CivilDate.march_parts hb hc hd he
  have hrun := getYearMonthDay_run ha hb hc hd he hm ⟨by omega, by omega⟩ ⟨by omega, by omega⟩
    hcMem hdMem
    heMem ⟨by omega, by omega⟩
  obtain ⟨date, hdateYear, hdateMonth, hdateDay⟩ :=
    @CivilDate.exists_of_march (b * 100 + d - 4800) e heMem.1 heMem.2 (fun hlast ↦
      isLeap_of_cycle hdMem.1 (by omega) (hleap hlast).1 (hleap hlast).2)
  rw [hm] at hdateMonth hdateDay
  refine ⟨date, ?_, ?_⟩
  · have hnumber := date.daysSinceEpoch_march
    -- the leap days in front of the year, cycle by cycle
    have hfour : (b * 100 + d - 4800) / 4 = 25 * b + d / 4 - 1200 := by omega
    have hhundred : (b * 100 + d - 4800) / 100 = b - 48 := by omega
    have hfourHundred : (b * 100 + d - 4800) / 400 = b / 4 - 12 := by omega
    rw [hdateYear, hdateMonth, hdateDay, hfour, hhundred, hfourHundred] at hnumber
    unfold CivilDate.julianDayNumber
    omega
  · rw [hrun, YearMonthDay.ofCivil, date.year_eq, date.month_eq, hdateYear, hdateMonth, hdateDay]

theorem year_mem_of_number {date : CivilDate} (hlow : 0 ≤ date.julianDayNumber)
    (hhigh : date.julianDayNumber ≤ 536838868) : -4713 ≤ date.year ∧ date.year ≤ 1500000 := by
  have hday := date.day_pos
  have hlast := date.day_le_max
  have hmonth := date.marchMonth_mem
  have hyear := date.year_eq
  have hnumber := date.daysSinceEpoch_march
  unfold CivilDate.julianDayNumber at hlow hhigh
  constructor <;> omega

theorem year_mem {date : CivilDate} (h : Supported date.julianDayNumber) :
    -4713 ≤ date.year ∧ date.year ≤ 1500000 := by
  apply year_mem_of_number h.1
  have hhigh := h.2
  omega

theorem getYearMonthDay_civil {date : CivilDate} (h : Supported date.julianDayNumber) :
    getYearMonthDay date.julianDayNumber = some (.ofCivil date) := by
  obtain ⟨other, hother, htaken⟩ := getYearMonthDay_eq h
  have heq : other = date := CivilDate.eq_of_daysSinceEpoch (by
    unfold CivilDate.julianDayNumber at hother
    omega)
  rw [htaken, heq]

theorem weekDay_civil {date : CivilDate} (h : Supported date.julianDayNumber) :
    weekDay ⟨date.julianDayNumber⟩ = some date.weekDay := by
  obtain ⟨hlow, hhigh⟩ := h
  rw [weekDay, asInt_eq (by dsimp only; omega) (by dsimp only; omega), Option.map_some,
    Int.tmod_eq_emod_of_nonneg (by dsimp only; omega)]
  unfold CivilDate.weekDay CivilDate.julianDayNumber kDaysPerWeek
  congr 1
  dsimp only
  omega

theorem getJulianDayNumber_tomorrow {date : CivilDate} (h : Supported date.julianDayNumber) :
    getJulianDayNumber date.tomorrow.year date.tomorrow.month date.tomorrow.day =
      some (date.julianDayNumber + 1) := by
  obtain ⟨hlow, hhigh⟩ := h
  have hnext : date.tomorrow.julianDayNumber = date.julianDayNumber + 1 := by
    have hdays := date.daysSinceEpoch_tomorrow
    unfold CivilDate.julianDayNumber
    omega
  have hyear := @year_mem_of_number date.tomorrow (by omega) (by omega)
  have hnumber := @getJulianDayNumber_eq date.tomorrow (by omega) hyear.2
  rw [hnumber, hnext]

/-- **Day numbers.**  Over the whole range the two closed forms are inverse to each other, the next
day has the next number, and no `int` overflows on the way. -/
theorem dayNumber_round_trip :
    (∀ j, Supported j → ∃ date : CivilDate, getYearMonthDay j = some (.ofCivil date) ∧
      getJulianDayNumber date.year date.month date.day = some j) ∧
    ∀ date : CivilDate, Supported date.julianDayNumber →
      (getJulianDayNumber date.year date.month date.day >>= getYearMonthDay) =
        some (.ofCivil date) ∧
      ∃ j, getJulianDayNumber date.year date.month date.day = some j ∧
        getJulianDayNumber date.tomorrow.year date.tomorrow.month date.tomorrow.day =
          some (j + 1) := by
  constructor
  · intro j h
    obtain ⟨date, rfl, htaken⟩ := getYearMonthDay_eq h
    have hyear := year_mem h
    exact ⟨date, htaken, getJulianDayNumber_eq (by omega) hyear.2⟩
  · intro date h
    have hyear := year_mem h
    have hnumber := @getJulianDayNumber_eq date (by omega) hyear.2
    refine ⟨?_, date.julianDayNumber, hnumber, getJulianDayNumber_tomorrow h⟩
    rw [hnumber, some_bind]
    exact getYearMonthDay_civil h

/-- The last number of the range, and the last day of a century. -/
theorem dayNumber_round_trip_last :
    (∃ date : CivilDate, getYearMonthDay 536838867 = some (.ofCivil date) ∧
      getJulianDayNumber date.year date.month date.day = some 536838867) ∧
    (getJulianDayNumber 1900 2 28 >>= getYearMonthDay) = some ⟨1900, 2, 28⟩ ∧
      ∃ j, getJulianDayNumber 1900 2 28 = some j ∧ getJulianDayNumber 1900 3 1 = some (j + 1) := by
  have hlast := dayNumber_round_trip.1 536838867 (by decide)
  have hcentury := dayNumber_round_trip.2 ⟨1900, 2, 28, by decide, by decide, by decide, by decide⟩
    (by decide)
  exact ⟨hlast, hcentury⟩

end Date

end Pallette
