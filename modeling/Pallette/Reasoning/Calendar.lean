import Mathlib.Tactic.IntervalCases

/-!
# Calendar — the proleptic Gregorian calendar

Dates of any year, the year 0 and those in front of it included, and their number in days since 1
January 1970.  What makes this the right number is that the date of the next day has the next one.
-/

namespace Reasoning

def IsLeap (year : Int) : Prop :=
  year % 4 = 0 ∧ (year % 100 = 0 → year % 400 = 0)

instance (year : Int) : Decidable (IsLeap year) :=
  inferInstanceAs (Decidable (_ ∧ _))

def daysInMonth (year month : Int) : Int :=
  if month = 2 then if IsLeap year then 29 else 28
  else if month = 4 ∨ month = 6 ∨ month = 9 ∨ month = 11 then 30
  else 31

theorem daysInMonth_pos (year month : Int) : 28 ≤ daysInMonth year month := by
  unfold daysInMonth
  split
  · split <;> decide
  · split <;> decide

theorem daysInMonth_le (year month : Int) : daysInMonth year month ≤ 31 := by
  unfold daysInMonth
  split
  · split <;> decide
  · split <;> decide

structure CivilDate where
  year : Int
  month : Int
  day : Int
  month_pos : 1 ≤ month
  month_le : month ≤ 12
  day_pos : 1 ≤ day
  day_le : day ≤ daysInMonth year month

/-- The days in front of a year, up to a constant. -/
def yearStart (year : Int) : Int :=
  365 * year + (year - 1) / 4 - (year - 1) / 100 + (year - 1) / 400

/-- The days of the first `months` months of a year. -/
def daysBefore (year : Int) : Nat → Int
  | 0 => 0
  | months + 1 => daysBefore year months + daysInMonth year (months + 1)

theorem yearStart_succ (year : Int) :
    yearStart (year + 1) = yearStart year + if IsLeap year then 366 else 365 := by
  have hleap : (if IsLeap year then (366 : Int) else 365) =
      365 + (if year % 4 = 0 then 1 else 0) - (if year % 100 = 0 then 1 else 0) +
        if year % 400 = 0 then 1 else 0 := by
    unfold IsLeap
    split_ifs <;> omega
  -- each quotient grows in the years that its divisor divides
  have hfour : year / 4 = (year - 1) / 4 + if year % 4 = 0 then 1 else 0 := by split <;> omega
  have hhundred : year / 100 = (year - 1) / 100 + if year % 100 = 0 then 1 else 0 := by
    split <;> omega
  have hfourHundred : year / 400 = (year - 1) / 400 + if year % 400 = 0 then 1 else 0 := by
    split <;> omega
  unfold yearStart
  rw [Int.add_sub_cancel, hleap]
  generalize (if year % 4 = 0 then (1 : Int) else 0) = four at hfour ⊢
  generalize (if year % 100 = 0 then (1 : Int) else 0) = hundred at hhundred ⊢
  generalize (if year % 400 = 0 then (1 : Int) else 0) = fourHundred at hfourHundred ⊢
  omega

/-- From March on the months have 30.6 days on average, five at a time. -/
theorem daysBefore_eq (year : Int) {months : Nat} (h : months ≤ 12) :
    daysBefore year months =
      if months < 2 then 31 * (months : Int)
      else (153 * (months - 2 : Int) + 2) / 5 + 59 + if IsLeap year then 1 else 0 := by
  by_cases hleap : IsLeap year <;> interval_cases months <;> simp [daysBefore, daysInMonth, hleap]

/-- Twelve months are a year. -/
theorem daysBefore_twelve (year : Int) : daysBefore year 12 = if IsLeap year then 366 else 365 := by
  rw [daysBefore_eq year (Nat.le_refl 12), if_neg (by decide)]
  split <;> rfl

namespace CivilDate

variable {date other : CivilDate}

/-- The days of the year in front of the date. -/
def dayOfYear (date : CivilDate) : Int :=
  daysBefore date.year (date.month - 1).toNat + date.day - 1

def daysSinceEpoch (date : CivilDate) : Int :=
  yearStart date.year + date.dayOfYear - yearStart 1970

/-- Sunday is 0, and 1 January 1970 was a Thursday. -/
def weekDay (date : CivilDate) : Int :=
  (date.daysSinceEpoch + 4) % 7

/-- The Julian day number counts from 24 November of the year -4713. -/
def julianDayNumber (date : CivilDate) : Int :=
  date.daysSinceEpoch + 2440588

def newYear (year : Int) : CivilDate where
  year := year
  month := 1
  day := 1
  month_pos := by decide
  month_le := by decide
  day_pos := by decide
  day_le := by have hlong := daysInMonth_pos year 1; omega

theorem day_le_max (date : CivilDate) : date.day ≤ 31 :=
  Int.le_trans date.day_le (daysInMonth_le date.year date.month)

/-- The date of the next day. -/
def tomorrow (date : CivilDate) : CivilDate :=
  if h : date.day < daysInMonth date.year date.month then
    { date with
      day := date.day + 1
      day_pos := by have hday := date.day_pos; omega
      day_le := by omega }
  else if hmonth : date.month < 12 then
    { date with
      month := date.month + 1
      day := 1
      month_pos := by have hpos := date.month_pos; omega
      month_le := by omega
      day_pos := by decide
      day_le := by have hlong := daysInMonth_pos date.year (date.month + 1); omega }
  else newYear (date.year + 1)

theorem daysBefore_month (year : Int) {month : Int} (hpos : 1 ≤ month) :
    daysBefore year month.toNat = daysBefore year (month - 1).toNat + daysInMonth year month := by
  have hsucc : month.toNat = (month - 1).toNat + 1 := by omega
  have hmonth : ((month - 1).toNat : Int) + 1 = month := by omega
  rw [hsucc, daysBefore, hmonth]

theorem daysSinceEpoch_tomorrow (date : CivilDate) :
    date.tomorrow.daysSinceEpoch = date.daysSinceEpoch + 1 := by
  have hpos := date.month_pos
  have hle := date.day_le
  have hmonth := daysBefore_month date.year hpos
  unfold tomorrow
  split
  next =>
    unfold daysSinceEpoch dayOfYear
    dsimp only
    omega
  next hlast =>
    split
    next =>
      have hnext : date.month + 1 - 1 = date.month := by omega
      unfold daysSinceEpoch dayOfYear
      dsimp only
      rw [hnext]
      omega
    next hdecember =>
      have htwelve : date.month = 12 := by
        have hmonthLe := date.month_le
        omega
      have hyear := yearStart_succ date.year
      have hdays := daysBefore_twelve date.year
      rw [htwelve] at hmonth
      change daysBefore date.year 12 = _ at hmonth
      change yearStart (date.year + 1) + (0 + 1 - 1) - yearStart 1970 =
        yearStart date.year + (daysBefore date.year (date.month - 1).toNat + date.day - 1) -
          yearStart 1970 + 1
      rw [htwelve] at hle hlast ⊢
      omega

/-! ## A number has one date -/

theorem monotone_daysBefore (year : Int) {m n : Nat} (h : m ≤ n) :
    daysBefore year m ≤ daysBefore year n := by
  induction n with
  | zero => rw [Nat.le_zero.mp h]
  | succ n ih =>
    have hlong := daysInMonth_pos year (n + 1)
    obtain hlt | rfl := Nat.lt_or_eq_of_le h
    · have hle := ih (Nat.le_of_lt_succ hlt)
      rw [daysBefore]
      omega
    · exact Int.le_refl _

theorem monotone_yearStart {year later : Int} (h : year ≤ later) :
    yearStart year ≤ yearStart later := by
  unfold yearStart
  omega

theorem dayOfYear_nonneg (date : CivilDate) : 0 ≤ date.dayOfYear := by
  have hday := date.day_pos
  have hmonths := monotone_daysBefore date.year (Nat.zero_le (date.month - 1).toNat)
  rw [daysBefore] at hmonths
  unfold dayOfYear
  omega

theorem dayOfYear_lt (date : CivilDate) :
    date.dayOfYear < daysBefore date.year date.month.toNat := by
  have hday := date.day_le
  have hmonth := daysBefore_month date.year date.month_pos
  unfold dayOfYear
  omega

theorem dayOfYear_lt_year (date : CivilDate) : date.dayOfYear < if IsLeap date.year then 366 else
    365 := by
  have hlt := date.dayOfYear_lt
  have hmonth := date.month_le
  have hmonths := monotone_daysBefore date.year (show date.month.toNat ≤ 12 by omega)
  rw [daysBefore_twelve] at hmonths
  exact Int.lt_of_lt_of_le hlt hmonths

theorem daysSinceEpoch_newYear (date : CivilDate) :
    date.daysSinceEpoch = (newYear date.year).daysSinceEpoch + date.dayOfYear := by
  change yearStart date.year + date.dayOfYear - yearStart 1970 =
    yearStart date.year + (0 + 1 - 1) - yearStart 1970 + date.dayOfYear
  omega

theorem lt_yearStart_succ (date : CivilDate) :
    yearStart date.year + date.dayOfYear < yearStart (date.year + 1) := by
  have hlt := date.dayOfYear_lt_year
  rw [yearStart_succ]
  omega

theorem year_le (h : date.daysSinceEpoch ≤ other.daysSinceEpoch) : date.year ≤ other.year := by
  by_contra hlater
  have hyears := monotone_yearStart (show other.year + 1 ≤ date.year by omega)
  have hother := other.lt_yearStart_succ
  have hdate := date.dayOfYear_nonneg
  unfold daysSinceEpoch at h
  omega

theorem month_le_of_dayOfYear (hyear : date.year = other.year)
    (h : date.dayOfYear ≤ other.dayOfYear) :
    date.month ≤ other.month := by
  by_contra hlater
  have hmonths := monotone_daysBefore date.year (show other.month.toNat ≤
    (date.month - 1).toNat by omega)
  have hother := other.dayOfYear_lt
  have hday := date.day_pos
  rw [← hyear] at hother
  unfold dayOfYear at h hother
  omega

theorem eq_of_daysSinceEpoch (h : date.daysSinceEpoch = other.daysSinceEpoch) : date = other := by
  have hyear : date.year = other.year :=
    Int.le_antisymm (year_le (Int.le_of_eq h)) (year_le (Int.le_of_eq h.symm))
  have hdays : date.dayOfYear = other.dayOfYear := by
    unfold daysSinceEpoch at h
    rw [hyear] at h
    omega
  have hmonth : date.month = other.month := Int.le_antisymm
    (month_le_of_dayOfYear hyear (Int.le_of_eq hdays))
    (month_le_of_dayOfYear hyear.symm (Int.le_of_eq hdays.symm))
  have hday : date.day = other.day := by
    unfold dayOfYear at hdays
    rw [hyear, hmonth] at hdays
    omega
  obtain ⟨_, _, _, _, _, _, _⟩ := date
  obtain ⟨_, _, _, _, _, _, _⟩ := other
  cases hyear
  cases hmonth
  cases hday
  rfl

/-! ## The date of a number

Counted from March, the months have one pattern of lengths in every year, the leap day is the last
day of a year, and the leap year is the last of its four, as the century with a leap day more is the
last of its four. -/

/-- The year of a date counted from March. -/
def marchYear (date : CivilDate) : Int :=
  if date.month ≤ 2 then date.year - 1 else date.year

/-- The month of a date counted from March, which is 0. -/
def marchMonth (date : CivilDate) : Int :=
  if date.month ≤ 2 then date.month + 9 else date.month - 3

theorem marchMonth_mem (date : CivilDate) : 0 ≤ date.marchMonth ∧ date.marchMonth ≤ 11 := by
  obtain ⟨hpos, hle⟩ := And.intro date.month_pos date.month_le
  unfold marchMonth
  omega

theorem daysSinceEpoch_march (date : CivilDate) :
    date.daysSinceEpoch = date.day + (153 * date.marchMonth + 2) / 5 + date.marchYear * 365 +
      date.marchYear / 4 - date.marchYear / 100 + date.marchYear / 400 - 719469 := by
  have hpos := date.month_pos
  have hmonths := daysBefore_eq date.year (show (date.month - 1).toNat ≤
    12 by have hle := date.month_le; omega)
  have hepoch : yearStart 1970 = 719527 := by decide
  unfold daysSinceEpoch dayOfYear marchYear marchMonth
  rw [hmonths, hepoch]
  by_cases hspring : date.month ≤ 2
  · rw [if_pos hspring, if_pos hspring, if_pos (by omega)]
    unfold yearStart
    omega
  · have hyear := yearStart_succ date.year
    have hmonth : ((date.month - 1).toNat : Int) - 2 = date.month - 3 := by omega
    unfold yearStart at hyear ⊢
    rw [Int.add_sub_cancel] at hyear
    rw [if_neg hspring, if_neg hspring, if_neg (by omega), hmonth]
    by_cases hleap : IsLeap date.year
    · rw [if_pos hleap] at hyear ⊢
      omega
    · rw [if_neg hleap] at hyear ⊢
      omega

/-- Periods of `length` days, every fourth of them a day longer: the days of the period in front of
a given day. -/
theorem days_in_period {length period day : Int} (hlength : 0 < length)
    (h : period = (4 * day + 3) / (4 * length + 1)) :
    0 ≤ day - (4 * length + 1) * period / 4 ∧ day - (4 * length + 1) * period / 4 ≤ length ∧
      (day - (4 * length + 1) * period / 4 = length → period % 4 = 3) := by
  have hdivide := Int.mul_ediv_add_emod (4 * day + 3) (4 * length + 1)
  have hlow := Int.emod_nonneg (4 * day + 3) (show 4 * length + 1 ≠ 0 by omega)
  have hhigh := Int.emod_lt_of_pos (4 * day + 3) (show 0 < 4 * length + 1 by omega)
  rw [← h] at hdivide
  -- `omega` takes the product of two variables for one unknown
  have hproduct : (4 * length + 1) * period = 4 * (length * period) + period := by
    rw [Int.add_mul, Int.one_mul, Int.mul_assoc]
  rw [hproduct] at hdivide ⊢
  omega

/-- A day counted from 1 March of the year 0, in centuries, years and days. -/
theorem march_parts {day century rest year days : Int} (hcentury : (4 * day + 3) / 146097 = century)
    (hrest : day - century * 146097 / 4 = rest) (hyear : (4 * rest + 3) / 1461 = year)
    (hdays : rest - 1461 * year / 4 = days) :
    (0 ≤ rest ∧ rest ≤ 36524) ∧ (0 ≤ year ∧ year ≤ 99) ∧ (0 ≤ days ∧ days ≤ 365) ∧
      (days = 365 → year % 4 = 3 ∧ (year = 99 → century % 4 = 3)) ∧
      day = 36524 * century + century / 4 + (365 * year + year / 4) + days := by
  obtain ⟨hrestLow, hrestHigh, hlongCentury⟩ :=
    @days_in_period 36524 century day (by decide) hcentury.symm
  obtain ⟨hdaysLow, hdaysHigh, hlongYear⟩ := @days_in_period 365 year rest (by decide) hyear.symm
  have hcenturies : (4 * 36524 + 1) * century / 4 = 36524 * century + century / 4 := by omega
  have hcenturies' : century * 146097 / 4 = 36524 * century + century / 4 := by omega
  have hyears : (4 * 365 + 1) * year / 4 = 365 * year + year / 4 := by omega
  have hyears' : 1461 * year / 4 = 365 * year + year / 4 := by omega
  rw [hcenturies] at hrestLow hrestHigh hlongCentury
  rw [hyears] at hdaysLow hdaysHigh hlongYear
  rw [hcenturies'] at hrest
  rw [hyears'] at hdays
  refine ⟨⟨by omega, by omega⟩, ⟨by omega, by omega⟩, ⟨by omega, by omega⟩, ?_, by omega⟩
  intro hlast
  refine ⟨hlongYear (hdays.trans hlast), ?_⟩
  -- the last day of the century is the last one of its last year
  intro hninetyNine
  rw [hlast, hninetyNine] at hdays
  have hfull : rest = 36524 := (Int.sub_eq_iff_eq_add.mp hdays).trans (by decide)
  exact hlongCentury (hrest.trans hfull)

theorem year_eq (date : CivilDate) : date.year = date.marchYear + date.marchMonth / 10 := by
  obtain ⟨hpos, hle⟩ := And.intro date.month_pos date.month_le
  unfold marchYear marchMonth
  omega

theorem month_eq (date : CivilDate) :
    date.month = date.marchMonth + 3 - 12 * (date.marchMonth / 10) := by
  obtain ⟨hpos, hle⟩ := And.intro date.month_pos date.month_le
  unfold marchMonth
  omega

/-- A year counted from March has 365 days, and one more if it ends with a leap day. -/
theorem exists_of_march {year days : Int} (hlow : 0 ≤ days) (hhigh : days ≤ 365)
    (hleap : days = 365 → IsLeap (year + 1)) :
    ∃ date : CivilDate, date.marchYear = year ∧ date.marchMonth = (5 * days + 2) / 153 ∧
      date.day = days - (153 * ((5 * days + 2) / 153) + 2) / 5 + 1 := by
  obtain ⟨month, hmonth⟩ : ∃ month, month = (5 * days + 2) / 153 := ⟨_, rfl⟩
  rw [← hmonth]
  by_cases hspring : month ≤ 9
  · -- March to December
    let date : CivilDate :=
      { year := year
        month := month + 3
        day := days - (153 * month + 2) / 5 + 1
        month_pos := by omega
        month_le := by omega
        day_pos := by omega
        day_le := by
          unfold daysInMonth
          rw [if_neg (by omega)]
          omega }
    have hyear : date.marchYear = year := if_neg (show ¬ month + 3 ≤ 2 by omega)
    have hmarch : date.marchMonth = month + 3 - 3 := if_neg (show ¬ month + 3 ≤ 2 by omega)
    exact ⟨date, hyear, by omega, rfl⟩
  · -- January and February, of the next year
    let date : CivilDate :=
      { year := year + 1
        month := month - 9
        day := days - (153 * month + 2) / 5 + 1
        month_pos := by omega
        month_le := by omega
        day_pos := by omega
        day_le := by
          unfold daysInMonth
          by_cases hlast : days = 365
          · rw [if_pos (by omega), if_pos (hleap hlast)]
            omega
          · split
            · split <;> omega
            · omega }
    have hyear : date.marchYear = year + 1 - 1 := if_pos (show month - 9 ≤ 2 by omega)
    have hmarch : date.marchMonth = month - 9 + 9 := if_pos (show month - 9 ≤ 2 by omega)
    exact ⟨date, by omega, by omega, rfl⟩

end CivilDate

/-- A date and a time of that day. -/
structure CivilTime where
  date : CivilDate
  hour : Int
  minute : Int
  second : Int
  hour_nonneg : 0 ≤ hour
  hour_lt : hour < 24
  minute_nonneg : 0 ≤ minute
  minute_lt : minute < 60
  second_nonneg : 0 ≤ second
  second_lt : second < 60

namespace CivilTime

def secondOfDay (time : CivilTime) : Int :=
  time.hour * 3600 + time.minute * 60 + time.second

def secondsSinceEpoch (time : CivilTime) : Int :=
  time.date.daysSinceEpoch * 86400 + time.secondOfDay

theorem fields_mem (time : CivilTime) :
    (1 ≤ time.date.month ∧ time.date.month ≤ 12) ∧ (1 ≤ time.date.day ∧ time.date.day ≤ 31) ∧
      (0 ≤ time.hour ∧ time.hour < 24) ∧ (0 ≤ time.minute ∧ time.minute < 60) ∧
      (0 ≤ time.second ∧ time.second < 60) :=
  ⟨⟨time.date.month_pos, time.date.month_le⟩, ⟨time.date.day_pos, time.date.day_le_max⟩,
    ⟨time.hour_nonneg, time.hour_lt⟩, ⟨time.minute_nonneg, time.minute_lt⟩,
    ⟨time.second_nonneg, time.second_lt⟩⟩

theorem secondOfDay_mem (time : CivilTime) : 0 ≤ time.secondOfDay ∧ time.secondOfDay < 86400 := by
  have hfields := time.fields_mem
  unfold secondOfDay
  omega

theorem second_eq (time : CivilTime) : time.secondOfDay % 60 = time.second := by
  have hfields := time.fields_mem
  unfold secondOfDay
  omega

theorem minute_eq (time : CivilTime) : time.secondOfDay / 60 % 60 = time.minute := by
  have hfields := time.fields_mem
  unfold secondOfDay
  omega

theorem hour_eq (time : CivilTime) : time.secondOfDay / 60 / 60 = time.hour := by
  have hfields := time.fields_mem
  unfold secondOfDay
  omega

def ofSecond (date : CivilDate) (second : Int) (hnonneg : 0 ≤ second) (hlt : second < 86400) :
    CivilTime where
  date := date
  hour := second / 60 / 60
  minute := second / 60 % 60
  second := second % 60
  hour_nonneg := by omega
  hour_lt := by omega
  minute_nonneg := by omega
  minute_lt := by omega
  second_nonneg := by omega
  second_lt := by omega

theorem secondsSinceEpoch_ediv (time : CivilTime) :
    time.secondsSinceEpoch / 86400 = time.date.daysSinceEpoch := by
  have hsecond := time.secondOfDay_mem
  unfold secondsSinceEpoch
  omega

theorem secondsSinceEpoch_emod (time : CivilTime) :
    time.secondsSinceEpoch % 86400 = time.secondOfDay := by
  have hsecond := time.secondOfDay_mem
  unfold secondsSinceEpoch
  omega

theorem secondOfDay_ofSecond {date : CivilDate} {second : Int} (hnonneg : 0 ≤ second)
    (hlt : second < 86400) :
    (ofSecond date second hnonneg hlt).secondOfDay = second := by
  unfold ofSecond secondOfDay
  dsimp only
  omega

end CivilTime

end Reasoning
