import Pallette.Numerals
import Pallette.Time.UtcTime

/-!
# FileName — the names of the log files

A name has the second in which the file is opened in it, with a fixed number of digits for each
field; before the year 10000 different seconds give different names.  `gmtime_r` is the C library's.
-/

open Reasoning

namespace Pallette

namespace LogFile

/-- What one call of `getLogFileName` finds: the clock, and the name and the number of the
process. -/
structure Reading where
  now : Int
  processname : Bytes := []
  pid : Int := 0
deriving DecidableEq, Repr

/-- A positive clock, before the year 10000. -/
def InRange (now : Int) : Prop :=
  0 < now ∧ now < 253402300800

instance (now : Int) : Decidable (InRange now) :=
  inferInstanceAs (Decidable (_ ∧ _))

def timeText (year month day hour minute second : Int) : Bytes :=
  decimalText year ++ zeroPadded 2 month ++ zeroPadded 2 day ++ ascii "-" ++ zeroPadded 2 hour ++
    zeroPadded 2 minute ++ zeroPadded 2 second ++ ascii "_"

/-- `%Y%m%d-%H%M%S_`; what does not fit leaves the buffer undefined. -/
def strftime (max : Nat) (tm : Tm) : Option Bytes :=
  let text := timeText (tm.tm_year + 1900) (tm.tm_mon + 1) tm.tm_mday tm.tm_hour tm.tm_min tm.tm_sec
  if text.length < max then some text else none

def getLogFileName (gmtime_r : Int → Tm) (basename : Bytes) (r : Reading) : Option Bytes := do
  let timebuf ← strftime 32 (gmtime_r r.now)
  let pidbuf := snprintf 32 (ascii "_" ++ decimalText r.pid)
  some (basename ++ timebuf ++ r.processname ++ pidbuf ++ ascii ".log")

/-! ## The text of a second -/

variable {time other : CivilTime} {r r' : Reading} {gmtime_r : Int → Tm} {basename filename : Bytes}

def civilText (time : CivilTime) : Bytes :=
  timeText time.date.year time.date.month time.date.day time.hour time.minute time.second

/-- A year of four digits. -/
def FourDigits (year : Int) : Prop :=
  1000 ≤ year ∧ year < 10000

theorem length_year {year : Int} (h : FourDigits year) : (decimalText year).length = 4 := by
  obtain ⟨hlow, hhigh⟩ := h
  lift year to Nat using by omega
  have hthree := @length_repr_le_iff year 3 (by decide)
  have hfour := @length_repr_le_iff year 4 (by decide)
  rw [decimalText_natCast]
  omega

theorem year_inj {year year' : Int} (h : FourDigits year) (h' : FourDigits year')
    (heq : decimalText year = decimalText year') : year = year' := by
  obtain ⟨hlow, -⟩ := h
  obtain ⟨hlow', -⟩ := h'
  lift year to Nat using by omega
  lift year' to Nat using by omega
  have hvalue := congrArg decimal heq
  rw [decimal_decimalText, decimal_decimalText] at hvalue
  exact congrArg Nat.cast hvalue

/-- The fields of a time other than the year have two digits. -/
theorem twoDigits (time : CivilTime) :
    (0 ≤ time.date.month ∧ time.date.month < 10 ^ 2) ∧
    (0 ≤ time.date.day ∧ time.date.day < 10 ^ 2) ∧
      (0 ≤ time.hour ∧ time.hour < 10 ^ 2) ∧ (0 ≤ time.minute ∧ time.minute < 10 ^ 2) ∧
      (0 ≤ time.second ∧ time.second < 10 ^ 2) := by
  have hfields := time.fields_mem
  omega

theorem length_civilText (h : FourDigits time.date.year) : (civilText time).length = 16 := by
  obtain ⟨hmonth, hday, hhour, hminute, hsecond⟩ := twoDigits time
  have htwo : ∀ n : Int, 0 ≤ n ∧ n < 10 ^ 2 → (zeroPadded 2 n).length = 2 := fun n h ↦
    length_zeroPadded_of_lt (by decide) h
  have hmarks : (ascii "-").length = 1 ∧ (ascii "_").length = 1 := by decide
  simp only [civilText, timeText, List.length_append, length_year h, htwo _ hmonth, htwo _ hday,
    htwo _ hhour, htwo _ hminute, htwo _ hsecond, hmarks]

/-- From the last field to the first. -/
theorem civilText_inj (h : FourDigits time.date.year) (h' : FourDigits other.date.year)
    (heq : civilText time = civilText other) :
    time.secondsSinceEpoch = other.secondsSinceEpoch := by
  obtain ⟨hmonth, hday, hhour, hminute, hsecond⟩ := twoDigits time
  obtain ⟨hmonth', hday', hhour', hminute', hsecond'⟩ := twoDigits other
  have hwidth : 0 < 2 := by decide
  obtain ⟨heq, hsecondEq⟩ :=
    append_zeroPadded_inj hwidth hsecond hsecond' (List.append_cancel_right heq)
  obtain ⟨heq, hminuteEq⟩ := append_zeroPadded_inj hwidth hminute hminute' heq
  obtain ⟨heq, hhourEq⟩ := append_zeroPadded_inj hwidth hhour hhour' heq
  obtain ⟨heq, hdayEq⟩ := append_zeroPadded_inj hwidth hday hday' (List.append_cancel_right heq)
  obtain ⟨heq, hmonthEq⟩ := append_zeroPadded_inj hwidth hmonth hmonth' heq
  have hyearEq := year_inj h h' heq
  unfold CivilTime.secondsSinceEpoch CivilTime.secondOfDay CivilDate.daysSinceEpoch
    CivilDate.dayOfYear
  rw [hyearEq, hmonthEq, hdayEq, hhourEq, hminuteEq, hsecondEq]

/-! ## The name of a second -/

theorem InRange.exists_civil {now : Int} (h : InRange now) :
    ∃ time : CivilTime, time.secondsSinceEpoch = now ∧ FourDigits time.date.year ∧
      Date.Supported time.date.julianDayNumber := by
  obtain ⟨hlow, hhigh⟩ := h
  have hsupported : Date.Supported (now / 86400 + 2440588) := ⟨by omega, by omega⟩
  obtain ⟨time, htime, hnumber⟩ := TimeZone.exists_civilTime hsupported
  have hday := time.secondsSinceEpoch_ediv
  -- the first day of 1970 has the number 0, and the one of 10000 the number 2932897
  have hfirst := @CivilDate.year_le (.newYear 1970) time.date (by
    change 0 ≤ _
    omega)
  have hlast : ¬ 10000 ≤ time.date.year := by
    intro hlate
    have hstart := CivilDate.monotone_yearStart hlate
    have hinYear := time.date.dayOfYear_nonneg
    have hvalues : yearStart 10000 - yearStart 1970 = 2932897 := by decide
    unfold CivilDate.daysSinceEpoch at hday
    omega
  refine ⟨time, htime, ⟨?_, ?_⟩, by rwa [hnumber]⟩
  · change 1970 ≤ time.date.year at hfirst
    omega
  · omega

theorem getLogFileName_eq (hgmtime : TimeZone.IsGmtime gmtime_r)
    (htime : time.secondsSinceEpoch = r.now)
    (hyear : FourDigits time.date.year) (hnumber : Date.Supported time.date.julianDayNumber)
    (basename : Bytes) :
    getLogFileName gmtime_r basename r = some (basename ++ civilText time ++ r.processname ++
      snprintf 32 (ascii "_" ++ decimalText r.pid) ++ ascii ".log") := by
  have hlength := length_civilText hyear
  have htext : strftime 32 (gmtime_r r.now) = some (civilText time) := by
    rw [← htime, hgmtime time hnumber]
    unfold strftime TimeZone.tmOf
    dsimp only
    rw [Int.sub_add_cancel, Int.sub_add_cancel]
    change (if (civilText time).length < 32 then some (civilText time) else none) = _
    rw [if_pos (by omega)]
  rw [getLogFileName, htext]
  rfl

theorem exists_getLogFileName (hgmtime : TimeZone.IsGmtime gmtime_r) (h : InRange r.now)
    (basename : Bytes) :
    ∃ filename, getLogFileName gmtime_r basename r = some filename := by
  obtain ⟨time, htime, hyear, hnumber⟩ := h.exists_civil
  exact ⟨_, getLogFileName_eq hgmtime htime hyear hnumber basename⟩

/-- One name is the name of one second, whatever the process is called. -/
theorem now_eq_of_name (hgmtime : TimeZone.IsGmtime gmtime_r) (h : InRange r.now)
    (h' : InRange r'.now) (hname : getLogFileName gmtime_r basename r = some filename)
    (hname' : getLogFileName gmtime_r basename r' = some filename) : r.now = r'.now := by
  obtain ⟨time, htime, hyear, hnumber⟩ := h.exists_civil
  obtain ⟨other, hother, hotherYear, hotherNumber⟩ := h'.exists_civil
  rw [getLogFileName_eq hgmtime htime hyear hnumber] at hname
  rw [getLogFileName_eq hgmtime hother hotherYear hotherNumber] at hname'
  have heq := Option.some.inj (hname.trans hname'.symm)
  simp only [List.append_assoc] at heq
  have hlength := (length_civilText hyear).trans (length_civilText hotherYear).symm
  obtain ⟨htext, -⟩ := List.append_inj (List.append_cancel_left heq) hlength
  rw [← htime, ← hother]
  exact civilText_inj hyear hotherYear htext

end LogFile

end Pallette
