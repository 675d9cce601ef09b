import Mathlib.Algebra.Order.Field.Rat
import Pallette.Numerals
import Pallette.Time.UtcTime

/-!
# TimestampText — the two texts of a timestamp

`toString` writes the microseconds with six digits.  `toFormatTedString` asks for three, and so
writes as many as the number has, three at least.
-/

open Reasoning

namespace Pallette.Timestamp

def getSeconds (t : Timestamp) : Int :=
  t.microSeconds_.tdiv kMicroSecondsPerSecond

/-- The microseconds behind the second, `microSeconds_ % kMicroSecondsPerSecond`. -/
def subSecond (t : Timestamp) : Int :=
  t.microSeconds_.tmod kMicroSecondsPerSecond

def point : UInt8 := 46

/-- The size that is passed is one less than that of the buffer. -/
def toString (t : Timestamp) : Bytes :=
  snprintf 31 (decimalText t.getSeconds ++ point :: zeroPadded 6 t.subSecond)

/-- `%4d-%02d-%02d %02d:%02d:%02d` -/
def dateTimeText (year month day hour minute second : Int) : Bytes :=
  spacePadded 4 year ++ ascii "-" ++ zeroPadded 2 month ++ ascii "-" ++ zeroPadded 2 day ++
    ascii " " ++
    zeroPadded 2 hour ++ ascii ":" ++ zeroPadded 2 minute ++ ascii ":" ++ zeroPadded 2 second

def toFormatTedString (gmtime_r : Int → Tm) (t : Timestamp) (showMicroSeconds : Bool) :
    Option Bytes := do
  let tm_time := gmtime_r t.getSeconds
  let year ← asInt (tm_time.tm_year + 1900)
  let month ← asInt (tm_time.tm_mon + 1)
  let text := dateTimeText year month tm_time.tm_mday tm_time.tm_hour tm_time.tm_min tm_time.tm_sec
  if showMicroSeconds then
    let microSeconds := t.subSecond.bmod (2 ^ 32)
    some (snprintf 64 (text ++ point :: zeroPadded 3 microSeconds))
  else some (snprintf 64 text)

/-! ## Reading the texts -/

def civilText (time : CivilTime) : Bytes :=
  dateTimeText time.date.year time.date.month time.date.day time.hour time.minute time.second

def beforePoint (text : Bytes) : Bytes :=
  text.takeWhile (· ≠ point)

/-- The part of a second that digits behind a point denote. -/
def decimalFraction (digits : Bytes) : ℚ :=
  decimal digits / 10 ^ digits.length

def fraction (text : Bytes) : ℚ :=
  decimalFraction ((text.dropWhile (· ≠ point)).drop 1)

/-- A date with a time of day and a number of seconds since the epoch denote the same instant: the
date is that of the second, and the parts of the second are the same. -/
def SameInstant (formatted text : Bytes) : Prop :=
  (∃ time : CivilTime, beforePoint formatted = civilText time ∧
    beforePoint text = decimalText time.secondsSinceEpoch) ∧
  fraction formatted = fraction text

theorem not_isdigit_point : ¬ (isdigit point = true ∨ point = 45) := by
  decide

theorem point_notMem_decimalText (n : Int) : point ∉ decimalText n :=
  fun h ↦ not_isdigit_point (mem_decimalText h)

theorem point_notMem_zeroPadded (width : Nat) (n : Int) : point ∉ zeroPadded width n :=
  fun h ↦ not_isdigit_point (mem_zeroPadded h)

theorem point_notMem_spacePadded (width : Nat) (n : Int) : point ∉ spacePadded width n := by
  intro h
  have hkind := mem_spacePadded h
  revert hkind
  decide

theorem point_notMem_civilText (time : CivilTime) : point ∉ civilText time := by
  have hmarks : point ∉ ascii "-" ∧ point ∉ ascii " " ∧ point ∉ ascii ":" := by decide
  simp only [civilText, dateTimeText, List.mem_append, not_or, point_notMem_zeroPadded,
    point_notMem_spacePadded, hmarks, not_false_eq_true, and_self]

theorem ne_point_of_mem {head : Bytes} (h : point ∉ head) :
    ∀ b ∈ head, decide (b ≠ point) = true := by
  intro b hb
  apply decide_eq_true
  rintro rfl
  exact h hb

theorem beforePoint_append {head : Bytes} (h : point ∉ head) (tail : Bytes) :
    beforePoint (head ++ point :: tail) = head := by
  unfold beforePoint
  rw [List.takeWhile_append_of_pos (ne_point_of_mem h)]
  exact List.append_nil head

theorem fraction_append {head : Bytes} (h : point ∉ head) (tail : Bytes) :
    fraction (head ++ point :: tail) = decimalFraction tail := by
  unfold fraction
  rw [List.dropWhile_append_of_pos (ne_point_of_mem h)]
  rfl

/-! ## What the texts are -/

variable {t u : Timestamp} {gmtime_r : Int → Tm} {time : CivilTime}

/-- The timestamps the claims are about: an `int64_t` that is not negative. -/
def NonNegative (t : Timestamp) : Prop :=
  0 ≤ t.microSeconds_ ∧ t.microSeconds_ < 2 ^ 63

theorem getSeconds_eq (h : NonNegative t) : t.getSeconds = t.microSeconds_ / 1000000 :=
  Int.tdiv_eq_ediv_of_nonneg h.1

theorem subSecond_eq (h : NonNegative t) : t.subSecond = t.microSeconds_ % 1000000 :=
  Int.tmod_eq_emod_of_nonneg h.1

/-- The microseconds of a timestamp behind its second, as a number of at most six digits. -/
theorem exists_subSecond (h : NonNegative t) : ∃ m : Nat, t.subSecond = m ∧ m < 10 ^ 6 := by
  have hmicros := subSecond_eq h
  exact ⟨t.subSecond.toNat, by omega, by omega⟩

theorem toString_eq (h : NonNegative t) :
    toString t = decimalText t.getSeconds ++ point :: zeroPadded 6 t.subSecond := by
  obtain ⟨m, hm, hlt⟩ := exists_subSecond h
  have hseconds := getSeconds_eq h
  obtain ⟨hlow, hhigh⟩ := h
  apply snprintf_of_lt
  have hhead := @length_decimalText_le t.getSeconds 13 (by decide) (by omega)
  have htail := @length_zeroPadded_le 6 6 t.subSecond (by decide) (by omega)
  rw [List.length_append, List.length_cons]
  omega

theorem length_civilText (hyear : time.date.year.natAbs < 10 ^ 7) :
    (civilText time).length ≤ 28 := by
  have hcivil := time.fields_mem
  have hfour := @length_decimalText_le time.date.year 7 (by decide) hyear
  have htwo : ∀ n : Int, n.natAbs < 10 ^ 2 → (zeroPadded 2 n).length ≤ 3 := fun n h ↦
    length_zeroPadded_le (by decide) h
  have hfields := And.intro (htwo time.date.month (by omega)) (htwo time.date.day (by omega))
  have htime := And.intro (htwo time.hour (by omega)) (htwo time.minute (by omega))
  have hlast := htwo time.second (by omega)
  have hmarks : (ascii "-").length = 1 ∧ (ascii " ").length = 1 ∧
    (ascii ":").length = 1 := by decide
  simp only [civilText, dateTimeText, spacePadded, length_padLeft, List.length_append, hmarks]
  omega

theorem exists_civil (h : NonNegative t) :
    ∃ time : CivilTime, time.secondsSinceEpoch = t.getSeconds ∧
      Date.Supported time.date.julianDayNumber := by
  have hseconds := getSeconds_eq h
  obtain ⟨hlow, hhigh⟩ := h
  have hsupported : Date.Supported (t.getSeconds / 86400 + 2440588) := ⟨by omega, by omega⟩
  obtain ⟨time, htime, hnumber⟩ := TimeZone.exists_civilTime hsupported
  exact ⟨time, htime, by rwa [hnumber]⟩

theorem toFormatTedString_eq (h : NonNegative t) (hgmtime : TimeZone.IsGmtime gmtime_r)
    (htime : time.secondsSinceEpoch = t.getSeconds)
    (hnumber : Date.Supported time.date.julianDayNumber) :
    toFormatTedString gmtime_r t true =
      some (civilText time ++ point :: zeroPadded 3 t.subSecond) := by
  obtain ⟨m, hm, hlt⟩ := exists_subSecond h
  have hyear := Date.year_mem hnumber
  obtain ⟨hmonth, hmonthLe⟩ := And.intro time.date.month_pos time.date.month_le
  have hhead := @length_civilText time (by omega)
  have htail := @length_zeroPadded_le 3 6 t.subSecond (by decide) (by omega)
  unfold toFormatTedString
  rw [← htime, hgmtime time hnumber, TimeZone.tmOf]
  dsimp only
  rw [asInt_bind (by omega) (by omega), asInt_bind (by omega) (by omega), Int.sub_add_cancel,
    Int.sub_add_cancel, if_pos rfl, Int.bmod_eq_of_le (by omega) (by omega)]
  apply congrArg some
  apply snprintf_of_lt
  change (civilText time ++ _).length < 64
  rw [List.length_append, List.length_cons]
  omega

/-! ## The digits behind the point -/

theorem decimalFraction_zeroPadded (width m : Nat) :
    decimalFraction (zeroPadded width m) = m / 10 ^ max width (ascii (Nat.repr m)).length := by
  rw [decimalFraction, decimal_zeroPadded, length_zeroPadded]

/-- Six digits are enough for every number of microseconds. -/
theorem decimalFraction_six {m : Nat} (h : m < 10 ^ 6) :
    decimalFraction (zeroPadded 6 m) = m / 10 ^ 6 := by
  have hdigits := (length_repr_le_iff (show 0 < 6 by decide)).mpr h
  rw [decimalFraction_zeroPadded, Nat.max_eq_left hdigits]

/-- Three are as good as six when there are none or six to write. -/
theorem decimalFraction_three_iff {m : Nat} (h : m < 10 ^ 6) :
    decimalFraction (zeroPadded 3 m) = m / 10 ^ 6 ↔ m = 0 ∨ 100000 ≤ m := by
  have hsix := (length_repr_le_iff (show 0 < 6 by decide)).mpr h
  have hfive := @length_repr_le_iff m 5 (by decide)
  rw [decimalFraction_zeroPadded]
  by_cases hzero : m = 0
  · subst hzero
    simp
  · have hne : (m : ℚ) ≠ 0 := Nat.cast_ne_zero.mpr hzero
    rw [div_eq_mul_inv, div_eq_mul_inv, mul_right_inj' hne, inv_inj,
      pow_right_inj₀ (by norm_num) (by norm_num)]
    omega

/-- The formatted text of a timestamp says when it is, to the microsecond. -/
structure Faithful (t : Timestamp) (formatted : Bytes) : Prop where
  sameInstant : SameInstant formatted (toString t)
  fraction_eq : fraction formatted = (t.subSecond : ℚ) / 10 ^ 6

/-- What is wanted of the texts of two timestamps; in one second the parts of the second are in
their order. -/
def TextsAgree (gmtime_r : Int → Tm) (t u : Timestamp) : Prop :=
  ∃ a b, toFormatTedString gmtime_r t true = some a ∧ toFormatTedString gmtime_r u true = some b ∧
    Faithful t a ∧ Faithful u b ∧
    (t.getSeconds = u.getSeconds → (t < u ↔ fraction a < fraction b))

/-- No microseconds, or at least a tenth of a second. -/
def NoZerosDropped (t : Timestamp) : Prop :=
  t.microSeconds_ % 1000000 = 0 ∨ 100000 ≤ t.microSeconds_ % 1000000

theorem fraction_toString (h : NonNegative t) :
    fraction (toString t) = (t.subSecond : ℚ) / 10 ^ 6 := by
  obtain ⟨m, hm, hlt⟩ := exists_subSecond h
  rw [toString_eq h, fraction_append (point_notMem_decimalText _), hm, decimalFraction_six hlt]
  rfl

theorem fraction_formatted_iff (h : NonNegative t) :
    fraction (civilText time ++ point :: zeroPadded 3 t.subSecond) = (t.subSecond : ℚ) / 10 ^ 6 ↔
      NoZerosDropped t := by
  obtain ⟨m, hm, hlt⟩ := exists_subSecond h
  have hthree := decimalFraction_three_iff hlt
  have hmicros := subSecond_eq h
  rw [fraction_append (point_notMem_civilText time), hm]
  apply hthree.trans
  unfold NoZerosDropped
  omega

theorem faithful_iff (h : NonNegative t) (htime : time.secondsSinceEpoch = t.getSeconds) :
    Faithful t (civilText time ++ point :: zeroPadded 3 t.subSecond) ↔ NoZerosDropped t := by
  constructor
  · intro hfaithful
    exact (fraction_formatted_iff h).mp hfaithful.fraction_eq
  · intro hdropped
    have hfraction := (@fraction_formatted_iff t time h).mpr hdropped
    refine ⟨⟨⟨time, beforePoint_append (point_notMem_civilText time) _, ?_⟩, ?_⟩, hfraction⟩
    · rw [toString_eq h, beforePoint_append (point_notMem_decimalText _), htime]
    · rw [hfraction, fraction_toString h]

/-- The formatted text agrees with the other exactly when the three digits asked for leave out no
zero. -/
theorem textsAgree_iff (hgmtime : TimeZone.IsGmtime gmtime_r) (ht : NonNegative t)
    (hu : NonNegative u) :
    TextsAgree gmtime_r t u ↔ NoZerosDropped t ∧ NoZerosDropped u := by
  obtain ⟨time, htime, hnumber⟩ := exists_civil ht
  obtain ⟨time', htime', hnumber'⟩ := exists_civil hu
  have htext := toFormatTedString_eq ht hgmtime htime hnumber
  have htext' := toFormatTedString_eq hu hgmtime htime' hnumber'
  constructor
  · rintro ⟨a, b, ha, hb, hfaithful, hfaithful', -⟩
    obtain rfl := Option.some.inj (htext.symm.trans ha)
    obtain rfl := Option.some.inj (htext'.symm.trans hb)
    exact ⟨(faithful_iff ht htime).mp hfaithful, (faithful_iff hu htime').mp hfaithful'⟩
  · rintro ⟨hdropped, hdropped'⟩
    have hfaithful := (faithful_iff ht htime).mpr hdropped
    have hfaithful' := (faithful_iff hu htime').mpr hdropped'
    refine ⟨_, _, htext, htext', hfaithful, hfaithful', ?_⟩
    intro hsecond
    -- in one second the timestamps are in the order of their microseconds
    have horder : t < u ↔ t.subSecond < u.subSecond := by
      rw [getSeconds_eq ht, getSeconds_eq hu] at hsecond
      rw [subSecond_eq ht, subSecond_eq hu, lt_iff]
      omega
    rw [hfaithful.fraction_eq, hfaithful'.fraction_eq,
      div_lt_div_iff_of_pos_right (by norm_num), horder]
    exact Int.cast_lt.symm

/-- Two timestamps of one second, both past its first tenth. -/
theorem textsAgree_iff_tenths :
    TextsAgree (fun t ↦ (TimeZone.toUtcTime t true).getD {}) ⟨1100000⟩ ⟨1234567⟩ :=
  (textsAgree_iff TimeZone.isGmtime_toUtcTime ⟨by decide, by decide⟩ ⟨by decide, by decide⟩).mpr
    ⟨.inr (by decide), .inr (by decide)⟩

/-- 500 microseconds read as half a second. -/
theorem not_textsAgree :
    toFormatTedString (fun t ↦ (TimeZone.toUtcTime t true).getD {}) ⟨500⟩ true =
        some (ascii "1970-01-01 00:00:00.500") ∧
      ¬ ∀ gmtime_r : Int → Tm, TimeZone.IsGmtime gmtime_r → ∀ t u, NonNegative t → NonNegative u →
        TextsAgree gmtime_r t u := by
  refine ⟨by decide, ?_⟩
  intro h
  have hshort : NonNegative ⟨500⟩ := ⟨by decide, by decide⟩
  obtain ⟨time, htime, hnumber⟩ := exists_civil hshort
  obtain ⟨a, b, ha, -, hfaithful, -⟩ := h _ TimeZone.isGmtime_toUtcTime ⟨500⟩ ⟨500⟩ hshort hshort
  have htext := toFormatTedString_eq hshort TimeZone.isGmtime_toUtcTime htime hnumber
  obtain rfl := Option.some.inj (htext.symm.trans ha)
  have hdropped := (faithful_iff hshort htime).mp hfaithful
  revert hdropped
  unfold NoZerosDropped
  decide

end Pallette.Timestamp
