import Pallette.Time.TimestampText
import Pallette.Time.TimeZone

/-!
# LogTime — the time in front of a log line, and the date text that a thread keeps

`tLastSecond` and `tTime` start as zeros, which reads as the second 0 with no text.  `gmtime_r` is
the C library's.
-/

open Reasoning

namespace Pallette

namespace Logger

inductive TimeFault
  | zone (fault : TimeZone.Fault)
  -- an `int` that overflows
  | overflow
  -- `len == 17`
  | length
deriving DecidableEq, Repr

/-- `%4d%02d%02d %02d:%02d:%02d` -/
def dateText (tm_time : Tm) : Except TimeFault Bytes :=
  match asInt (tm_time.tm_year + 1900), asInt (tm_time.tm_mon + 1) with
  | some year, some month =>
      let text := spacePadded 4 year ++ zeroPadded 2 month ++ zeroPadded 2 tm_time.tm_mday ++
        ascii " " ++
        zeroPadded 2 tm_time.tm_hour ++ ascii ":" ++ zeroPadded 2 tm_time.tm_min ++ ascii ":" ++
        zeroPadded 2 tm_time.tm_sec
      if text.length = 17 then .ok (snprintf 32 text) else .error .length
  | _, _ => .error .overflow

/-- `tm_time`; without a zone it is in UTC. -/
def tmOfSecond (gmtime_r : Int → Tm) (zone : TimeZone) (seconds : Int) : Except TimeFault Tm :=
  if zone.valid then (zone.toLocalTime gmtime_r seconds).mapError .zone else .ok (gmtime_r seconds)

/-- The date text of a second in a zone. -/
def secondText (gmtime_r : Int → Tm) (zone : TimeZone) (seconds : Int) :
    Except TimeFault Bytes := do
  let tm_time ← tmOfSecond gmtime_r zone seconds
  dateText tm_time

/-- The date text with the microseconds behind it. -/
def withMicros (zone : TimeZone) (tTime : Bytes) (time_ : Timestamp) : Bytes :=
  let microseconds := time_.subSecond.bmod (2 ^ 32)
  if zone.valid then tTime ++ ascii "." ++ zeroPadded 6 microseconds
  else tTime ++ ascii "." ++ zeroPadded 6 microseconds ++ ascii "Z"

/-- What a thread keeps, and the zone, which all threads share. -/
structure Clock where
  tLastSecond : Int := 0
  tTime : Bytes := []
  gLogTimeZone : TimeZone := {}

def formatTime (gmtime_r : Int → Tm) (s : Clock) (time_ : Timestamp) :
    Except TimeFault (Clock × Bytes) := do
  let seconds := time_.getSeconds
  let s ← if seconds ≠ s.tLastSecond then do
      let text ← secondText gmtime_r s.gLogTimeZone seconds
      .ok { s with tLastSecond := seconds, tTime := text }
    else .ok s
  .ok (s, withMicros s.gLogTimeZone s.tTime time_)

def setTimeZone (s : Clock) (tz : TimeZone) : Clock :=
  { s with gLogTimeZone := tz }

/-! ## Without the cache -/

/-- The same text with nothing kept. -/
def freshTime (gmtime_r : Int → Tm) (zone : TimeZone) (time_ : Timestamp) :
    Except TimeFault Bytes := do
  let text ← secondText gmtime_r zone time_.getSeconds
  .ok (withMicros zone text time_)

inductive Event
  | record (time_ : Timestamp)
  | setTimeZone (tz : TimeZone)

variable {gmtime_r : Int → Tm} {s : Clock} {zone : TimeZone} {time_ : Timestamp}
    {text text' : Bytes}

/-- Every record of a run has the text it has without the cache; the run ends where a record stops
the program. -/
def AllFresh (gmtime_r : Int → Tm) (s : Clock) : List Event → Prop
  | [] => True
  | .setTimeZone tz :: events => AllFresh gmtime_r (Logger.setTimeZone s tz) events
  | .record time_ :: events =>
      (formatTime gmtime_r s time_).map Prod.snd = freshTime gmtime_r s.gLogTimeZone time_ ∧
        ∀ next, formatTime gmtime_r s time_ = .ok next → AllFresh gmtime_r next.1 events

/-- The second that a thread last turned into a text, with the zone it had then. -/
abbrev Last := Option (Int × TimeZone)

/-- A record in the second of the one before reads the same in the zone of now as in the one of
then.  With no record before, it is not in the second 0. -/
def Agrees (gmtime_r : Int → Tm) (last : Last) (zone : TimeZone) (seconds : Int) : Prop :=
  match last with
  | none => seconds ≠ 0
  | some (second, then_) => seconds = second →
      secondText gmtime_r then_ seconds = secondText gmtime_r zone seconds

def Last.record (last : Last) (zone : TimeZone) (seconds : Int) : Last :=
  match last with
  | none => some (seconds, zone)
  | some (second, then_) => if seconds = second then some (second, then_) else some (seconds, zone)

/-- Each record of a run agrees with the one before, as far as the run goes. -/
def AllAgree (gmtime_r : Int → Tm) (last : Last) (zone : TimeZone) : List Event → Prop
  | [] => True
  | .setTimeZone tz :: events => AllAgree gmtime_r last tz events
  | .record time_ :: events =>
      Agrees gmtime_r last zone time_.getSeconds ∧
        ((secondText gmtime_r zone time_.getSeconds).isOk →
          AllAgree gmtime_r (last.record zone time_.getSeconds) zone events)

/-- The cache holds the text of the last second in the zone it was formatted in. -/
structure Holds (gmtime_r : Int → Tm) (s : Clock) (last : Last) : Prop where
  unused : last = none → s.tLastSecond = 0 ∧ s.tTime = []
  used : ∀ second then_, last = some (second, then_) →
    s.tLastSecond = second ∧ secondText gmtime_r then_ second = .ok s.tTime

/-! ## One record -/

theorem length_secondText {seconds : Int} (h : secondText gmtime_r zone seconds = .ok text) :
    text.length = 17 := by
  obtain ⟨tm_time, -, h⟩ := ok_of_bind h
  unfold dateText at h
  split at h
  · dsimp only at h
    split at h
    next hlength =>
      rw [← Except.ok.inj h, snprintf_of_lt (by omega)]
      exact hlength
    next => cases h
  · cases h

theorem withMicros_inj : withMicros zone text time_ = withMicros zone text' time_ ↔
    text = text' := by
  constructor
  · intro h
    unfold withMicros at h
    dsimp only at h
    split at h
    · exact List.append_cancel_right (List.append_cancel_right h)
    · exact List.append_cancel_right (List.append_cancel_right (List.append_cancel_right h))
  · intro h
    rw [h]

theorem formatTime_same (h : time_.getSeconds = s.tLastSecond) :
    formatTime gmtime_r s time_ = .ok (s, withMicros s.gLogTimeZone s.tTime time_) := by
  unfold formatTime
  dsimp only
  rw [if_neg (not_not.mpr h)]
  rfl

theorem formatTime_other (h : time_.getSeconds ≠ s.tLastSecond) :
    formatTime gmtime_r s time_ =
      (secondText gmtime_r s.gLogTimeZone time_.getSeconds).map fun text ↦
        ({ s with tLastSecond := time_.getSeconds, tTime := text },
          withMicros s.gLogTimeZone text time_) := by
  unfold formatTime
  dsimp only
  rw [if_pos h]
  cases secondText gmtime_r s.gLogTimeZone time_.getSeconds <;> rfl

theorem freshTime_eq_ok_iff :
    freshTime gmtime_r zone time_ = .ok (withMicros zone text time_) ↔
      secondText gmtime_r zone time_.getSeconds = .ok text := by
  unfold freshTime
  cases hsecond : secondText gmtime_r zone time_.getSeconds with
  | error fault => exact ⟨nofun, nofun⟩
  | ok found =>
    change Except.ok (withMicros zone found time_) = .ok (withMicros zone text time_) ↔ _
    rw [Except.ok.injEq, Except.ok.injEq]
    exact withMicros_inj

variable {last : Last}

/-- Without a look at the cache nothing can differ. -/
theorem Holds.agrees_other (h : Holds gmtime_r s last) (hother : time_.getSeconds ≠ s.tLastSecond) :
    Agrees gmtime_r last zone time_.getSeconds := by
  unfold Agrees
  cases last with
  | none =>
    have hzero := (h.unused rfl).1
    rwa [hzero] at hother
  | some then_ =>
    have hsecond := (h.used then_.1 then_.2 rfl).1
    intro heq
    exact absurd (heq.trans hsecond.symm) hother

theorem Holds.agrees_same (h : Holds gmtime_r s last) (hsame : time_.getSeconds = s.tLastSecond) :
    Agrees gmtime_r last zone time_.getSeconds ↔ secondText gmtime_r zone time_.getSeconds =
      .ok s.tTime := by
  unfold Agrees
  cases last with
  | none =>
    obtain ⟨hzero, hempty⟩ := h.unused rfl
    constructor
    · intro hne
      exact absurd (hsame.trans hzero) hne
    · intro htext
      have hlength := length_secondText htext
      rw [hempty] at hlength
      cases hlength
  | some then_ =>
    obtain ⟨hsecond, htext⟩ := h.used then_.1 then_.2 rfl
    have hkey := hsame.trans hsecond
    dsimp only
    rw [hkey, htext]
    exact ⟨fun hagrees ↦ (hagrees rfl).symm, fun heq _ ↦ heq.symm⟩

theorem Holds.record_iff (h : Holds gmtime_r s last) :
    (formatTime gmtime_r s time_).map Prod.snd = freshTime gmtime_r s.gLogTimeZone time_ ↔
      Agrees gmtime_r last s.gLogTimeZone time_.getSeconds := by
  by_cases hsame : time_.getSeconds = s.tLastSecond
  · rw [h.agrees_same hsame, formatTime_same hsame, ← freshTime_eq_ok_iff]
    exact eq_comm
  · have hagrees := @Holds.agrees_other gmtime_r s s.gLogTimeZone time_ last h hsame
    rw [formatTime_other hsame]
    unfold freshTime
    refine iff_of_true ?_ hagrees
    cases secondText gmtime_r s.gLogTimeZone time_.getSeconds <;> rfl

/-- The cache is kept up: behind a record it holds the text of its second. -/
theorem Holds.next (h : Holds gmtime_r s last)
    (hagrees : Agrees gmtime_r last s.gLogTimeZone time_.getSeconds)
    {next : Clock × Bytes} (hnext : formatTime gmtime_r s time_ = .ok next) :
    next.1.gLogTimeZone = s.gLogTimeZone ∧
      Holds gmtime_r next.1 (last.record s.gLogTimeZone time_.getSeconds) := by
  by_cases hsame : time_.getSeconds = s.tLastSecond
  · rw [formatTime_same hsame] at hnext
    cases hnext
    refine ⟨rfl, ?_⟩
    cases last with
    | none => exact absurd (hsame.trans (h.unused rfl).1) hagrees
    | some then_ =>
      have hkey := hsame.trans (h.used then_.1 then_.2 rfl).1
      have hrecord : Last.record (some then_) s.gLogTimeZone time_.getSeconds = some then_ :=
        if_pos hkey
      rwa [hrecord]
  · rw [formatTime_other hsame] at hnext
    obtain ⟨text, htext, rfl⟩ := ok_of_map hnext
    have hrecord : last.record s.gLogTimeZone time_.getSeconds =
        some (time_.getSeconds, s.gLogTimeZone) := by
      cases last with
      | none => rfl
      | some then_ =>
        have hkey := (h.used then_.1 then_.2 rfl).1
        exact if_neg fun heq ↦ hsame (heq.trans hkey.symm)
    refine ⟨rfl, ?_⟩
    rw [hrecord]
    constructor
    · exact nofun
    · intro second then_ heq
      cases heq
      exact ⟨rfl, htext⟩

/-- A record that agrees stops the program exactly when its text cannot be made. -/
theorem Holds.exists_next_iff (h : Holds gmtime_r s last)
    (hagrees : Agrees gmtime_r last s.gLogTimeZone time_.getSeconds) :
    (∃ next, formatTime gmtime_r s time_ = .ok next) ↔
      (secondText gmtime_r s.gLogTimeZone time_.getSeconds).isOk = true := by
  by_cases hsame : time_.getSeconds = s.tLastSecond
  · rw [formatTime_same hsame, (h.agrees_same hsame).mp hagrees]
    exact iff_of_true ⟨_, rfl⟩ rfl
  · rw [formatTime_other hsame]
    cases secondText gmtime_r s.gLogTimeZone time_.getSeconds with
    | error fault => exact ⟨nofun, nofun⟩
    | ok text => exact iff_of_true ⟨_, rfl⟩ rfl

/-! ## Runs -/

theorem Holds.allFresh_iff (h : Holds gmtime_r s last) (events : List Event) :
    AllFresh gmtime_r s events ↔ AllAgree gmtime_r last s.gLogTimeZone events := by
  induction events generalizing s last with
  | nil => exact Iff.rfl
  | cons event events ih =>
    cases event with
    | setTimeZone tz =>
      have hkept : Holds gmtime_r (Logger.setTimeZone s tz) last := ⟨h.unused, h.used⟩
      exact ih hkept
    | record time_ =>
      unfold AllFresh AllAgree
      rw [h.record_iff]
      apply and_congr_right
      intro hagrees
      rw [← h.exists_next_iff hagrees]
      constructor
      · rintro hrest ⟨next, hnext⟩
        obtain ⟨hzone, hnextHolds⟩ := h.next hagrees hnext
        have hall := (ih hnextHolds).mp (hrest next hnext)
        rwa [hzone] at hall
      · intro hrest next hnext
        obtain ⟨hzone, hnextHolds⟩ := h.next hagrees hnext
        apply (ih hnextHolds).mpr
        rw [hzone]
        exact hrest ⟨next, hnext⟩

/-- A thread that has kept nothing yet. -/
theorem holds_new (gmtime_r : Int → Tm) (zone : TimeZone) :
    Holds gmtime_r { gLogTimeZone := zone } none :=
  ⟨fun _ ↦ ⟨rfl, rfl⟩, nofun⟩

/-- The cache is never noticed in a run exactly when no record that uses it disagrees with the zone
in force. -/
theorem formatTime_fresh_iff (gmtime_r : Int → Tm) (zone : TimeZone) (events : List Event) :
    AllFresh gmtime_r { gLogTimeZone := zone } events ↔ AllAgree gmtime_r none zone events :=
  (holds_new gmtime_r zone).allFresh_iff events

/-- A first record in the second 0 has no date.  And a record behind a change of the zone, in the
second of the record in front of it, has the date of the old zone. -/
theorem not_formatTime_fresh :
    (formatTime (fun t ↦ (TimeZone.toUtcTime t true).getD {}) {} ⟨5⟩).map Prod.snd =
      .ok (ascii ".000005Z") ∧
      (¬ AllFresh (fun t ↦ (TimeZone.toUtcTime t true).getD {}) {} [.record ⟨1000000⟩,
        .setTimeZone (.fixed 28800 (ascii "CST")), .record ⟨1500000⟩]) ∧
      ¬ ∀ gmtime_r zone events, TimeZone.IsGmtime gmtime_r →
        (∀ time_, Event.record time_ ∈ events → time_.NonNegative) →
          AllFresh gmtime_r { gLogTimeZone := zone } events := by
  refine ⟨by decide, ?_, ?_⟩
  · intro h
    obtain ⟨-, hrest⟩ := ((holds_new _ {}).allFresh_iff _).mp h
    obtain ⟨hagrees, -⟩ := hrest (by decide)
    have hsame := hagrees (by decide)
    revert hsame
    decide
  · intro h
    have hnonneg : ∀ time_, Event.record time_ ∈ [Event.record ⟨5⟩] → time_.NonNegative := by
      intro time_ hmem
      cases List.mem_singleton.mp hmem
      exact ⟨by decide, by decide⟩
    obtain ⟨hagrees, -⟩ :=
      ((holds_new _ {}).allFresh_iff _).mp (h _ {} _ TimeZone.isGmtime_toUtcTime hnonneg)
    exact hagrees (by decide)

end Logger

end Pallette
