import Pallette.Log.AppendFile
import Pallette.Log.FileName
import Pallette.Reasoning.Run

/-!
# LogFile — log lines in one file after the other

A file is left for the next when it is too long, or, at every `checkEveryN_`-th line, when the day
is another; but a roll in a second that is not later than that of the last roll is refused.
`append` takes its lock for all of a line, so that calls come one after the other.
-/

open Reasoning

namespace Pallette

/-- `closed` are the files the object has left, in the order in which it opened them. -/
structure LogFile where
  basename_ : Bytes
  rollSize_ : Int
  flushInterval_ : Int := 3
  checkEveryN_ : Int := 1024
  count_ : Int := 0
  startOfPeriod_ : Int := 0
  lastRoll_ : Int := 0
  lastFlush_ : Int := 0
  file_ : Option AppendFile := none
  closed : List AppendFile := []
deriving DecidableEq, Repr

namespace LogFile

inductive Fault
  | nullPointer
  -- an `int` that overflows
  | overflow
  -- the name is in a buffer that `strftime` left undefined
  | strftime
deriving DecidableEq, Repr

def kRollPerSeconds_ : Int := 60 * 60 * 24

def startOfDay (now : Int) : Int :=
  now.tdiv kRollPerSeconds_ * kRollPerSeconds_

variable (gmtime_r : Int → Tm) (fwrite : Fwrite)

/-- What `rollFile` does in a later second. -/
def openFile (s : LogFile) (filename : Bytes) (now : Int) : LogFile :=
  { s with
    lastRoll_ := now
    lastFlush_ := now
    startOfPeriod_ := startOfDay now
    file_ := some { filename := filename }
    closed := s.closed ++ s.file_.toList }

def rollFile (s : LogFile) (r : Reading) : Except Fault (LogFile × Bool) :=
  match getLogFileName gmtime_r s.basename_ r with
  | none => .error .strftime
  | some filename => .ok (if s.lastRoll_ < r.now then (s.openFile filename r.now, true)
      else (s, false))

def new (basename : Bytes) (rollSize flushInterval checkEveryN : Int) (r : Reading) :
    Except Fault LogFile :=
  let s : LogFile :=
    { basename_ := basename, rollSize_ := rollSize, flushInterval_ := flushInterval, checkEveryN_ :=
      checkEveryN }
  (s.rollFile gmtime_r r).map Prod.fst

/-- The check of the day, at `now`; a roll reads the clock again. -/
def checkDay (s : LogFile) (now : Int) (r : Reading) : Except Fault LogFile :=
  if startOfDay now ≠ s.startOfPeriod_ then (s.rollFile gmtime_r r).map Prod.fst
  else if s.flushInterval_ < now - s.lastFlush_ then .ok { s with lastFlush_ := now }
  else .ok s

/-- Behind the write: the size first, and the day only for a file that is not too long. -/
def checkRoll (s : LogFile) (file : AppendFile) (now : Int) (r : Reading) : Except Fault LogFile :=
  if s.rollSize_ < file.writtenBytes_ then (s.rollFile gmtime_r r).map Prod.fst
  else
    match asInt (s.count_ + 1) with
    | none => .error .overflow
    | some count =>
        if s.checkEveryN_ ≤ count then { s with count_ := 0 }.checkDay gmtime_r now r
        else .ok { s with count_ := count }

def appendUnloked (s : LogFile) (logline : Bytes) (now : Int) (r : Reading) :
    Except Fault LogFile :=
  match s.file_ with
  | none => .error .nullPointer
  | some file =>
      let file := file.append fwrite logline
      { s with file_ := some file }.checkRoll gmtime_r file now r

def flush (s : LogFile) : Except Fault LogFile :=
  match s.file_ with
  | none => .error .nullPointer
  | some _ => .ok s

inductive Event
  -- with the clock at the check of the day, and what a roll would find
  | append (logline : Bytes) (now : Int) (r : Reading)
  | rollFile (r : Reading)
  | flush

def next (s : LogFile) : Event → Except Fault LogFile
  | .append logline now r => s.appendUnloked gmtime_r fwrite logline now r
  | .rollFile r => (s.rollFile gmtime_r r).map Prod.fst
  | .flush => s.flush

/-- All the files of the object, in the order in which they were opened. -/
def files (s : LogFile) : List AppendFile :=
  s.closed ++ s.file_.toList

def Event.lines : Event → List Bytes
  | .append logline _ _ => [logline]
  | _ => []

/-- All readings of the clock are in range. -/
def Event.Proper : Event → Prop
  | .append _ now r => InRange now ∧ InRange r.now
  | .rollFile r => InRange r.now
  | .flush => True

/-- The lines are in the files whole: one file has the first of them, the next the following, and so
on. -/
def Whole (lines : List Bytes) (files : List AppendFile) : Prop :=
  ∃ groups : List (List Bytes), groups.flatten = lines ∧
    files.map AppendFile.data = groups.map List.flatten

/-- What holds with so many lines appended. -/
structure Sound (lines : List Bytes) (s : LogFile) : Prop where
  whole : Whole lines s.files
  concatenated : s.files.flatMap AppendFile.data = lines.flatten
  names : (s.files.map AppendFile.filename).Nodup
  period : s.startOfPeriod_ ≤ s.lastRoll_ ∧ s.lastRoll_ < s.startOfPeriod_ + kRollPerSeconds_

variable {gmtime_r fwrite} {s : LogFile} {lines : List Bytes} {file file' : AppendFile}
    {opened : List AppendFile}
variable {logline filename : Bytes} {now : Int} {r : Reading}

/-! ## The files -/

theorem Whole.open_file (h : Whole lines opened) (filename : Bytes) :
    Whole lines (opened ++ [{ filename := filename }]) := by
  obtain ⟨groups, hlines, hdata⟩ := h
  refine ⟨groups ++ [[]], ?_, ?_⟩
  · rw [List.flatten_concat, hlines, List.append_nil]
  · rw [List.map_append, List.map_append, hdata]
    rfl

theorem Whole.write (h : Whole lines (opened ++ [file]))
    (hdata : file'.data = file.data ++ logline) :
    Whole (lines ++ [logline]) (opened ++ [file']) := by
  obtain ⟨groups, hlines, hgroups⟩ := h
  rw [List.map_append] at hgroups
  obtain ⟨front, last, rfl, hfront, hlast⟩ := List.append_eq_map_iff.mp hgroups
  obtain ⟨group, rfl, hgroup⟩ := List.map_eq_singleton_iff.mp hlast
  refine ⟨front ++ [group ++ [logline]], ?_, ?_⟩
  · rw [← hlines]
    simp
  · rw [List.map_append, List.map_append, ← hfront, List.map_singleton, List.map_singleton, hdata,
      ← hgroup, List.flatten_concat]

theorem Whole.concatenated (h : Whole lines opened) :
    opened.flatMap AppendFile.data = lines.flatten := by
  obtain ⟨groups, rfl, hdata⟩ := h
  rw [List.flatMap_def, hdata, List.flatten_flatten]

theorem files_openFile (s : LogFile) (filename : Bytes) (now : Int) :
    (s.openFile filename now).files = s.files ++ [{ filename := filename }] :=
  rfl

theorem files_eq (h : s.file_ = some file) : s.files = s.closed ++ [file] := by
  rw [files, h]
  rfl

/-! ## The steps -/

theorem startOfDay_mem (h : InRange now) :
    startOfDay now ≤ now ∧ now < startOfDay now + kRollPerSeconds_ := by
  unfold startOfDay kRollPerSeconds_
  rw [Int.tdiv_eq_ediv_of_nonneg (Int.le_of_lt h.1)]
  omega

/-- What every step keeps. -/
structure Inv (gmtime_r : Int → Tm) (lines : List Bytes) (s : LogFile) : Prop where
  int : s.checkEveryN_ < 2 ^ 31
  count : 0 ≤ s.count_ ∧ (s.count_ = 0 ∨ s.count_ < s.checkEveryN_)
  whole : Whole lines s.files
  names : (s.files.map AppendFile.filename).Nodup
  /-- Each name is that of a second up to the last roll. -/
  seconds : ∀ file ∈ s.files, ∃ r, InRange r.now ∧ r.now ≤ s.lastRoll_ ∧
    getLogFileName gmtime_r s.basename_ r = some file.filename
  period : s.startOfPeriod_ ≤ s.lastRoll_ ∧ s.lastRoll_ < s.startOfPeriod_ + kRollPerSeconds_

namespace Inv

theorem openFile (h : Inv gmtime_r lines s) (hgmtime : TimeZone.IsGmtime gmtime_r)
    (hr : InRange r.now)
    (hlater : s.lastRoll_ < r.now) (hname : getLogFileName gmtime_r s.basename_ r = some filename) :
    Inv gmtime_r lines (s.openFile filename r.now) where
  int := h.int
  count := h.count
  whole := h.whole.open_file filename
  names := by
    rw [files_openFile, List.map_append, List.map_singleton, List.nodup_append]
    refine ⟨h.names, List.pairwise_singleton _ _, ?_⟩
    rintro used hused _ hnew rfl
    rw [List.mem_singleton] at hnew
    obtain ⟨file, hfile, rfl⟩ := List.mem_map.mp hused
    obtain ⟨r', hr', hbefore, hname'⟩ := h.seconds file hfile
    rw [hnew] at hname'
    -- the same name would be the same second
    have hsecond := now_eq_of_name hgmtime hr hr' hname hname'
    omega
  seconds := by
    intro file hfile
    rw [files_openFile] at hfile
    obtain hold | hnew := List.mem_append.mp hfile
    · obtain ⟨r', hr', hbefore, hname'⟩ := h.seconds file hold
      exact ⟨r', hr', Int.le_trans hbefore (Int.le_of_lt hlater), hname'⟩
    · rw [List.mem_singleton.mp hnew]
      exact ⟨r, hr, Int.le_refl _, hname⟩
  period := startOfDay_mem hr

/-- A roll is made or refused. -/
theorem rollFile (h : Inv gmtime_r lines s) (hgmtime : TimeZone.IsGmtime gmtime_r)
    (hr : InRange r.now) (hfile : s.file_.isSome = true ∨ s.lastRoll_ < r.now) :
    ∃ t, (s.rollFile gmtime_r r).map Prod.fst = .ok t ∧ Inv gmtime_r lines t ∧
      t.file_.isSome = true := by
  obtain ⟨filename, hname⟩ := exists_getLogFileName hgmtime hr s.basename_
  unfold LogFile.rollFile
  rw [hname]
  by_cases hlater : s.lastRoll_ < r.now
  · refine ⟨s.openFile filename r.now, ?_, h.openFile hgmtime hr hlater hname, rfl⟩
    dsimp only
    rw [if_pos hlater]
    rfl
  · refine ⟨s, ?_, h, hfile.resolve_right hlater⟩
    dsimp only
    rw [if_neg hlater]
    rfl

/-- The counter and the time of the flush matter to nothing else. -/
theorem frame (h : Inv gmtime_r lines s) {count lastFlush : Int}
    (hcount : 0 ≤ count ∧ (count = 0 ∨ count < s.checkEveryN_)) :
    Inv gmtime_r lines { s with count_ := count, lastFlush_ := lastFlush } :=
  ⟨h.int, hcount, h.whole, h.names, h.seconds, h.period⟩

theorem checkDay (h : Inv gmtime_r lines s) (hgmtime : TimeZone.IsGmtime gmtime_r)
    (hr : InRange r.now) (hfile : s.file_.isSome = true) (now : Int) :
    ∃ t, s.checkDay gmtime_r now r = .ok t ∧ Inv gmtime_r lines t ∧ t.file_.isSome = true := by
  unfold LogFile.checkDay
  split
  · exact h.rollFile hgmtime hr (.inl hfile)
  · split
    · exact ⟨_, rfl, h.frame h.count, hfile⟩
    · exact ⟨s, rfl, h, hfile⟩

theorem checkRoll (h : Inv gmtime_r lines s) (hgmtime : TimeZone.IsGmtime gmtime_r)
    (hr : InRange r.now) (hfile : s.file_.isSome = true) (file : AppendFile) (now : Int) :
    ∃ t, s.checkRoll gmtime_r file now r = .ok t ∧ Inv gmtime_r lines t ∧
      t.file_.isSome = true := by
  obtain ⟨hnonneg, hbelow⟩ := h.count
  have hint := h.int
  unfold LogFile.checkRoll
  split
  · exact h.rollFile hgmtime hr (.inl hfile)
  · rw [asInt_eq (by omega) (by omega)]
    dsimp only
    split
    · exact (h.frame ⟨Int.le_refl 0, .inl rfl⟩).checkDay hgmtime hr hfile now
    next hless => exact ⟨_, rfl, h.frame ⟨by omega, .inr (by omega)⟩, hfile⟩

theorem write (h : Inv gmtime_r lines s) (hfwrite : fwrite.Complete) (hfile : s.file_ = some file)
    (logline : Bytes) :
    Inv gmtime_r (lines ++ [logline]) { s with file_ := some (file.append fwrite logline) } := by
  have happend := @AppendFile.append_complete fwrite file logline hfwrite
  have hfiles := files_eq hfile
  have hnames : ({ s with file_ := some (file.append fwrite logline) } : LogFile).files.map
    AppendFile.filename =
      s.files.map AppendFile.filename := by
    rw [hfiles, happend]
    simp [files]
  constructor
  · exact h.int
  · exact h.count
  · have hwhole := h.whole
    rw [hfiles] at hwhole
    exact hwhole.write (by rw [happend])
  · rw [hnames]
    exact h.names
  · intro written hwritten
    have hname := List.mem_map_of_mem (f := AppendFile.filename) hwritten
    rw [hnames] at hname
    obtain ⟨old, hold, heq⟩ := List.mem_map.mp hname
    rw [← heq]
    exact h.seconds old hold
  · exact h.period

theorem next (h : Inv gmtime_r lines s) (hgmtime : TimeZone.IsGmtime gmtime_r)
    (hfwrite : fwrite.Complete)
    (hfile : s.file_.isSome = true) {event : Event} (hevent : event.Proper) :
    ∃ t, s.next gmtime_r fwrite event = .ok t ∧ Inv gmtime_r (lines ++ event.lines) t ∧
      t.file_.isSome = true := by
  obtain ⟨file, hsome⟩ := Option.isSome_iff_exists.mp hfile
  cases event with
  | append logline now r =>
    have hwritten := h.write hfwrite hsome logline
    obtain ⟨t, ht, hinv, hthere⟩ :=
      hwritten.checkRoll hgmtime hevent.2 rfl (file.append fwrite logline) now
    refine ⟨t, ?_, hinv, hthere⟩
    rw [LogFile.next, appendUnloked, hsome]
    exact ht
  | rollFile r =>
    have hrange : InRange r.now := hevent
    change ∃ t, (s.rollFile gmtime_r r).map Prod.fst = .ok t ∧ Inv gmtime_r (lines ++ []) t ∧ _
    rw [List.append_nil]
    exact h.rollFile hgmtime hrange (.inl hfile)
  | flush =>
    refine ⟨s, ?_, ?_, hfile⟩
    · unfold LogFile.next LogFile.flush
      dsimp only
      rw [hsome]
    · change Inv gmtime_r (lines ++ []) s
      rwa [List.append_nil]

theorem sound (h : Inv gmtime_r lines s) : Sound lines s :=
  ⟨h.whole, h.whole.concatenated, h.names, h.period⟩

end Inv

/-- The constructor opens the first file. -/
theorem exists_new (hgmtime : TimeZone.IsGmtime gmtime_r) (basename : Bytes)
    (rollSize flushInterval : Int)
    {checkEveryN : Int} (hint : checkEveryN < 2 ^ 31) (hr : InRange r.now) :
    ∃ s, new gmtime_r basename rollSize flushInterval checkEveryN r = .ok s ∧ Inv gmtime_r [] s ∧
      s.file_.isSome = true := by
  have hinit : Inv gmtime_r [] {
      basename_ := basename, rollSize_ := rollSize, flushInterval_ := flushInterval,
      checkEveryN_ := checkEveryN } := by
    refine ⟨hint, ⟨Int.le_refl 0, .inl rfl⟩, ⟨[], rfl, rfl⟩, List.nodup_nil, ?_, Int.le_refl 0, ?_⟩
    · intro file hfile
      cases hfile
    · change (0 : Int) < 0 + kRollPerSeconds_
      decide
  obtain ⟨s, hs, hinv, hfile⟩ := hinit.rollFile hgmtime hr (.inr hr.1)
  refine ⟨s, ?_, hinv, hfile⟩
  unfold new
  exact hs

/-! ## Runs -/

/-- Whatever the sizes, the counts (of which `checkEveryN` is an `int`) and the clock: no call goes
wrong, every line is whole in one file and in its place, no name is used twice, and the period is
that of the last roll. -/
theorem appends_sound (hgmtime : TimeZone.IsGmtime gmtime_r) (hfwrite : fwrite.Complete)
    (basename : Bytes)
    (rollSize flushInterval : Int) {checkEveryN : Int} (hint : checkEveryN < 2 ^ 31)
    (hr : InRange r.now) {events : List Event} (hevents : ∀ event ∈ events, event.Proper) :
    ∃ s t, new gmtime_r basename rollSize flushInterval checkEveryN r = .ok s ∧
      events.foldlM (next gmtime_r fwrite) s = .ok t ∧ Sound (events.flatMap Event.lines) t := by
  obtain ⟨s, hnew, hs⟩ := exists_new hgmtime basename rollSize flushInterval hint hr
  have hstep : ∀ history s event,
      Inv gmtime_r (history.flatMap Event.lines) s ∧ s.file_.isSome = true → event.Proper →
      ∃ t, s.next gmtime_r fwrite event = .ok t ∧
        Inv gmtime_r ((history ++ [event]).flatMap Event.lines) t ∧ t.file_.isSome = true := by
    intro history s event ⟨hinv, hfile⟩ hevent
    rw [List.flatMap_append, List.flatMap_singleton]
    exact hinv.next hgmtime hfwrite hfile hevent
  obtain ⟨t, hrun, ht, -⟩ := @exists_foldlM _ _ _ _ _ _ hstep [] s hs events hevents
  exact ⟨s, t, hnew, hrun, ht.sound⟩

/-- A roll for the size that is refused in the same second and one that is made, and two for the
day: the first is refused, since the clock has stepped back. -/
theorem appends_sound_rolls :
    ∃ s t, new (fun t ↦ (TimeZone.toUtcTime t true).getD {}) (ascii "log.") 3 3 1 { now := 86398 } =
      .ok s ∧
      [.append (ascii "one\n") 86398 { now := 86398 },
      .append (ascii "two\n") 86399 { now := 86399 },
        .append (ascii "3\n") 86400 { now := 86390 },
        .append (ascii "4") 86401 { now := 86401 }].foldlM
        (next (fun t ↦ (TimeZone.toUtcTime t true).getD {}) ⟨fun _ asked ↦ asked,
        fun _ asked ↦ Nat.le_refl asked⟩)
          s = .ok t ∧
      Sound [ascii "one\n", ascii "two\n", ascii "3\n", ascii "4"] t := by
  have hproper : ∀ event ∈ [Event.append (ascii "one\n") 86398 { now := 86398 },
      .append (ascii "two\n") 86399 { now := 86399 }, .append (ascii "3\n") 86400 { now := 86390 },
      .append (ascii "4") 86401 { now := 86401 }], event.Proper := by
    simp [Event.Proper, InRange]
  exact appends_sound TimeZone.isGmtime_toUtcTime (fun _ _ ↦ rfl) _ 3 3 (by decide)
    (by decide) hproper

end LogFile

end Pallette
