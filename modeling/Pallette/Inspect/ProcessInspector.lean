import Mathlib.Data.List.TakeWhile
import Pallette.Numerals
import Pallette.Inspect.ProcessInfo

/-!
# ProcessInspector — the threads of the process, from their stat lines

`threads` makes a row of each line it can read.  A row goes through a buffer of 256 bytes.  The
division by the clock ticks of a second is in floating point: `seconds` stands for what `%12.3f`
makes of a number of ticks.
-/

open Reasoning

namespace Pallette

namespace ProcessInspector

open ProcessInfo

/-- The ticks that the source divides by `clockTicksPerSecond()`. -/
structure CpuTime where
  utime : Int
  stime : Int
deriving DecidableEq, Repr

/-- `v[i]`, with the index checked. -/
def elem (v : List Bytes) (i : Nat) : Except ProcessInfo.Fault Bytes :=
  match v[i]? with
  | some text => .ok text
  | none => .error .outOfRange

def getCpuTime (vecStat : List Bytes) : Except ProcessInfo.Fault CpuTime := do
  let utime := strtol (← elem vecStat 13)
  let stime := strtol (← elem vecStat 14)
  .ok ⟨utime, stime⟩

/-- What a row is printed from. -/
structure ThreadRow where
  tid : Int
  name : Bytes
  state : Bytes
  cpuTime : CpuTime
deriving DecidableEq, Repr

/-- What `%s` takes of a `c_str()`. -/
def cStr (text : Bytes) : Bytes :=
  text.takeWhile fun b ↦ decide (b ≠ 0)

/-- `%-16s` -/
def leftAligned (width : Nat) (text : Bytes) : Bytes :=
  text ++ List.replicate (width - text.length) space

/-- `"%5d %-16s %s %12.3f %12.3f"` -/
def ThreadRow.columns (seconds : Int → Bytes) (row : ThreadRow) : Bytes :=
  [space].intercalate [spacePadded 5 row.tid, leftAligned 16 (cStr row.name), cStr row.state,
    seconds row.cpuTime.utime, seconds row.cpuTime.stime]

/-- The columns and the end of the line, as far as `buf` holds them. -/
def ThreadRow.printed (seconds : Int → Bytes) (row : ThreadRow) : Bytes :=
  snprintf 256 (row.columns seconds ++ [10])

/-- The row of one thread, from the text of its file. -/
def threadRow (tid : Int) (stat : Bytes) : Except ProcessInfo.Fault ThreadRow := do
  let name ← procname stat
  let vecStat := regexSplit stat
  let t ← getCpuTime vecStat
  let state ← elem vecStat 2
  .ok ⟨tid, name, state, t⟩

/-- The `maxSize` that `threads` passes to `readFile`. -/
def kMaxStatSize : Nat := 65536

/-- The loop of `threads`; a thread whose file cannot be read has no row. -/
def threadRows (file : Int → Option Bytes) : List Int → Except ProcessInfo.Fault (List ThreadRow)
  | [] => .ok []
  | tid :: allThreads =>
      match file tid with
      | some content => do
          let row ← threadRow tid (content.take kMaxStatSize)
          let rows ← threadRows file allThreads
          .ok (row :: rows)
      | none => threadRows file allThreads

def threadsHeader : Bytes :=
  ascii "  TID NAME             S    User Time  System Time\n"

def threads (seconds : Int → Bytes) (file : Int → Option Bytes) (allThreads : List Int) :
    Except ProcessInfo.Fault Bytes := do
  let rows ← threadRows file allThreads
  .ok (threadsHeader ++ rows.flatMap (·.printed seconds))

/-! ## The lines -/

def statText (tid comm state : Bytes) (fields : List Bytes) : Bytes :=
  tid ++ space :: (lparen :: comm ++ [rparen] ++ space :: [space].intercalate (state :: fields))

/-- A line of a task's `stat`, with any name.  The kernel's lines are far below the 64 KiB that are
read. -/
structure StatLine where
  tid : Bytes
  comm : Bytes
  state : Bytes
  fields : List Bytes
  tid_word : tid ≠ [] ∧ space ∉ tid ∧ lparen ∉ tid
  comm_string : 0 ∉ comm
  state_word : state ≠ [] ∧ space ∉ state ∧ rparen ∉ state
  state_string : 0 ∉ state
  fields_words : ∀ field ∈ fields, field ≠ [] ∧ space ∉ field ∧ rparen ∉ field
  enough : 12 ≤ fields.length
  short : (statText tid comm state fields).length ≤ kMaxStatSize

namespace StatLine

variable {line : StatLine}

def text (line : StatLine) : Bytes :=
  statText line.tid line.comm line.state line.fields

/-- The thirteenth field of the line, counted from 0 and with a name that is one field. -/
def utime (line : StatLine) : Int :=
  strtol (line.fields.get ⟨10, by have henough := line.enough; omega⟩)

def stime (line : StatLine) : Int :=
  strtol (line.fields.get ⟨11, by have henough := line.enough; omega⟩)

/-- What the blanks make of the name and its brackets. -/
def commWords (line : StatLine) : List Bytes :=
  words space (lparen :: line.comm ++ [rparen])

/-- The fields behind the number of the thread, as the blanks separate them. -/
def behindTid (line : StatLine) : List Bytes :=
  line.commWords ++ line.state :: line.fields

theorem take_text (line : StatLine) : line.text.take kMaxStatSize = line.text :=
  List.take_of_length_le line.short

theorem length_comm_le (line : StatLine) : line.comm.length ≤ kMaxStatSize := by
  have hshort := line.short
  simp only [statText, List.length_append, List.length_cons] at hshort
  omega

/-- The row its thread should have, but for the last byte of the name. -/
def ownRow (line : StatLine) (tid : Int) : ThreadRow :=
  ⟨tid, line.comm.dropLast, line.state, line.utime, line.stime⟩

/-- The columns of the row fit into `buf`. -/
def Fits (line : StatLine) (seconds : Int → Bytes) (tid : Int) : Prop :=
  ((line.ownRow tid).columns seconds).length < 256

theorem isWord_of_mem (line : StatLine) :
    ∀ field ∈ line.state :: line.fields, field ≠ [] ∧ space ∉ field ∧ rparen ∉ field := by
  intro field hfield
  obtain rfl | hfield := List.mem_cons.mp hfield
  · exact line.state_word
  · exact line.fields_words field hfield

theorem regexSplit_text (line : StatLine) : regexSplit line.text = line.tid :: line.behindTid := by
  have hblank : space ∈ line.text := List.mem_append_right _ List.mem_cons_self
  have hrest : words space ([space].intercalate (line.state :: line.fields)) = line.state ::
      line.fields :=
    words_intercalate fun field hfield ↦
      ⟨(line.isWord_of_mem field hfield).1, (line.isWord_of_mem field hfield).2.1⟩
  rw [regexSplit_eq hblank, text, statText, words_word_append line.tid_word.1 line.tid_word.2.1,
    words_append_cons, hrest]
  rfl

theorem text_eq (line : StatLine) : line.text =
    bracketed (line.tid ++ [space]) line.comm (space ::
      [space].intercalate (line.state :: line.fields)) := by
  simp [text, statText, bracketed]

theorem lparen_notMem (line : StatLine) : lparen ∉ line.tid ++ [space] := by
  have hword := line.tid_word.2.2
  have hblank : lparen ∉ [space] := by decide
  rw [List.mem_append]
  tauto

theorem rparen_notMem (line : StatLine) :
    rparen ∉ space :: [space].intercalate (line.state :: line.fields) := by
  have hrest : rparen ∉ [space].intercalate (line.state :: line.fields) :=
    notMem_intercalate (by decide) fun field hfield ↦ (line.isWord_of_mem field hfield).2.2
  have hblank : rparen ≠ space := by decide
  rw [List.mem_cons]
  tauto

theorem procname_text (hcomm : line.comm ≠ []) : procname line.text = .ok line.comm.dropLast := by
  have hlength := line.length_comm_le
  have hmax : kMaxStatSize ≤ 2 ^ 31 := by decide
  rw [text_eq]
  exact procname_dropLast line.lparen_notMem line.rparen_notMem hcomm (by omega)

theorem procname_text_empty (hcomm : line.comm = []) :
    procname line.text = .error .lengthError := by
  rw [text_eq, hcomm]
  exact procname_empty line.lparen_notMem line.rparen_notMem

theorem commWords_ne_nil (line : StatLine) : line.commWords ≠ [] :=
  words_ne_nil (List.mem_append_left _ (List.mem_cons_self (a := lparen))) (by decide)

theorem commWords_of_notMem (h : space ∉ line.comm) :
    line.commWords = [lparen :: line.comm ++ [rparen]] := by
  have hbrackets : space ≠ lparen ∧ space ∉ [rparen] := by decide
  apply words_of_notMem (List.append_ne_nil_of_left_ne_nil (List.cons_ne_nil _ _) _)
  rw [List.mem_append, List.mem_cons]
  tauto

/-- A blank in the name makes it two words at least. -/
theorem one_lt_length_commWords (h : space ∈ line.comm) : 1 < line.commWords.length := by
  obtain ⟨front, back, hcomm⟩ := List.append_of_mem h
  have happend : line.commWords = words space (lparen :: front) ++
      words space (back ++ [rparen]) := by
    rw [commWords, hcomm, ← words_append_cons]
    simp
  have hfront : words space (lparen :: front) ≠ [] := words_ne_nil List.mem_cons_self (by decide)
  have hback : words space (back ++ [rparen]) ≠ [] :=
    words_ne_nil (List.mem_append_right _ (List.mem_singleton.mpr rfl)) (by decide)
  have hpos := List.length_pos_iff.mpr hfront
  have hpos' := List.length_pos_iff.mpr hback
  rw [happend, List.length_append]
  omega

theorem behindTid_one (h : space ∈ line.comm) : line.behindTid[1]? = line.commWords[1]? :=
  List.getElem?_append_left (one_lt_length_commWords h)

/-- Each run of blanks in the name moves the fields behind it one place on. -/
theorem length_behindTid (line : StatLine) : 14 ≤ line.behindTid.length := by
  have hwords := List.length_pos_iff.mpr line.commWords_ne_nil
  have henough := line.enough
  rw [behindTid, List.length_append, List.length_cons]
  omega

/-- The places that are read hold the right values all the same: the second word of the name is the
state, and the fields as many places in front of the two times as the name has words too many have
their values. -/
def Coincides (line : StatLine) : Prop :=
  line.behindTid[1]? = some line.state ∧ line.behindTid[12]?.map strtol = some line.utime ∧
    line.behindTid[13]?.map strtol = some line.stime

def InPlace (line : StatLine) : Prop :=
  line.comm ≠ [] ∧ (space ∉ line.comm ∨ line.Coincides)

theorem coincides_of_notMem (h : space ∉ line.comm) : line.Coincides := by
  have henough := line.enough
  have hutime : line.fields[10]? = some (line.fields.get ⟨10, by omega⟩) :=
    List.getElem?_eq_getElem _
  have hstime : line.fields[11]? = some (line.fields.get ⟨11, by omega⟩) :=
    List.getElem?_eq_getElem _
  unfold Coincides behindTid
  rw [commWords_of_notMem h]
  refine ⟨rfl, ?_, ?_⟩
  · change line.fields[10]?.map strtol = _
    rw [hutime]
    rfl
  · change line.fields[11]?.map strtol = _
    rw [hstime]
    rfl

theorem InPlace.coincides (h : line.InPlace) : line.Coincides :=
  h.2.elim coincides_of_notMem id

/-- The same line, of a thread in another state. -/
def withState (line : StatLine) (state : UInt8)
    (hstate : state ≠ space ∧ state ≠ rparen ∧ state ≠ 0) : StatLine where
  __ := line
  state := [state]
  state_word := by
    rw [List.mem_singleton, List.mem_singleton]
    exact ⟨List.cons_ne_nil _ _, hstate.1.symm, hstate.2.1.symm⟩
  state_string := by
    rw [List.mem_singleton]
    exact hstate.2.2.symm
  short := by
    have hshort := line.short
    have hpos := List.length_pos_iff.mpr line.state_word.1
    obtain ⟨field, fields, hfields⟩ := List.exists_cons_of_ne_nil
      (List.ne_nil_of_length_pos (show 0 < line.fields.length by have := line.enough; omega))
    rw [hfields] at hshort ⊢
    simp only [statText, List.intercalate, List.intersperse_cons_cons, List.flatten_cons,
      List.length_append, List.length_cons, List.length_nil] at hshort ⊢
    omega

end StatLine

/-! ## The rows -/

theorem cStr_eq {text : Bytes} (h : 0 ∉ text) : cStr text = text := by
  apply List.takeWhile_eq_self_iff.mpr
  intro b hb
  rw [decide_eq_true_eq]
  exact ne_of_mem_of_not_mem hb h

/-- The times are still in the buffer exactly when the columns leave it a byte for the zero. -/
theorem columns_prefix_iff (seconds : Int → Bytes) (row : ThreadRow) :
    row.columns seconds <+: row.printed seconds ↔ (row.columns seconds).length < 256 := by
  unfold ThreadRow.printed snprintf
  constructor
  · intro hprefix
    have hle := hprefix.length_le
    rw [List.length_take] at hle
    omega
  · intro hfits
    rw [List.take_append, List.take_of_length_le (by omega)]
    exact List.prefix_append _ _

/-- The report has the row with the state and the times of its own task. -/
def IsOwn (seconds : Int → Bytes) (line : StatLine) (row : ThreadRow) : Prop :=
  row.state = line.state ∧ row.cpuTime = ⟨line.utime, line.stime⟩ ∧
    row.columns seconds <+: row.printed seconds

variable {seconds : Int → Bytes} {line : StatLine} {tid : Int}

theorem threadRow_text (tid : Int) (hcomm : line.comm ≠ []) :
    ∃ state utime stime, line.behindTid[1]? = some state ∧ line.behindTid[12]? = some utime ∧
      line.behindTid[13]? = some stime ∧
      threadRow tid line.text =
        .ok ⟨tid, line.comm.dropLast, state, strtol utime, strtol stime⟩ := by
  have hlength := line.length_behindTid
  have hstate := List.getElem?_eq_getElem (show 1 < line.behindTid.length by omega)
  have hutime := List.getElem?_eq_getElem (show 12 < line.behindTid.length by omega)
  have hstime := List.getElem?_eq_getElem (show 13 < line.behindTid.length by omega)
  refine ⟨_, _, _, hstate, hutime, hstime, ?_⟩
  rw [threadRow, StatLine.procname_text hcomm, StatLine.regexSplit_text]
  simp only [getCpuTime, elem, List.getElem?_cons_succ, hstate, hutime, hstime]
  rfl

/-- The row of a thread, from the file that is read. -/
def HasOwnRow (seconds : Int → Bytes) (tid : Int) (line : StatLine) : Prop :=
  ∃ row, threadRow tid (line.text.take kMaxStatSize) = .ok row ∧ row.tid = tid ∧
    IsOwn seconds line row

theorem hasOwnRow_iff (seconds : Int → Bytes) (tid : Int) (line : StatLine) :
    HasOwnRow seconds tid line ↔ line.InPlace ∧ line.Fits seconds tid := by
  unfold HasOwnRow
  rw [line.take_text]
  by_cases hcomm : line.comm = []
  · have hfault : threadRow tid line.text = .error .lengthError := by
      rw [threadRow, StatLine.procname_text_empty hcomm]
      rfl
    rw [hfault]
    exact ⟨nofun, fun h ↦ absurd hcomm h.1.1⟩
  · obtain ⟨state, utime, stime, hstate, hutime, hstime, hrow⟩ := @threadRow_text line tid hcomm
    have hcoincides : line.Coincides ↔
        state = line.state ∧ strtol utime = line.utime ∧ strtol stime = line.stime := by
      unfold StatLine.Coincides
      rw [hstate, hutime, hstime, Option.map_some, Option.map_some, Option.some.injEq,
        Option.some.injEq, Option.some.injEq]
    rw [hrow]
    constructor
    · rintro ⟨row, hok, -, hown, htimes, hprinted⟩
      obtain rfl := Except.ok.inj hok
      obtain ⟨hfirst, hsecond⟩ := CpuTime.mk.inj htimes
      refine ⟨⟨hcomm, .inr (hcoincides.mpr ⟨hown, hfirst, hsecond⟩)⟩, ?_⟩
      have hfits := (columns_prefix_iff _ _).mp hprinted
      rw [show state = line.state from hown, hfirst, hsecond] at hfits
      exact hfits
    · rintro ⟨hplace, hfits⟩
      obtain ⟨hown, hfirst, hsecond⟩ := hcoincides.mp hplace.coincides
      rw [hown, hfirst, hsecond]
      exact ⟨_, rfl, rfl, rfl, rfl, (columns_prefix_iff _ (line.ownRow tid)).mpr hfits⟩

/-- How long the columns of the own row are. -/
theorem length_columns (seconds : Int → Bytes) (tid : Int) (line : StatLine) :
    ((line.ownRow tid).columns seconds).length =
      (spacePadded 5 tid).length + max 16 (line.comm.length - 1) + line.state.length +
        (seconds line.utime).length + (seconds line.stime).length + 4 := by
  have hname : cStr line.comm.dropLast = line.comm.dropLast :=
    cStr_eq fun hmem ↦ line.comm_string (List.dropLast_subset _ hmem)
  have hstate : cStr line.state = line.state := cStr_eq line.state_string
  simp only [ThreadRow.columns, StatLine.ownRow, hname, hstate, leftAligned, List.intercalate,
    List.intersperse_cons_cons, List.intersperse_singleton, List.flatten_cons, List.flatten_nil,
    List.length_append, List.length_cons, List.length_nil, List.length_replicate,
    List.length_dropLast]
  omega

/-- A state is one letter, so that another one fits as well. -/
theorem StatLine.Fits.withState (h : line.Fits seconds tid) {state : UInt8}
    (hstate : state ≠ space ∧ state ≠ rparen ∧ state ≠ 0) :
    (line.withState state hstate).Fits seconds tid := by
  have hpos := List.length_pos_iff.mpr line.state_word.1
  unfold StatLine.Fits at h ⊢
  rw [length_columns] at h ⊢
  have hlength : ((line.withState state hstate).state).length = 1 := rfl
  have hcomm : (line.withState state hstate).comm = line.comm := rfl
  have hutime : (line.withState state hstate).utime = line.utime := rfl
  have hstime : (line.withState state hstate).stime = line.stime := rfl
  rw [hlength, hcomm, hutime, hstime]
  omega

/-- With a blank in the name some state is not the one read. -/
theorem forall_inPlace_iff (hline : line.Fits seconds tid) :
    (∀ line' : StatLine, line'.comm = line.comm → line'.Fits seconds tid → line'.InPlace) ↔
      line.comm ≠ [] ∧ space ∉ line.comm := by
  constructor
  · intro h
    have hrunning := h (line.withState 82 (by decide)) rfl (hline.withState _)
    have hsleeping := h (line.withState 83 (by decide)) rfl (hline.withState _)
    refine ⟨hrunning.1, ?_⟩
    intro hblank
    have hread := @StatLine.behindTid_one (line.withState 82 (by decide)) hblank
    have hread' := @StatLine.behindTid_one (line.withState 83 (by decide)) hblank
    have hstate := hread.symm.trans hrunning.coincides.1
    have hstate' := hread'.symm.trans hsleeping.coincides.1
    change (words space (lparen :: line.comm ++ [rparen]))[1]? = some [82] at hstate
    change (words space (lparen :: line.comm ++ [rparen]))[1]? = some [83] at hstate'
    rw [hstate] at hstate'
    revert hstate'
    decide
  · intro h line' hcomm _
    rw [← hcomm] at h
    exact ⟨h.1, .inl h.2⟩

/-- The threads that can be read, with their lines. -/
def tasks (lines : Int → Option StatLine) (allThreads : List Int) : List (Int × StatLine) :=
  allThreads.filterMap fun tid ↦ (lines tid).map (tid, ·)

/-- Each thread that can be read has a row in the report, and it is its own. -/
def OwnRows (seconds : Int → Bytes) (lines : Int → Option StatLine)
    (allThreads : List Int) : Prop :=
  ∃ rows, threadRows (fun tid ↦ (lines tid).map StatLine.text) allThreads = .ok rows ∧
    threads seconds (fun tid ↦ (lines tid).map StatLine.text) allThreads =
      .ok (threadsHeader ++ rows.flatMap (·.printed seconds)) ∧
    List.Forall₂ (fun task row ↦ row.tid = task.1 ∧ IsOwn seconds task.2 row)
      (tasks lines allThreads) rows

theorem ownRows_iff {lines : Int → Option StatLine} {allThreads : List Int} :
    OwnRows seconds lines allThreads ↔
      ∃ rows, threadRows (fun tid ↦ (lines tid).map StatLine.text) allThreads = .ok rows ∧
        List.Forall₂ (fun task row ↦ row.tid = task.1 ∧ IsOwn seconds task.2 row)
          (tasks lines allThreads) rows := by
  constructor
  · rintro ⟨rows, hrows, -, hown⟩
    exact ⟨rows, hrows, hown⟩
  · rintro ⟨rows, hrows, hown⟩
    refine ⟨rows, hrows, ?_, hown⟩
    rw [threads, hrows]
    rfl

theorem ownRows_cons_none {lines : Int → Option StatLine} {allThreads : List Int}
    (h : lines tid = none) :
    OwnRows seconds lines (tid :: allThreads) ↔ OwnRows seconds lines allThreads := by
  rw [ownRows_iff, ownRows_iff]
  unfold tasks
  rw [threadRows, h, List.filterMap_cons, h]
  rfl

theorem ownRows_cons_some {lines : Int → Option StatLine} {allThreads : List Int}
    (h : lines tid = some line) :
    OwnRows seconds lines (tid :: allThreads) ↔
      HasOwnRow seconds tid line ∧ OwnRows seconds lines allThreads := by
  have hthreads : threadRows (fun tid ↦ (lines tid).map StatLine.text) (tid :: allThreads) =
      threadRow tid (line.text.take kMaxStatSize) >>= fun row ↦
        threadRows (fun tid ↦ (lines tid).map StatLine.text) allThreads >>= fun rows ↦
          .ok (row :: rows) := by
    rw [threadRows, h]
    rfl
  have htasks : tasks lines (tid :: allThreads) = (tid, line) :: tasks lines allThreads := by
    unfold tasks
    rw [List.filterMap_cons, h]
    rfl
  rw [ownRows_iff, ownRows_iff, hthreads, htasks]
  constructor
  · rintro ⟨rows, hok, hown⟩
    obtain ⟨row, hrow, hok⟩ := ok_of_bind hok
    obtain ⟨later, hlater, hok⟩ := ok_of_bind hok
    cases hok
    obtain ⟨hfirst, hrest⟩ := List.forall₂_cons.mp hown
    exact ⟨⟨row, hrow, hfirst⟩, later, hlater, hrest⟩
  · rintro ⟨⟨row, hrow, hfirst⟩, later, hlater, hrest⟩
    refine ⟨row :: later, ?_, .cons hfirst hrest⟩
    rw [hrow, hlater]
    rfl

/-- The report has each thread's own state and times exactly when the columns of each row fit into
`buf`, no name is empty and no name has a blank, except where a name with blanks happens to put the
right values at the places that are read.  For one name and every state and fields that fit, there
is no exception. -/
theorem threads_own_iff (seconds : Int → Bytes) (lines : Int → Option StatLine)
    (allThreads : List Int) :
    (OwnRows seconds lines allThreads ↔ ∀ tid ∈ allThreads, ∀ line, lines tid = some line →
      line.InPlace ∧ line.Fits seconds tid) ∧
      ∀ (line : StatLine) (tid : Int), line.Fits seconds tid →
        ((∀ line' : StatLine, line'.comm = line.comm → line'.Fits seconds tid →
          HasOwnRow seconds tid line') ↔ line.comm ≠ [] ∧ space ∉ line.comm) := by
  constructor
  · induction allThreads with
    | nil => exact ⟨nofun, fun _ ↦ ⟨[], rfl, rfl, .nil⟩⟩
    | cons tid allThreads ih =>
      rw [List.forall_mem_cons, ← ih]
      cases h : lines tid with
      | none =>
        rw [ownRows_cons_none h]
        exact ⟨fun hown ↦ ⟨nofun, hown⟩, fun hown ↦ hown.2⟩
      | some line =>
        rw [ownRows_cons_some h, hasOwnRow_iff]
        apply and_congr_left'
        constructor
        · rintro hplace line' heq
          cases heq
          exact hplace
        · intro hplace
          exact hplace line rfl
  · intro line tid hline
    rw [← forall_inPlace_iff hline]
    constructor
    · intro h line' hcomm hfits
      exact ((hasOwnRow_iff seconds tid line').mp (h line' hcomm hfits)).1
    · intro h line' hcomm hfits
      exact (hasOwnRow_iff seconds tid line').mpr ⟨h line' hcomm hfits, hfits⟩

/-- A thread that has used no time, with 100 ticks a second. -/
def StatLine.idle (comm : Bytes) (hstring : 0 ∉ comm) (hshort : comm.length < 256) : StatLine where
  tid := ascii "7"
  comm := comm
  state := ascii "S"
  fields := List.replicate 12 (ascii "0")
  tid_word := by decide
  comm_string := hstring
  state_word := by decide
  state_string := by decide
  fields_words := by
    intro field hfield
    rw [List.eq_of_mem_replicate hfield]
    decide
  enough := Nat.le_refl 12
  short := by
    have hrest : ([space].intercalate (ascii "S" :: List.replicate 12 (ascii "0"))).length =
        25 := by
      decide
    have htid : (ascii "7").length = 1 := by decide
    have hmax : kMaxStatSize = 65536 := rfl
    simp only [statText, List.length_append, List.length_cons, List.length_nil, hrest, htid]
    omega

/-- `%12.3f` of ticks of ten milliseconds. -/
def hundredths (ticks : Int) : Bytes :=
  padLeft space 12 (decimalText (ticks / 100) ++ ascii "." ++ zeroPadded 2 (ticks % 100) ++
    ascii "0")

/-- A thread that sleeps, and one whose file is gone. -/
theorem threads_own_iff_sleeping :
    OwnRows hundredths
      (fun tid ↦ if tid = 7 then some (.idle (ascii "worker") (by decide) (by decide)) else none)
      [7, 8] := by
  apply (threads_own_iff _ _ _).1.mpr
  intro tid _ line hline
  split at hline
  next htid =>
    cases hline
    rw [htid]
    exact ⟨⟨by decide, .inl (by decide)⟩, show List.length _ < 256 by decide⟩
  next => cases hline

/-- One blank in the name: its end is the state, and the times are read one field too early. -/
theorem not_threads_own :
    threadRow 7 (ascii "7 (a b) S 1 7 7 0 -1 4194560 100 0 0 0 250 31 0") =
        .ok ⟨7, ascii "a ", ascii "b)", 0, 250⟩ ∧
      ¬ ∀ lines allThreads, OwnRows hundredths lines allThreads := by
  refine ⟨by decide, ?_⟩
  intro h
  have hown := h (fun _ ↦ some (.idle (ascii "a b") (by decide) (by decide))) [7]
  have hrow := ((ownRows_cons_some rfl).mp hown).1
  have hread := ((hasOwnRow_iff _ _ _).mp hrow).1.coincides.1
  revert hread
  decide

end ProcessInspector

end Pallette
