import Pallette.Log.LogFile
import Pallette.Log.Rotation
import Pallette.Reasoning.Grouped

/-!
# Pipeline — from `AsyncLogging::append` to the log files

The backend thread has a `LogFile` of its own, made where the thread starts: a buffer it writes is
one `append` there, behind the buffers it flushes, and once more when it ends.  The steps are those
of `AsyncLogging`, with what the clock shows meanwhile.
-/

open Reasoning

namespace Pallette

open LogFile (Reading InRange)

/-- `output` is the local of `threadFunc`. -/
structure Pipeline where
  basename_ : Bytes
  rollSize_ : Int
  logging : AsyncLogging := {}
  output : Option LogFile := none

namespace Pipeline

inductive Fault
  | logging (fault : AsyncLogging.Fault)
  | output (fault : LogFile.Fault)

/-- A step, and the clock at the check of the day and at a roll. -/
structure Event where
  label : AsyncLogging.Label
  now : Int
  reading : Reading

variable (gmtime_r : Int → Tm) (fwrite : Fwrite)

/-- `output.append` for the buffer that is written. -/
def append (s : Pipeline) (output : LogFile) (e : Event) : Except LogFile.Fault LogFile :=
  match s.logging.phase with
  | .writing k =>
      match s.logging.buffersToWrite[k]? with
      | some (some b) => output.appendUnloked gmtime_r fwrite b.data e.now e.reading
      | _ => .ok output
  | _ => .ok output

/-- What a step does with the log file; the default values are those of the constructor of
`LogFile`. -/
def file (s : Pipeline) (e : Event) : Except LogFile.Fault (Option LogFile) :=
  match e.label, s.output with
  | .start, none => (LogFile.new gmtime_r s.basename_ s.rollSize_ 3 1024 e.reading).map some
  | .write, some output => (s.append gmtime_r fwrite output e).map some
  | .recycle, some output => output.flush.map some
  | .test, some output => if s.logging.running_ then .ok (some output) else output.flush.map some
  | _, output => .ok output

/-- One step; `none` when it is not due. -/
def next (s : Pipeline) (e : Event) : Option (Except Fault Pipeline) :=
  (s.logging.next e.label).map fun result ↦ do
    let logging ← result.mapError .logging
    let output ← (s.file gmtime_r fwrite e).mapError .output
    return { s with logging := logging, output := output }

def Step (s : Pipeline) (e : Event) (t : Pipeline) : Prop :=
  s.next gmtime_r fwrite e = some (.ok t)

/-- Lines that fit into a buffer, and a clock in range. -/
def Proper (s : Pipeline) (e : Event) : Prop :=
  s.logging.ShortLine e.label ∧ InRange e.now ∧ InRange e.reading.now

variable {gmtime_r fwrite} {s t : Pipeline} {e : Event}

/-- What the buffers of a list hold, each for itself. -/
def chunks (buffers : List AsyncLogging.BufferPtr) : List Bytes :=
  buffers.map fun ptr ↦ (ptr.map LogBuffer.data).getD []

/-- The buffers whose lines are not in a file yet. -/
def buffered (s : AsyncLogging) : List AsyncLogging.BufferPtr :=
  s.unwritten ++ s.buffers_ ++ [s.currentBuffer_]

/-- What a step of the backend hands to the log file. -/
def handed (s : AsyncLogging) (l : AsyncLogging.Label) : List Bytes :=
  match l, s.phase with
  | .write, .writing k => chunks (s.buffersToWrite[k]?).toList
  | _, _ => []

theorem chunks_append (xs ys : List AsyncLogging.BufferPtr) :
    chunks (xs ++ ys) = chunks xs ++ chunks ys :=
  List.map_append

/-! ## Whole lines in the buffers -/

section Buffers

open AsyncLogging

variable {s t : AsyncLogging} {l : Label} {file : List Bytes} {line : Bytes}

/-- The lines are whole in what the file was handed and in the buffers. -/
def Whole (file : List Bytes) (s : AsyncLogging) : Prop :=
  Grouped s.lines (file ++ chunks (buffered s))

theorem whole_iff : Whole file s ↔ Grouped s.lines
    (file ++ chunks s.unwritten ++ chunks s.buffers_ ++
      [(s.currentBuffer_.map LogBuffer.data).getD []]) := by
  unfold Whole buffered
  rw [chunks_append, chunks_append, ← List.append_assoc, ← List.append_assoc]
  rfl

theorem whole_append (h : Pool s) (hs : Whole file s) (hshort : line.length < kLargeBuffer)
    (happ : s.append line = .ok t) : Whole file t := by
  obtain ⟨c, hc⟩ := h.current
  rw [append_eq hc] at happ
  cases happ
  rw [whole_iff, hc] at hs
  by_cases hroom : line.length < c.avail
  · rw [if_pos hroom]
    rw [whole_iff]
    have hwrite := hs.write line
    rw [Option.map_some, Option.getD_some, ← LogBuffer.data_append hroom] at hwrite
    exact hwrite
  · rw [if_neg hroom]
    rw [whole_iff]
    have hfresh : (s.nextBuffer_.getD .new).data = [] := by
      cases hnext : s.nextBuffer_ with
      | none => rfl
      | some b => exact h.next b hnext
    have hfits : line.length < (s.nextBuffer_.getD .new).avail := by
      unfold LogBuffer.avail
      rw [hfresh]
      exact hshort
    have hdata : ((s.nextBuffer_.getD .new).append line).data = line := by
      rw [LogBuffer.data_append hfits, hfresh, List.nil_append]
    have hsingle := hs.append (.single line)
    rw [List.append_assoc (file ++ chunks s.unwritten)] at hsingle
    show Grouped (s.lines ++ [line]) (file ++ chunks s.unwritten ++
      chunks (s.buffers_ ++ [some c]) ++
      [((s.nextBuffer_.getD .new).append line).data])
    rw [hdata, chunks_append]
    exact hsingle

theorem whole_swap (hs : Whole file s) (hready : Ready s.newBuffer1 s.newBuffer2 s.buffersToWrite)
    (hswap : s.swapBuffers = .ok t) : Whole file t := by
  obtain ⟨b, hb, hempty⟩ := hready.first
  rw [swapBuffers_eq] at hswap
  cases hswap
  rw [whole_iff, unwritten_cleared hready.cleared] at hs
  rw [whole_iff, unwritten_writing rfl]
  show Grouped s.lines (file ++ chunks (s.buffers_ ++ [s.currentBuffer_]) ++
    chunks s.buffersToWrite ++
    [(s.newBuffer1.map LogBuffer.data).getD []])
  -- the buffer the frontend gets adds a chunk with nothing in it
  have hadd := hs.append .empty
  rw [List.append_nil] at hadd
  rw [hready.cleared, hb, chunks_append, Option.map_some, Option.getD_some, hempty]
  simpa [chunks] using hadd

theorem whole_write (hs : Whole file s) {k : Nat} {b : AsyncLogging.Buffer}
    (hphase : s.phase = .writing k) (hb : s.buffersToWrite[k]? = some (some b)) :
    Whole (file ++ [b.data]) { s with output := s.output ++ b.data, phase := .writing (k +
      1) } := by
  obtain ⟨hlt, hget⟩ := List.getElem?_eq_some_iff.mp hb
  rw [whole_iff, unwritten_writing hphase, List.drop_eq_getElem_cons hlt, hget] at hs
  rw [whole_iff, unwritten_writing rfl, List.append_assoc file [b.data]]
  exact hs

theorem whole_recycle (hs : Whole file s) {k : Nat} (hphase : s.phase = .writing k)
    (hk : k = s.buffersToWrite.length)
    (hwriting : Writing s.newBuffer1 s.newBuffer2 s.buffersToWrite)
    (hrecycle : s.recycle = .ok t) : Whole file t := by
  obtain ⟨b₁, b₂, _, _, heq⟩ := recycle_eq hwriting
  rw [heq] at hrecycle
  cases hrecycle
  rw [whole_iff, unwritten_writing hphase, hk, List.drop_length] at hs
  exact whole_iff.mpr hs

theorem handed_nil (hwriting : ∀ k, s.phase ≠ .writing k) : handed s l = [] := by
  unfold handed
  split
  next k hphase => exact absurd hphase (hwriting k)
  next => rfl

/-- **Step lemma.**  The lines stay whole; a buffer that is written goes from the buffers to the
file. -/
theorem whole_of_step (h : Pool s) (hs : Whole file s) (hshort : ShortLine s l)
    (hstep : StepCases s l t) :
    Whole (file ++ handed s l) t := by
  have hstill : ∀ u : AsyncLogging, u.buffers_ = s.buffers_ → u.currentBuffer_ = s.currentBuffer_ →
      u.lines = s.lines → u.unwritten = s.unwritten → Whole file u := by
    intro u hbuffers hcurrent hlines hunwritten
    unfold Whole buffered
    rw [hbuffers, hcurrent, hlines, hunwritten]
    exact hs
  cases hstep with
  | start hphase =>
    rw [handed_nil (by simp [hphase]), List.append_nil]
    exact hstill _ rfl rfl rfl (by simp [unwritten, hphase])
  | append happ =>
    rw [show handed s (.append _) = [] from rfl, List.append_nil]
    exact whole_append h hs hshort happ
  | test hphase hto =>
    rw [handed_nil (by simp [hphase]), List.append_nil]
    rcases hto with ⟨_, rfl⟩ | ⟨_, rfl⟩
    · exact hstill _ rfl rfl rfl (by simp [unwritten, hphase])
    · exact hstill _ rfl rfl rfl (by simp [unwritten, hphase])
  | wait hphase =>
    rw [handed_nil (by simp [hphase]), List.append_nil]
    exact hstill _ rfl rfl rfl (by simp [unwritten, hphase])
  | swap hphase hswap =>
    have hnone : ∀ k, s.phase ≠ .writing
      k := by rcases hphase with hphase | hphase <;> simp [hphase]
    rw [handed_nil hnone, List.append_nil]
    exact whole_swap hs (h.ready_swap hphase) hswap
  | @write k b hphase hb =>
    have hhanded : handed s .write = [b.data] := by
      simp only [handed, hphase, hb]
      rfl
    rw [hhanded]
    exact whole_write hs hphase hb
  | recycle hphase hk hrecycle =>
    rw [show handed s .recycle = [] from rfl, List.append_nil]
    exact whole_recycle hs hphase hk (h.writing hphase) hrecycle
  | stop _ _ | join _ _ =>
    rw [show handed s _ = [] from rfl, List.append_nil]
    exact hstill _ rfl rfl rfl rfl

/-- The thread is started once. -/
theorem unstarted_of_step (h : Pool s) (hstep : StepCases s l t) :
    t.phase = .unstarted ↔ s.phase = .unstarted ∧ l ≠ .start := by
  have hrunning : s.phase ≠ .unstarted → t.phase ≠ .unstarted →
      (t.phase = .unstarted ↔ s.phase = .unstarted ∧ l ≠ .start) :=
    fun hs ht ↦ iff_of_false ht fun hboth ↦ hs hboth.1
  cases hstep with
  | start hphase => exact iff_of_false nofun fun hboth ↦ hboth.2 rfl
  | append happ =>
    obtain ⟨c, hc⟩ := h.current
    rw [append_eq hc] at happ
    cases happ
    split
    · exact (and_iff_left nofun).symm
    · exact (and_iff_left nofun).symm
  | test hphase hto =>
    refine hrunning (by simp [hphase]) ?_
    rcases hto with ⟨_, rfl⟩ | ⟨_, rfl⟩
    · exact nofun
    · exact nofun
  | wait hphase => exact hrunning (by simp [hphase]) nofun
  | swap hphase hswap =>
    rw [swapBuffers_eq] at hswap
    cases hswap
    exact hrunning (by rcases hphase with hphase | hphase <;> simp [hphase]) nofun
  | write hphase _ => exact hrunning (by simp [hphase]) nofun
  | recycle hphase _ hrecycle =>
    obtain ⟨b₁, b₂, _, _, heq⟩ := recycle_eq (h.writing hphase)
    rw [heq] at hrecycle
    cases hrecycle
    exact hrunning (by simp [hphase]) nofun
  | stop _ _ | join _ _ => exact (and_iff_left nofun).symm

end Buffers

/-! ## The log file -/

/-- What the log file of the backend has been handed; there is none before the thread starts. -/
def Holds (gmtime_r : Int → Tm) (file : List Bytes) (phase : AsyncLogging.Phase) :
    Option LogFile → Prop
  | none => file = [] ∧ phase = .unstarted
  | some output => phase ≠ .unstarted ∧ LogFile.Inv gmtime_r file output ∧
      output.file_.isSome = true

section File

variable {file : List Bytes} {logging : AsyncLogging}

theorem exists_written {s t : AsyncLogging} {k : Nat} (hphase : s.phase = .writing k)
    (hstep : AsyncLogging.StepCases s .write t) : ∃ b, s.buffersToWrite[k]? = some (some b) := by
  cases hstep with
  | swap hswap _ => rw [hphase] at hswap; simp at hswap
  | @write k' b hk hb =>
    cases hphase.symm.trans hk
    exact ⟨b, hb⟩

theorem flush_ok {output : LogFile} (h : output.file_.isSome = true) :
    output.flush = .ok output := by
  obtain ⟨file, hfile⟩ := Option.isSome_iff_exists.mp h
  unfold LogFile.flush
  rw [hfile]

/-- No call on the log file fails. -/
theorem file_of_step (hgmtime : TimeZone.IsGmtime gmtime_r) (hfwrite : fwrite.Complete)
    (hpool : AsyncLogging.Pool s.logging) (hs : Holds gmtime_r file s.logging.phase s.output)
    (hclock : InRange e.now ∧ InRange e.reading.now)
    (hstep : AsyncLogging.StepCases s.logging e.label logging) :
    ∃ output, s.file gmtime_r fwrite e = .ok output ∧
      Holds gmtime_r (file ++ handed s.logging e.label) logging.phase output := by
  have hstarted := unstarted_of_step hpool hstep
  obtain ⟨l, now, r⟩ := e
  obtain ⟨basename, rollSize, s, output⟩ := s
  dsimp only at *
  cases output with
  | none =>
    obtain ⟨hfile, hphase⟩ := hs
    rw [handed_nil (by simp [hphase]), List.append_nil]
    by_cases hl : l = .start
    · subst hl
      obtain ⟨output, hnew, hinv, hopen⟩ :=
        @LogFile.exists_new _ _ hgmtime basename rollSize 3 1024 (by decide) hclock.2
      refine ⟨some output, ?_, fun hunstarted ↦ (hstarted.mp hunstarted).2 rfl, hfile ▸ hinv, hopen⟩
      simp only [Pipeline.file, hnew]
      rfl
    · refine ⟨none, ?_, hfile, hstarted.mpr ⟨hphase, hl⟩⟩
      cases l with
      | start => exact absurd rfl hl
      | _ => rfl
  | some output =>
    obtain ⟨hphase, hinv, hopen⟩ := hs
    have hsame : Holds gmtime_r file logging.phase (some output) :=
      ⟨fun hunstarted ↦ hphase (hstarted.mp hunstarted).1, hinv, hopen⟩
    cases l with
    | start | append _ | lock | wake | stop | join =>
      exact ⟨_, rfl, (List.append_nil file).symm ▸ hsame⟩
    | test =>
      refine ⟨some output, ?_, (List.append_nil file).symm ▸ hsame⟩
      simp only [Pipeline.file, flush_ok hopen]
      split <;> rfl
    | recycle =>
      refine ⟨some output, ?_, (List.append_nil file).symm ▸ hsame⟩
      simp only [Pipeline.file, flush_ok hopen]
      rfl
    | write =>
      by_cases hwriting : ∃ k, s.phase = .writing k
      · obtain ⟨k, hk⟩ := hwriting
        obtain ⟨b, hb⟩ := exists_written hk hstep
        have hevent : (LogFile.Event.append b.data now r).Proper := hclock
        obtain ⟨output', hnext, hinv', hopen'⟩ := hinv.next hgmtime hfwrite hopen hevent
        refine ⟨some output', ?_, fun hunstarted ↦ hphase (hstarted.mp hunstarted).1, ?_, hopen'⟩
        · rw [LogFile.next] at hnext
          simp only [Pipeline.file, Pipeline.append, hk, hb, hnext]
          rfl
        · simp only [handed, hk, hb]
          exact hinv'
      · have hnone : ∀ k, s.phase ≠ .writing k := not_exists.mp hwriting
        rw [handed_nil hnone, List.append_nil]
        refine ⟨some output, ?_, hsame⟩
        simp only [Pipeline.file, Pipeline.append]
        rfl

end File

/-! ## The runs -/

/-- What every step keeps. -/
structure Piped (gmtime_r : Int → Tm) (s : Pipeline) : Prop where
  pool : s.logging.Pool
  whole : ∃ file, Whole file s.logging ∧ Holds gmtime_r file s.logging.phase s.output

/-- **Step lemma.**  A step that is due is taken. -/
theorem piped_of_next (hgmtime : TimeZone.IsGmtime gmtime_r) (hfwrite : fwrite.Complete)
    (hs : Piped gmtime_r s) (he : s.Proper e) {result : Except Fault Pipeline}
    (hnext : s.next gmtime_r fwrite e = some result) :
    ∃ t, result = .ok t ∧ Piped gmtime_r t := by
  obtain ⟨logging, hlogging, rfl⟩ := Option.map_eq_some_iff.mp hnext
  obtain ⟨t, rfl, hstep⟩ := AsyncLogging.step_cases hs.pool hlogging
  obtain ⟨file, hwhole, hholds⟩ := hs.whole
  obtain ⟨output, hfile, hout⟩ := file_of_step hgmtime hfwrite hs.pool hholds he.2 hstep
  refine ⟨{ s with logging := t, output := output }, ?_, AsyncLogging.pool_of_step hs.pool hstep,
    _, whole_of_step hs.pool hwhole he.1 hstep, hout⟩
  rw [hfile]
  rfl

theorem piped_start (basename : Bytes) (rollSize : Int) :
    Piped gmtime_r { basename_ := basename, rollSize_ := rollSize } :=
  ⟨AsyncLogging.pool_init, [], .empty, rfl, rfl⟩

/-- Where the lines are: those in front whole in the files, those behind whole in the buffers. -/
def Kept (s : Pipeline) : Prop :=
  ∃ written pending, s.logging.lines = written ++ pending ∧
    Grouped pending (chunks (buffered s.logging)) ∧
    match s.output with
    | none => written = []
    | some output => LogFile.Sound written output

theorem Piped.kept (h : Piped gmtime_r s) : Kept s := by
  obtain ⟨file, hwhole, hholds⟩ := h.whole
  obtain ⟨written, pending, hlines, hwritten, hpending⟩ := hwhole.split
  refine ⟨written, pending, hlines, hpending, ?_⟩
  cases houtput : s.output with
  | none =>
    rw [houtput] at hholds
    rw [hholds.1] at hwritten
    obtain ⟨groups, rfl, hnil⟩ := hwritten
    rw [eq_comm, List.map_eq_nil_iff] at hnil
    rw [hnil]
    rfl
  | some output =>
    rw [houtput] at hholds
    obtain ⟨-, hinv, -⟩ := hholds
    obtain ⟨groups, hgroups, hdata⟩ := hinv.whole
    -- the lines are whole in the buffers, and these in the files
    obtain ⟨inner, hinner, hfiles⟩ := hwritten.trans ⟨groups, hgroups, hdata⟩
    have hsound : LogFile.Whole written output.files := ⟨inner, hinner, hfiles⟩
    exact ⟨hsound, hsound.concatenated, hinv.names, hinv.period⟩

/-- A step notes the line it appends, and no other does. -/
theorem lines_of_step (hstep : Step gmtime_r fwrite s e t) :
    t.logging.lines = s.logging.lines ++ e.label.line?.toList := by
  obtain ⟨result, hlogging, heq⟩ := Option.map_eq_some_iff.mp hstep
  obtain ⟨logging, hresult, hrest⟩ := ok_of_bind heq
  obtain ⟨output, -, hdone⟩ := ok_of_bind hrest
  cases hdone
  cases ok_of_mapError hresult
  exact AsyncLogging.lines_of_next hlogging

/-- **All the way.**  Whatever the threads do and the clock shows, no step of the logger or of its
log file fails; and the lines of all calls of `append`, in the order in which they took the mutex,
are those in the files and behind them those in the buffers, each whole in one file or in one
buffer. -/
theorem lines_kept (hgmtime : TimeZone.IsGmtime gmtime_r) (hfwrite : fwrite.Complete)
    {basename : Bytes} {rollSize : Int} {es : List Event}
    (h : Run (Guarded (Step gmtime_r fwrite) Proper)
      { basename_ := basename, rollSize_ := rollSize } es s) :
    s.logging.lines = es.filterMap (fun e ↦ e.label.line?) ∧ Kept s ∧
      ∀ e, s.Proper e → ∀ fault, s.next gmtime_r fwrite e ≠ some (.error fault) := by
  have hlines : s.logging.lines = es.filterMap fun e ↦ e.label.line? :=
    h.history (fun s ↦ s.logging.lines) (fun e ↦ e.label.line?) fun _ _ _ hstep ↦
      lines_of_step hstep.1
  have hpiped := h.invariant (Piped gmtime_r) (fun s e t hs hstep ↦ ?_)
    (piped_start basename rollSize)
  · refine ⟨hlines, hpiped.kept, fun e he fault herror ↦ ?_⟩
    obtain ⟨t, ht, -⟩ := piped_of_next hgmtime hfwrite hpiped he herror
    cases ht
  · obtain ⟨u, hu, hpiped⟩ := piped_of_next hgmtime hfwrite hs hstep.2 hstep.1
    cases hu
    exact hpiped

/-- The backend starts, and a line comes. -/
theorem lines_kept_started :
    ∃ gmtime_r fwrite s, Run (Guarded (Step gmtime_r fwrite) Proper)
        { basename_ := ascii "log.", rollSize_ := 1000 }
        [⟨.start, 1, { now := 1 }⟩, ⟨.append [7], 1, { now := 1 }⟩] s ∧
      chunks [s.logging.currentBuffer_] = [[7]] ∧ s.logging.lines = [[7]] ∧ Kept s ∧
      ∀ e, s.Proper e → ∀ fault, s.next gmtime_r fwrite e ≠ some (.error fault) := by
  have hgmtime := TimeZone.isGmtime_toUtcTime
  have hclock : InRange 1 ∧ InRange ({ now := 1 } : Reading).now := by decide
  obtain ⟨output, hnew, -⟩ :=
    @LogFile.exists_new _ _ hgmtime (ascii "log.") 1000 3 1024 (by decide) hclock.2
  have hstart : Step (fun t ↦ (TimeZone.toUtcTime t true).getD {})
      ⟨fun _ asked ↦ asked, fun _ _ ↦ Nat.le_refl _⟩
      { basename_ := ascii "log.", rollSize_ := 1000 } ⟨.start, 1, { now := 1 }⟩
      { basename_ := ascii "log.", rollSize_ := 1000, output := some output, logging :=
        { running_ := true, newBuffer1 := some .new, newBuffer2 := some .new, phase :=
        .testing } } := by
    simp only [Step, next, file, hnew]
    rfl
  have hrun := show Run (Guarded (Step _ _) Proper) _
      [⟨.start, 1, { now := 1 }⟩, ⟨.append [7], 1, { now := 1 }⟩] _ from
    .cons ⟨hstart, trivial, hclock⟩ (.cons ⟨rfl, show 1 < kLargeBuffer by decide, hclock⟩ (.nil _))
  exact ⟨_, _, _, hrun, rfl, lines_kept hgmtime (fun _ _ ↦ rfl) hrun⟩

end Pipeline

end Pallette
