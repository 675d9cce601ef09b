import Pallette.Log.LogStream
import Pallette.Reasoning.Run

/-!
# AsyncLogging — the frontend, the backend thread and `stop`

The steps are what happens under the mutex, one buffer handed to `LogFile::append`, and the test of
`running_`.  A smart pointer is an `Option`; taking from it leaves `none`.  `wait_for` may return at
any time, after its timeout, after `notify_one` or for no reason, so that the notifications need no
steps.
-/

open Reasoning

namespace Pallette

namespace AsyncLogging

abbrev Buffer := LogBuffer kLargeBuffer
abbrev BufferPtr := Option Buffer

inductive Fault
  | assertion
  | nullPointer
deriving DecidableEq, Repr

/-- Where the backend thread is. -/
inductive Phase
  | unstarted
  -- at the head of the `while`
  | testing
  -- before the lock, and in `wait_for`
  | locking
  | waiting
  -- in the `for`, with so many buffers written
  | writing (k : Nat)
  | finished
deriving DecidableEq, Repr

/-- Where the thread that calls `stop` is. -/
inductive Stopper
  | idle
  | joining
  | returned
deriving DecidableEq, Repr

inductive Label
  | start
  | append (line : Bytes)
  | test
  | lock
  | wake
  | write
  | recycle
  | stop
  | join

end AsyncLogging

open AsyncLogging

/-- `newBuffer1`, `newBuffer2` and `buffersToWrite` are the locals of `threadFunc`.  What has been
passed to `LogFile::append`, and the lines in the order in which `append` took the mutex for them,
are noted. -/
structure AsyncLogging where
  running_ : Bool := false
  currentBuffer_ : BufferPtr := some .new
  nextBuffer_ : BufferPtr := some .new
  buffers_ : List BufferPtr := []
  newBuffer1 : BufferPtr := none
  newBuffer2 : BufferPtr := none
  buffersToWrite : List BufferPtr := []
  phase : Phase := .unstarted
  stopper : Stopper := .idle
  output : Bytes := []
  lines : List Bytes := []

namespace AsyncLogging

variable (s : AsyncLogging)

/-- `append`, all of it under the mutex. -/
def append (line : Bytes) : Except Fault AsyncLogging :=
  match s.currentBuffer_ with
  | none => .error .nullPointer
  | some current =>
      let s := { s with lines := s.lines ++ [line] }
      if line.length < current.avail then
        .ok { s with currentBuffer_ := some (current.append line) }
      else
        let s := { s with buffers_ := s.buffers_ ++ [some current] }
        match s.nextBuffer_ with
        | some next => .ok { s with currentBuffer_ := some (next.append line), nextBuffer_ := none }
        | none => .ok { s with currentBuffer_ := some (LogBuffer.new.append line) }

/-- The part of the backend's critical section behind the wait, and the assertion behind the
section. -/
def swapBuffers : Except Fault AsyncLogging :=
  let s := { s with buffers_ := s.buffers_ ++ [s.currentBuffer_] }
  let s := { s with currentBuffer_ := s.newBuffer1, newBuffer1 := none }
  let s := { s with buffersToWrite := s.buffers_, buffers_ := s.buffersToWrite }
  let s :=
    match s.nextBuffer_ with
    | some _ => s
    | none => { s with nextBuffer_ := s.newBuffer2, newBuffer2 := none }
  if s.buffersToWrite = [] then .error .assertion else .ok { s with phase := .writing 0 }

/-- `output.append` for one of the buffers. -/
def write (k : Nat) (ptr : BufferPtr) : Except Fault AsyncLogging :=
  match ptr with
  | none => .error .nullPointer
  | some b => .ok { s with output := s.output ++ b.data, phase := .writing (k + 1) }

/-- What becomes of a spare behind the writing: if it is gone, the last of the written buffers. -/
def refill (spare : BufferPtr) (written : List BufferPtr) :
    Except Fault (BufferPtr × List BufferPtr) :=
  match spare with
  | some b => .ok (some b, written)
  | none =>
      match written.getLast? with
      | none => .error .assertion
      | some none => .error .nullPointer
      | some (some b) => .ok (some b.reset, written.dropLast)

/-- The rest of an iteration. -/
def recycle : Except Fault AsyncLogging := do
  let written := if 2 < s.buffersToWrite.length then s.buffersToWrite.take 2 else s.buffersToWrite
  let (newBuffer1, written) ← refill s.newBuffer1 written
  let (newBuffer2, _) ← refill s.newBuffer2 written
  return { s with
    newBuffer1 := newBuffer1, newBuffer2 := newBuffer2, buffersToWrite := [], phase := .testing }

/-- One step; `none` when it is not due. -/
def next : Label → Option (Except Fault AsyncLogging)
  | .start =>
      if s.phase = .unstarted then
        -- `start` returns when the backend has got past its first assertion
        some (.ok { s with
          running_ := true, newBuffer1 := some .new, newBuffer2 := some .new, phase := .testing })
      else none
  | .append line => some (s.append line)
  | .test =>
      if s.phase = .testing then
        if s.running_ = false then some (.ok { s with phase := .finished })
        else if s.buffersToWrite ≠ [] then some (.error .assertion)
        else some (.ok { s with phase := .locking })
      else none
  | .lock =>
      if s.phase = .locking then
        if s.buffers_ = [] then some (.ok { s with phase := .waiting }) else some s.swapBuffers
      else none
  | .wake => if s.phase = .waiting then some s.swapBuffers else none
  | .write =>
      match s.phase with
      | .writing k => (s.buffersToWrite[k]?).map (s.write k)
      | _ => none
  | .recycle =>
      match s.phase with
      | .writing k => if k = s.buffersToWrite.length then some s.recycle else none
      | _ => none
  | .stop =>
      if s.phase ≠ .unstarted ∧ s.stopper = .idle then
        some (.ok { s with running_ := false, stopper := .joining })
      else none
  | .join =>
      if s.phase = .finished ∧ s.stopper = .joining then some (.ok { s with stopper := .returned })
        else none

def Step (s : AsyncLogging) (l : Label) (t : AsyncLogging) : Prop :=
  s.next l = some (.ok t)

/-- Lines that fit into an empty buffer. -/
def ShortLine (_ : AsyncLogging) : Label → Prop
  | .append line => line.length < kLargeBuffer
  | _ => True

/-- What the buffers of a list hold, one after the other. -/
def contents (buffers : List BufferPtr) : Bytes :=
  buffers.flatMap fun ptr ↦ (ptr.map LogBuffer.data).getD []

/-- The buffers of `buffersToWrite` that have not been written yet. -/
def unwritten : List BufferPtr :=
  match s.phase with
  | .writing k => s.buffersToWrite.drop k
  | _ => s.buffersToWrite

end AsyncLogging

end Pallette
