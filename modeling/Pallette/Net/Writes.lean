import Pallette.Net.Offers

/-!
# Writes — what the counters and the queue make of a write

`step_effect` says of any step what it adds to the bytes accepted, to the counters and to the queue,
in terms of what the kernel was offered and of the bytes that wait before the step and behind it.
-/

namespace Pallette.TcpConnection

/-- What a write adds to `bytesSent_`. -/
def counted (writeComplete : Bool) (offer : Option (Bytes × WriteResult)) : Nat :=
  if writeComplete ∧ finished offer then (taken offer).length else 0

/-- What a write adds to the queue. -/
def completions (writeComplete : Bool) (offer : Option (Bytes × WriteResult)) : List Functor :=
  if writeComplete ∧ finished offer then [.writeComplete] else []

/-- What an append to the output buffer adds to the queue. -/
def crossings (highWater : Bool) (mark before after : Nat) : List Functor :=
  if mark ≤ after ∧ before < mark ∧ highWater then [.highWaterMark after] else []

theorem crossings_of_le {highWater : Bool} {mark before after : Nat} (h : after ≤ before) :
    crossings highWater mark before after = [] :=
  if_neg (by omega)

theorem counted_of_not {writeComplete : Bool} {offer : Option (Bytes × WriteResult)}
    (h : finished offer = false) : counted writeComplete offer = 0 :=
  if_neg (by rw [h]; simp)

theorem completions_of_not {writeComplete : Bool} {offer : Option (Bytes × WriteResult)}
    (h : finished offer = false) : completions writeComplete offer = [] :=
  if_neg (by rw [h]; simp)

/-- What a write of what is offered does. -/
structure Writes (s t : TcpConnection) (offer : Option (Bytes × WriteResult)) : Prop where
  accepted : accepted t.trace = accepted s.trace ++ taken offer
  bytesSent : t.bytesSent_ = s.bytesSent_ + counted s.writeCompleteCallback_ offer
  bytesReceived : t.bytesReceived_ = s.bytesReceived_
  writeComplete : t.writeCompleteCallback_ = s.writeCompleteCallback_
  highWaterMark : t.highWaterMarkCallback_ = s.highWaterMarkCallback_ ∧
    t.highWaterMark_ = s.highWaterMark_
  queue : t.pendingFunctors_ = s.pendingFunctors_ ++ (completions s.writeCompleteCallback_ offer ++
    crossings s.highWaterMarkCallback_ s.highWaterMark_ s.outputBuffer_.length
      t.outputBuffer_.length)

section

variable {s t : TcpConnection} {l : Label}

theorem writes_nothing {offer : Option (Bytes × WriteResult)} (hnothing : taken offer = [])
    (hshort : finished offer = false) : Writes s s offer where
  accepted := by rw [hnothing, List.append_nil]
  bytesSent := by rw [counted_of_not hshort, Nat.add_zero]
  bytesReceived := rfl
  writeComplete := rfl
  highWaterMark := ⟨rfl, rfl⟩
  queue := by rw [completions_of_not hshort, crossings_of_le (Nat.le_refl _)]; simp

/-- Some of the bytes are written, and some are not. -/
theorem writes_part {bytes : Bytes} {n : Nat} (hrest : bytes.drop n ≠ [])
    (hoffer : ∃ output, t = { s with
      outputBuffer_ := output
      trace := s.trace ++ [.written (bytes.take n)] } ∧ output.length ≤ s.outputBuffer_.length) :
    Writes s t (some (bytes, .count n)) := by
  have hshort : finished (some (bytes, .count n)) = false := decide_eq_false hrest
  obtain ⟨output, rfl, hle⟩ := hoffer
  refine ⟨?_, by rw [counted_of_not hshort, Nat.add_zero], rfl, rfl, ⟨rfl, rfl⟩, ?_⟩
  · simp [accepted, Event.bytes, taken]
  · rw [completions_of_not hshort, crossings_of_le hle]
    simp

/-- The last of what there is to write: the counter, the notice, and nothing that waits. -/
theorem writes_whole {bytes : Bytes} {n : Nat} (hall : bytes.drop n = [])
    (hoffer : ∃ output channel es, t = { s with
      outputBuffer_ := output
      channel_ := channel
      bytesSent_ := s.bytesSent_ + (if s.writeCompleteCallback_ then bytes.length else 0)
      pendingFunctors_ := s.pendingFunctors_ ++ (if s.writeCompleteCallback_ then [.writeComplete]
      else [])
      trace := s.trace ++ .written (bytes.take n) :: es } ∧ accepted es = [] ∧
      output.length ≤ s.outputBuffer_.length) :
    Writes s t (some (bytes, .count n)) := by
  have hfinished : finished (some (bytes, .count n)) = true := decide_eq_true hall
  have htaken : taken (some (bytes, .count n)) = bytes :=
    List.take_of_length_le (List.drop_eq_nil_iff.mp hall)
  obtain ⟨output, channel, es, rfl, hsilent, hle⟩ := hoffer
  refine ⟨?_, ?_, rfl, rfl, ⟨rfl, rfl⟩, ?_⟩
  · have hes : accepted (.written (bytes.take n) :: es) = bytes.take n ++ accepted es := by
      simp [accepted, Event.bytes]
    rw [accepted_append, hes, hsilent, List.append_nil]
    rfl
  · rw [counted, htaken, hfinished]
    simp
  · rw [completions, hfinished, crossings_of_le hle]
    simp

theorem notifyWriteComplete_eq (s : TcpConnection) (n : Nat) :
    s.notifyWriteComplete n = { s with
      bytesSent_ := s.bytesSent_ + (if s.writeCompleteCallback_ then n else 0)
      pendingFunctors_ := s.pendingFunctors_ ++ (if s.writeCompleteCallback_ then [.writeComplete]
      else []) } := by
  unfold notifyWriteComplete
  split
  · rfl
  · rw [List.append_nil]
    rfl

theorem keep_eq (s : TcpConnection) (remaining : Bytes) :
    ∃ channel, s.keep remaining = { s with
      outputBuffer_ := s.outputBuffer_ ++ remaining
      channel_ := channel
      pendingFunctors_ := s.pendingFunctors_ ++ crossings s.highWaterMarkCallback_ s.highWaterMark_
        s.outputBuffer_.length (s.outputBuffer_ ++ remaining).length } := by
  rw [List.length_append]
  simp only [keep, notifyHighWaterMark, crossings]
  split
  · split <;> exact ⟨_, rfl⟩
  · rw [List.append_nil]
    split <;> exact ⟨_, rfl⟩

theorem writes_tryWrite (hs : s.state_ ≠ .kDisconnected) (message : Bytes) (result : WriteResult) :
    let a := s.tryWrite message result
    Writes s a.after (s.offer message result) ∧ a.after.outputBuffer_ = s.outputBuffer_ := by
  -- `sendInLoop` writes itself only in front of an empty buffer
  by_cases hdirect : s.channel_.isWriting = false ∧ s.outputBuffer_ = []
  · rw [tryWrite, if_pos (by simpa using hdirect), offer, if_pos ⟨hs, hdirect⟩]
    cases result with
    | error e => exact ⟨writes_nothing rfl rfl, rfl⟩
    | count n =>
      dsimp only [directWrite]
      by_cases hall : message.drop n = []
      · rw [if_pos hall, notifyWriteComplete_eq]
        exact ⟨writes_whole hall ⟨_, _, [], rfl, rfl, Nat.le_refl _⟩, rfl⟩
      · rw [if_neg hall]
        exact ⟨writes_part hall ⟨_, rfl, Nat.le_refl _⟩, rfl⟩
  · rw [tryWrite, if_neg (by simpa using hdirect), offer, if_neg (fun h ↦ hdirect h.2)]
    exact ⟨writes_nothing rfl rfl, rfl⟩

theorem writes_sendInLoop (hs : s.state_ ≠ .kDisconnected) (caller : Caller) (message : Bytes)
    (result : WriteResult) :
    Writes s (s.sendInLoop caller message result) (s.offer message result) := by
  obtain ⟨htried, houtput⟩ := writes_tryWrite (s := s.record (.processed caller message)) hs
    message result
  have hrecord : accepted (s.record (.processed caller message)).trace = accepted s.trace := by
    simp [TcpConnection.record, accepted, Event.bytes]
  obtain ⟨haccepted, hsent, hreceived, hcallback, hwater, hqueue⟩ := htried
  rw [hrecord] at haccepted
  -- the write it tries leaves the buffer alone: only what it keeps can cross the mark
  rw [houtput, crossings_of_le (Nat.le_refl _), List.append_nil] at hqueue
  simp only [sendInLoop, if_neg hs]
  generalize (s.record (.processed caller message)).tryWrite message result = a at *
  split
  · obtain ⟨channel, hkept⟩ := keep_eq a.after a.remaining
    rw [hkept]
    refine ⟨haccepted, hsent, hreceived, hcallback, hwater, ?_⟩
    dsimp only
    rw [hqueue, hwater.1, hwater.2, houtput, List.append_assoc]
    rfl
  · refine ⟨haccepted, hsent, hreceived, hcallback, hwater, ?_⟩
    rw [houtput]
    change _ = _ ++ (_ ++ crossings _ _ s.outputBuffer_.length s.outputBuffer_.length)
    rw [crossings_of_le (Nat.le_refl _), List.append_nil]
    exact hqueue

theorem drained_fields (s : TcpConnection) (n : Nat) :
    ∃ es, s.drained n = { s with
        channel_ := s.channel_.disableWriting
        bytesSent_ := s.bytesSent_ + (if s.writeCompleteCallback_ then n else 0)
        pendingFunctors_ := s.pendingFunctors_ ++ (if s.writeCompleteCallback_ then [.writeComplete]
        else [])
        trace := s.trace ++ es } ∧ accepted es = [] := by
  simp only [drained, notifyWriteComplete_eq, shutdownInLoop]
  split
  · split
    · exact ⟨[], by rw [List.append_nil], rfl⟩
    · exact ⟨[.shutdownWrite], rfl, rfl⟩
  · exact ⟨[], by rw [List.append_nil], rfl⟩

theorem writes_handleWrite (hwriting : s.channel_.isWriting = true) (hfull : s.outputBuffer_ ≠ [])
    (result : WriteResult) : Writes s (s.handleWrite result) (some (s.outputBuffer_, result)) := by
  have hshorter (n : Nat) : (s.outputBuffer_.drop n).length ≤ s.outputBuffer_.length := by
    rw [List.length_drop]
    exact Nat.sub_le _ _
  cases result with
  | error e => exact writes_nothing rfl rfl
  | count n =>
    -- `handleWrite` looks only at a positive result
    by_cases hpos : 0 < n
    · have hwrote : s.handleWrite (.count n) =
          if s.outputBuffer_.drop n = [] then
            (s.afterWrite n).drained (s.outputBuffer_.take n).length
          else s.afterWrite n := if_pos ⟨hwriting, hpos, hfull⟩
      rw [hwrote]
      split
      next hall =>
        rw [List.take_of_length_le (List.drop_eq_nil_iff.mp hall)]
        obtain ⟨es, hdrained, hsilent⟩ := drained_fields (s.afterWrite n) s.outputBuffer_.length
        have htrace : (s.afterWrite n).trace ++ es = s.trace ++
            .written (s.outputBuffer_.take n) :: es :=
          (List.append_cons _ _ _).symm
        rw [hdrained, htrace]
        exact writes_whole hall ⟨_, s.channel_.disableWriting, es, rfl, hsilent, hshorter n⟩
      next hrest => exact writes_part hrest ⟨_, rfl, hshorter n⟩
    · -- a write of no bytes
      have hzero : n = 0 := Nat.eq_zero_of_not_pos hpos
      rw [handleWrite, if_neg (fun h ↦ hpos h.2.1), hzero]
      exact writes_nothing rfl (decide_eq_false hfull)

/-! ## One step -/

/-- What any step does to the bytes accepted, to the counters and to the queue. -/
structure Effect (s : TcpConnection) (l : Label) (t : TcpConnection) : Prop where
  accepted : accepted t.trace = accepted s.trace ++ taken (s.offered l)
  bytesSent : t.bytesSent_ = s.bytesSent_ + counted s.writeCompleteCallback_ (s.offered l)
  bytesReceived : t.bytesReceived_ = s.bytesReceived_ + (s.obtained l).length
  writeComplete : t.writeCompleteCallback_ = s.writeCompleteCallback_
  highWaterMark : t.highWaterMarkCallback_ = s.highWaterMarkCallback_ ∧
    t.highWaterMark_ = s.highWaterMark_
  queue : ∃ cbs, (∀ cb ∈ cbs, ¬ cb.isNotice) ∧ t.pendingFunctors_ = s.waiting l ++ (cbs ++
    (completions s.writeCompleteCallback_ (s.offered l) ++
      crossings s.highWaterMarkCallback_ s.highWaterMark_ s.outputBuffer_.length
        t.outputBuffer_.length))

/-- A write behind what a step does first. -/
theorem effect_of_writes {u : TcpConnection} (hidle : Idle (s.prepare l) u)
    (hwrites : Writes u t (s.offered l)) :
    Effect s l t := by
  obtain ⟨es, hprepare, hsilent, -, -⟩ := s.prepare_eq l
  rw [hprepare] at hidle
  obtain ⟨houtput, ⟨hsent, hreceived⟩, hcallback, ⟨hhighWater, hmark⟩, haccepted, -, -, cbs, hqueue,
      hnotice⟩ :=
    hidle
  dsimp only at *
  rw [accepted_append, hsilent, List.append_nil] at haccepted
  refine ⟨?_, ?_, ?_, hwrites.writeComplete.trans hcallback,
    ⟨hwrites.highWaterMark.1.trans hhighWater, hwrites.highWaterMark.2.trans hmark⟩, cbs,
    hnotice, ?_⟩
  · rw [hwrites.accepted, haccepted]
  · rw [hwrites.bytesSent, hsent, hcallback]
  · rw [hwrites.bytesReceived, hreceived]
  · rw [hwrites.queue, hqueue, hcallback, hhighWater, hmark, houtput, List.append_assoc]

/-- **One step.** -/
theorem step_effect (h : Step s l t) : Effect s l t := by
  cases step_acts h with
  | @send caller message result hs hoffered _ _ ht =>
    have hwrites := writes_sendInLoop hs caller message result
    rw [← hoffered, ← ht] at hwrites
    exact effect_of_writes (.refl _) hwrites
  | @write u result hidle hwriting hfull hoffered _ ht =>
    have hwrites := writes_handleWrite hwriting hfull result
    rw [← hoffered, ← ht] at hwrites
    exact effect_of_writes hidle hwrites
  | idle hidle hnone _ =>
    refine effect_of_writes hidle ?_
    rw [hnone]
    exact writes_nothing rfl rfl

end

end Pallette.TcpConnection
