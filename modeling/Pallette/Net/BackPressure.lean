import Pallette.Net.Writes

/-!
# BackPressure — what the application is told about the bytes that wait

`writeCompleteCallback_` is queued when the last byte is gone, `highWaterMarkCallback_` when a send
takes what waits across the mark.  Of a step it matters what the kernel was offered and what
`sendInLoop` took over: `Progress` says what both do to the output buffer and to the queue.
-/

open Reasoning

namespace Pallette.TcpConnection

/-- The functors a step adds. -/
def added (s : TcpConnection) (l : Label) (t : TcpConnection) : List Functor :=
  t.pendingFunctors_.drop (s.waiting l).length

/-- In the step the kernel accepts the last byte of all that has been sent; what another thread
sends counts from when the loop takes it over. -/
def LastByte (s t : TcpConnection) : Prop :=
  accepted t.trace ≠ accepted s.trace ∧ accepted t.trace = concat (processed t.trace)

/-- A send takes the bytes that wait across the mark, to the given size. -/
def Crosses (s t : TcpConnection) (size : Nat) : Prop :=
  (∃ message, processed t.trace = processed s.trace ++ [message]) ∧
    s.outputBuffer_.length < s.highWaterMark_ ∧ s.highWaterMark_ ≤ t.outputBuffer_.length ∧
    size = t.outputBuffer_.length

/-- What a step says about the bytes: the message `sendInLoop` takes over, if any, is that of the
call or of the functor, and each of the two notices comes exactly where it is due, and once. -/
structure Signals (s : TcpConnection) (l : Label) (t : TcpConnection) : Prop where
  taken : processed t.trace = processed s.trace ++ (s.handed l).toList
  queue : t.pendingFunctors_ = s.waiting l ++ s.added l t
  writeComplete : .writeComplete ∈ s.added l t ↔ LastByte s t
  highWaterMark : ∀ size, .highWaterMark size ∈ s.added l t ↔ Crosses s t size
  once : ∀ cb, cb.isNotice → (s.added l t).count cb ≤ 1

/-- The steps the run is made of: the connection is up, the socket is not found dead, no message is
empty. -/
def Goes (s : TcpConnection) (l : Label) : Prop :=
  s.state_ = .kConnected ∧ l.Soft ∧ ∀ message, l.Sends message → message ≠ []

/-- On the way a step writes, and takes what waits below the mark. -/
def DrainsBelow (mark : Nat) (s : TcpConnection) (ls : List Label) (t : TcpConnection) : Prop :=
  ∃ before l after u v, ls = before ++ l :: after ∧ Run (Guarded Step Goes) s before u ∧
    Guarded Step Goes u l v ∧ Run (Guarded Step Goes) v after t ∧
    mark ≤ u.outputBuffer_.length ∧ v.outputBuffer_.length < mark ∧
    accepted v.trace ++ v.outputBuffer_ = accepted u.trace ++ u.outputBuffer_

section

variable {s t : TcpConnection} {l : Label}

/-! ## One step -/

/-- What holds in the run: both callbacks are there, and what has been sent is not empty. -/
structure Watched (mark : Nat) (s : TcpConnection) : Prop where
  sending : s.Alive → Sending s
  writeComplete : s.writeCompleteCallback_ = true
  highWater : s.highWaterMarkCallback_ = true
  mark : s.highWaterMark_ = mark
  nonempty : ∀ p ∈ sent s.trace, p.2 ≠ []

/-- What a step takes over from the senders (`done`) and from the output buffer. -/
structure Progress (s : TcpConnection) (l : Label) (t : TcpConnection)
    (done : List (Caller × Bytes)) : Prop where
  effect : Effect s l t
  bytes : taken (s.offered l) ++ t.outputBuffer_ = s.outputBuffer_ ++ concat done
  processed : processed t.trace = processed s.trace ++ done
  single : done = [] ∨ ∃ p, done = [p]
  offers : ∀ bytes result, s.offered l = some (bytes, result) →
    bytes = s.outputBuffer_ ++ concat done ∧ bytes ≠ [] ∧ (done = [] ∨ s.outputBuffer_ = [])

/-- What is moved behind what a step does first. -/
theorem progress_of_moves {u : TcpConnection} {done : List (Caller × Bytes)}
    (heffect : Effect s l t)
    (hidle : Idle (s.prepare l) u) (hmoves : Moves u t done) (hsingle : done = [] ∨ ∃ p, done = [p])
    (hoffers : ∀ bytes result, s.offered l = some (bytes, result) →
      bytes = u.outputBuffer_ ++ concat done ∧ bytes ≠ [] ∧ (done = [] ∨ u.outputBuffer_ = [])) :
    Progress s l t done := by
  obtain ⟨es, hprepare, hsilent, hprocessed, -⟩ := s.prepare_eq l
  have houtput := hidle.output
  have haccepted := hidle.accepted
  have hprocessed' := hidle.processed
  rw [hprepare] at houtput haccepted hprocessed'
  dsimp only at houtput haccepted hprocessed'
  -- what `prepare` notes is neither a byte written nor a message taken over
  rw [accepted_append, hsilent, List.append_nil] at haccepted
  rw [processed_append, hprocessed, List.append_nil] at hprocessed'
  rw [houtput] at hoffers
  refine ⟨heffect, ?_, ?_, hsingle, hoffers⟩
  · have hbytes := hmoves.bytes
    rw [heffect.accepted, haccepted, houtput, List.append_assoc, List.append_assoc] at hbytes
    exact List.append_cancel_left hbytes
  · rw [hmoves.processed, hprocessed']

/-- What waits in the queue has been sent. -/
theorem mem_sent_of_queued (h : Sending s) {p : Caller × Bytes}
    (hp : p ∈ queued s.pendingFunctors_) :
    p ∈ sent s.trace := by
  have hmine : p.2 ∈ ofCaller p.1 (sent s.trace) := by
    rw [h.order, ofCaller_append]
    refine List.mem_append_left _ (List.mem_append_right _ ?_)
    exact List.mem_map_of_mem (List.mem_filter.mpr ⟨hp, decide_eq_true rfl⟩)
  obtain ⟨q, hq, heq⟩ := List.mem_map.mp hmine
  obtain ⟨hq, hcaller⟩ := List.mem_filter.mp hq
  rwa [← Prod.ext (of_decide_eq_true hcaller) heq]

variable {mark : Nat}

theorem step_progress (hw : Watched mark s) (hgoes : Goes s l) (h : Step s l t) :
    Progress s l t (s.handed l).toList := by
  obtain ⟨hconnected, hsoft, hnonempty⟩ := hgoes
  have hsending := hw.sending (.inl hconnected)
  have heffect := step_effect h
  cases step_acts h with
  | @send caller message result hs hoffered hhanded hresult ht =>
    -- a message is sent in this step, or it waits in the queue since an earlier one
    have hne : message ≠ [] := by
      obtain hsends | hqueued := sends_or_queued hhanded
      · exact hnonempty message hsends
      · exact hw.nonempty _ (mem_sent_of_queued hsending hqueued)
    have hmoves := moves_sendInLoop hs caller message (hresult hsoft)
    rw [← ht] at hmoves
    rw [hhanded]
    refine progress_of_moves heffect (.refl _) hmoves (.inr ⟨_, rfl⟩) ?_
    intro bytes result' hsome
    rw [hoffered, offer] at hsome
    split at hsome
    next hdirect =>
      -- a message goes to the kernel itself only when nothing waits
      cases hsome
      rw [hdirect.2.2]
      exact ⟨(List.append_nil _).symm, hne, .inr rfl⟩
    next => cases hsome
  | @write u result hidle hwriting hfull hoffered hhanded ht =>
    have hmoves := moves_handleWrite u result
    rw [← ht] at hmoves
    rw [hhanded]
    refine progress_of_moves heffect hidle hmoves (.inl rfl) ?_
    intro bytes result' hsome
    cases hoffered.symm.trans hsome
    exact ⟨(List.append_nil _).symm, hfull, .inl rfl⟩
  | idle hidle hnone hhanded =>
    rw [hhanded]
    refine progress_of_moves heffect hidle (.refl t) (.inl rfl) ?_
    intro bytes result hsome
    cases hnone.symm.trans hsome

theorem watched_step (hw : Watched mark s) (h : Guarded Step Goes s l t) : Watched mark t := by
  obtain ⟨hstep, hgoes⟩ := h
  have hprogress := step_progress hw hgoes hstep
  have hsending := hw.sending (.inl hgoes.1)
  obtain ⟨-, -, -, hcallback, ⟨hhighWater, hmark⟩, -⟩ := hprogress.effect
  have hopen : s.state_ ≠ .kDisconnected := by
    rw [hgoes.1]
    decide
  refine ⟨hsending.step hopen hgoes.2.1 hstep, hcallback.trans hw.writeComplete,
    hhighWater.trans hw.highWater, hmark.trans hw.mark, ?_⟩
  intro p hp
  rw [sent_of_step hstep, sending, if_pos hgoes.1] at hp
  obtain hp | hp := List.mem_append.mp hp
  · exact hw.nonempty p hp
  · exact hgoes.2.2 _ (sends_of_send? (Option.mem_toList.mp hp))

namespace Progress

variable {done : List (Caller × Bytes)}

/-- What the step adds, with the functors that say nothing about the bytes in front. -/
theorem added_eq (hp : Progress s l t done) :
    t.pendingFunctors_ = s.waiting l ++ s.added l t ∧
      ∃ cbs, (∀ cb ∈ cbs, ¬ cb.isNotice) ∧ s.added l t = cbs ++
        (completions s.writeCompleteCallback_ (s.offered l) ++
          crossings s.highWaterMarkCallback_ s.highWaterMark_ s.outputBuffer_.length
            t.outputBuffer_.length) := by
  obtain ⟨cbs, hnotice, hqueue⟩ := hp.effect.queue
  have hadded := congrArg (List.drop (s.waiting l).length) hqueue
  rw [List.drop_left] at hadded
  refine ⟨?_, cbs, hnotice, hadded⟩
  rw [added, hadded, hqueue]

theorem finished_iff (hp : Progress s l t done) :
    finished (s.offered l) = true ↔ taken (s.offered l) ≠ [] ∧ t.outputBuffer_ = [] := by
  have hbytes := hp.bytes
  have hoffers := hp.offers
  cases hoffered : s.offered l with
  | none => simp [finished, taken]
  | some offer =>
    obtain ⟨bytes, result⟩ := offer
    cases result with
    | error e => simp [finished, taken]
    | count n =>
      obtain ⟨hall, hne, -⟩ := hoffers bytes _ hoffered
      rw [hoffered, ← hall, taken] at hbytes
      -- what is not taken waits
      have hrest : t.outputBuffer_ = bytes.drop n := by
        have hsplit := hbytes.trans (List.take_append_drop n bytes).symm
        exact List.append_cancel_left hsplit
      rw [finished, taken, decide_eq_true_iff, hrest]
      constructor
      · intro hdone
        refine ⟨fun hnothing ↦ hne ?_, hdone⟩
        rw [← List.take_append_drop n bytes, hnothing, hdone]
        rfl
      · exact And.right

theorem lastByte_iff (hp : Progress s l t done) (hsending : Sending s) :
    LastByte s t ↔ taken (s.offered l) ≠ [] ∧ t.outputBuffer_ = [] := by
  have htotal : TcpConnection.accepted t.trace ++ t.outputBuffer_ =
      concat (TcpConnection.processed t.trace) := by
    rw [hp.effect.accepted, hp.processed, concat_append, ← hsending.bytes, List.append_assoc,
      hp.bytes, List.append_assoc]
  unfold LastByte
  rw [← htotal]
  refine and_congr (not_congr ?_) ?_
  · rw [hp.effect.accepted]
    exact List.append_right_eq_self
  · exact List.self_eq_append_right

/-- Only a send lets more bytes wait than before. -/
theorem crosses_iff (hp : Progress s l t done) (size : Nat) :
    Crosses s t size ↔ s.outputBuffer_.length < s.highWaterMark_ ∧
      s.highWaterMark_ ≤ t.outputBuffer_.length ∧ size = t.outputBuffer_.length := by
  refine ⟨And.right, fun h ↦ ⟨?_, h⟩⟩
  obtain hnone | ⟨message, hsingle⟩ := hp.single
  · have hlength := congrArg List.length hp.bytes
    -- without a message the bytes that wait can only get fewer
    rw [hnone, List.length_append, List.length_append] at hlength
    change _ = s.outputBuffer_.length + 0 at hlength
    omega
  · exact ⟨message, by rw [hp.processed, hsingle]⟩

/-- Only a write lets fewer bytes wait, and the kernel has accepted the ones that are missing. -/
theorem drained_of_lt (hp : Progress s l t done)
    (h : t.outputBuffer_.length < s.outputBuffer_.length) :
    TcpConnection.accepted t.trace ++ t.outputBuffer_ = TcpConnection.accepted s.trace ++
      s.outputBuffer_ := by
  have hbytes := hp.bytes
  obtain rfl | ⟨message, rfl⟩ := hp.single
  · rw [hp.effect.accepted, List.append_assoc, hbytes]
    exact congrArg _ (List.append_nil _)
  · -- a message that is sent goes behind what waits
    exfalso
    have hlength := congrArg List.length hbytes
    rw [List.length_append, List.length_append] at hlength
    cases hoffered : s.offered l with
    | none =>
      rw [hoffered] at hlength
      change 0 + _ = _ at hlength
      omega
    | some offer =>
      obtain ⟨-, -, hone | hempty⟩ := hp.offers _ _ hoffered
      · cases hone
      · rw [hempty] at h
        exact absurd h (Nat.not_lt_zero _)

end Progress

theorem writeComplete_not_mem {highWater : Bool} {m before after : Nat} :
    Functor.writeComplete ∉ crossings highWater m before after := by
  unfold crossings
  split <;> simp

theorem highWaterMark_not_mem {writeComplete : Bool} {offer : Option (Bytes × WriteResult)}
    {size : Nat} :
    Functor.highWaterMark size ∉ completions writeComplete offer := by
  unfold completions
  split <;> simp

theorem writeComplete_iff {done : List (Caller × Bytes)} (hp : Progress s l t done)
    (hsending : Sending s) (hcallback : s.writeCompleteCallback_ = true) :
    .writeComplete ∈ s.added l t ↔ LastByte s t := by
  obtain ⟨-, cbs, hnotice, hadded⟩ := hp.added_eq
  have hfirst : Functor.writeComplete ∉ cbs := fun hmem ↦ hnotice _ hmem trivial
  rw [hp.lastByte_iff hsending, ← hp.finished_iff, hadded, List.mem_append, List.mem_append,
    completions, hcallback]
  cases finished (s.offered l) with
  | true => simp
  | false => simp [hfirst, writeComplete_not_mem]

theorem highWaterMark_iff {done : List (Caller × Bytes)} (hp : Progress s l t done)
    (hcallback : s.highWaterMarkCallback_ = true) (size : Nat) :
    .highWaterMark size ∈ s.added l t ↔ Crosses s t size := by
  obtain ⟨-, cbs, hnotice, hadded⟩ := hp.added_eq
  have hfirst : Functor.highWaterMark size ∉ cbs := fun hmem ↦ hnotice _ hmem trivial
  rw [hp.crosses_iff, hadded, List.mem_append, List.mem_append, crossings, hcallback]
  simp only [hfirst, highWaterMark_not_mem, false_or]
  split
  next hcross =>
    rw [List.mem_singleton, Functor.highWaterMark.injEq]
    exact ⟨fun h ↦ ⟨hcross.2.1, hcross.1, h⟩, fun h ↦ h.2.2⟩
  next hnot =>
    refine iff_of_false List.not_mem_nil ?_
    rintro ⟨hbefore, hafter, -⟩
    exact hnot ⟨hafter, hbefore, trivial⟩

theorem count_notice_le {done : List (Caller × Bytes)} (hp : Progress s l t done) {cb : Functor}
    (hcb : cb.isNotice) : (s.added l t).count cb ≤ 1 := by
  obtain ⟨-, cbs, hnotice, hadded⟩ := hp.added_eq
  have hfirst : cbs.count cb = 0 := List.count_eq_zero.mpr fun hmem ↦ hnotice cb hmem hcb
  rw [hadded, List.count_append, List.count_append, hfirst, Nat.zero_add]
  cases cb with
  | writeComplete =>
    rw [List.count_eq_zero.mpr writeComplete_not_mem, Nat.add_zero, completions]
    split <;> simp
  | highWaterMark size =>
    rw [List.count_eq_zero.mpr highWaterMark_not_mem, Nat.zero_add, crossings]
    split
    · exact List.count_le_length
    · exact Nat.zero_le _
  | _ => cases hcb

/-! ## Runs -/

theorem watched_established : Watched mark (established mark true true) :=
  ⟨fun _ ↦ sending_established mark true true, rfl, rfl,
    rfl, by simp [established, sent, Event.sent?]⟩

theorem drainsBelow_of_notices {ls : List Label} {u v : TcpConnection} {m : Label} {size : Nat}
    (ht : Watched mark t) (hover : mark ≤ t.outputBuffer_.length)
    (hrun : Run (Guarded Step Goes) t ls u)
    (h : Guarded Step Goes u m v) (hnotice : .highWaterMark size ∈ u.added m v) :
    DrainsBelow mark t ls u := by
  have hu : Watched mark u := hrun.invariant (Watched mark) (fun _ _ _ ↦ watched_step) ht
  have hprogress := step_progress hu h.2 h.1
  -- the second notice finds less than the mark, so some step in between came below it
  have hunder : ¬ mark ≤ u.outputBuffer_.length := by
    have hcrossed := (highWaterMark_iff hprogress hu.highWater size).mp hnotice
    rw [← hu.mark]
    exact Nat.not_le.mpr hcrossed.2.1
  obtain ⟨before, n, after, w, x, hls, hbefore, hstep, hafter, hfull, hlow⟩ :=
    hrun.exists_crossing (fun s ↦ mark ≤ s.outputBuffer_.length) hover hunder
  have hw : Watched mark w := hbefore.invariant (Watched mark) (fun _ _ _ ↦ watched_step) ht
  have hdrains := step_progress hw hstep.2 hstep.1
  exact ⟨before, n, after, w, x, hls, hbefore, hstep, hafter, hfull, Nat.not_le.mp hlow,
    hdrains.drained_of_lt (by omega)⟩

/-- **Back-pressure.**  In every run of an open connection with both callbacks a step queues
`writeCompleteCallback_` exactly if the kernel accepts the last byte of all that has been sent, and
`highWaterMarkCallback_` exactly if a send takes what waits across the mark; and between two notices
of the mark what waits has been written below it. -/
theorem backPressure {ls : List Label}
    (hrun : Run (Guarded Step Goes) (established mark true true) ls s)
    (h : Guarded Step Goes s l t) :
    Signals s l t ∧
    ∀ size, .highWaterMark size ∈ s.added l t → ∀ ls' u m v size', Run (Guarded Step Goes) t ls' u →
      Guarded Step Goes u m v → .highWaterMark size' ∈ u.added m v → DrainsBelow mark t ls' u := by
  have hw : Watched mark s :=
    hrun.invariant (Watched mark) (fun _ _ _ ↦ watched_step) watched_established
  have hprogress := step_progress hw h.2 h.1
  have hsending := hw.sending (.inl h.2.1)
  have hcross := highWaterMark_iff hprogress hw.highWater
  refine ⟨⟨hprogress.processed, hprogress.added_eq.1,
    writeComplete_iff hprogress hsending hw.writeComplete, hcross,
    fun cb ↦ count_notice_le hprogress⟩, ?_⟩
  intro size hfirst ls' u m v size' hrun' hu hsecond
  have hover : mark ≤ t.outputBuffer_.length := by
    have hcrossed := (hcross size).mp hfirst
    rw [← hw.mark]
    exact hcrossed.2.2.1
  exact drainsBelow_of_notices (watched_step hw h) hover hrun' hu hsecond

/-- Two sends across a mark of two bytes, with a write of all that waits between them. -/
theorem backPressure_twice :
    ∃ s t u, Guarded Step Goes (established 2 true true) (.call (.send [1, 2, 3]) (.count 1)) s ∧
      .highWaterMark 2 ∈ (established 2 true true).added (.call (.send [1, 2, 3]) (.count 1)) s ∧
      Run (Guarded Step Goes) s
        [.ret, .poll { EPOLLOUT := true }, .handleEvent, .readStage (.error .EWOULDBLOCK),
          .writeStage (.count 2)] t ∧
      .writeComplete ∈ t.pendingFunctors_ ∧
      Guarded Step Goes t (.call (.send [4, 5]) (.error .EWOULDBLOCK)) u ∧
      DrainsBelow 2 s
        [.ret, .poll { EPOLLOUT := true }, .handleEvent, .readStage (.error .EWOULDBLOCK),
          .writeStage (.count 2)] t := by
  have hsilent {s : TcpConnection} {l : Label} (hs : s.state_ = .kConnected) (hl : l.Soft)
      (hnone : ∀ message, ¬ l.Sends message) : Goes s l :=
    ⟨hs, hl, fun message h ↦ absurd h (hnone message)⟩
  have hsends {s : TcpConnection} {message : Bytes} {result : WriteResult}
      (hs : s.state_ = .kConnected) (hsoft : result.Soft) (hne : message ≠ []) :
      Goes s (.call (.send message) result) :=
    ⟨hs, hsoft, fun m hm ↦ hm ▸ hne⟩
  have hcount : (WriteResult.count 1).Soft := by simp [WriteResult.Soft]
  have hblocked : (WriteResult.error .EWOULDBLOCK).Soft := by simp [WriteResult.Soft]
  have hfirst : Guarded Step Goes (established 2 true true) (.call (.send [1, 2, 3]) (.count 1))
      ((established 2 true true).call (.send [1, 2, 3]) (.count 1)) :=
        ⟨rfl, hsends rfl hcount (by decide)⟩
  have hrun := show Run (Guarded Step Goes)
      ((established 2 true true).call (.send [1, 2, 3]) (.count 1))
      [.ret, .poll { EPOLLOUT := true }, .handleEvent, .readStage (.error .EWOULDBLOCK),
        .writeStage (.count 2)] _ from
    .cons ⟨rfl, hsilent rfl trivial fun _ ↦ id⟩ <| .cons ⟨rfl, hsilent rfl trivial fun _ ↦ id⟩ <|
    .cons ⟨rfl, hsilent rfl trivial fun _ ↦ id⟩ <| .cons ⟨rfl, hsilent rfl trivial fun _ ↦ id⟩ <|
    .cons ⟨rfl, hsilent rfl trivial fun _ ↦ id⟩ <| .nil _
  obtain ⟨hsignals, hdrains⟩ := backPressure (.nil _) hfirst
  have hnotice := (hsignals.highWaterMark 2).mpr ⟨⟨_, rfl⟩, by decide, by decide, rfl⟩
  refine ⟨_, _, _, hfirst, hnotice, hrun, by decide, ⟨rfl, hsends rfl hblocked (by decide)⟩, ?_⟩
  exact hdrains 2 hnotice _ _ (.call (.send [4, 5]) (.error .EWOULDBLOCK)) _ 2 hrun
    ⟨rfl, hsends rfl hblocked (by decide)⟩ (by decide)

end

end Pallette.TcpConnection
