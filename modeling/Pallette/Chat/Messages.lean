import Pallette.Chat.ChatCodec

/-!
# Messages — what one side of a chat sends, the other side gets

The codec closes the connection at a length above 65535, and does not look at the length when it
sends.
-/

open Reasoning

namespace Pallette.LengthHeaderCodec

variable {messages new before after : List Bytes} {message stream rest more wire : Bytes}
    {chunk : Bytes}
  {chunks : List Bytes} {inbox : Inbox} {buf : Buffer} {r : Ending (List Bytes) UInt8 Unit}

/-! ## Sending -/

/-- The input buffer of a connection, before anything has arrived. -/
def fresh : Buffer :=
  ⟨List.replicate (Buffer.kPrePrePend + kInitalSize) 0, Buffer.kPrePrePend, Buffer.kPrePrePend⟩

theorem new_eq_fresh : Buffer.new kInitalSize = .ok fresh := by
  decide +kernel

theorem send_eq (h : send message = .ok wire) : wire = frame message := by
  obtain ⟨empty, hnew, h⟩ := ok_of_bind h
  obtain ⟨body, happend, h⟩ := ok_of_bind h
  obtain ⟨whole, hprepend, h⟩ := ok_of_bind h
  cases h
  obtain ⟨hempty, hnone⟩ := Buffer.new_whole (by decide) hnew
  obtain ⟨hbody, hcontent⟩ := Buffer.append_ok hempty.toWellFormed happend
  obtain ⟨-, hwhole⟩ := Buffer.prepend_wellFormed hbody hprepend
  rw [hwhole, hcontent, hnone, List.nil_append]
  rfl

/-- A message the codec itself would take fits a buffer. -/
theorem send_returns (h : message.length ≤ 65535) : send message = .ok (frame message) := by
  obtain ⟨hfresh, hnone⟩ := Buffer.new_whole (by decide) new_eq_fresh
  have hreadable : fresh.readableBytes = 0 := rfl
  have hmax : Buffer.maxSize = 2 ^ 63 - 1 := rfl
  have hreserve : Buffer.kPrePrePend = 8 := rfl
  obtain ⟨body, happend, hbody, hread, -⟩ | ⟨-, hfull⟩ :=
    @Buffer.append_of_reserve fresh message hfresh.toWellFormed hfresh.reserve (by omega)
  case inr => exact absurd hfull (by omega)
  obtain ⟨whole, hprepend⟩ := Buffer.prepend_returns hbody
    (show (Buffer.hostToNetwork 4 (BitVec.ofNat 32 message.length)).length ≤ body.readIndex_ by
      rw [Buffer.length_hostToNetwork]
      omega)
  have hsent : send message = .ok whole.content := by
    simp only [send, new_eq_fresh, bind, Except.bind, happend, Buffer.prependInt32, hprepend, pure,
      Except.pure]
  rw [hsent, send_eq hsent]

/-! ## Reading one message -/

theorem step_nil (messages : List Bytes) : decoder.step messages [] = .wait :=
  rfl

theorem lengthOf_frame (message rest : Bytes) :
    lengthOf (frame message ++ rest) = (BitVec.ofNat 32 message.length).toInt := by
  have htake : (frame message ++ rest).take kHeaderLen =
      Buffer.hostToNetwork 4 (BitVec.ofNat 32 message.length) := by
    rw [frame, List.append_assoc]
    exact List.take_left' (Buffer.length_hostToNetwork 4 _)
  rw [lengthOf, htake, Buffer.networkToHost_hostToNetwork]

theorem length_frame (message : Bytes) : (frame message).length = kHeaderLen + message.length := by
  rw [frame, List.length_append, Buffer.length_hostToNetwork]
  rfl

theorem body_frame (message rest : Bytes) :
    (frame message ++ rest).drop kHeaderLen = message ++ rest := by
  rw [frame, List.append_assoc]
  exact List.drop_left' (Buffer.length_hostToNetwork 4 _)

theorem toInt_of_short {n : Nat} (h : n ≤ 65535) : (BitVec.ofNat 32 n).toInt = n := by
  rw [BitVec.toInt_eq_toNat_of_lt] <;> rw [BitVec.toNat_ofNat, Nat.mod_eq_of_lt (by omega)]
  omega

theorem not_refused_frame (h : message.length ≤ 65535) (rest : Bytes) :
    ¬ Refused (frame message ++ rest) := by
  rw [Refused, lengthOf_frame, toInt_of_short h]
  omega

/-- A message that is short enough is taken from the front. -/
theorem consumes_frame (h : message.length ≤ 65535) :
    decoder.Consumes messages (frame message ++ rest) r ↔
    decoder.Consumes (messages ++ [message]) rest r := by
  have hlength : (lengthOf (frame message ++ rest)).toNat = message.length := by
    rw [lengthOf_frame, toInt_of_short h, Int.toNat_natCast]
  have hstep : decoder.step messages (frame message ++ rest) = _ :=
    verdict_whole (not_refused_frame h rest)
      (by rw [hlength, List.length_append, length_frame]; omega)
  have hdrop : (frame message ++ rest).drop (message.length + kHeaderLen) = rest := by
    rw [Nat.add_comm, ← List.drop_drop, body_frame, List.drop_left]
  rw [Consumer.consumes_iff_of_next hstep, hlength, body_frame, List.take_left, hdrop]

theorem frames_cons (message : Bytes) (new : List Bytes) :
    frames (message :: new) = frame message ++ frames new :=
  rfl

theorem consumes_frames (h : ∀ message ∈ new, message.length ≤ 65535) :
    decoder.Consumes messages (frames new ++ rest) r ↔
    decoder.Consumes (messages ++ new) rest r := by
  induction new generalizing messages with
  | nil => rw [List.append_nil]; rfl
  | cons message new ih =>
    rw [frames_cons, List.append_assoc, consumes_frame (h message List.mem_cons_self),
      ih fun m hm ↦ h m (List.mem_cons_of_mem _ hm), ← List.append_cons]

/-- What has been delivered stays delivered. -/
theorem prefix_of_consumes (h : decoder.Consumes messages stream r) : messages <+: r.state := by
  induction h with
  | wait _ => exact List.prefix_rfl
  | @halt messages t stream n e hhalt =>
    have hverdict : verdict messages stream = _ := hhalt
    unfold verdict at hverdict
    split_ifs at hverdict
    cases hverdict
    exact List.prefix_rfl
  | @next messages t stream n r hnext _ ih =>
    have hverdict : verdict messages stream = _ := hnext
    unfold verdict at hverdict
    split_ifs at hverdict
    cases hverdict
    exact (List.prefix_append _ _).trans ih

/-- The codec delivers no message longer than the longest it does not refuse. -/
theorem short_of_consumes (h : decoder.Consumes messages stream r)
    (hshort : ∀ message ∈ messages, message.length ≤ 65535) :
    ∀ message ∈ r.state, message.length ≤ 65535 := by
  induction h with
  | wait _ => exact hshort
  | @halt messages t stream n e hhalt =>
    have hverdict : verdict messages stream = _ := hhalt
    unfold verdict at hverdict
    split_ifs at hverdict
    cases hverdict
    exact hshort
  | @next messages t stream n r hnext _ ih =>
    have hverdict : verdict messages stream = _ := hnext
    unfold verdict at hverdict
    split_ifs at hverdict with hless hrefused hwhole
    cases hverdict
    apply ih
    intro message hmem
    obtain hold | hnew := List.mem_append.mp hmem
    · exact hshort message hold
    · rw [List.mem_singleton.mp hnew, List.length_take]
      unfold Refused at hrefused
      omega

/-- The codec delivers what is found in the stream. -/
theorem state_of_consumes (h : decoder.Consumes messages stream r) :
    r.state = messages ++ found stream := by
  induction h with
  | @wait messages stream hwait =>
    have hverdict : verdict messages stream = _ := hwait
    unfold verdict at hverdict
    rw [found, if_neg, List.append_nil]
    · rfl
    · split_ifs at hverdict <;> omega
  | @halt messages t stream n e hhalt =>
    have hverdict : verdict messages stream = _ := hhalt
    unfold verdict at hverdict
    split_ifs at hverdict with hshort hrefused
    cases hverdict
    rw [found, if_neg fun hwhole ↦ hwhole.1 hrefused, List.append_nil]
    rfl
  | @next messages t stream n r hnext _ ih =>
    have hverdict : verdict messages stream = _ := hnext
    unfold verdict at hverdict
    split_ifs at hverdict with hshort hrefused hwhole
    cases hverdict
    have hfirst := found.eq_def stream
    rw [if_pos ⟨hrefused, hwhole⟩] at hfirst
    rw [ih, hfirst, ← List.append_cons]

theorem found_frames (h : ∀ message ∈ new, message.length ≤ 65535) : found (frames new) = new := by
  have hall := (@consumes_frames [] new [] _ h).mpr (.wait (step_nil _))
  rw [List.append_nil] at hall
  exact (state_of_consumes hall).symm

/-- Where the codec has closed the connection, the length it refused is still in front. -/
theorem refused_of_halted {e : Unit} (h : decoder.Consumes messages stream (.halted new rest e)) :
    kHeaderLen ≤ rest.length ∧ Refused rest := by
  generalize hr : Ending.halted new rest e = r at h
  induction h with
  | wait _ => cases hr
  | @halt messages t stream n e hhalt =>
    cases hr
    have hverdict : verdict messages stream = _ := hhalt
    unfold verdict at hverdict
    split_ifs at hverdict with hshort hrefused
    cases hverdict
    exact ⟨Nat.le_of_not_lt hshort, hrefused⟩
  | next _ _ ih => exact ih hr

/-- A message that is too long is not delivered: the codec closes the connection, or, where the
length has wrapped around in the header, it delivers no more than a part. -/
theorem consumes_long (h : 65535 < message.length)
    (hends : decoder.Consumes messages (frame message ++ rest) r) :
    (r = .halted messages (frame message ++ rest) ()) ∨
      (2 ^ 32 ≤ message.length ∧ ∃ part, part.length < message.length ∧
      messages ++ [part] <+: r.state) := by
  by_cases hrefused : Refused (frame message ++ rest)
  · have hstep : decoder.step messages (frame message ++ rest) = _ := verdict_refused
      (by rw [List.length_append, length_frame]; omega) hrefused
    exact .inl ((Consumer.consumes_iff_of_halt hstep).mp hends)
  · right
    have hlength := lengthOf_frame message rest
    have hbounds := hrefused
    rw [Refused, hlength] at hbounds
    have hwrapped : 2 ^ 32 ≤ message.length := by
      by_contra hlt
      have hsigned := BitVec.toInt_eq_toNat_cond (BitVec.ofNat 32 message.length)
      rw [BitVec.toNat_ofNat, Nat.mod_eq_of_lt (by omega)] at hsigned
      split at hsigned <;> omega
    refine ⟨hwrapped, (message ++ rest).take (lengthOf (frame message ++ rest)).toNat, ?_, ?_⟩
    · rw [List.length_take, hlength]
      omega
    · have hstep : decoder.step messages (frame message ++ rest) = _ := verdict_whole hrefused
        (by rw [hlength, List.length_append, length_frame]; omega)
      have hrest := prefix_of_consumes ((Consumer.consumes_iff_of_next hstep).mp hends)
      rwa [body_frame] at hrest

/-! ## Chunks -/

/-- What a reader of `stream` has delivered, and what is in its buffer. -/
structure CaughtUp (stream : Bytes) (inbox : Inbox) (buf : Buffer) : Prop where
  whole : buf.Whole
  consumed : decoder.Consumes [] stream
    (if inbox.closed then .halted inbox.messages buf.content ()
    else .waiting inbox.messages buf.content)

theorem CaughtUp.short (h : CaughtUp stream inbox buf) :
    ∀ message ∈ inbox.messages, message.length ≤ 65535 := by
  have hshort := short_of_consumes h.consumed (fun _ hmem ↦ absurd hmem List.not_mem_nil)
  split at hshort <;> exact hshort

theorem CaughtUp.messages_eq (h : CaughtUp stream inbox buf) : inbox.messages = found stream := by
  have hstate := state_of_consumes h.consumed
  split at hstate <;> exact hstate

theorem foldl_put (new : List Bytes) (inbox : Inbox) :
    new.foldl Inbox.put inbox = { inbox with messages := inbox.messages ++ new } := by
  induction new generalizing inbox with
  | nil => simp
  | cons message new ih =>
    rw [List.foldl_cons, ih]
    simp [Inbox.put]

theorem CaughtUp.length_le (h : CaughtUp stream inbox buf) :
    buf.content.length ≤ stream.length := by
  have hconsumed := h.consumed
  split at hconsumed
  · exact hconsumed.halted_suffix.length_le
  · exact hconsumed.waiting_suffix.length_le

/-- One call of `onMessage`, whatever the user does with the messages. -/
theorem onMessage_caughtUp {σ : Type} {messageCallback_ : σ → Bytes → σ} {forceClose : σ → σ}
    {c : Buffer} (h : CaughtUp stream inbox buf) (happend : buf.append chunk = .ok c) (s : σ) :
    ∃ new closed buf', CaughtUp (stream ++ chunk) ⟨inbox.messages ++ new, closed⟩ buf' ∧
      (inbox.closed → new = [] ∧ closed = true) ∧
      onMessage messageCallback_ forceClose c s = .ok (if closed
      then forceClose (new.foldl messageCallback_ s)
        else new.foldl messageCallback_ s, buf') := by
  have hpassed := Buffer.passes_append h.whole happend
  have hcontent := hpassed.content
  rw [List.nil_append] at hcontent
  have hconsumed := h.consumed
  cases hclosed : inbox.closed with
  | false =>
    rw [hclosed, if_neg Bool.false_ne_true] at hconsumed
    obtain ⟨new, buf', hbuf', hends⟩ :=
      @onMessage_consumes _ messageCallback_ forceClose c hpassed.whole inbox.messages s
    rw [← hcontent] at hends
    obtain ⟨hcall, hend⟩ | ⟨hcall, hend⟩ := hends
    · exact ⟨new, false, buf', ⟨hbuf', hconsumed.resume hend⟩, by rintro ⟨⟩, hcall⟩
    · exact ⟨new, true, buf', ⟨hbuf', hconsumed.resume hend⟩, by rintro ⟨⟩, hcall⟩
  | true =>
    -- the length the codec refused is still in front
    rw [hclosed, if_pos rfl] at hconsumed
    have hmore := hconsumed.append_of_halted chunk
    rw [hcontent] at hmore
    obtain ⟨hlong, hrefused⟩ := refused_of_halted hmore
    refine ⟨[], true, c, ⟨hpassed.whole, ?_⟩, fun _ ↦ ⟨rfl, rfl⟩,
      onMessage_refused hpassed.whole.toWellFormed hlong hrefused⟩
    rw [List.append_nil]
    exact hmore

theorem handleRead_caughtUp (h : CaughtUp stream inbox buf)
    (hfits : Buffer.kPrePrePend + (stream ++ chunk).length ≤ Buffer.maxSize) :
    ∃ inbox' buf', handleRead Inbox.put Inbox.close buf inbox chunk = .ok (inbox', buf') ∧
      CaughtUp (stream ++ chunk) inbox' buf' ∧ (inbox.closed → inbox' = inbox) := by
  have hle := h.length_le
  have hlength := h.whole.length_content
  rw [List.length_append] at hfits
  obtain ⟨c, happend, -⟩ | ⟨-, hmax⟩ :=
    @Buffer.append_of_reserve buf chunk h.whole.toWellFormed h.whole.reserve (by omega)
  case inr => exact absurd hmax (by omega)
  obtain ⟨new, closed, buf', hcaught, hkept, hcall⟩ :=
    @onMessage_caughtUp _ _ _ _ _ Inbox.put Inbox.close c h happend inbox
  refine ⟨⟨inbox.messages ++ new, closed⟩, buf', ?_, hcaught, fun hclosed ↦ ?_⟩
  · rw [handleRead, happend]
    dsimp only
    rw [hcall, foldl_put]
    obtain ⟨messages, before⟩ := inbox
    cases before <;> cases closed <;> simp_all [Inbox.close]
  · obtain ⟨rfl, rfl⟩ := hkept hclosed
    rw [List.append_nil, ← hclosed]

theorem receive_caughtUp (h : CaughtUp stream inbox buf)
    (hfits : Buffer.kPrePrePend + (stream ++ chunks.flatten).length ≤ Buffer.maxSize) :
    ∃ inbox' buf', receive Inbox.put Inbox.close buf inbox chunks = .ok (inbox', buf') ∧
      CaughtUp (stream ++ chunks.flatten) inbox' buf' ∧ (inbox.closed → inbox' = inbox) := by
  induction chunks generalizing stream inbox buf with
  | nil => exact ⟨inbox, buf, rfl, by rwa [List.flatten_nil, List.append_nil], fun _ ↦ rfl⟩
  | cons chunk chunks ih =>
    rw [List.flatten_cons, ← List.append_assoc] at hfits ⊢
    have hfits' : Buffer.kPrePrePend + (stream ++ chunk).length ≤ Buffer.maxSize := by
      rw [List.length_append] at hfits
      omega
    obtain ⟨inbox₁, buf₁, hread, h₁, hclosed⟩ := handleRead_caughtUp h hfits'
    obtain ⟨inbox', buf', hrest, h', hclosed'⟩ := ih h₁ hfits
    refine ⟨inbox', buf', ?_, h', fun hc ↦ ?_⟩
    · rw [receive, hread]
      exact hrest
    · have hsame := hclosed hc
      rw [hclosed' (by rw [hsame, hc]), hsame]

theorem caughtUp_fresh : CaughtUp [] {} fresh := by
  obtain ⟨hwhole, hcontent⟩ := Buffer.new_whole (by decide) new_eq_fresh
  refine ⟨hwhole, ?_⟩
  rw [if_neg Bool.false_ne_true, hcontent]
  exact .wait (step_nil [])

/-- Two ways to cut a stream leave the user and the reader with the same. -/
theorem CaughtUp.unique {inbox' : Inbox} {buf' : Buffer} (h : CaughtUp stream inbox buf)
    (h' : CaughtUp stream inbox' buf') : inbox = inbox' ∧ buf.content = buf'.content := by
  have hends := h.consumed.deterministic h'.consumed
  obtain ⟨messages, closed⟩ := inbox
  obtain ⟨messages', closed'⟩ := inbox'
  cases closed <;> cases closed'
  · obtain ⟨rfl, hcontent⟩ := Ending.waiting.inj hends
    exact ⟨rfl, hcontent⟩
  · cases hends
  · cases hends
  · obtain ⟨rfl, hcontent, -⟩ := Ending.halted.inj hends
    exact ⟨rfl, hcontent⟩

theorem receive_append (buf : Buffer) (inbox : Inbox) (chunks more : List Bytes) :
    receive Inbox.put Inbox.close buf inbox (chunks ++ more) =
      match receive Inbox.put Inbox.close buf inbox chunks with
      | .error e => .error e
      | .ok (inbox, buf) => receive Inbox.put Inbox.close buf inbox more := by
  induction chunks generalizing buf inbox with
  | nil => rfl
  | cons chunk chunks ih =>
    rw [List.cons_append, receive, receive]
    cases handleRead Inbox.put Inbox.close buf inbox chunk with
    | error e => rfl
    | ok next => exact ih next.2 next.1

/-- **Chunks.**  How a stream is cut changes neither what is delivered nor what is left unread; and
behind a length the codec refuses nothing is delivered any more, whatever else arrives. -/
theorem receive_chunks (chunks : List Bytes)
    (hfits : Buffer.kPrePrePend + chunks.flatten.length ≤ Buffer.maxSize) :
    ∃ inbox buf, receive Inbox.put Inbox.close fresh {} chunks = .ok (inbox, buf) ∧
      (∀ chunks' : List Bytes, chunks'.flatten = chunks.flatten →
        ∃ buf', receive Inbox.put Inbox.close fresh {} chunks' = .ok (inbox, buf') ∧
          buf'.content = buf.content) ∧
      (inbox.closed → ∀ more : List Bytes,
        Buffer.kPrePrePend + (chunks ++ more).flatten.length ≤ Buffer.maxSize →
          ∃ buf', receive Inbox.put Inbox.close fresh {} (chunks ++ more) = .ok (inbox, buf')) := by
  obtain ⟨inbox, buf, hreceive, hcaught, -⟩ := receive_caughtUp caughtUp_fresh hfits
  refine ⟨inbox, buf, hreceive, fun chunks' hsame ↦ ?_, fun hclosed more hmore ↦ ?_⟩
  · rw [← hsame] at hfits hcaught
    obtain ⟨inbox', buf', hreceive', hcaught', -⟩ := receive_caughtUp caughtUp_fresh hfits
    obtain ⟨rfl, hcontent⟩ := hcaught.unique hcaught'
    exact ⟨buf', hreceive', hcontent.symm⟩
  · rw [List.flatten_append] at hmore
    obtain ⟨inbox', buf', hrest, -, hkept⟩ := receive_caughtUp hcaught hmore
    obtain rfl := hkept hclosed
    refine ⟨buf', ?_⟩
    rw [receive_append, hreceive]
    exact hrest

theorem receive_chunks_split :
    ∃ inbox buf buf', receive Inbox.put Inbox.close fresh {} [[0, 0], [0, 1, 65, 0]] =
      .ok (inbox, buf) ∧
      receive Inbox.put Inbox.close fresh {} [[0, 0, 0], [1], [65], [0]] = .ok (inbox, buf') ∧
      buf'.content = buf.content := by
  obtain ⟨inbox, buf, hreceive, hcut, -⟩ := receive_chunks [[0, 0], [0, 1, 65, 0]] (by decide)
  obtain ⟨buf', hreceive', hcontent⟩ := hcut [[0, 0, 0], [1], [65], [0]] rfl
  exact ⟨inbox, buf, buf', hreceive, hreceive', hcontent⟩

/-! ## From one side to the other -/

theorem sends_eq {wires : List Bytes} (h : messages.mapM send = .ok wires) :
    wires.flatten = frames messages := by
  induction messages generalizing wires with
  | nil =>
    cases h
    rfl
  | cons message messages ih =>
    rw [List.mapM_cons] at h
    obtain ⟨wire, hwire, h⟩ := ok_of_bind h
    obtain ⟨wires', hwires, h⟩ := ok_of_bind h
    cases h
    rw [List.flatten_cons, ih hwires, send_eq hwire, frames_cons]

theorem frames_append (before after : List Bytes) :
    frames (before ++ after) = frames before ++ frames after := by
  rw [frames, List.map_append, List.flatten_append]
  rfl

theorem caughtUp_of_short (h : CaughtUp (frames messages) inbox buf)
    (hshort : ∀ message ∈ messages, message.length ≤ 65535) :
    inbox = ⟨messages, false⟩ ∧ buf.content = [] := by
  have hall := (@consumes_frames [] messages [] _ hshort).mpr (.wait (step_nil _))
  rw [List.append_nil] at hall
  have hends := h.consumed.deterministic hall
  obtain ⟨delivered, closed⟩ := inbox
  cases closed
  · obtain ⟨rfl, hcontent⟩ := Ending.waiting.inj hends
    exact ⟨rfl, hcontent⟩
  · cases hends

/-- At the first message that is too long the codec closes the connection, or delivers no more than
a part of it. -/
theorem caughtUp_of_long (h : CaughtUp (frames (before ++ message :: after)) inbox buf)
    (hbefore : ∀ message ∈ before, message.length ≤ 65535) (hlong : 65535 < message.length) :
    inbox = ⟨before, true⟩ ∨
      (2 ^ 32 ≤ message.length ∧ ∃ part, part.length < message.length ∧
      before ++ [part] <+: inbox.messages) := by
  have hconsumed := h.consumed
  rw [frames_append, frames_cons, consumes_frames hbefore, List.nil_append] at hconsumed
  have hends := consumes_long hlong hconsumed
  obtain ⟨delivered, closed⟩ := inbox
  cases closed
  · exact .inr (hends.resolve_left fun heq ↦ by cases heq)
  · obtain heq | hpart := hends
    · obtain ⟨rfl, -⟩ := Ending.halted.inj heq
      exact .inl rfl
    · exact .inr hpart

theorem exists_first_long (h : ¬ ∀ message ∈ messages, message.length ≤ 65535) :
    ∃ before message after, messages = before ++ message :: after ∧
      (∀ message ∈ before, message.length ≤ 65535) ∧ 65535 < message.length := by
  induction messages with
  | nil => exact absurd (fun _ hmem ↦ absurd hmem List.not_mem_nil) h
  | cons message messages ih =>
    by_cases hshort : message.length ≤ 65535
    · have hrest : ¬ ∀ message ∈ messages, message.length ≤ 65535 := fun hall ↦
        h fun m hm ↦ (List.mem_cons.mp hm).elim (fun heq ↦ heq ▸ hshort) (hall m)
      obtain ⟨before, long, after, rfl, hbefore, hlong⟩ := ih hrest
      refine ⟨message :: before, long, after, rfl, fun m hm ↦ ?_, hlong⟩
      exact (List.mem_cons.mp hm).elim (fun heq ↦ heq ▸ hshort) (hbefore m)
    · exact ⟨[], message, messages, rfl, fun _ hmem ↦ absurd hmem List.not_mem_nil,
        Nat.lt_of_not_le hshort⟩

/-- **Conversation.**  However the stream of what one side sends is cut, the other side is handed
exactly the messages sent if each has at most 65535 bytes, and only then; a longer one, whose length
fits the header, closes the connection behind the messages in front of it. -/
theorem delivered_iff {wires : List Bytes} (hsent : messages.mapM send = .ok wires)
    (hcut : chunks.flatten = wires.flatten)
    (hfits : Buffer.kPrePrePend + wires.flatten.length ≤ Buffer.maxSize) :
    ∃ inbox buf, receive Inbox.put Inbox.close fresh {} chunks = .ok (inbox, buf) ∧
      (inbox.messages = messages ↔ ∀ message ∈ messages, message.length ≤ 65535) ∧
      (inbox.messages = messages → inbox.closed = false ∧ buf.content = []) ∧
      ∀ before message after, messages = before ++ message :: after →
        (∀ message ∈ before, message.length ≤ 65535) → 65535 < message.length →
        message.length < 2 ^ 32 →
          inbox = ⟨before, true⟩ := by
  rw [← hcut] at hfits
  obtain ⟨inbox, buf, hreceive, hcaught, -⟩ := receive_caughtUp caughtUp_fresh hfits
  rw [List.nil_append, hcut, sends_eq hsent] at hcaught
  have hall : inbox.messages = messages → ∀ message ∈ messages, message.length ≤ 65535 := by
    intro hsame
    by_contra hsome
    obtain ⟨before, message, after, rfl, hbefore, hlong⟩ := exists_first_long hsome
    obtain rfl | ⟨-, part, hpart, hprefix⟩ := caughtUp_of_long hcaught hbefore hlong
    · exact List.cons_ne_nil _ _ (List.append_right_eq_self.mp hsame.symm)
    · rw [hsame, List.prefix_append_right_inj, List.cons_prefix_cons] at hprefix
      exact absurd (congrArg List.length hprefix.1) (Nat.ne_of_lt hpart)
  refine ⟨inbox, buf, hreceive, ⟨hall, fun hshort ↦ ?_⟩, fun hsame ↦ ?_, ?_⟩
  · rw [(caughtUp_of_short hcaught hshort).1]
  · obtain ⟨hinbox, hempty⟩ := caughtUp_of_short hcaught (hall hsame)
    rw [hinbox]
    exact ⟨rfl, hempty⟩
  · rintro before message after rfl hbefore hlong hheader
    obtain hclosed | ⟨hwrapped, -⟩ := caughtUp_of_long hcaught hbefore hlong
    · exact hclosed
    · omega

/-- Two messages, the second empty, in chunks that end inside a length and inside a body. -/
theorem delivered_iff_two :
    ∃ inbox buf, receive Inbox.put Inbox.close fresh {} [[0, 0], [0, 2, 104], [105, 0, 0, 0], [0]] =
      .ok (inbox, buf) ∧ inbox.messages = [[104, 105], []] := by
  obtain ⟨inbox, buf, hreceive, hiff, -⟩ := @delivered_iff [[104, 105], []]
    [[0, 0], [0, 2, 104], [105, 0, 0, 0], [0]] [[0, 0, 0, 2, 104, 105], [0, 0, 0, 0]]
    (by decide +kernel) rfl (by decide)
  exact ⟨inbox, buf, hreceive, hiff.mpr (by decide)⟩

end Pallette.LengthHeaderCodec
