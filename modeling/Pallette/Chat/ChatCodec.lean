import Pallette.Buffer.Integers
import Pallette.Reasoning.Consumer

/-!
# ChatCodec — messages behind a four byte length

`LengthHeaderCodec` of the chat example.  What the message callback and `forceClose` do to the rest
of the program is a parameter: they change a state `σ`.
-/

open Reasoning

namespace Pallette.LengthHeaderCodec

def kHeaderLen : Nat := 4

def kInitalSize : Nat := 1024

theorem readableBytes_of_retrieve {b c : Buffer} {len : Nat} (h : b.retrieve len = .ok c) :
    c.readableBytes + len = b.readableBytes := by
  unfold Buffer.retrieve at h
  split_ifs at h with hassert hless
  · cases h
    unfold Buffer.readableBytes at hassert hless ⊢
    dsimp only
    omega
  · cases h
    have hall : b.retrieveAll.readableBytes = 0 := Nat.sub_self _
    omega

section

variable {σ : Type} (messageCallback_ : σ → Bytes → σ) (forceClose : σ → σ)

/-- The loop of `onMessage`.  A length it does not like stays in the buffer. -/
def onMessage (buf : Buffer) (s : σ) : Except Buffer.Failure (σ × Buffer) :=
  if kHeaderLen ≤ buf.readableBytes then
    match buf.peekInt32 with
    | .error e => .error e
    | .ok len =>
        if 65535 < len.toInt ∨ len.toInt < 0 then .ok (forceClose s, buf)
        else if len.toInt.toNat + kHeaderLen ≤ buf.readableBytes then
          match _ : buf.retrieve kHeaderLen with
          | .error e => .error e
          | .ok body =>
              let message := window body.buffer_ body.readIndex_ len.toInt.toNat
              match _ : body.retrieve len.toInt.toNat with
              | .error e => .error e
              | .ok rest => onMessage rest (messageCallback_ s message)
        else .ok (s, buf)
  else .ok (s, buf)
termination_by buf.readableBytes
decreasing_by
  have hheader := readableBytes_of_retrieve ‹buf.retrieve kHeaderLen = .ok body›
  have hbody := readableBytes_of_retrieve ‹body.retrieve len.toInt.toNat = .ok rest›
  have hlen : kHeaderLen = 4 := rfl
  omega

/-- `handleRead` after a read of `chunk`, with the codec for message callback. -/
def handleRead (buf : Buffer) (s : σ) (chunk : Bytes) : Except Buffer.Failure (σ × Buffer) :=
  match buf.append chunk with
  | .error e => .error e
  | .ok buf => onMessage messageCallback_ forceClose buf s

/-- The chunks of a stream, one after the other. -/
def receive (buf : Buffer) (s : σ) : List Bytes → Except Buffer.Failure (σ × Buffer)
  | [] => .ok (s, buf)
  | chunk :: chunks =>
      match handleRead messageCallback_ forceClose buf s chunk with
      | .error e => .error e
      | .ok (s, buf) => receive buf s chunks

end

/-- `send`: the bytes it hands to the connection. -/
def send (message : Bytes) : Except Buffer.Failure Bytes := do
  let buf ← Buffer.new kInitalSize
  let buf ← buf.append message
  let buf ← buf.prependInt32 (BitVec.ofNat 32 message.length)
  return buf.content

/-- A user who keeps the messages, and whether the codec has closed the connection. -/
structure Inbox where
  messages : List Bytes := []
  closed : Bool := false
deriving DecidableEq, Repr

def Inbox.put (inbox : Inbox) (message : Bytes) : Inbox :=
  { inbox with messages := inbox.messages ++ [message] }

def Inbox.close (inbox : Inbox) : Inbox :=
  { inbox with closed := true }

/-! ## The stream -/

/-- A message in front of which its length stands. -/
def frame (message : Bytes) : Bytes :=
  Buffer.hostToNetwork 4 (BitVec.ofNat 32 message.length) ++ message

def frames (messages : List Bytes) : Bytes :=
  (messages.map frame).flatten

/-- The length the first four bytes of a stream give. -/
def lengthOf (stream : Bytes) : Int :=
  (Buffer.networkToHost 4 (stream.take kHeaderLen)).toInt

/-- A length at which the codec closes the connection. -/
def Refused (stream : Bytes) : Prop :=
  65535 < lengthOf stream ∨ lengthOf stream < 0

instance (stream : Bytes) : Decidable (Refused stream) :=
  inferInstanceAs (Decidable (_ ∨ _))

/-- The decisions of the codec, on the bytes that have not been read yet. -/
def verdict (messages : List Bytes) (stream : Bytes) : Verdict (List Bytes) Unit :=
  if stream.length < kHeaderLen then .wait
  else if Refused stream then .halt 0 messages ()
  else if (lengthOf stream).toNat + kHeaderLen ≤ stream.length then
    .next ((lengthOf stream).toNat + kHeaderLen)
      (messages ++ [(stream.drop kHeaderLen).take (lengthOf stream).toNat])
  else .wait

/-- The messages in a stream, up to a length the codec refuses. -/
def found (stream : Bytes) : List Bytes :=
  if ¬ Refused stream ∧ (lengthOf stream).toNat + kHeaderLen ≤ stream.length then
    (stream.drop kHeaderLen).take (lengthOf stream).toNat ::
      found (stream.drop ((lengthOf stream).toNat + kHeaderLen))
  else []
termination_by stream.length
decreasing_by
  have hlen : kHeaderLen = 4 := rfl
  rw [List.length_drop]
  omega

variable {messages : List Bytes} {stream more message : Bytes}

theorem verdict_refused (hlong : kHeaderLen ≤ stream.length) (h : Refused stream) :
    verdict messages stream = .halt 0 messages () := by
  rw [verdict, if_neg (by omega), if_pos h]

theorem verdict_whole (h : ¬ Refused stream)
    (hwhole : (lengthOf stream).toNat + kHeaderLen ≤ stream.length) :
    verdict messages stream = .next ((lengthOf stream).toNat + kHeaderLen)
      (messages ++ [(stream.drop kHeaderLen).take (lengthOf stream).toNat]) := by
  rw [verdict, if_neg (by omega), if_neg h, if_pos hwhole]

theorem verdict_incomplete (h : ¬ Refused stream)
    (hpart : ¬ (lengthOf stream).toNat + kHeaderLen ≤ stream.length) :
    verdict messages stream = .wait := by
  rw [verdict]
  split_ifs
  · rfl
  · rfl

theorem verdict_short (hshort : stream.length < kHeaderLen) : verdict messages stream = .wait := by
  rw [verdict, if_pos hshort]

theorem verdict_cases (messages : List Bytes) (stream : Bytes) :
    verdict messages stream = .wait ∨ (kHeaderLen ≤ stream.length ∧ Refused stream) ∨
      (¬ Refused stream ∧ (lengthOf stream).toNat + kHeaderLen ≤ stream.length) := by
  by_cases hshort : stream.length < kHeaderLen
  · exact .inl (verdict_short hshort)
  · by_cases hrefused : Refused stream
    · exact .inr (.inl ⟨Nat.le_of_not_lt hshort, hrefused⟩)
    · by_cases hwhole : (lengthOf stream).toNat + kHeaderLen ≤ stream.length
      · exact .inr (.inr ⟨hrefused, hwhole⟩)
      · exact .inl (verdict_incomplete hrefused hwhole)

theorem lengthOf_append (h : kHeaderLen ≤ stream.length) (more : Bytes) :
    lengthOf (stream ++ more) = lengthOf stream := by
  rw [lengthOf, List.take_append_of_le_length h]
  rfl

theorem refused_append (h : kHeaderLen ≤ stream.length) (more : Bytes) :
    Refused (stream ++ more) ↔ Refused stream := by
  unfold Refused
  rw [lengthOf_append h]

def decoder : Consumer (List Bytes) UInt8 Unit where
  step := verdict
  next_le := by
    intro messages stream n t h
    obtain hwait | ⟨hlong, hrefused⟩ | ⟨hrefused, hwhole⟩ := verdict_cases messages stream
    · rw [hwait] at h
      cases h
    · rw [verdict_refused hlong hrefused] at h
      cases h
    · rw [verdict_whole hrefused hwhole] at h
      cases h
      exact hwhole
  halt_le := by
    intro messages stream n t e h
    obtain hwait | ⟨hlong, hrefused⟩ | ⟨hrefused, hwhole⟩ := verdict_cases messages stream
    · rw [hwait] at h
      cases h
    · rw [verdict_refused hlong hrefused] at h
      cases h
      exact Nat.zero_le _
    · rw [verdict_whole hrefused hwhole] at h
      cases h
  stable := by
    intro messages stream more h
    obtain hwait | ⟨hlong, hrefused⟩ | ⟨hrefused, hwhole⟩ := verdict_cases messages stream
    · exact absurd hwait h
    · rw [verdict_refused hlong hrefused, verdict_refused (by rw [List.length_append]; omega)
        ((refused_append hlong more).mpr hrefused)]
    · have hlong : kHeaderLen ≤ stream.length := by omega
      have hlength := lengthOf_append hlong more
      have hbody : ((stream ++ more).drop kHeaderLen).take (lengthOf stream).toNat =
          (stream.drop kHeaderLen).take (lengthOf stream).toNat := by
        rw [List.drop_append_of_le_length hlong,
          List.take_append_of_le_length (by rw [List.length_drop]; omega)]
      rw [verdict_whole hrefused hwhole, verdict_whole (mt (refused_append hlong more).mp hrefused)
        (by rw [hlength, List.length_append]; omega), hlength, hbody]

/-! ## The codec on a buffer -/

section

variable {σ : Type} {messageCallback_ : σ → Bytes → σ} {forceClose : σ → σ} {buf : Buffer} {s : σ}

theorem window_content {n : Nat} (hn : n ≤ buf.readableBytes) :
    window buf.buffer_ buf.readIndex_ n = buf.content.take n := by
  rw [Buffer.content, window, window, List.take_take, Nat.min_eq_left hn]

theorem peekInt_content {n : Nat} (h : buf.WellFormed) (hn : n ≤ buf.readableBytes) :
    buf.peekInt n = .ok (Buffer.networkToHost n (buf.content.take n)) := by
  have hread := h.read_le
  have hwrite := h.write_le
  have hreadable : buf.readableBytes = buf.writeIndex_ - buf.readIndex_ := rfl
  rw [Buffer.peekInt, if_pos (by omega), window_content hn]

theorem peekInt32_toInt (h : buf.WellFormed) (hlong : kHeaderLen ≤ buf.content.length) :
    ∃ len, buf.peekInt32 = .ok len ∧ len.toInt = lengthOf buf.content := by
  rw [h.length_content] at hlong
  exact ⟨_, peekInt_content h hlong, rfl⟩

theorem onMessage_short (h : buf.WellFormed) (hshort : buf.content.length < kHeaderLen) :
    onMessage messageCallback_ forceClose buf s = .ok (s, buf) := by
  rw [h.length_content] at hshort
  rw [onMessage, if_neg (by omega)]

theorem onMessage_refused (h : buf.WellFormed) (hlong : kHeaderLen ≤ buf.content.length)
    (hrefused : Refused buf.content) :
    onMessage messageCallback_ forceClose buf s = .ok (forceClose s, buf) := by
  obtain ⟨len, hpeek, hlen⟩ := peekInt32_toInt h hlong
  rw [h.length_content] at hlong
  rw [onMessage, if_pos hlong, hpeek]
  dsimp only
  rw [hlen]
  exact if_pos hrefused

theorem onMessage_incomplete (h : buf.WellFormed) (hlong : kHeaderLen ≤ buf.content.length)
    (hrefused : ¬ Refused buf.content)
    (hpart : ¬ (lengthOf buf.content).toNat + kHeaderLen ≤ buf.content.length) :
    onMessage messageCallback_ forceClose buf s = .ok (s, buf) := by
  obtain ⟨len, hpeek, hlen⟩ := peekInt32_toInt h hlong
  rw [h.length_content] at hlong hpart
  rw [onMessage, if_pos hlong, hpeek]
  dsimp only
  rw [hlen]
  exact (if_neg hrefused).trans (if_neg hpart)

theorem onMessage_whole (h : buf.Whole) (hrefused : ¬ Refused buf.content)
    (hwhole : (lengthOf buf.content).toNat + kHeaderLen ≤ buf.content.length) :
    ∃ rest, rest.Whole ∧ rest.content =
      buf.content.drop ((lengthOf buf.content).toNat + kHeaderLen) ∧
      onMessage messageCallback_ forceClose buf s = onMessage messageCallback_ forceClose rest
        (messageCallback_ s ((buf.content.drop kHeaderLen).take (lengthOf buf.content).toNat)) := by
  obtain ⟨len, hpeek, hlen⟩ := peekInt32_toInt h.toWellFormed (by omega)
  have hlength := h.length_content
  obtain ⟨body, hbody⟩ := @Buffer.retrieve_returns buf kHeaderLen (by omega)
  have hpassed := Buffer.passes_retrieve h hbody
  obtain ⟨-, hcontent, -⟩ := Buffer.retrieve_wellFormed h.toWellFormed hbody
  have hreadable := readableBytes_of_retrieve hbody
  obtain ⟨rest, hrest⟩ := @Buffer.retrieve_returns body (lengthOf buf.content).toNat (by omega)
  obtain ⟨-, hcontent', -⟩ := Buffer.retrieve_wellFormed hpassed.whole.toWellFormed hrest
  have hmessage : window body.buffer_ body.readIndex_ (lengthOf buf.content).toNat =
      (buf.content.drop kHeaderLen).take (lengthOf buf.content).toNat := by
    rw [window_content (by omega), hcontent]
  refine ⟨rest, (Buffer.passes_retrieve hpassed.whole hrest).whole, ?_, ?_⟩
  · rw [hcontent', hcontent, List.drop_drop, Nat.add_comm]
  · rw [onMessage, if_pos (by omega), hpeek]
    dsimp only
    rw [hlen]
    refine (if_neg hrefused).trans ?_
    rw [if_pos (by omega)]
    split
    next herr => cases hbody.symm.trans herr
    next body' hbody' =>
      cases hbody.symm.trans hbody'
      rw [hmessage]
      split
      next herr => cases hrest.symm.trans herr
      next rest' hrest' =>
        cases hrest.symm.trans hrest'
        rfl

/-- `onMessage` follows the decisions of `decoder` on the content of the buffer. -/
theorem onMessage_consumes {buf : Buffer} (h : buf.Whole) (messages : List Bytes) (s : σ) :
    ∃ new buf', buf'.Whole ∧
      ((onMessage messageCallback_ forceClose buf s = .ok (new.foldl messageCallback_ s, buf') ∧
          decoder.Consumes messages buf.content (.waiting (messages ++ new) buf'.content)) ∨
        (onMessage messageCallback_ forceClose buf s =
          .ok (forceClose (new.foldl messageCallback_ s), buf') ∧
          decoder.Consumes messages buf.content (.halted (messages ++ new) buf'.content ()))) := by
  by_cases hshort : buf.content.length < kHeaderLen
  · refine ⟨[], buf, h, .inl ⟨onMessage_short h.toWellFormed hshort, ?_⟩⟩
    rw [List.append_nil]
    exact .wait (verdict_short hshort)
  by_cases hrefused : Refused buf.content
  · refine ⟨[], buf, h, .inr ⟨onMessage_refused h.toWellFormed (by omega) hrefused, ?_⟩⟩
    have hstep : decoder.step messages buf.content = _ := verdict_refused (by omega) hrefused
    rw [List.append_nil]
    exact .halt hstep
  by_cases hwhole : (lengthOf buf.content).toNat + kHeaderLen ≤ buf.content.length
  · obtain ⟨rest, hrest, hcontent, hnext⟩ :=
      @onMessage_whole σ messageCallback_ forceClose buf s h hrefused hwhole
    have hstep : decoder.step messages buf.content = _ := verdict_whole hrefused hwhole
    have hless : rest.content.length < buf.content.length := by
      rw [hcontent, List.length_drop]
      have hlen : kHeaderLen = 4 := rfl
      omega
    generalize (buf.content.drop kHeaderLen).take (lengthOf buf.content).toNat =
      message at hnext hstep
    obtain ⟨new, buf', hbuf', hends⟩ :=
      onMessage_consumes hrest (messages ++ [message]) (messageCallback_ s message)
    refine ⟨message :: new, buf', hbuf', ?_⟩
    rw [hnext, List.append_cons]
    rw [hcontent] at hends
    exact hends.imp (fun hend ↦ ⟨hend.1, .next hstep hend.2⟩)
      fun hend ↦ ⟨hend.1, .next hstep hend.2⟩
  · refine ⟨[], buf, h, .inl ⟨onMessage_incomplete h.toWellFormed (by omega) hrefused hwhole, ?_⟩⟩
    rw [List.append_nil]
    exact .wait (verdict_incomplete hrefused hwhole)
termination_by buf.content.length

end

end Pallette.LengthHeaderCodec
