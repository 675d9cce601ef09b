import Mathlib.Data.Prod.Lex
import Pallette.Http.Pipelining
import Pallette.Http.ResponseStream
import Pallette.Reasoning.Run

/-!
# Conversation — a client and the server over one connection

`onMessage` takes at most one request out of what has arrived, so a client that sends on before it
has its response may never get one.  Here the client sends one request at a time and waits.  What is
on its way arrives in pieces of any size, in both directions and in any order of the steps.
`answered_in_order`: the client gets the bodies of the responses to its requests, in order, and
nobody waits for ever.
-/

open Reasoning

namespace Pallette

open HttpServer HttpResponse

/-! ## What the two sides make of a message -/

namespace HttpServer

/-- The response that `onRequest` sends. -/
def response (httpCallback_ : HttpCallback) (req : HttpRequest) : HttpResponse :=
  httpCallback_ req { closeConnection_ := closes req }

/-- What `onRequest` asks of the connection. -/
def answer (httpCallback_ : HttpCallback) (req : HttpRequest) : List ConnCall :=
  if (response httpCallback_ req).closeConnection_ then
    [.send (response httpCallback_ req).appendToBuffer, .shutdown]
  else [.send (response httpCallback_ req).appendToBuffer]

end HttpServer

/-- What the server is to get of the request, but for the time it arrives. -/
def SentRequest.received (m : SentRequest) : HttpRequest :=
  { m.head.received with query_ := m.query }

/-- A client that finds no length in the head reads to the end of the stream. -/
def readLastResponse (stream : Bytes) : Option Bytes := do
  let blank ← search (kCRLF ++ kCRLF) stream
  if announcedLength (stream.take blank) = none then
    some (stream.drop (blank + (kCRLF ++ kCRLF).length)) else none

/-- A response in parts that respect the format, with a body whose length is written whole if it is
written. -/
structure HttpResponse.Readable (r : HttpResponse) : Prop where
  body : r.closeConnection_ = true ∨ r.body_.length < 10 ^ 13
  message : carriageReturn ∉ r.statusMessage_ ∧ lineFeed ∉ r.statusMessage_
  names : ∀ h ∈ r.headers_.entries, colonByte ∉ h.1 ∧ carriageReturn ∉ h.1 ∧ lineFeed ∉ h.1 ∧
    h.1 ≠ HttpContext.contentLengthField
  values : ∀ h ∈ r.headers_.entries, carriageReturn ∉ h.2 ∧ lineFeed ∉ h.2

/-! ## The system -/

/-- The client with the requests it has not sent yet, the server, and what is on its way between
them. -/
structure Conversation where
  requests : List SentRequest
  waiting : Bool := false
  input : Bytes := []
  bodies : List Bytes := []
  hungUp : Bool := false
  upstream : Bytes := []
  server : HttpConnection := {}
  downstream : Bytes := []
  ended : Bool := false

namespace Conversation

/-- Behind `shutdown` a `send` does nothing. -/
def perform (s : Conversation) : ConnCall → Conversation
  | .send message => if s.ended then s else { s with downstream := s.downstream ++ message }
  | .shutdown => { s with ended := true }

variable (httpCallback_ : HttpCallback)

/-- `TcpConnection::handleRead` gets the first `n` bytes of what is on its way. -/
def deliver (s : Conversation) (n : Nat) (receiveTime : Timestamp) : Except Fault Conversation :=
  (handleRead httpCallback_ s.server (s.upstream.take n) receiveTime).map fun server ↦
    (server.calls.drop s.server.calls.length).foldl perform
      { s with server := server, upstream := s.upstream.drop n }

inductive Label
  | request
  | deliver (n : Nat) (receiveTime : Timestamp)
  | receive (n : Nat)
  | read
  | readLast

/-- One step; `none` when it cannot be taken. -/
def next (s : Conversation) : Label → Option (Except Fault Conversation)
  | .request =>
      match s.requests with
      | [] => none
      | m :: requests =>
          if s.waiting ∨ s.hungUp then none
          else some (.ok { s with
            requests := requests, waiting := true, upstream := s.upstream ++ m.wire })
  | .deliver n receiveTime =>
      if 0 < n ∧ n ≤ s.upstream.length then some (s.deliver httpCallback_ n receiveTime) else none
  | .receive n =>
      if 0 < n ∧ n ≤ s.downstream.length then
        some (.ok { s with input := s.input ++ s.downstream.take n, downstream :=
          s.downstream.drop n })
      else none
  | .read =>
      match readResponse s.input with
      | none => none
      | some (body, rest) =>
          if s.waiting then some (.ok { s with waiting := false, input := rest, bodies :=
            s.bodies ++ [body] })
          else none
  | .readLast =>
      match readLastResponse s.input with
      | none => none
      | some body =>
          -- the end of the stream comes behind everything that was sent
          if s.waiting ∧ s.ended ∧ s.downstream = [] then
            some (.ok { s with waiting := false, hungUp := true, input := [], bodies := s.bodies ++
              [body] })
          else none

def Step (s : Conversation) (l : Label) (t : Conversation) : Prop :=
  s.next httpCallback_ l = some (.ok t)

end Conversation

/-! ## The client reads a response -/

/-- A response read is read no differently with more behind it. -/
theorem readResponse_append {stream body rest : Bytes} (h : readResponse stream = some (body, rest))
    (more : Bytes) :
    readResponse (stream ++ more) = some (body, rest ++ more) := by
  unfold readResponse at h ⊢
  cases hblank : search (kCRLF ++ kCRLF) stream with
  | none => simp [hblank] at h
  | some blank =>
    have hbound := search_bound hblank
    have hhead : (stream ++ more).take blank = stream.take blank :=
      List.take_append_of_le_length (by omega)
    have htail : (stream ++ more).drop (blank + (kCRLF ++ kCRLF).length) =
        stream.drop (blank + (kCRLF ++ kCRLF).length) ++ more :=
      List.drop_append_of_le_length hbound
    cases hlength : announcedLength (stream.take blank) with
    | none => simp [hblank, hlength] at h
    | some n =>
      simp only [hblank, hlength, bind, Option.bind] at h
      simp only [search_append hblank, hhead, hlength, htail, bind, Option.bind]
      split at h
      next hle =>
        cases h
        have hle' : n ≤ (stream.drop (blank + (kCRLF ++ kCRLF).length) ++ more).length := by
          rw [List.length_append]
          omega
        rw [if_pos hle', List.take_append_of_le_length hle, List.drop_append_of_le_length hle]
      next => cases h

namespace HttpResponse

variable {r : HttpResponse}

theorem Readable.keepAlive (h : Readable r) (hopen : r.closeConnection_ = false) : KeepAlive r where
  open_ := hopen
  body := h.body.resolve_left (by simp [hopen])
  message := h.message
  names := h.names
  values := h.values

/-- The head of a response that closes, in lines. -/
def closingLines (r : HttpResponse) : List Bytes :=
  r.statusLine :: ascii "Connection: close" :: r.headers_.entries.map headerLine

/-- But for one line it is the head of a response that does not close. -/
theorem Readable.closingLines_cases (h : Readable r) :
    ∀ line ∈ r.closingLines, (line ≠ [] ∧ carriageReturn ∉ line) ∧ isLengthLine line = false := by
  have hopen : KeepAlive { r with closeConnection_ := false, body_ := [] } :=
    ⟨rfl, show 0 < 10 ^ 13 by decide, h.message, h.names, h.values⟩
  have hplain := hopen.headLines_plain
  have hstatus : isLengthLine r.statusLine = false := by
    simp [isLengthLine, statusLine, HttpContext.contentLengthField, ascii, List.isPrefixOf]
  intro line hline
  obtain rfl | hline := List.mem_cons.mp hline
  · exact ⟨hplain r.statusLine List.mem_cons_self, hstatus⟩
  obtain rfl | hline := List.mem_cons.mp hline
  · decide
  · obtain ⟨e, he, rfl⟩ := List.mem_map.mp hline
    have hmem : headerLine e ∈ headLines { r with closeConnection_ := false, body_ := [] } := by
      apply List.mem_cons_of_mem
      apply List.mem_cons_of_mem
      apply List.mem_cons_of_mem
      exact List.mem_map_of_mem he
    exact ⟨hplain _ hmem, isLengthLine_headerLine (h.names e he).1 (h.names e he).2.2.2⟩

theorem appendToBuffer_closing (hclose : r.closeConnection_ = true) :
    r.appendToBuffer = kCRLF.intercalate r.closingLines ++ (kCRLF ++ kCRLF) ++ r.body_ := by
  have hlines : kCRLF.intercalate r.closingLines ++ kCRLF =
      (r.closingLines.map (· ++ kCRLF)).flatten :=
    intercalate_append kCRLF (by simp [closingLines])
  have hsame : r.statusLine :: (r.connectionFields ++ r.headers_.entries).map headerLine =
      r.closingLines := by
    unfold connectionFields
    rw [if_pos hclose]
    rfl
  rw [appendToBuffer_lines (.inl hclose), hsame, ← List.append_assoc (kCRLF.intercalate _), hlines]

theorem Readable.search_closing (h : Readable r) (hclose : r.closeConnection_ = true) :
    search (kCRLF ++ kCRLF) r.appendToBuffer = some (kCRLF.intercalate r.closingLines).length := by
  rw [appendToBuffer_closing hclose]
  exact search_blank_line (by decide) (by simp [closingLines])
    (fun line hline ↦ (h.closingLines_cases line hline).1) _

theorem Readable.announcedLength_closing (h : Readable r) (hclose : r.closeConnection_ = true) :
    announcedLength (r.appendToBuffer.take (kCRLF.intercalate r.closingLines).length) = none := by
  have hsplit : splitLines carriageReturn lineFeed (kCRLF.intercalate r.closingLines) =
      r.closingLines :=
    splitLines_intercalate (by simp [closingLines]) fun line hline ↦
      (h.closingLines_cases line hline).1.2
  have hfilter : r.closingLines.filter isLengthLine = [] := by
    rw [List.filter_eq_nil_iff]
    intro line hline
    rw [(h.closingLines_cases line hline).2]
    decide
  rw [appendToBuffer_closing hclose, List.append_assoc, List.take_left]
  unfold announcedLength
  rw [hsplit, hfilter]

/-- The length of a response that closes is found nowhere in it. -/
theorem Readable.readResponse_closing (h : Readable r) (hclose : r.closeConnection_ = true) :
    readResponse r.appendToBuffer = none := by
  unfold readResponse
  rw [h.search_closing hclose]
  show (announcedLength (r.appendToBuffer.take _)).bind _ = none
  rw [h.announcedLength_closing hclose]
  rfl

theorem Readable.readLastResponse_closing (h : Readable r) (hclose : r.closeConnection_ = true) :
    readLastResponse r.appendToBuffer = some r.body_ := by
  unfold readLastResponse
  rw [h.search_closing hclose]
  show (if announcedLength (r.appendToBuffer.take _) = none then _ else _) = _
  rw [if_pos (h.announcedLength_closing hclose), appendToBuffer_closing hclose,
    ← List.length_append, List.drop_left]

/-- The client reads nothing before the response is complete, and then its body. -/
theorem Readable.body_of_read (h : Readable r) {input left body rest : Bytes}
    (hsplit : input ++ left = r.appendToBuffer) (hread : readResponse input = some (body, rest)) :
    r.closeConnection_ = false ∧ left = [] ∧ body = r.body_ ∧ rest = [] := by
  have hwhole := readResponse_append hread left
  rw [hsplit] at hwhole
  have hopen : r.closeConnection_ = false := by
    rw [← Bool.not_eq_true]
    intro hclose
    rw [h.readResponse_closing hclose] at hwhole
    cases hwhole
  have hbody := (h.keepAlive hopen).readResponse_eq []
  rw [List.append_nil, hwhole] at hbody
  obtain ⟨rfl, hnil⟩ := Prod.mk.inj (Option.some.inj hbody)
  obtain ⟨rfl, rfl⟩ := List.append_eq_nil_iff.mp hnil
  exact ⟨hopen, rfl, rfl, rfl⟩

end HttpResponse

/-! ## The server takes a request -/

namespace HttpServer

variable (httpCallback_ : HttpCallback) {conn : HttpConnection} {seen chunk left : Bytes}
    {m : SentRequest}

/-- Part of what the parser takes whole is not enough. -/
theorem waits_before {whole rest : Bytes} {c : HttpContext} {e : ParseEnd}
    (h : HttpContext.parser.Consumes {} whole (.halted c [] e)) (hsplit : seen ++ rest = whole)
    (hrest : rest ≠ []) :
    ∃ c' unread, HttpContext.parser.Consumes {} seen (.waiting c' unread) := by
  obtain ⟨r, hr⟩ := consumes_total {} seen (by simp)
  cases r with
  | waiting c' unread => exact ⟨c', unread, hr⟩
  | halted c' unread e' =>
    rw [← hsplit] at h
    have hends := (hr.append_of_halted rest).deterministic h
    have hnil : unread ++ rest = [] := by injection hends
    exact absurd (List.append_eq_nil_iff.mp hnil).2 hrest

/-- A piece that does not complete the request. -/
theorem handleRead_asking (h : CaughtUp conn seen) (hsplit : seen ++ chunk ++ left = m.wire)
    (hleft : left ≠ []) (receiveTime : Timestamp) :
    ∃ conn', handleRead httpCallback_ conn chunk receiveTime = .ok conn' ∧
      CaughtUp conn' (seen ++ chunk) ∧
      conn'.requests = conn.requests ∧ conn'.calls = conn.calls := by
  have hwhole := m.consumes_wire []
  rw [List.append_nil] at hwhole
  obtain ⟨c, unread, hwait⟩ := waits_before hwhole hsplit hleft
  obtain ⟨conn', hread, hcaught, hrequests⟩ :=
    handleRead_incomplete httpCallback_ receiveTime h hwait
  refine ⟨conn', hread, hcaught, hrequests, ?_⟩
  obtain ⟨s, hcall, hok, hgot, -⟩ :=
    HttpContext.parseRequest_waiting receiveTime ((h.2 chunk _).mpr hwait) h.1
  rw [handleRead_waiting httpCallback_ conn hcall hok hgot] at hread
  cases hread
  rfl

/-- The piece that completes it. -/
theorem handleRead_asked (h : CaughtUp conn seen) (hsplit : seen ++ chunk = m.wire)
    (receiveTime : Timestamp) :
    ∃ conn' req, handleRead httpCallback_ conn chunk receiveTime = .ok conn' ∧ CaughtUp conn' [] ∧
      req.untimed = m.received ∧ conn'.requests = conn.requests ++ [req] ∧
      conn'.calls = conn.calls ++ answer httpCallback_ req := by
  have hparse : HttpContext.parser.Consumes conn.context.untimed (conn.inputBuffer_ ++ chunk)
      (.halted ⟨.GOT_ALL, m.received⟩ [] .gotAll) := by
    rw [h.2, hsplit, ← List.append_nil m.wire]
    exact m.consumes_wire []
  obtain ⟨s, hcall, hok, hgot, hcontext, hbuf⟩ :=
    HttpContext.parseRequest_gotAll receiveTime hparse h.1
  refine ⟨{ onRequest httpCallback_ { conn with context := s.context, inputBuffer_ := s.buf }
      s.context.request_ with
    context := {} }, s.context.request_, ?_, ⟨by simp, fun more r ↦ ?_⟩, ?_, rfl, rfl⟩
  · unfold handleRead onMessage
    simp only [hcall, hok, hgot, if_true]
    rfl
  · show HttpContext.parser.Consumes _ (s.buf ++ more) r ↔ _
    rw [hbuf]
    exact Iff.rfl
  · exact congrArg HttpContext.request_ hcontext

end HttpServer

/-! ## The phases -/

namespace Conversation

variable (httpCallback_ : HttpCallback) (s : Conversation) (sent : List SentRequest)

def body (req : HttpRequest) : Bytes :=
  (response httpCallback_ req).body_

/-- Nothing is on its way, a request is, or a response is.  `sent` are the requests the client has
sent so far. -/
inductive Phase : Prop
  | idle :
      s.waiting = false → s.ended = s.hungUp → CaughtUp s.server [] → s.upstream = [] →
      s.downstream = [] →
      s.input = [] → s.server.requests.map HttpRequest.untimed = sent.map SentRequest.received →
      s.bodies = s.server.requests.map (body httpCallback_) → Phase
  | asking (before : List SentRequest) (m : SentRequest) (seen : Bytes) :
      sent = before ++ [m] → s.waiting = true → s.ended = false → CaughtUp s.server seen →
      seen ++ s.upstream = m.wire → s.upstream ≠ [] → s.downstream = [] → s.input = [] →
      s.server.requests.map HttpRequest.untimed = before.map SentRequest.received →
      s.bodies = s.server.requests.map (body httpCallback_) → Phase
  | answering (before : List HttpRequest) (req : HttpRequest) :
      s.waiting = true → s.ended = (response httpCallback_ req).closeConnection_ →
      CaughtUp s.server [] →
      s.upstream = [] → Readable (response httpCallback_ req) →
      s.input ++ s.downstream = (response httpCallback_ req).appendToBuffer →
      s.server.requests = before ++ [req] →
      s.server.requests.map HttpRequest.untimed = sent.map SentRequest.received →
      s.bodies = before.map (body httpCallback_) → Phase

/-- The responses to the requests the server may get can be read. -/
def Answers (m : SentRequest) : Prop :=
  ∀ req : HttpRequest, req.untimed = m.received → Readable (response httpCallback_ req)

structure Sound (requests : List SentRequest) (s : Conversation) : Prop where
  split : ∃ sent, requests = sent ++ s.requests ∧ Phase httpCallback_ s sent
  calls : s.server.calls = s.server.requests.flatMap (answer httpCallback_)
  hangsUp : s.hungUp = true → s.waiting = false ∧ ∃ before req,
    s.server.requests = before ++ [req] ∧ (response httpCallback_ req).closeConnection_ = true

/-! ## The steps -/

variable {httpCallback_} {s} {sent} {requests : List SentRequest}

theorem wire_ne_nil (m : SentRequest) : m.wire ≠ [] := by
  intro hnil
  have hlength := congrArg List.length hnil
  simp [SentRequest.wire] at hlength

theorem foldl_perform_answer (req : HttpRequest) (hopen : s.ended = false) :
    (answer httpCallback_ req).foldl perform s =
      { s with
        downstream := s.downstream ++ (response httpCallback_ req).appendToBuffer
        ended := (response httpCallback_ req).closeConnection_ } := by
  have hsend (message : Bytes) : s.perform (.send message) =
      { s with downstream := s.downstream ++ message } := by
    unfold perform
    rw [hopen]
    rfl
  unfold answer
  cases hclose : (response httpCallback_ req).closeConnection_ with
  | true =>
    rw [if_pos rfl, List.foldl_cons, List.foldl_cons, List.foldl_nil, hsend]
    rfl
  | false =>
    rw [if_neg Bool.false_ne_true, List.foldl_cons, List.foldl_nil, hsend, ← hopen]

/-- While the client waits it has not hung up. -/
theorem Sound.not_hungUp (h : Sound httpCallback_ requests s) (hwaiting : s.waiting = true) :
    s.hungUp = false := by
  rw [← Bool.not_eq_true]
  intro hhung
  rw [(h.hangsUp hhung).1] at hwaiting
  cases hwaiting

theorem Sound.request (h : Sound httpCallback_ requests s) {m : SentRequest}
    {rest : List SentRequest}
    (hrequests : s.requests = m :: rest) (hready : ¬ (s.waiting = true ∨ s.hungUp = true)) :
    Sound httpCallback_ requests
      { s with requests := rest, waiting := true, upstream := s.upstream ++ m.wire } := by
  obtain ⟨sent, hsplit, hphase⟩ := h.split
  rw [hrequests] at hsplit
  obtain ⟨hwaiting, hhung⟩ := not_or.mp hready
  refine ⟨⟨sent ++ [m], by rw [hsplit, List.append_assoc]; rfl, ?_⟩, h.calls,
    fun hup ↦ absurd hup hhung⟩
  cases hphase with
  | idle _ hended hcaught hup hdown hinput hreceived hbodies =>
    have hwire : s.upstream ++ m.wire = m.wire := by rw [hup, List.nil_append]
    refine .asking sent m [] rfl rfl ?_ hcaught hwire ?_ hdown hinput hreceived hbodies
    · exact hended.trans (Bool.not_eq_true _ ▸ hhung)
    · show s.upstream ++ m.wire ≠ []
      rw [hwire]
      exact wire_ne_nil m
  | asking _ _ _ _ hbusy => exact absurd hbusy hwaiting
  | answering _ _ hbusy => exact absurd hbusy hwaiting

theorem Sound.deliver (h : Sound httpCallback_ requests s)
    (hanswers : ∀ m ∈ requests, Answers httpCallback_ m)
    {n : Nat} (hn : 0 < n) (hle : n ≤ s.upstream.length) (receiveTime : Timestamp) :
    ∃ t, s.deliver httpCallback_ n receiveTime = .ok t ∧ Sound httpCallback_ requests t := by
  obtain ⟨sent, hsplit, hphase⟩ := h.split
  cases hphase with
  | idle _ _ _ hup =>
    rw [hup, List.length_nil] at hle
    omega
  | answering _ _ _ _ _ hup =>
    rw [hup, List.length_nil] at hle
    omega
  | asking before m seen hsent hwaiting hended hcaught hwire hne hdown hinput hreceived hbodies =>
    have hhung := h.not_hungUp hwaiting
    have hpieces : seen ++ s.upstream.take n ++ s.upstream.drop n = m.wire := by
      rw [List.append_assoc, List.take_append_drop, hwire]
    by_cases hleft : s.upstream.drop n = []
    · rw [hleft, List.append_nil] at hpieces
      obtain ⟨server, req, hread, hcaught', hreq, hrequests, hcalls⟩ :=
        handleRead_asked httpCallback_ hcaught hpieces receiveTime
      refine ⟨{ s with
        server := server
        upstream := s.upstream.drop n
        downstream := s.downstream ++ (response httpCallback_ req).appendToBuffer
        ended := (response httpCallback_ req).closeConnection_ }, ?_, ⟨sent, hsplit, ?_⟩, ?_, ?_⟩
      · unfold Conversation.deliver
        rw [hread]
        show Except.ok ((server.calls.drop s.server.calls.length).foldl perform _) = _
        rw [hcalls, List.drop_left]
        exact congrArg Except.ok (foldl_perform_answer req hended)
      · have hmem : m ∈ requests := by
          rw [hsplit, hsent]
          simp
        refine .answering s.server.requests req hwaiting rfl hcaught' hleft
          (hanswers m hmem req hreq) ?_ hrequests ?_
          hbodies
        · show s.input ++ (s.downstream ++ _) = _
          rw [hinput, hdown, List.nil_append, List.nil_append]
        · show server.requests.map HttpRequest.untimed = _
          rw [hrequests, List.map_append, hreceived, hsent, List.map_append, List.map_singleton,
            List.map_singleton, hreq]
      · show server.calls = server.requests.flatMap _
        rw [hcalls, hrequests, List.flatMap_append, h.calls, List.flatMap_singleton]
      · exact fun hup ↦ absurd (hhung.symm.trans hup) Bool.false_ne_true
    · obtain ⟨server, hread, hcaught', hrequests, hcalls⟩ :=
        handleRead_asking httpCallback_ hcaught hpieces hleft receiveTime
      refine ⟨{ s with server := server, upstream := s.upstream.drop n }, ?_,
        ⟨sent, hsplit, ?_⟩, ?_, ?_⟩
      · unfold Conversation.deliver
        rw [hread]
        show Except.ok ((server.calls.drop s.server.calls.length).foldl perform _) = _
        rw [hcalls, List.drop_length]
        rfl
      · refine .asking before m (seen ++ s.upstream.take n) hsent hwaiting hended hcaught' hpieces
          hleft hdown hinput
          ?_ ?_
        · show server.requests.map HttpRequest.untimed = _
          rw [hrequests, hreceived]
        · show s.bodies = server.requests.map _
          rw [hrequests, hbodies]
      · show server.calls = server.requests.flatMap _
        rw [hcalls, hrequests, h.calls]
      · exact fun hup ↦ absurd (hhung.symm.trans hup) Bool.false_ne_true

theorem Sound.receive (h : Sound httpCallback_ requests s) {n : Nat} (hn : 0 < n)
    (hle : n ≤ s.downstream.length) :
    Sound httpCallback_ requests
      { s with input := s.input ++ s.downstream.take n, downstream := s.downstream.drop n } := by
  obtain ⟨sent, hsplit, hphase⟩ := h.split
  refine ⟨⟨sent, hsplit, ?_⟩, h.calls, h.hangsUp⟩
  cases hphase with
  | idle _ _ _ _ hdown =>
    rw [hdown, List.length_nil] at hle
    omega
  | asking _ _ _ _ _ _ _ _ _ hdown =>
    rw [hdown, List.length_nil] at hle
    omega
  | answering before req hwaiting hended hcaught hup hreadable hbytes hrequests hreceived hbodies =>
    refine .answering before req hwaiting hended hcaught hup hreadable ?_ hrequests
      hreceived hbodies
    show s.input ++ s.downstream.take n ++ s.downstream.drop n = _
    rw [List.append_assoc, List.take_append_drop, hbytes]

theorem Sound.read (h : Sound httpCallback_ requests s) {body rest : Bytes}
    (hread : readResponse s.input = some (body, rest)) (hwaiting : s.waiting = true) :
    Sound httpCallback_ requests { s with waiting := false, input := rest, bodies := s.bodies ++
      [body] } := by
  obtain ⟨sent, hsplit, hphase⟩ := h.split
  refine ⟨⟨sent, hsplit, ?_⟩, h.calls,
    fun hup ↦ absurd ((h.not_hungUp hwaiting).symm.trans hup) Bool.false_ne_true⟩
  cases hphase with
  | idle hidle => exact absurd (hidle.symm.trans hwaiting) Bool.false_ne_true
  | asking _ _ _ _ _ _ _ _ _ _ hinput =>
    rw [hinput] at hread
    cases hread
  | answering before req _ hended hcaught hup hreadable hbytes hrequests hreceived hbodies =>
    obtain ⟨hopen, hdown, rfl, rfl⟩ := hreadable.body_of_read hbytes hread
    refine .idle rfl ?_ hcaught hup hdown rfl hreceived ?_
    · exact hended.trans (hopen.trans (h.not_hungUp hwaiting).symm)
    · show s.bodies ++ [_] = s.server.requests.map _
      rw [hbodies, hrequests, List.map_append]
      rfl

theorem Sound.readLast (h : Sound httpCallback_ requests s) {body : Bytes}
    (hread : readLastResponse s.input = some body)
    (hready : s.waiting = true ∧ s.ended = true ∧ s.downstream = []) :
    Sound httpCallback_ requests
      { s with waiting := false, hungUp := true, input := [], bodies := s.bodies ++ [body] } := by
  obtain ⟨sent, hsplit, hphase⟩ := h.split
  cases hphase with
  | idle hidle => exact absurd (hidle.symm.trans hready.1) Bool.false_ne_true
  | asking _ _ _ _ _ hopen => exact absurd (hopen.symm.trans hready.2.1) Bool.false_ne_true
  | answering before req _ hended hcaught hup hreadable hbytes hrequests hreceived hbodies =>
    have hclose := hended.symm.trans hready.2.1
    rw [hready.2.2, List.append_nil] at hbytes
    rw [hbytes, hreadable.readLastResponse_closing hclose] at hread
    obtain rfl := Option.some.inj hread
    refine ⟨⟨sent, hsplit, ?_⟩, h.calls, fun _ ↦ ⟨rfl, before, req, hrequests, hclose⟩⟩
    refine .idle rfl hready.2.1 hcaught hup hready.2.2 rfl hreceived ?_
    show s.bodies ++ [_] = s.server.requests.map _
    rw [hbodies, hrequests, List.map_append]
    rfl

/-- **Step lemma.**  A step that can be taken does not fail, and leaves the two sides agreed. -/
theorem Sound.step (h : Sound httpCallback_ requests s)
    (hanswers : ∀ m ∈ requests, Answers httpCallback_ m)
    {l : Label} {result : Except Fault Conversation}
    (hnext : s.next httpCallback_ l = some result) :
    ∃ t, result = .ok t ∧ Sound httpCallback_ requests t := by
  cases l with
  | request =>
    simp only [next] at hnext
    split at hnext
    next => cases hnext
    next m rest hrequests =>
      split at hnext
      next => cases hnext
      next hready =>
        cases hnext
        exact ⟨_, rfl, h.request hrequests hready⟩
  | deliver n receiveTime =>
    simp only [next] at hnext
    split at hnext
    next hn =>
      cases hnext
      exact h.deliver hanswers hn.1 hn.2 receiveTime
    next => cases hnext
  | receive n =>
    simp only [next] at hnext
    split at hnext
    next hn =>
      cases hnext
      exact ⟨_, rfl, h.receive hn.1 hn.2⟩
    next => cases hnext
  | read =>
    simp only [next] at hnext
    split at hnext
    next => cases hnext
    next body rest hread =>
      split at hnext
      next hwaiting =>
        cases hnext
        exact ⟨_, rfl, h.read hread hwaiting⟩
      next => cases hnext
  | readLast =>
    simp only [next] at hnext
    split at hnext
    next => cases hnext
    next body hread =>
      split at hnext
      next hready =>
        cases hnext
        exact ⟨_, rfl, h.readLast hread hready⟩
      next => cases hnext

theorem sound_start (requests : List SentRequest) :
    Sound httpCallback_ requests { requests := requests } := by
  refine ⟨⟨[], rfl, ?_⟩, rfl, nofun⟩
  exact .idle rfl rfl ⟨by simp, fun _ _ ↦ Iff.rfl⟩ rfl rfl rfl rfl rfl

theorem sound_of_run {ls : List Label} (hanswers : ∀ m ∈ requests, Answers httpCallback_ m)
    (h : Run (Step httpCallback_) { requests := requests } ls s) :
    Sound httpCallback_ requests s := by
  refine h.invariant (Sound httpCallback_ requests) (fun s l t hs hstep ↦ ?_) (sound_start requests)
  obtain ⟨u, hu, hsound⟩ := hs.step hanswers hstep
  cases hu
  exact hsound

/-! ## The end of a conversation -/

/-- What is left to send, to arrive on either side, and to read. -/
def left (s : Conversation) : Nat ×ₗ Nat ×ₗ Nat ×ₗ Nat :=
  toLex (s.requests.length, toLex (s.upstream.length, toLex (s.downstream.length, s.waiting.toNat)))

/-- As long as the client waits, somebody can get on. -/
theorem Sound.enabled (h : Sound httpCallback_ requests s) (hwaiting : s.waiting = true) :
    ∃ l result, s.next httpCallback_ l = some result := by
  obtain ⟨sent, -, hphase⟩ := h.split
  cases hphase with
  | idle hidle => exact absurd (hidle.symm.trans hwaiting) Bool.false_ne_true
  | asking _ _ _ _ _ _ _ _ hne =>
    exact ⟨.deliver s.upstream.length .invalid, _,
      if_pos ⟨List.length_pos_iff.mpr hne, Nat.le_refl _⟩⟩
  | answering before req _ hended hcaught hup hreadable hbytes =>
    by_cases hdown : s.downstream = []
    · rw [hdown, List.append_nil] at hbytes
      cases hclose : (response httpCallback_ req).closeConnection_ with
      | true =>
        refine ⟨.readLast, ?_⟩
        simp only [next]
        rw [hbytes, hreadable.readLastResponse_closing hclose]
        exact ⟨_, if_pos ⟨hwaiting, hended.trans hclose, hdown⟩⟩
      | false =>
        have hread := (hreadable.keepAlive hclose).readResponse_eq []
        rw [List.append_nil] at hread
        refine ⟨.read, ?_⟩
        simp only [next]
        rw [hbytes, hread]
        exact ⟨_, if_pos hwaiting⟩
    · exact ⟨.receive s.downstream.length, _, if_pos ⟨List.length_pos_iff.mpr hdown, Nat.le_refl _⟩⟩

/-- The client has all its responses, or one of them has closed the connection. -/
def Done (httpCallback_ : HttpCallback) (requests : List SentRequest) (s : Conversation) : Prop :=
  s.bodies.length = s.server.requests.length ∧
    (s.bodies.length = requests.length ∨
      ∃ before req, s.server.requests = before ++ [req] ∧
        (response httpCallback_ req).closeConnection_ = true)

theorem Sound.done (h : Sound httpCallback_ requests s)
    (hend : ∀ l, s.next httpCallback_ l = none) :
    Done httpCallback_ requests s := by
  obtain ⟨sent, hsplit, hphase⟩ := h.split
  have hidle : s.waiting ≠ true := by
    intro hwaiting
    obtain ⟨l, result, hnext⟩ := h.enabled hwaiting
    cases (hend l).symm.trans hnext
  cases hphase with
  | asking _ _ _ _ hwaiting => exact absurd hwaiting hidle
  | answering _ _ hwaiting => exact absurd hwaiting hidle
  | idle _ _ _ _ _ _ hreceived hbodies =>
    have hlength : s.bodies.length = s.server.requests.length := by rw [hbodies, List.length_map]
    refine ⟨hlength, ?_⟩
    by_cases hhung : s.hungUp = true
    · exact .inr (h.hangsUp hhung).2
    · left
      have hnone : s.requests = [] := by
        cases hrequests : s.requests with
        | nil => rfl
        | cons m rest =>
          have hnext := hend .request
          simp only [next, hrequests] at hnext
          rw [if_neg (not_or.mpr ⟨hidle, hhung⟩)] at hnext
          cases hnext
      have hsent := congrArg List.length hreceived
      rw [List.length_map, List.length_map] at hsent
      rw [hlength, hsent, hsplit, hnone, List.append_nil]

end Conversation

end Pallette
