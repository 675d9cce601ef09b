import Pallette.Http.Framing

/-!
# ContentLength — what a malformed body length does to the connection

A head that announces a length `std::stoi` does not read as a natural number below `2 ^ 31` is never
answered with `false`: the call waits or throws.  `serve_meets_iff`: over the calls of a whole
connection, that is the only way an exception gets out of `onMessage`.
-/

open Reasoning

namespace Pallette

/-- A length that fits an `int`. -/
def IntLength (v : Bytes) : Prop :=
  isDecimal v = true ∧ decimal v < 2 ^ 31

namespace HttpContext

variable {c c' : HttpContext} {buf rest : Bytes} {e : ParseEnd}

/-- The context and the unread bytes have a complete head between them, with `v` as its
`Content-Length`. -/
def Announces (c : HttpContext) (buf v : Bytes) : Prop :=
  match c.state_ with
  | .EXPECT_REQUEST_LINE =>
      ∃ (head : RequestHead) (last tail : Bytes), buf = head.wireEnding last ++ tail ∧
        colonByte ∉ last ∧ ¬ kCRLF <:+: last ∧ head.announced = some v
  | .EXPECT_HEADERS =>
      ∃ (hs : List HeaderLine) (last tail : Bytes), buf = headersWire hs ++
        (last ++ kCRLF ++ tail) ∧
        colonByte ∉ last ∧ ¬ kCRLF <:+: last ∧
        (headersFrom c.request_.headers_ hs).find? contentLengthField = some v
  | .EXPECT_BODY => c.request_.headers_.find? contentLengthField = some v
  | .GOT_ALL => False

def MalformedLength (c : HttpContext) (buf : Bytes) : Prop :=
  ∃ v, Announces c buf v ∧ ¬ IntLength v

theorem malformedLength_untimed (c : HttpContext) (buf : Bytes) :
    c.untimed.MalformedLength buf ↔ c.MalformedLength buf :=
  Iff.rfl

/-- Before the request line there are no headers. -/
def NoHeadersYet (c : HttpContext) : Prop :=
  c.state_ = .EXPECT_REQUEST_LINE → c.request_.headers_ = .empty

/-! ## The request line does not depend on what is stored already -/

theorem setTarget_keeps (r : HttpRequest) (target : Bytes) :
    (setTarget r target).headers_ = r.headers_ ∧ (setTarget r target).method_ = r.method_ := by
  simp only [setTarget]
  split <;> exact ⟨rfl, rfl⟩

theorem setProtocol_keeps (r : HttpRequest) (protocol : Bytes) :
    (setProtocol r protocol).2.headers_ = r.headers_ ∧
      (setProtocol r protocol).2.method_ = r.method_ := by
  obtain ⟨ok, store, heq⟩ := setProtocol_eq protocol
  rw [heq]
  exact ⟨rfl, rfl⟩

theorem setProtocol_fst (r r' : HttpRequest) (protocol : Bytes) :
    (setProtocol r protocol).1 = (setProtocol r' protocol).1 := by
  obtain ⟨ok, store, heq⟩ := setProtocol_eq protocol
  rw [heq, heq]

theorem processRequestLine_fst {r : HttpRequest} (line : Bytes) (hr : r.method_ = .INVALID) :
    (processRequestLine r line).map Prod.fst = (processRequestLine {} line).map Prod.fst := by
  simp only [processRequestLine, HttpRequest.setMethod, hr, bind, Option.bind, pure, if_true]
  split
  · split
    · split
      · simp only [Option.map_some, Option.some.injEq]
        exact setProtocol_fst _ _ _
      · rfl
    · rfl
  · rfl

/-- The assertion in `setMethod`, seen from the line: a second method cannot be set. -/
theorem processRequestLine_method {r r' : HttpRequest} {line : Bytes} {ok : Bool}
    (h : processRequestLine r line = some (ok, r')) (hsp : space ∈ line) :
    r.method_ = .INVALID := by
  simp only [processRequestLine, HttpRequest.setMethod, bind, Option.bind, pure,
    if_pos (idxOf_ne_length_iff.mpr hsp)] at h
  by_contra hmethod
  simp only [if_neg hmethod, reduceCtorEq] at h

/-- Whatever becomes of the line, the headers stay, and the method is what stands in front of the
first space. -/
theorem processRequestLine_keeps {r r' : HttpRequest} {line : Bytes} {ok : Bool}
    (h : processRequestLine r line = some (ok, r')) :
    r'.headers_ = r.headers_ ∧
      r'.method_ =
        if space ∈ line then HttpRequest.methodOf (line.take (line.idxOf space))
        else r.method_ := by
  by_cases hsp : space ∈ line
  · have hmethod := processRequestLine_method h hsp
    simp only [processRequestLine, HttpRequest.setMethod, hmethod, bind, Option.bind, pure, if_true,
      if_pos (idxOf_ne_length_iff.mpr hsp)] at h
    rw [if_pos hsp]
    split at h
    · split at h
      · have hr : (setProtocol _ _).2 = r' := congrArg Prod.snd (Option.some.inj h)
        rw [← hr]
        exact ⟨(setProtocol_keeps _ _).1.trans (setTarget_keeps _ _).1,
          (setProtocol_keeps _ _).2.trans (setTarget_keeps _ _).2⟩
      · cases h
        exact ⟨rfl, rfl⟩
    · cases h
      exact ⟨rfl, rfl⟩
  · have hno : ¬ line.idxOf space ≠ line.length := fun hne ↦ hsp (idxOf_ne_length_iff.mp hne)
    simp only [processRequestLine, if_neg hno, Option.some.injEq, Prod.mk.injEq] at h
    rw [if_neg hsp, ← h.2]
    exact ⟨rfl, rfl⟩

theorem space_mem_of_true {r r' : HttpRequest} {line : Bytes}
    (h : processRequestLine r line = some (true, r')) : space ∈ line := by
  by_contra hsp
  have hno : ¬ line.idxOf space ≠ line.length := fun hne ↦ hsp (idxOf_ne_length_iff.mp hne)
  simp only [processRequestLine, if_neg hno, Option.some.injEq, Prod.mk.injEq, Bool.false_eq_true,
    false_and] at h

/-- A line that is accepted is accepted from the fresh request too. -/
theorem processRequestLine_true_fresh {r r' : HttpRequest} {line : Bytes}
    (h : processRequestLine r line = some (true, r')) :
    ∃ r₀, processRequestLine {} line = some (true, r₀) := by
  have hfst := processRequestLine_fst line (processRequestLine_method h (space_mem_of_true h))
  rw [h] at hfst
  rcases Option.map_eq_some_iff.mp hfst.symm with ⟨⟨ok, r₀⟩, hp, rfl⟩
  exact ⟨r₀, hp⟩

/-- A well-formed request line is never refused. -/
theorem processRequestLine_ne_false (head : RequestHead) (r r' : HttpRequest) :
    processRequestLine r head.requestLine ≠ some (false, r') := by
  intro h
  have hsp := space_mem_of_true head.processRequestLine_eq
  have hfst := processRequestLine_fst head.requestLine (processRequestLine_method h hsp)
  rw [h, head.processRequestLine_eq] at hfst
  cases hfst

/-! ## One call -/

theorem not_intLength_of_error {v : Bytes} {x : StdException} (h : stoi v = .error x) :
    ¬ IntLength v := by
  rintro ⟨hdecimal, hsmall⟩
  rw [stoi_of_isDecimal hdecimal, if_pos hsmall] at h
  cases h

theorem body_exception_malformed {r : HttpRequest} {x : StdException}
    (h : parser.Consumes ⟨.EXPECT_BODY, r⟩ buf (.halted c' rest (.exception x))) :
    ∃ v, r.headers_.find? contentLengthField = some v ∧ ¬ IntLength v := by
  rcases body_halted_cases h with ⟨hne, ⟨_, he, _⟩ | ⟨y, _, hstoi⟩⟩
  · cases he
  · unfold HttpRequest.getHeader at hne hstoi
    cases hfind : r.headers_.find? contentLengthField with
    | none =>
      rw [hfind] at hne
      exact absurd rfl hne
    | some v =>
      rw [hfind, Option.getD_some] at hstoi
      exact ⟨v, rfl, not_intLength_of_error hstoi⟩

theorem state_eta {st : HttpRequestParseState} (h : c.state_ = st) : c = ⟨st, c.request_⟩ := by
  rw [← h]

/-- Past the request line, the parser halts only behind a whole head. -/
theorem head_of_halted (h : parser.Consumes c buf (.halted c' rest e))
    (hstate : c.state_ = .EXPECT_REQUEST_LINE) (hbad : e ≠ .badRequestLine)
    (hassert : e ≠ .assertion) :
    ∃ (head : RequestHead) (last tail : Bytes) (r : HttpRequest),
      buf = head.wireEnding last ++ tail ∧ colonByte ∉ last ∧ ¬ kCRLF <:+: last ∧
        processRequestLine c.request_ head.requestLine = some (true, r) ∧
        (e = .gotAll ∨
          parser.Consumes
            ⟨.EXPECT_BODY, (withHeaders ⟨.EXPECT_HEADERS, r.untimed⟩ head.headers).request_⟩ tail
            (.halted c' rest e)) := by
  have hs : c.state_ ≠ .GOT_ALL := by
    rw [hstate]
    decide
  cases h with
  | halt hstep =>
    have hstep : parseStep c buf = _ := hstep
    by_cases hgot : e = .gotAll
    · subst hgot
      rcases parseStep_gotAll_cases hstep with ⟨_, _, _, hhead, _⟩ | ⟨hbody, _⟩
      · cases hstate.symm.trans hhead
      · cases hstate.symm.trans hbody
    · rcases (parseStep_failure_cases hstep hgot).2 with
        ⟨_, _, _, ⟨_, _, he⟩ | ⟨_, _, _, he⟩⟩ | ⟨hbody, _⟩
      · exact absurd he hassert
      · exact absurd he hbad
      · cases hstate.symm.trans hbody
  | next hstep hrest =>
    have hstep : parseStep c buf = _ := hstep
    rcases parseStep_next_cases hstep hs with
      ⟨crlf, hcrlf, rfl, ⟨_, r, hline, rfl⟩ | ⟨hhead, _⟩ | ⟨hhead, _⟩⟩
    -- the parser is at the request line, so it was that line
    rotate_left
    · cases hstate.symm.trans hhead
    · cases hstate.symm.trans hhead
    rcases line_of_search hcrlf with ⟨hsingle, hsplit⟩
    rcases processRequestLine_true_fresh hline with ⟨_, hline₀⟩
    rcases processRequestLine_true hsingle hline₀ with ⟨head, _, hwire, _⟩
    rcases headers_halted_cases hrest rfl with
      ⟨hs, last, tail, hbuf, hcolon, hlast, hend⟩
    have hwhole : buf = ({ head with headers := hs } : RequestHead).wireEnding last ++ tail := by
      rw [hsplit, hbuf, ← hwire]
      simp [RequestHead.wireEnding, RequestHead.requestLine]
    refine ⟨{ head with headers := hs }, last, tail, r, hwhole, hcolon, hlast, ?_, ?_⟩
    · rw [← hwire] at hline
      exact hline
    · rcases hend with ⟨_, he, _⟩ | ⟨_, hbody⟩
      · exact .inl he
      · exact .inr hbody

/-- Only a malformed length makes the parser throw. -/
theorem malformed_of_exception {x : StdException}
    (h : parser.Consumes c buf (.halted c' rest (.exception x))) (hs : c.state_ ≠ .GOT_ALL)
    (hnone : NoHeadersYet c) : MalformedLength c buf := by
  unfold MalformedLength Announces
  cases hstate : c.state_ with
  | GOT_ALL => exact absurd hstate hs
  | EXPECT_BODY =>
    rw [state_eta hstate] at h
    exact body_exception_malformed h
  | EXPECT_HEADERS =>
    rcases headers_halted_cases h hstate with
      ⟨hs, last, tail, hbuf, hcolon, hlast, ⟨_, he, _⟩ | ⟨_, hbody⟩⟩
    · cases he
    · rcases body_exception_malformed hbody with ⟨v, hv, hbad⟩
      exact ⟨v, ⟨hs, last, tail, hbuf, hcolon, hlast, hv⟩, hbad⟩
  | EXPECT_REQUEST_LINE =>
    rcases head_of_halted h hstate (by simp) (by simp) with
      ⟨head, last, tail, r, hbuf, hcolon, hlast, hline, he | hbody⟩
    · cases he
    · rcases body_exception_malformed hbody with ⟨v, hv, hbad⟩
      have hempty : r.untimed.headers_ = .empty :=
        (processRequestLine_keeps hline).1.trans (hnone hstate)
      have hv : (headersFrom r.untimed.headers_ head.headers).find? contentLengthField =
        some v := hv
      rw [hempty, find?_headersFrom, OrdMap.find?_empty, Option.or_none] at hv
      exact ⟨v, ⟨head, last, tail, hbuf, hcolon, hlast, hv⟩, hbad⟩

/-- A malformed length never makes it return `false`: that is for the request line alone. -/
theorem not_malformed_of_refused
    (h : parser.Consumes c buf (.halted c' rest .badRequestLine)) (hs : c.state_ ≠ .GOT_ALL) :
    ¬ MalformedLength c buf := by
  rcases refused_at_line h hs with ⟨hstate, _, _, crlf, r, hcrlf, hrefused⟩
  rintro ⟨v, hannounces, _⟩
  unfold Announces at hannounces
  rw [hstate] at hannounces
  rcases hannounces with ⟨head, last, tail, hbuf, _⟩
  have hbuf : buf = head.requestLine ++ kCRLF ++
      (headersWire head.headers ++ (last ++ kCRLF ++ tail)) := by
    rw [hbuf]
    simp [RequestHead.wireEnding]
  rw [hbuf, search_line head.requestLine_single, Option.some.injEq] at hcrlf
  rw [← hcrlf, hbuf, take_line] at hrefused
  exact processRequestLine_ne_false head _ _ hrefused

/-- Headers come after the request line, whatever the bytes are. -/
theorem noHeadersYet_of_consumes {w : Ending HttpContext UInt8 ParseEnd}
    (h : parser.Consumes c buf w) (hs : c.state_ ≠ .GOT_ALL) (hnone : NoHeadersYet c) :
    NoHeadersYet w.state := by
  induction h with
  | wait _ => exact hnone
  | @halt c t buf n e hstep =>
    by_cases hgot : e = .gotAll
    · subst hgot
      have hstate := consumes_gotAll_state (.halt hstep) hs
      intro hline
      exact absurd (hline.symm.trans hstate) (by simp)
    · rcases (parseStep_failure_cases hstep hgot).2 with
        ⟨_, _, _, ⟨_, rfl, _⟩ | ⟨_, hline, rfl, _⟩⟩ | ⟨_, _, _, _, rfl, _⟩
      · exact hnone
      · exact fun hstate ↦ (processRequestLine_keeps hline).1.trans (hnone hstate)
      · exact hnone
  | next hstep _ ih =>
    exact ih (parseStep_next_progress hstep hs).2.2
      fun hline ↦ absurd hline (parseStep_next_line hstep hs)

end HttpContext

/-! ## The calls of a connection -/

/-- A call of `parseRequest` that `onMessage` makes. -/
structure ParseCall where
  context : HttpContext
  buf : Bytes
  receiveTime : Timestamp

namespace ParseCall

def result (call : ParseCall) : Except (Fault × ParseState) ParseState :=
  call.context.parseRequest call.buf call.receiveTime

def Throws (call : ParseCall) : Prop :=
  ∃ x s, call.result = .error (.exception x, s)

def ReturnsFalse (call : ParseCall) : Prop :=
  ∃ s, call.result = .ok s ∧ s.ok = false

def MalformedLength (call : ParseCall) : Prop :=
  call.context.MalformedLength call.buf

/-- What holds of the context whenever `onMessage` calls the parser. -/
def Ready (call : ParseCall) : Prop :=
  call.context.state_ ≠ .GOT_ALL ∧ call.context.NoHeadersYet

variable {call : ParseCall}

theorem malformedLength_of_throws (h : call.Throws) (hready : call.Ready) :
    call.MalformedLength := by
  rcases h with ⟨x, s, hresult⟩
  rcases HttpContext.parseRequest_spec call.context call.buf call.receiveTime hready.1 with
    ⟨r, hcall, hr⟩
  rw [show call.context.parseRequest call.buf call.receiveTime = _ from hresult] at hcall
  cases r with
  | waiting _ _ => cases hcall
  | halted c' rest e =>
    cases e <;> cases hcall
    exact (HttpContext.malformedLength_untimed _ _).mp
      (HttpContext.malformed_of_exception hr hready.1 hready.2)

theorem not_malformedLength_of_returnsFalse (h : call.ReturnsFalse) (hready : call.Ready) :
    ¬ call.MalformedLength := by
  rcases h with ⟨s, hresult, hok⟩
  rcases HttpContext.parseRequest_spec call.context call.buf call.receiveTime hready.1 with
    ⟨r, hcall, hr⟩
  rw [show call.context.parseRequest call.buf call.receiveTime = _ from hresult] at hcall
  cases r with
  | waiting _ _ =>
    cases hcall
    cases hok
  | halted c' rest e =>
    cases e with
    | badRequestLine =>
      rw [MalformedLength, ← HttpContext.malformedLength_untimed]
      exact HttpContext.not_malformed_of_refused hr hready.1
    | gotAll =>
      cases hcall
      cases hok
    | exception x => cases hcall
    | assertion => cases hcall

end ParseCall

namespace HttpServer

variable (httpCallback_ : HttpCallback)

/-- The calls made while the chunks are served. -/
def parseCalls (conn : HttpConnection) : List (Bytes × Timestamp) → List ParseCall
  | [] => []
  | (chunk, receiveTime) :: chunks =>
      ⟨conn.context, conn.inputBuffer_ ++ chunk, receiveTime⟩ ::
        match handleRead httpCallback_ conn chunk receiveTime with
        | .error _ => []
        | .ok conn => parseCalls conn chunks

variable {httpCallback_}

/-- What a read does that lets no fault out; `buf` is the input buffer behind it. -/
inductive ReadCases (httpCallback_ : HttpCallback) (conn : HttpConnection) (buf : Bytes) :
    HttpConnection → Prop
  | waiting {c : HttpContext} {rest : Bytes} :
      HttpContext.parser.Consumes conn.context.untimed buf (.waiting c.untimed rest) →
      ReadCases httpCallback_ conn buf { conn with context := c, inputBuffer_ := rest }
  | dispatched {c : HttpContext} {rest : Bytes} :
      HttpContext.parser.Consumes conn.context.untimed buf (.halted c.untimed rest .gotAll) →
      ReadCases httpCallback_ conn buf
        { onRequest httpCallback_ { conn with context := c, inputBuffer_ := rest } c.request_ with
          context := {} }
  | refused {c : HttpContext} {rest : Bytes} :
      HttpContext.parser.Consumes conn.context.untimed buf
        (.halted c.untimed rest .badRequestLine) →
      ReadCases httpCallback_ conn buf (refuse { conn with context := c, inputBuffer_ := rest })

theorem handleRead_cases {conn conn' : HttpConnection} {chunk : Bytes} {receiveTime : Timestamp}
    (h : handleRead httpCallback_ conn chunk receiveTime = .ok conn')
    (hs : conn.context.state_ ≠ .GOT_ALL) :
    ReadCases httpCallback_ conn (conn.inputBuffer_ ++ chunk) conn' := by
  rcases HttpContext.parseRequest_spec conn.context (conn.inputBuffer_ ++ chunk) receiveTime hs with
    ⟨r, hcall, hr⟩
  cases r with
  | waiting c rest =>
    have hstate : c.untimed.state_ ≠ .GOT_ALL := HttpContext.parseStep_wait_state hr.waits
    rw [handleRead_waiting httpCallback_ conn hcall rfl (decide_eq_false hstate)] at h
    cases h
    exact .waiting hr
  | halted c rest e =>
    cases e with
    | badRequestLine =>
      have hstate : c.untimed.state_ ≠ .GOT_ALL :=
        HttpContext.consumes_failure_state hr (by simp) hs
      have hgot : c.gotAll = false := decide_eq_false hstate
      simp only [handleRead, onMessage, hcall, finish, Bool.false_eq_true, if_false, refuse,
        hgot, Except.ok.injEq] at h
      subst h
      exact .refused hr
    | gotAll =>
      have hstate : c.untimed.state_ = .GOT_ALL := HttpContext.consumes_gotAll_state hr hs
      have hgot : c.gotAll = true := decide_eq_true hstate
      simp only [handleRead, onMessage, hcall, finish, if_true, hgot, Except.ok.injEq] at h
      subst h
      exact .dispatched hr
    | exception x => simp only [handleRead, onMessage, hcall, finish, reduceCtorEq] at h
    | assertion => simp only [handleRead, onMessage, hcall, finish, reduceCtorEq] at h

/-- One read keeps the context ready for the next call. -/
theorem handleRead_ready {conn conn' : HttpConnection} {chunk : Bytes} {receiveTime : Timestamp}
    (h : handleRead httpCallback_ conn chunk receiveTime = .ok conn')
    (hs : conn.context.state_ ≠ .GOT_ALL) (hnone : conn.context.NoHeadersYet) :
    conn'.context.state_ ≠ .GOT_ALL ∧ conn'.context.NoHeadersYet := by
  cases handleRead_cases h hs with
  | @waiting c _ hr =>
    have hstate : c.untimed.state_ ≠ .GOT_ALL := HttpContext.parseStep_wait_state hr.waits
    exact ⟨hstate, HttpContext.noHeadersYet_of_consumes hr hs hnone⟩
  | dispatched _ => exact ⟨by simp, fun _ ↦ rfl⟩
  | @refused c _ hr =>
    have hstate : c.untimed.state_ ≠ .GOT_ALL := HttpContext.consumes_failure_state hr (by simp) hs
    exact ⟨hstate, HttpContext.noHeadersYet_of_consumes hr hs hnone⟩

/-- Every call of a run is made with a ready context. -/
theorem parseCalls_ready {call : ParseCall} (chunks : List (Bytes × Timestamp))
    (conn : HttpConnection) (hs : conn.context.state_ ≠ .GOT_ALL)
    (hnone : conn.context.NoHeadersYet)
    (h : call ∈ parseCalls httpCallback_ conn chunks) : call.Ready := by
  induction chunks generalizing conn with
  | nil => cases h
  | cons p chunks ih =>
    rcases List.mem_cons.mp h with rfl | hrest
    · exact ⟨hs, hnone⟩
    · split at hrest
      next => cases hrest
      next conn' hread =>
        rcases handleRead_ready hread hs hnone with ⟨hs', hnone'⟩
        exact ih conn' hs' hnone' hrest

/-- An exception gets out of a run only through a call that throws it. -/
theorem exists_throws_of_serve {x : StdException} (chunks : List (Bytes × Timestamp))
    (conn : HttpConnection) (h : serve httpCallback_ conn chunks = .error (.exception x)) :
    ∃ call ∈ parseCalls httpCallback_ conn chunks, call.Throws := by
  induction chunks generalizing conn with
  | nil => cases h
  | cons p chunks ih =>
    rcases p with ⟨chunk, receiveTime⟩
    simp only [serve] at h
    cases hread : handleRead httpCallback_ conn chunk receiveTime with
    | error f =>
      rw [hread] at h
      cases h
      exact ⟨_, List.mem_cons_self, x, handleRead_error httpCallback_ conn hread⟩
    | ok conn' =>
      rw [hread] at h
      rcases ih conn' h with ⟨call, hmem, hthrows⟩
      refine ⟨call, List.mem_cons_of_mem _ ?_, hthrows⟩
      rw [hread]
      exact hmem

/-- No exception gets out of the handlers, and a malformed length is refused. -/
def LengthsRefused (httpCallback_ : HttpCallback) (chunks : List (Bytes × Timestamp)) : Prop :=
  (∀ x, serve httpCallback_ {} chunks ≠ .error (.exception x)) ∧
    ∀ call ∈ parseCalls httpCallback_ {} chunks, call.MalformedLength → call.ReturnsFalse

/-- **Malformed lengths.**  Over any chunks on a fresh connection, the handlers let no exception out
and refuse every malformed length exactly if no call ever sees one. -/
theorem serve_meets_iff (httpCallback_ : HttpCallback) (chunks : List (Bytes × Timestamp)) :
    LengthsRefused httpCallback_ chunks ↔
      ∀ call ∈ parseCalls httpCallback_ {} chunks, ¬ call.MalformedLength := by
  have hready : ∀ call ∈ parseCalls httpCallback_ {} chunks, call.Ready := fun call hmem ↦
    parseCalls_ready chunks {} (by simp) (fun _ ↦ rfl) hmem
  constructor
  · rintro ⟨_, hrefused⟩ call hmem hbad
    exact ParseCall.not_malformedLength_of_returnsFalse (hrefused call hmem hbad) (hready call hmem)
      hbad
  · intro hclean
    refine ⟨fun x hthrow ↦ ?_, fun call hmem hbad ↦ absurd hbad (hclean call hmem)⟩
    rcases exists_throws_of_serve chunks {} hthrow with ⟨call, hmem, hthrows⟩
    exact hclean call hmem (ParseCall.malformedLength_of_throws hthrows (hready call hmem))

/-- A `POST` whose length is not a number. -/
def badLengthRequest : Bytes :=
  ascii "POST / HTTP/1.1" ++ kCRLF ++ ascii "Content-Length: abc" ++ kCRLF ++ kCRLF

theorem badLengthRequest_throws :
    ¬ ∀ (httpCallback_ : HttpCallback) (chunks : List (Bytes × Timestamp)),
        LengthsRefused httpCallback_ chunks := by
  intro h
  apply (h defaultHttpCallback [(badLengthRequest, .invalid)]).1 .invalidArgument
  decide

end HttpServer

end Pallette
