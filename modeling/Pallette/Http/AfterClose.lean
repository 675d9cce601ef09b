import Pallette.Http.ContentLength
import Pallette.Http.Pipelining

/-!
# AfterClose — requests on a connection that is being closed

`shutdown()` ends only what the server sends.  Reading goes on, and `onMessage` does not look at the
state of the connection: whatever request comes to its end behind a closing response is dispatched
as well (`no_request_after_close_iff`), though nothing can be sent for it any more.
-/

open Reasoning

namespace Pallette

/-- The bytes start with a request the parser takes for complete. -/
def BeginsRequest (stream : Bytes) : Prop :=
  ∃ (head : RequestHead) (last tail : Bytes), stream = head.wireEnding last ++ tail ∧
    colonByte ∉ last ∧ ¬ kCRLF <:+: last ∧
    (head.method = .GET ∨
      (head.method = .POST ∧
        ∃ n : Nat, stoi (head.announced.getD []) = .ok n ∧ n ≤ tail.length))

namespace HttpContext

variable {stream rest : Bytes} {c : HttpContext} {e : ParseEnd}

theorem beginsRequest_iff :
    BeginsRequest stream ↔ ∃ c rest, parser.Consumes {} stream (.halted c rest .gotAll) := by
  constructor
  · rintro ⟨head, last, tail, rfl, hcolon, hlast, hget | ⟨hpost, n, hstoi, hle⟩⟩
    · exact ⟨_, _, (consumes_get_iff hget hcolon hlast).mpr rfl⟩
    · rw [← received_contentLength] at hstoi
      exact ⟨_, _, (consumes_post_iff hpost hcolon hlast).mpr (consumes_body hstoi hle)⟩
  · rintro ⟨c, rest, h⟩
    rcases head_of_halted h rfl (by simp) (by simp) with ⟨head, last, tail, _, rfl, hcolon,
      hlast, _⟩
    refine ⟨head, last, tail, rfl, hcolon, hlast, ?_⟩
    rcases head_halted_cases h hcolon hlast with ⟨hget, _⟩ | ⟨hpost, hbody⟩
    · exact .inl hget
    · rcases body_halted_cases hbody with ⟨_, ⟨n, _, hstoi, hle, _⟩ | ⟨_, he, _⟩⟩
      · rw [received_contentLength] at hstoi
        exact .inr ⟨hpost, n, hstoi, hle⟩
      · cases he

/-- A stream the parser ends on otherwise does not begin with a request, whatever follows. -/
theorem not_begins_of_halted (h : parser.Consumes {} stream (.halted c rest e)) (he : e ≠ .gotAll)
    (more : Bytes) : ¬ BeginsRequest (stream ++ more) := by
  intro hbegins
  rcases beginsRequest_iff.mp hbegins with ⟨c', rest', h'⟩
  have hsame := (h.append_of_halted more).deterministic h'
  rw [Ending.halted.injEq] at hsame
  exact he hsame.2.2

theorem not_begins_of_waiting (h : parser.Consumes {} stream (.waiting c rest)) :
    ¬ BeginsRequest stream := by
  intro hbegins
  rcases beginsRequest_iff.mp hbegins with ⟨c', rest', h'⟩
  cases h.deterministic h'

end HttpContext

namespace HttpServer

variable {httpCallback_ : HttpCallback} {conn conn' : HttpConnection} {chunk : Bytes}
  {receiveTime : Timestamp}

/-! ## A refused line blocks the connection -/

/-- In front of the input is a complete line that is not accepted. -/
def Blocked (conn : HttpConnection) : Prop :=
  conn.context.state_ = .EXPECT_REQUEST_LINE ∧
    ∃ crlf, search kCRLF conn.inputBuffer_ = some crlf ∧
      ∀ r, HttpContext.processRequestLine {} (conn.inputBuffer_.take crlf) ≠ some (true, r)

theorem Blocked.step (h : Blocked conn) (chunk : Bytes) :
    ∃ c e, HttpContext.parser.step conn.context.untimed (conn.inputBuffer_ ++ chunk) = .halt 0 c e ∧
      e ≠ .gotAll := by
  rcases h with ⟨hstate, crlf, hcrlf, hnot⟩
  have hstate' : conn.context.untimed.state_ = .EXPECT_REQUEST_LINE := hstate
  have hline : (conn.inputBuffer_ ++ chunk).take crlf = conn.inputBuffer_.take crlf := by
    have hle := search_bound hcrlf
    exact List.take_append_of_le_length (by omega)
  show ∃ c e, HttpContext.parseStep conn.context.untimed _ = .halt 0 c e ∧ e ≠ .gotAll
  simp only [HttpContext.parseStep, hstate', search_append hcrlf chunk, hline,
    HttpContext.requestLineStep]
  split
  next => exact ⟨_, _, rfl, by simp⟩
  next haccepted =>
    rcases HttpContext.processRequestLine_true_fresh haccepted with ⟨r, hr⟩
    exact absurd hr (hnot r)
  next => exact ⟨_, _, rfl, by simp⟩

/-- Nothing is dispatched on a blocked connection, and it stays blocked. -/
theorem Blocked.handleRead (h : Blocked conn)
    (hread : handleRead httpCallback_ conn chunk receiveTime = .ok conn') :
    Blocked conn' ∧ conn'.requests = conn.requests := by
  rcases h.step chunk with ⟨c, e, hstep, he⟩
  have hs : conn.context.state_ ≠ .GOT_ALL := by
    rw [h.1]
    decide
  cases handleRead_cases hread hs with
  | waiting hr => cases (Consumer.consumes_iff_of_halt hstep).mp hr
  | dispatched hr =>
    have hend := (Consumer.consumes_iff_of_halt hstep).mp hr
    rw [Ending.halted.injEq] at hend
    exact absurd hend.2.2.symm he
  | @refused c' rest hr =>
    rcases h with ⟨_, crlf, hcrlf, hnot⟩
    rcases HttpContext.refused_at_line hr hs with ⟨_, hstate, rfl, _⟩
    have hle := search_bound hcrlf
    refine ⟨⟨hstate, crlf, search_append hcrlf chunk, fun r hr ↦ ?_⟩, rfl⟩
    rw [show (refuse _).inputBuffer_ = conn.inputBuffer_ ++ chunk from rfl,
      List.take_append_of_le_length (by omega)] at hr
    exact hnot r hr

theorem Blocked.serve (chunks : List (Bytes × Timestamp)) (h : Blocked conn)
    (hserve : serve httpCallback_ conn chunks = .ok conn') : conn'.requests = conn.requests := by
  induction chunks generalizing conn with
  | nil =>
    cases hserve
    rfl
  | cons p chunks ih =>
    simp only [HttpServer.serve] at hserve
    split at hserve
    next => cases hserve
    next conn₁ hread =>
      rcases h.handleRead hread with ⟨hblocked, hsame⟩
      exact (ih hblocked hserve).trans hsame

/-! ## The requests of a run -/

theorem handleRead_requests (hs : conn.context.state_ ≠ .GOT_ALL)
    (hread : handleRead httpCallback_ conn chunk receiveTime = .ok conn') :
    conn'.context.state_ ≠ .GOT_ALL ∧ conn.requests <+: conn'.requests := by
  cases handleRead_cases hread hs with
  | @waiting c _ hr =>
    have hstate : c.untimed.state_ ≠ .GOT_ALL := HttpContext.parseStep_wait_state hr.waits
    exact ⟨hstate, List.prefix_rfl⟩
  | dispatched _ => exact ⟨by simp, List.prefix_append _ _⟩
  | @refused c _ hr =>
    have hstate : c.untimed.state_ ≠ .GOT_ALL := HttpContext.consumes_failure_state hr (by simp) hs
    exact ⟨hstate, List.prefix_rfl⟩

/-- Requests are never taken back. -/
theorem serve_keeps_requests (chunks : List (Bytes × Timestamp))
    (hs : conn.context.state_ ≠ .GOT_ALL) (hserve : serve httpCallback_ conn chunks = .ok conn') :
    conn'.context.state_ ≠ .GOT_ALL ∧ conn.requests <+: conn'.requests := by
  induction chunks generalizing conn with
  | nil =>
    cases hserve
    exact ⟨hs, List.prefix_rfl⟩
  | cons p chunks ih =>
    simp only [serve] at hserve
    split at hserve
    next => cases hserve
    next conn₁ hread =>
      rcases handleRead_requests hs hread with ⟨hs₁, hkept⟩
      rcases ih hs₁ hserve with ⟨hs', hkept'⟩
      exact ⟨hs', hkept.trans hkept'⟩

/-- A run dispatches nothing exactly if the stream does not begin with a request. -/
theorem serve_quiet_iff (chunks : List (Bytes × Timestamp)) {seen : Bytes} (h : CaughtUp conn seen)
    (hserve : serve httpCallback_ conn chunks = .ok conn') :
    conn'.requests = conn.requests ↔
      chunks = [] ∨ ¬ BeginsRequest (seen ++ (chunks.map Prod.fst).flatten) := by
  induction chunks generalizing conn seen with
  | nil =>
    cases hserve
    simp
  | cons p chunks ih =>
    rcases p with ⟨chunk, receiveTime⟩
    simp only [serve] at hserve
    split at hserve
    next => cases hserve
    next conn₁ hread =>
      have hflat : seen ++ (((chunk, receiveTime) :: chunks).map Prod.fst).flatten =
          seen ++ chunk ++ (chunks.map Prod.fst).flatten := by simp
      rw [hflat]
      simp only [reduceCtorEq, false_or]
      -- what one chunk does depends on all the bytes seen so far
      cases handleRead_cases hread h.1 with
      | waiting hr =>
        have hwait := (h.2 chunk _).mp hr
        rcases handleRead_incomplete httpCallback_ receiveTime h hwait with
          ⟨conn₂, hread₂, hcaught, hrequests⟩
        rw [hread, Except.ok.injEq] at hread₂
        subst hread₂
        rw [← hrequests, ih hcaught hserve]
        apply or_iff_right_of_imp
        rintro rfl
        rw [List.map_nil, List.flatten_nil, List.append_nil]
        exact HttpContext.not_begins_of_waiting hwait
      | @dispatched c rest hr =>
        have hgot := (h.2 chunk _).mp hr
        refine iff_of_false (fun hsame ↦ ?_) (not_not.mpr ?_)
        · have hkept := (serve_keeps_requests chunks (by simp) hserve).2
          rw [hsame] at hkept
          have hlen : (conn.requests ++ [c.request_]).length ≤ conn.requests.length :=
            hkept.length_le
          rw [List.length_append, List.length_singleton] at hlen
          omega
        · exact HttpContext.beginsRequest_iff.mpr ⟨_, _, hgot.append_of_halted _⟩
      | @refused c rest hr =>
        have hrefused := (h.2 chunk _).mp hr
        rcases HttpContext.refused_at_line hrefused (by simp) with
          ⟨_, _, hrest, crlf, r, hcrlf, hline⟩
        rcases HttpContext.refused_at_line hr h.1 with ⟨_, hstate, _, _⟩
        -- a refused connection keeps its line at the head of the buffer, so it refuses every time
        have hblocked : Blocked (refuse { conn with context := c, inputBuffer_ := rest }) := by
          refine ⟨hstate, crlf, ?_, fun r₀ hr₀ ↦ ?_⟩
          · show search kCRLF rest = some crlf
            rw [hrest, hcrlf]
          · rw [show (refuse _).inputBuffer_ = rest from rfl, hrest, hline] at hr₀
            cases hr₀
        have hsame := hblocked.serve chunks hserve
        exact iff_of_true hsame (HttpContext.not_begins_of_halted hrefused (by simp) _)

/-! ## Behind a closing response -/

/-- What is read gets a request dispatched, and the response to it closes the connection. -/
def ClosesIn (httpCallback_ : HttpCallback) (conn : HttpConnection) (chunk : Bytes)
    (receiveTime : Timestamp) (conn' : HttpConnection) : Prop :=
  handleRead httpCallback_ conn chunk receiveTime = .ok conn' ∧
    ∃ request, conn'.requests = conn.requests ++ [request] ∧
      (httpCallback_ request { closeConnection_ := closes request }).closeConnection_ = true

theorem caughtUp_of_dispatch (hs : conn.context.state_ ≠ .GOT_ALL)
    (hread : handleRead httpCallback_ conn chunk receiveTime = .ok conn')
    (hmore : conn'.requests ≠ conn.requests) : CaughtUp conn' conn'.inputBuffer_ := by
  cases handleRead_cases hread hs with
  | waiting _ => exact absurd rfl hmore
  | dispatched _ => exact ⟨by simp, fun _ _ ↦ Iff.rfl⟩
  | refused _ => exact absurd rfl hmore

/-- **Behind a closing response.**  Of what arrives later no request is passed to the callback
exactly if nothing arrives, or what has not been read then does not begin with a request. -/
theorem no_request_after_close_iff {front back : List (Bytes × Timestamp)}
    {conn₀ conn conn' : HttpConnection} (hfront : serve httpCallback_ {} front = .ok conn₀)
    (hclose : ClosesIn httpCallback_ conn₀ chunk receiveTime conn)
    (hback : serve httpCallback_ conn back = .ok conn') :
    conn'.requests = conn.requests ↔
      back = [] ∨ ¬ BeginsRequest (conn.inputBuffer_ ++ (back.map Prod.fst).flatten) := by
  rcases hclose with ⟨hread, request, hrequests, _⟩
  have hs := (serve_keeps_requests front (by simp) hfront).1
  refine serve_quiet_iff back (caughtUp_of_dispatch hs hread ?_) hback
  rw [hrequests]
  simp

/-- A request, and half of another one behind it. -/
theorem no_request_after_close_iff_half :
    ∃ conn conn', ClosesIn defaultHttpCallback {} getRoot.wire .invalid conn ∧
      serve defaultHttpCallback conn [(ascii "GET / H", .invalid)] = .ok conn' ∧
      (conn'.requests = conn.requests ↔
        [(ascii "GET / H", Timestamp.invalid)] = [] ∨ ¬ BeginsRequest (ascii "GET / H")) := by
  have hclose := show ClosesIn defaultHttpCallback {} getRoot.wire .invalid _ from
    ⟨rfl, _, rfl, rfl⟩
  have hfront : serve defaultHttpCallback {} [] = .ok {} := rfl
  exact ⟨_, _, hclose, rfl, no_request_after_close_iff hfront hclose rfl⟩

/-- A second request behind a closing response is dispatched. -/
theorem second_request_after_close :
    ¬ ∀ (httpCallback_ : HttpCallback) (front back : List (Bytes × Timestamp)) (chunk : Bytes)
        (receiveTime : Timestamp) (conn₀ conn conn' : HttpConnection),
        serve httpCallback_ {} front = .ok conn₀ →
        ClosesIn httpCallback_ conn₀ chunk receiveTime conn →
        serve httpCallback_ conn back = .ok conn' → conn'.requests = conn.requests := by
  intro h
  have hclose := show ClosesIn defaultHttpCallback {} getRoot.wire .invalid _ from
    ⟨rfl, _, rfl, rfl⟩
  have hsame := h defaultHttpCallback [] [(getRoot.wire, .invalid)] getRoot.wire .invalid {} _ _ rfl
    hclose rfl
  exact absurd (congrArg List.length hsame) (by decide)

end HttpServer

end Pallette
