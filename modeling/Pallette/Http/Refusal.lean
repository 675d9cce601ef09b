import Pallette.Http.ContentLength

/-!
# Refusal — what a refused request line leaves behind

A line that is refused stays in the buffer, and with it in the request what had been stored of it.
When that includes the method, the next call meets the same line and fails the assertion in
`setMethod` (`serve_assertion_iff`).
-/

open Reasoning

namespace Pallette

/-- The line starts with a known method and a space. -/
def StartsWithMethod (line : Bytes) : Prop :=
  ∃ m : HttpRequest.Method, m ≠ .INVALID ∧ HttpRequest.methodString m ++ [space] <+: line

namespace HttpContext

variable {c c' : HttpContext} {buf line tail : Bytes} {r r' : HttpRequest}
  {w : Ending HttpContext UInt8 ParseEnd}

/-- The first thing the parser will read is a complete line that starts with a known method and is
no well-formed request line. -/
def HalfSet (c : HttpContext) (buf : Bytes) : Prop :=
  c.state_ = .EXPECT_REQUEST_LINE ∧
    ∃ line tail, buf = line ++ kCRLF ++ tail ∧ ¬ kCRLF <:+: line ∧ StartsWithMethod line ∧
      ¬ ∃ head : RequestHead, head.requestLine = line

theorem halfSet_untimed (c : HttpContext) (buf : Bytes) : c.untimed.HalfSet buf ↔ c.HalfSet buf :=
  Iff.rfl

/-! ## The request line -/

theorem startsWithMethod_iff :
    StartsWithMethod line ↔
      space ∈ line ∧ HttpRequest.methodOf (line.take (line.idxOf space)) ≠ .INVALID := by
  constructor
  · rintro ⟨m, hm, rest, rfl⟩
    have hsplit : HttpRequest.methodString m ++ [space] ++ rest =
        HttpRequest.methodString m ++ space :: rest := by simp
    rw [hsplit, idxOf_word (space_not_mem_methodString m), List.take_left,
      HttpRequest.methodOf_methodString hm]
    exact ⟨by simp, hm⟩
  · rintro ⟨hsp, hmethod⟩
    rcases word_of_idxOf_ne (idxOf_ne_length_iff.mpr hsp) with ⟨_, hsplit⟩
    refine ⟨_, hmethod, line.drop (line.idxOf space + 1), ?_⟩
    rw [methodString_methodOf hmethod, List.append_assoc]
    exact hsplit.symm

theorem processRequestLine_none (hr : r.method_ ≠ .INVALID) (hsp : space ∈ line) :
    processRequestLine r line = none := by
  simp only [processRequestLine, HttpRequest.setMethod, if_pos (idxOf_ne_length_iff.mpr hsp),
    if_neg hr, bind, Option.bind]

/-- A well-formed line is accepted by every request without a method. -/
theorem accepted_iff (hr : r.method_ = .INVALID) (hline : ¬ kCRLF <:+: line) :
    (∃ r', processRequestLine r line = some (true, r')) ↔
      ∃ head : RequestHead, head.requestLine = line := by
  constructor
  · rintro ⟨r', h⟩
    rcases processRequestLine_true_fresh h with ⟨r₀, h₀⟩
    rcases processRequestLine_true hline h₀ with ⟨head, _, hwire, _⟩
    exact ⟨head, hwire⟩
  · rintro ⟨head, rfl⟩
    have hfst := processRequestLine_fst head.requestLine hr
    rw [head.processRequestLine_eq] at hfst
    rcases Option.map_eq_some_iff.mp hfst with ⟨⟨ok, r'⟩, hp, hok⟩
    cases hok
    exact ⟨r', hp⟩

/-! ## One call -/

/-- Half setting a request: the line is refused and left where it is, the method stays. -/
theorem step_of_halfSet (h : HalfSet c buf) (hf : Fresh c) :
    ∃ r, parser.step c buf = .halt 0 { c with request_ := r } .badRequestLine ∧
      ∀ more, parser.step { c with request_ := r } (buf ++ more) =
        .halt 0 { c with request_ := r } .assertion := by
  rcases h with ⟨hstate, line, tail, rfl, hline, hmethod, hnohead⟩
  rcases startsWithMethod_iff.mp hmethod with ⟨hsp, hknown⟩
  have hinvalid := hf hstate
  rcases Option.ne_none_iff_exists'.mp (processRequestLine_isSome c.request_ line hinvalid) with
    ⟨⟨ok, r⟩, hprocess⟩
  have hstored := (processRequestLine_keeps hprocess).2
  rw [if_pos hsp] at hstored
  have hr : r.method_ ≠ .INVALID := hstored ▸ hknown
  cases ok with
  | true => exact absurd ((accepted_iff hinvalid hline).mp ⟨r, hprocess⟩) hnohead
  | false =>
    refine ⟨r, ?_, fun more ↦ ?_⟩
    · show parseStep c _ = _
      simp only [parseStep, hstate, search_line hline, take_line, requestLineStep, hprocess]
    · show parseStep _ _ = _
      rw [List.append_assoc]
      simp only [parseStep, hstate, search_line hline, take_line, requestLineStep,
        processRequestLine_none hr hsp]

/-- Refusing a line without setting the method leaves a context as fresh as it was. -/
theorem fresh_of_not_halfSet (h : parser.Consumes c buf w) (hs : c.state_ ≠ .GOT_ALL) (hf : Fresh c)
    (hnot : ¬ HalfSet c buf) : Fresh w.state := by
  cases h with
  | wait _ => exact hf
  | next hstep hrest =>
    have hs' := (parseStep_next_progress hstep hs).2.2
    exact fun hline ↦
      absurd hline (behind_of_consumes hrest hs' (parseStep_next_line hstep hs))
  | @halt _ t _ n e hstep =>
    by_cases hgot : e = .gotAll
    · subst hgot
      have hstate : t.state_ = .GOT_ALL := consumes_gotAll_state (.halt hstep) hs
      exact fun hline ↦ absurd (hline.symm.trans hstate) (by simp)
    rcases (parseStep_failure_cases hstep hgot).2 with
      ⟨hstate, crlf, hcrlf, ⟨_, rfl, _⟩ | ⟨r, hrefused, rfl, _⟩⟩ | ⟨_, _, _, _, rfl, _⟩
    · exact hf
    · rcases line_of_search hcrlf with ⟨hsingle, hsplit⟩
      have hnohead : ¬ ∃ head : RequestHead, head.requestLine = buf.take crlf := by
        rintro ⟨head, hline⟩
        exact processRequestLine_ne_false head _ _ (hline ▸ hrefused)
      intro _
      show r.method_ = .INVALID
      rw [(processRequestLine_keeps hrefused).2, hf hstate]
      by_contra hmethod
      refine hnot ⟨hstate, _, _, hsplit, hsingle, startsWithMethod_iff.mpr ?_, hnohead⟩
      split at hmethod
      next hsp => exact ⟨hsp, hmethod⟩
      next => exact absurd rfl hmethod
    · exact hf

end HttpContext

/-! ## The calls of a connection -/

def ParseCall.HalfSet (call : ParseCall) : Prop :=
  call.context.HalfSet call.buf

namespace HttpServer

variable {httpCallback_ : HttpCallback}

/-- The parser can be called, and meets the request line without a method. -/
structure Reusable (conn : HttpConnection) : Prop where
  unfinished : conn.context.state_ ≠ .GOT_ALL
  fresh : conn.context.Fresh

theorem reusable_empty : Reusable {} :=
  ⟨by simp, fun _ ↦ rfl⟩

theorem handleRead_ne_assertion {conn : HttpConnection} (h : Reusable conn) (chunk : Bytes)
    (receiveTime : Timestamp) :
    handleRead httpCallback_ conn chunk receiveTime ≠ .error .assertion := by
  intro herror
  rcases handleRead_error httpCallback_ conn herror with ⟨s, hcall⟩
  rcases HttpContext.parseRequest_spec conn.context (conn.inputBuffer_ ++ chunk) receiveTime
    h.unfinished with ⟨r, hcall', hr⟩
  rw [hcall] at hcall'
  cases r with
  | waiting c rest => cases hcall'
  | halted c rest e =>
    cases e <;> cases hcall'
    exact HttpContext.consumes_no_assertion hr h.fresh h.unfinished rfl

/-- One read keeps the context reusable, unless it half sets the request. -/
theorem Reusable.handleRead {conn conn' : HttpConnection} {chunk : Bytes} {receiveTime : Timestamp}
    (h : Reusable conn) (hread : handleRead httpCallback_ conn chunk receiveTime = .ok conn')
    (hnot : ¬ conn.context.HalfSet (conn.inputBuffer_ ++ chunk)) : Reusable conn' := by
  cases handleRead_cases hread h.unfinished with
  | @waiting c _ hr =>
    have hstate : c.untimed.state_ ≠ .GOT_ALL := HttpContext.parseStep_wait_state hr.waits
    exact ⟨hstate, HttpContext.fresh_of_not_halfSet hr h.unfinished h.fresh hnot⟩
  | dispatched _ => exact ⟨by simp, fun _ ↦ rfl⟩
  | @refused c _ hr =>
    have hstate : c.untimed.state_ ≠ .GOT_ALL :=
      HttpContext.consumes_failure_state hr (by simp) h.unfinished
    exact ⟨hstate, HttpContext.fresh_of_not_halfSet hr h.unfinished h.fresh hnot⟩

/-- Behind a read that has half set the request, the next one fails whatever it reads. -/
theorem handleRead_after_halfSet {conn conn' : HttpConnection} {chunk : Bytes}
    {receiveTime : Timestamp} (h : Reusable conn)
    (hread : handleRead httpCallback_ conn chunk receiveTime = .ok conn')
    (hhalf : conn.context.HalfSet (conn.inputBuffer_ ++ chunk)) (more : Bytes) (now : Timestamp) :
    handleRead httpCallback_ conn' more now = .error .assertion := by
  rcases HttpContext.step_of_halfSet ((HttpContext.halfSet_untimed _ _).mpr hhalf) h.fresh with
    ⟨r, hstep, hagain⟩
  cases handleRead_cases hread h.unfinished with
  | waiting hr => cases (Consumer.consumes_iff_of_halt hstep).mp hr
  | dispatched hr =>
    have hend := (Consumer.consumes_iff_of_halt hstep).mp hr
    simp only [Ending.halted.injEq, reduceCtorEq, and_false] at hend
  | @refused c rest hr =>
    have hstate : c.untimed.state_ ≠ .GOT_ALL :=
      HttpContext.consumes_failure_state hr (by simp) h.unfinished
    have hrefused := (Consumer.consumes_iff_of_halt hstep).mp hr
    rw [List.drop_zero, Ending.halted.injEq] at hrefused
    rcases hrefused with ⟨hcontext, rfl, _⟩
    have hfails : HttpContext.parser.Consumes c.untimed (conn.inputBuffer_ ++ chunk ++ more)
        (.halted c.untimed (conn.inputBuffer_ ++ chunk ++ more) .assertion) := by
      rw [hcontext]
      exact .halt (hagain more)
    rcases HttpContext.parseRequest_of_consumes now hfails hstate with ⟨w, hcall, hw⟩
    cases w with
    | waiting _ _ => cases hw
    | halted c' rest' e =>
      simp only [Ending.map, Ending.halted.injEq] at hw
      rcases hw with ⟨_, _, rfl⟩
      simp only [HttpServer.handleRead, onMessage, refuse, hcall, finish]

/-- The assertion fails in a run exactly behind a call that half sets the request. -/
theorem serve_assertion_iff (chunks : List (Bytes × Timestamp)) {conn : HttpConnection}
    (h : Reusable conn) :
    serve httpCallback_ conn chunks = .error .assertion ↔
      ∃ call ∈ (parseCalls httpCallback_ conn chunks).dropLast, call.HalfSet := by
  induction chunks generalizing conn with
  | nil => simp [serve, parseCalls]
  | cons p chunks ih =>
    rcases p with ⟨chunk, receiveTime⟩
    simp only [serve, parseCalls]
    cases hread : HttpServer.handleRead httpCallback_ conn chunk receiveTime with
    | error f =>
      have hne : f ≠ .assertion := fun hf ↦
        handleRead_ne_assertion h chunk receiveTime (hf ▸ hread)
      simp [hne]
    | ok conn' =>
      by_cases hhalf : conn.context.HalfSet (conn.inputBuffer_ ++ chunk)
      · cases chunks with
        | nil => simp [serve, parseCalls]
        | cons p chunks =>
          -- the call is not the last one, and the next one fails
          have hfails := handleRead_after_halfSet h hread hhalf p.1 p.2
          refine iff_of_true (by simp only [serve, hfails])
            ⟨⟨conn.context, conn.inputBuffer_ ++ chunk, receiveTime⟩, ?_, hhalf⟩
          rw [List.dropLast_cons_of_ne_nil (by simp [parseCalls])]
          exact List.mem_cons_self
      · simp only
        rw [ih (h.handleRead hread hhalf)]
        cases chunks with
        | nil => simp [parseCalls]
        | cons p chunks =>
          rw [List.dropLast_cons_of_ne_nil (by simp [parseCalls]), List.exists_mem_cons_iff]
          exact (or_iff_right hhalf).symm

/-- **Reading on after a bad request.**  Over any chunks on a fresh connection, the assertion in
`setMethod` holds exactly if no call but the last half sets the request. -/
theorem serve_no_assertion_iff (httpCallback_ : HttpCallback) (chunks : List (Bytes × Timestamp)) :
    serve httpCallback_ {} chunks ≠ .error .assertion ↔
      ∀ call ∈ (parseCalls httpCallback_ {} chunks).dropLast, ¬ call.HalfSet := by
  rw [ne_eq, serve_assertion_iff chunks reusable_empty]
  simp only [not_exists, not_and]

/-- A request line with a version there is not, and one more byte. -/
theorem bad_version_asserts :
    ¬ ∀ (httpCallback_ : HttpCallback) (chunks : List (Bytes × Timestamp)),
        (∀ p ∈ chunks, p.1 ≠ []) → serve httpCallback_ {} chunks ≠ .error .assertion := by
  intro h
  refine h defaultHttpCallback
    [(ascii "GET / HTTP/9.9" ++ kCRLF, .invalid), (ascii "x", .invalid)] ?_ ?_
  · decide
  · decide

end HttpServer

end Pallette
