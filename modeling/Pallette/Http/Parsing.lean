import Pallette.Http.HttpContext
import Pallette.Reasoning.Consumer

/-!
# Parsing — the request parser resumes where it stopped

The loop of `parseRequest` is a consumer: each iteration waits for more bytes, takes some, or ends
the call.  It never waits for bytes it has, so it ends on every buffer (`parseRequest_spec`), and
its decisions do not depend on bytes it has not reached (`parser`).  Chunks are therefore invisible,
but for the receive time, which is the one of the chunk that completes the request line.
-/

open Reasoning

namespace Pallette

/-- Why a call of `parseRequest` stops for good. -/
inductive ParseEnd
  | badRequestLine
  | exception (e : StdException)
  | assertion
  | gotAll
deriving DecidableEq, Repr

namespace HttpRequest

/-- The request without the time it was received at. -/
def untimed (r : HttpRequest) : HttpRequest :=
  { r with receiveTime_ := .invalid }

end HttpRequest

namespace HttpContext

def untimed (c : HttpContext) : HttpContext :=
  { c with request_ := c.request_.untimed }

@[simp] theorem untimed_state (c : HttpContext) : c.untimed.state_ = c.state_ := rfl

/-- The decision on a complete request line; `n` is its length with the line end. -/
def requestLineStep (c : HttpContext) (line : Bytes) (n : Nat) : Verdict HttpContext ParseEnd :=
  match processRequestLine c.request_ line with
  | none => .halt 0 c .assertion
  | some (true, r) => .next n ⟨.EXPECT_HEADERS, r.untimed⟩
  | some (false, r) => .halt 0 { c with request_ := r } .badRequestLine

/-- The decision on a complete line of the head. -/
def headerLineStep (c : HttpContext) (line : Bytes) (n : Nat) : Verdict HttpContext ParseEnd :=
  if line.idxOf colonByte ≠ line.length then
    .next n { c with request_ := c.request_.addHeader line (line.idxOf colonByte) }
  else if c.request_.method_ = .GET then .halt n (afterHead c) .gotAll
  else .next n (afterHead c)

def bodyStep (c : HttpContext) (buf : Bytes) : Verdict HttpContext ParseEnd :=
  if c.request_.getHeader contentLengthField = [] then .wait
  else
    match stoi (c.request_.getHeader contentLengthField) with
    | .error e => .halt 0 c (.exception e)
    | .ok n =>
        if 0 ≤ n ∧ n ≤ buf.length then
          .halt n.toNat ⟨.GOT_ALL, { c.request_ with query_ := buf.take n.toNat }⟩ .gotAll
        else .wait

/-- What one iteration does with the state `c` and the unread bytes `buf`. -/
def parseStep (c : HttpContext) (buf : Bytes) : Verdict HttpContext ParseEnd :=
  match c.state_ with
  | .EXPECT_REQUEST_LINE =>
      match search kCRLF buf with
      | none => .wait
      | some crlf => requestLineStep c (buf.take crlf) (crlf + kCRLF.length)
  | .EXPECT_HEADERS =>
      match search kCRLF buf with
      | none => .wait
      | some crlf => headerLineStep c (buf.take crlf) (crlf + kCRLF.length)
  | .EXPECT_BODY => bodyStep c buf
  | .GOT_ALL => .next 0 c

/-- How many bytes a decision takes. -/
def taken : Verdict HttpContext ParseEnd → Nat
  | .wait => 0
  | .next n _ => n
  | .halt n _ _ => n

theorem taken_requestLineStep (c : HttpContext) (line : Bytes) (n : Nat) :
    taken (requestLineStep c line n) ≤ n := by
  unfold requestLineStep
  split
  · exact Nat.zero_le n
  · exact le_rfl
  · exact Nat.zero_le n

theorem taken_headerLineStep (c : HttpContext) (line : Bytes) (n : Nat) :
    taken (headerLineStep c line n) = n := by
  unfold headerLineStep
  split
  · rfl
  · split <;> rfl

theorem taken_bodyStep (c : HttpContext) (buf : Bytes) : taken (bodyStep c buf) ≤ buf.length := by
  unfold bodyStep
  split
  · exact Nat.zero_le _
  · split
    · exact Nat.zero_le _
    · split
      next n _ hn =>
        show n.toNat ≤ buf.length
        omega
      next => exact Nat.zero_le _

theorem taken_parseStep (c : HttpContext) (buf : Bytes) : taken (parseStep c buf) ≤ buf.length := by
  unfold parseStep
  split
  · split
    next => exact Nat.zero_le _
    next hcrlf => exact (taken_requestLineStep _ _ _).trans (search_bound hcrlf)
  · split
    next => exact Nat.zero_le _
    next hcrlf => exact (taken_headerLineStep _ _ _).le.trans (search_bound hcrlf)
  · exact taken_bodyStep c buf
  · exact Nat.zero_le _

theorem bodyStep_append {c : HttpContext} {buf : Bytes} (more : Bytes)
    (h : bodyStep c buf ≠ .wait) : bodyStep c (buf ++ more) = bodyStep c buf := by
  unfold bodyStep at h ⊢
  split at h
  next => exact absurd rfl h
  next hne =>
    rw [if_neg hne, if_neg hne]
    split at h
    next => rfl
    next n _ =>
      split at h
      next hle =>
        have hlong : 0 ≤ n ∧ n ≤ ((buf ++ more).length : Int) := by
          rw [List.length_append]
          omega
        rw [if_pos hle, if_pos hlong, List.take_append_of_le_length (by omega)]
      next => exact absurd rfl h

theorem parseStep_append {c : HttpContext} {buf : Bytes} (more : Bytes)
    (h : parseStep c buf ≠ .wait) : parseStep c (buf ++ more) = parseStep c buf := by
  have hline : ∀ {crlf}, search kCRLF buf = some crlf →
      (buf ++ more).take crlf = buf.take crlf := by
    intro crlf hcrlf
    have hle := search_bound hcrlf
    exact List.take_append_of_le_length (by omega)
  unfold parseStep at h ⊢
  split at h
  · cases hcrlf : search kCRLF buf with
    | none =>
      rw [hcrlf] at h
      exact absurd rfl h
    | some crlf => simp only [search_append hcrlf more, hline hcrlf]
  · cases hcrlf : search kCRLF buf with
    | none =>
      rw [hcrlf] at h
      exact absurd rfl h
    | some crlf => simp only [search_append hcrlf more, hline hcrlf]
  · exact bodyStep_append more h
  · rfl

/-- The request parser as a consumer of bytes. -/
def parser : Consumer HttpContext UInt8 ParseEnd where
  step := parseStep
  next_le {c buf _ _} h := by
    have hle := taken_parseStep c buf
    rwa [h] at hle
  halt_le {c buf _ _ _} h := by
    have hle := taken_parseStep c buf
    rwa [h] at hle
  stable := parseStep_append

/-! ## The loop of `parseRequest` is the consumer -/

end HttpContext

def ParseState.untimed (s : ParseState) : ParseState :=
  { s with context := s.context.untimed }

/-- The result of a call without the receive time. -/
def untimedResult : Except (Fault × ParseState) ParseState → Except (Fault × ParseState) ParseState
  | .ok s => .ok s.untimed
  | .error (f, s) => .error (f, s.untimed)

/-- What `parseRequest` makes of the way the consumer ends. -/
def finish : Ending HttpContext UInt8 ParseEnd → Except (Fault × ParseState) ParseState
  | .waiting c rest => .ok ⟨c, rest, true, false⟩
  | .halted c rest .badRequestLine => .ok ⟨c, rest, false, false⟩
  | .halted c rest .gotAll => .ok ⟨c, rest, true, false⟩
  | .halted c rest (.exception e) => .error (.exception e, ⟨c, rest, true, true⟩)
  | .halted c rest .assertion => .error (.assertion, ⟨c, rest, true, true⟩)

namespace HttpContext

/-- One decision, as the loop carries it out. -/
def iterationOf (c : HttpContext) (buf : Bytes) : Except (Fault × ParseState) ParseState :=
  match parseStep c buf with
  | .wait => .ok ⟨c, buf, true, false⟩
  | .next n c' => .ok ⟨c', buf.drop n, true, true⟩
  | .halt n c' e => finish (.halted c' (buf.drop n) e)

theorem setTarget_untimed (r : HttpRequest) (target : Bytes) :
    setTarget r.untimed target = (setTarget r target).untimed := by
  simp only [setTarget, HttpRequest.untimed]
  split <;> rfl

/-- `setProtocol` goes by the protocol alone, and stores a version at most. -/
theorem setProtocol_eq (protocol : Bytes) :
    ∃ (ok : Bool) (store : HttpRequest.Version → HttpRequest.Version), ∀ r : HttpRequest,
      setProtocol r protocol = (ok, { r with version_ := store r.version_ }) := by
  by_cases hprefix : protocol.length = 8 ∧ protocol.take 7 = ascii "HTTP/1."
  · by_cases hone : protocol.drop 7 = ascii "1"
    · refine ⟨true, fun _ ↦ .HTTP11, fun r ↦ ?_⟩
      rw [setProtocol, if_pos hprefix, if_pos hone]
    · by_cases hzero : protocol.drop 7 = ascii "0"
      · refine ⟨true, fun _ ↦ .HTTP10, fun r ↦ ?_⟩
        rw [setProtocol, if_pos hprefix, if_neg hone, if_pos hzero]
      · refine ⟨false, id, fun r ↦ ?_⟩
        rw [setProtocol, if_pos hprefix, if_neg hone, if_neg hzero]
        rfl
  · refine ⟨false, id, fun r ↦ ?_⟩
    rw [setProtocol, if_neg hprefix]
    rfl

theorem setProtocol_untimed (r : HttpRequest) (protocol : Bytes) :
    setProtocol r.untimed protocol =
      ((setProtocol r protocol).1, (setProtocol r protocol).2.untimed) := by
  obtain ⟨ok, store, heq⟩ := setProtocol_eq protocol
  rw [heq, heq]
  rfl

theorem processRequestLine_untimed (r : HttpRequest) (line : Bytes) :
    processRequestLine r.untimed line =
      (processRequestLine r line).map fun p ↦ (p.1, p.2.untimed) := by
  unfold processRequestLine HttpRequest.setMethod
  have hm : r.untimed.method_ = r.method_ := rfl
  rw [hm]
  simp only [bind, Option.bind, pure]
  split
  · by_cases hmethod : r.method_ = .INVALID
    · simp only [hmethod, if_true]
      split
      · split
        · have htarget := setTarget_untimed
            { r with method_ := HttpRequest.methodOf (line.take (line.idxOf space)) }
          simp only [Option.map_some, Option.some.injEq]
          rw [← setProtocol_untimed, ← htarget]
          rfl
        · rfl
      · rfl
    · simp only [hmethod, if_false, Option.map_none]
  · rfl

theorem afterHead_untimed (c : HttpContext) : afterHead c.untimed = (afterHead c).untimed := by
  unfold afterHead
  have hm : c.untimed.request_.method_ = c.request_.method_ := rfl
  rw [hm]
  split <;> rfl

theorem expectRequestLine_spec (now : Timestamp) (c : HttpContext) (buf : Bytes)
    (hs : c.state_ = .EXPECT_REQUEST_LINE) :
    untimedResult (expectRequestLine now ⟨c, buf, true, true⟩) = iterationOf c.untimed buf := by
  have hs' : c.untimed.state_ = .EXPECT_REQUEST_LINE := hs
  simp only [expectRequestLine, iterationOf, parseStep, hs']
  cases search kCRLF buf with
  | none => rfl
  | some crlf =>
    have hreq : c.untimed.request_ = c.request_.untimed := rfl
    simp only [requestLineStep, hreq, processRequestLine_untimed]
    cases processRequestLine c.request_ (buf.take crlf) with
    | none => rfl
    | some p =>
      obtain ⟨ok, r⟩ := p
      cases ok <;> rfl

theorem expectHeaders_spec (c : HttpContext) (buf : Bytes) (hs : c.state_ = .EXPECT_HEADERS) :
    untimedResult (.ok (expectHeaders ⟨c, buf, true, true⟩)) = iterationOf c.untimed buf := by
  have hs' : c.untimed.state_ = .EXPECT_HEADERS := hs
  have hm : c.untimed.request_.method_ = c.request_.method_ := rfl
  simp only [expectHeaders, iterationOf, parseStep, hs']
  cases search kCRLF buf with
  | none => rfl
  | some crlf =>
    simp only [headerLineStep, hm, afterHead_untimed]
    by_cases hcolon : (buf.take crlf).idxOf colonByte ≠ (buf.take crlf).length
    · rw [if_pos hcolon, if_pos hcolon]
      rfl
    · rw [if_neg hcolon, if_neg hcolon]
      by_cases hget : c.request_.method_ = .GET
      · rw [if_pos hget, if_pos hget]
        rfl
      · rw [if_neg hget, if_neg hget]
        rfl

theorem expectBody_spec (c : HttpContext) (buf : Bytes) (hs : c.state_ = .EXPECT_BODY) :
    untimedResult (expectBody ⟨c, buf, true, true⟩) = iterationOf c.untimed buf := by
  have hs' : c.untimed.state_ = .EXPECT_BODY := hs
  have hget : c.untimed.request_.getHeader contentLengthField =
      c.request_.getHeader contentLengthField := rfl
  simp only [expectBody, iterationOf, parseStep, hs', bodyStep, hget]
  by_cases hempty : c.request_.getHeader contentLengthField = []
  · rw [if_pos hempty, if_pos hempty]
    rfl
  · rw [if_neg hempty, if_neg hempty]
    cases stoi (c.request_.getHeader contentLengthField) with
    | error e => rfl
    | ok n =>
      by_cases hn : 0 ≤ n ∧ n ≤ buf.length
      · simp only [if_pos hn]
        rfl
      · simp only [if_neg hn]
        rfl

/-- One iteration of the loop is one decision of the consumer. -/
theorem parseIteration_spec (now : Timestamp) (c : HttpContext) (buf : Bytes)
    (hs : c.state_ ≠ .GOT_ALL) :
    untimedResult (parseIteration now ⟨c, buf, true, true⟩) = iterationOf c.untimed buf := by
  unfold parseIteration
  split
  next hstate => exact expectRequestLine_spec now c buf hstate
  next hstate => exact expectHeaders_spec c buf hstate
  next hstate => exact expectBody_spec c buf hstate
  next hstate => exact absurd hstate hs

/-! ## What a decision can be -/

variable {c c' : HttpContext} {buf more : Bytes} {n : Nat} {e : ParseEnd}

theorem idxOf_ne_length_iff {line : Bytes} {b : UInt8} : line.idxOf b ≠ line.length ↔ b ∈ line := by
  rw [← List.idxOf_lt_length_iff]
  have hle := List.idxOf_le_length (a := b) (l := line)
  omega

/-- Every decision there is, with what is known when it is taken. -/
inductive Decision (c : HttpContext) (buf : Bytes) : Verdict HttpContext ParseEnd → Prop
  | unfinishedLine : search kCRLF buf = none → Decision c buf .wait
  | assertionFails {crlf : Nat} :
      c.state_ = .EXPECT_REQUEST_LINE → search kCRLF buf = some crlf →
      processRequestLine c.request_ (buf.take crlf) = none → Decision c buf (.halt 0 c .assertion)
  | accepted {crlf : Nat} {r : HttpRequest} :
      c.state_ = .EXPECT_REQUEST_LINE → search kCRLF buf = some crlf →
      processRequestLine c.request_ (buf.take crlf) = some (true, r) →
      Decision c buf (.next (crlf + kCRLF.length) ⟨.EXPECT_HEADERS, r.untimed⟩)
  | refused {crlf : Nat} {r : HttpRequest} :
      c.state_ = .EXPECT_REQUEST_LINE → search kCRLF buf = some crlf →
      processRequestLine c.request_ (buf.take crlf) = some (false, r) →
      Decision c buf (.halt 0 { c with request_ := r } .badRequestLine)
  | header {crlf : Nat} :
      c.state_ = .EXPECT_HEADERS → search kCRLF buf = some crlf → colonByte ∈ buf.take crlf →
      Decision c buf (.next (crlf + kCRLF.length)
        { c with request_ :=
        c.request_.addHeader (buf.take crlf) ((buf.take crlf).idxOf colonByte) })
  | getEnds {crlf : Nat} :
      c.state_ = .EXPECT_HEADERS → search kCRLF buf = some crlf → colonByte ∉ buf.take crlf →
      c.request_.method_ = .GET → Decision c buf (.halt (crlf + kCRLF.length) (afterHead c) .gotAll)
  | headEnds {crlf : Nat} :
      c.state_ = .EXPECT_HEADERS → search kCRLF buf = some crlf → colonByte ∉ buf.take crlf →
      c.request_.method_ ≠ .GET → Decision c buf (.next (crlf + kCRLF.length) (afterHead c))
  | unfinishedBody : c.state_ = .EXPECT_BODY → Decision c buf .wait
  | badLength {x : StdException} :
      c.state_ = .EXPECT_BODY → c.request_.getHeader contentLengthField ≠ [] →
      stoi (c.request_.getHeader contentLengthField) = .error x →
      Decision c buf (.halt 0 c (.exception x))
  | body {n : Nat} :
      c.state_ = .EXPECT_BODY → c.request_.getHeader contentLengthField ≠ [] →
      stoi (c.request_.getHeader contentLengthField) = .ok n → n ≤ buf.length →
      Decision c buf (.halt n ⟨.GOT_ALL, { c.request_ with query_ := buf.take n }⟩ .gotAll)
  | done : c.state_ = .GOT_ALL → Decision c buf (.next 0 c)

theorem decision_requestLine {crlf : Nat} (hstate : c.state_ = .EXPECT_REQUEST_LINE)
    (hcrlf : search kCRLF buf = some crlf) :
    Decision c buf (requestLineStep c (buf.take crlf) (crlf + kCRLF.length)) := by
  unfold requestLineStep
  split
  next hline => exact .assertionFails hstate hcrlf hline
  next r hline => exact .accepted hstate hcrlf hline
  next r hline => exact .refused hstate hcrlf hline

theorem decision_headerLine {crlf : Nat} (hstate : c.state_ = .EXPECT_HEADERS)
    (hcrlf : search kCRLF buf = some crlf) :
    Decision c buf (headerLineStep c (buf.take crlf) (crlf + kCRLF.length)) := by
  unfold headerLineStep
  split
  next hcolon => exact .header hstate hcrlf (idxOf_ne_length_iff.mp hcolon)
  next hcolon =>
    have hcolon : colonByte ∉ buf.take crlf := fun hmem ↦ hcolon (idxOf_ne_length_iff.mpr hmem)
    split
    next hget => exact .getEnds hstate hcrlf hcolon hget
    next hget => exact .headEnds hstate hcrlf hcolon hget

theorem decision_body (hstate : c.state_ = .EXPECT_BODY) : Decision c buf (bodyStep c buf) := by
  unfold bodyStep
  split
  next => exact .unfinishedBody hstate
  next hne =>
    split
    next x hx => exact .badLength hstate hne hx
    next k hk =>
      split
      next hfits =>
        rw [← Int.toNat_of_nonneg hfits.1] at hk
        exact .body hstate hne hk (by omega)
      next => exact .unfinishedBody hstate

theorem parseStep_decision (c : HttpContext) (buf : Bytes) : Decision c buf (parseStep c buf) := by
  unfold parseStep
  split
  next hstate =>
    split
    next hnone => exact .unfinishedLine hnone
    next hcrlf => exact decision_requestLine hstate hcrlf
  next hstate =>
    split
    next hnone => exact .unfinishedLine hnone
    next hcrlf => exact decision_headerLine hstate hcrlf
  next hstate => exact decision_body hstate
  next hstate => exact .done hstate

/-- Going on means having taken a whole line. -/
theorem parseStep_next_cases (h : parseStep c buf = .next n c') (hs : c.state_ ≠ .GOT_ALL) :
    ∃ crlf, search kCRLF buf = some crlf ∧ n = crlf + kCRLF.length ∧
      ((c.state_ = .EXPECT_REQUEST_LINE ∧ ∃ r,
          processRequestLine c.request_ (buf.take crlf) = some (true, r) ∧
          c' = ⟨.EXPECT_HEADERS, r.untimed⟩) ∨
        (c.state_ = .EXPECT_HEADERS ∧ colonByte ∈ buf.take crlf ∧
          c' = { c with request_ :=
            c.request_.addHeader (buf.take crlf) ((buf.take crlf).idxOf colonByte) }) ∨
        (c.state_ = .EXPECT_HEADERS ∧ colonByte ∉ buf.take crlf ∧ c.request_.method_ ≠ .GET ∧
          c' = afterHead c)) := by
  have hdecision := parseStep_decision c buf
  rw [h] at hdecision
  cases hdecision with
  | @accepted crlf r hstate hcrlf hline => exact ⟨crlf, hcrlf, rfl, .inl ⟨hstate, r, hline, rfl⟩⟩
  | @header crlf hstate hcrlf hcolon =>
    exact ⟨crlf, hcrlf, rfl, .inr (.inl ⟨hstate, hcolon, rfl⟩)⟩
  | @headEnds crlf hstate hcrlf hcolon hget =>
    exact ⟨crlf, hcrlf, rfl, .inr (.inr ⟨hstate, hcolon, hget, rfl⟩)⟩
  | done hstate => exact absurd hstate hs

/-- Halting on the line that ends the head of a `GET` request. -/
def HeadEnds (c : HttpContext) (buf : Bytes) (n : Nat) (c' : HttpContext) : Prop :=
  ∃ crlf, search kCRLF buf = some crlf ∧ n = crlf + kCRLF.length ∧ c.state_ = .EXPECT_HEADERS ∧
    colonByte ∉ buf.take crlf ∧ c.request_.method_ = .GET ∧ c' = afterHead c

/-- Halting behind a body of the announced length. -/
def BodyEnds (c : HttpContext) (buf : Bytes) (n : Nat) (c' : HttpContext) : Prop :=
  c.state_ = .EXPECT_BODY ∧ c.request_.getHeader contentLengthField ≠ [] ∧
    stoi (c.request_.getHeader contentLengthField) = .ok n ∧ n ≤ buf.length ∧
    c' = ⟨.GOT_ALL, { c.request_ with query_ := buf.take n }⟩

theorem parseStep_gotAll_cases (h : parseStep c buf = .halt n c' .gotAll) :
    HeadEnds c buf n c' ∨ BodyEnds c buf n c' := by
  have hdecision := parseStep_decision c buf
  rw [h] at hdecision
  cases hdecision with
  | @getEnds crlf hstate hcrlf hcolon hget =>
    exact .inl ⟨crlf, hcrlf, rfl, hstate, hcolon, hget, rfl⟩
  | body hstate hne hstoi hle => exact .inr ⟨hstate, hne, hstoi, hle, rfl⟩

/-- The three ways to fail; none of them takes a byte. -/
theorem parseStep_failure_cases (h : parseStep c buf = .halt n c' e) (he : e ≠ .gotAll) :
    n = 0 ∧
      ((c.state_ = .EXPECT_REQUEST_LINE ∧ ∃ crlf, search kCRLF buf = some crlf ∧
          ((processRequestLine c.request_ (buf.take crlf) = none ∧ c' = c ∧ e = .assertion) ∨
            ∃ r, processRequestLine c.request_ (buf.take crlf) = some (false, r) ∧
              c' = { c with request_ := r } ∧ e = .badRequestLine)) ∨
        (c.state_ = .EXPECT_BODY ∧ c.request_.getHeader contentLengthField ≠ [] ∧ ∃ x,
          stoi (c.request_.getHeader contentLengthField) = .error x ∧ c' = c ∧
            e = .exception x)) := by
  have hdecision := parseStep_decision c buf
  rw [h] at hdecision
  cases hdecision with
  | @assertionFails crlf hstate hcrlf hline =>
    exact ⟨rfl, .inl ⟨hstate, crlf, hcrlf, .inl ⟨hline, rfl, rfl⟩⟩⟩
  | @refused crlf r hstate hcrlf hline =>
    exact ⟨rfl, .inl ⟨hstate, crlf, hcrlf, .inr ⟨r, hline, rfl, rfl⟩⟩⟩
  | @badLength x hstate hne hstoi => exact ⟨rfl, .inr ⟨hstate, hne, x, hstoi, rfl, rfl⟩⟩
  | getEnds _ _ _ _ => exact absurd rfl he
  | body _ _ _ _ => exact absurd rfl he

theorem afterHead_state_ne (h : c.state_ ≠ .GOT_ALL) (hm : c.request_.method_ ≠ .GET) :
    (afterHead c).state_ ≠ .GOT_ALL := by
  unfold afterHead
  split
  next hget => exact absurd hget hm
  next => simp
  next => exact h

theorem parseStep_next_progress (h : parseStep c buf = .next n c') (hs : c.state_ ≠ .GOT_ALL) :
    0 < n ∧ n ≤ buf.length ∧ c'.state_ ≠ .GOT_ALL := by
  have hle := taken_parseStep c buf
  rw [h] at hle
  rcases parseStep_next_cases h hs with ⟨crlf, _, rfl, hcase⟩
  refine ⟨by simp [kCRLF], hle, ?_⟩
  rcases hcase with ⟨_, r, _, rfl⟩ | ⟨hstate, _, rfl⟩ | ⟨hstate, _, hm, rfl⟩
  · simp
  · exact hs
  · exact afterHead_state_ne hs hm

/-! ## The whole loop -/

theorem parseLoop_spec (now : Timestamp) (fuel : Nat) (c : HttpContext) (buf : Bytes)
    (hs : c.state_ ≠ .GOT_ALL) (hfuel : buf.length < fuel) :
    ∃ r, parser.Consumes c.untimed buf r ∧
      untimedResult (parseLoop now fuel ⟨c, buf, true, true⟩) = finish r := by
  induction fuel generalizing c buf with
  | zero => omega
  | succ fuel ih =>
    have hiter := parseIteration_spec now c buf hs
    -- an iteration without `hasMore` is the last one
    have hstopped : ∀ s : ParseState, s.hasMore = false → parseLoop now fuel s = .ok s := by
      intro s hmore
      cases fuel <;> simp [parseLoop, hmore]
    simp only [parseLoop, if_true]
    cases hstep : parseStep c.untimed buf with
    | wait =>
      refine ⟨_, .wait hstep, ?_⟩
      simp only [iterationOf, hstep] at hiter
      cases hres : parseIteration now ⟨c, buf, true, true⟩ with
      | error p => simp only [hres, untimedResult, reduceCtorEq] at hiter
      | ok s =>
        simp only [hres, untimedResult, Except.ok.injEq] at hiter
        have hmore : s.hasMore = false := congrArg ParseState.hasMore hiter
        rw [Except.bind, hstopped s hmore]
        simp only [untimedResult, hiter, finish]
    | next k c' =>
      simp only [iterationOf, hstep] at hiter
      rcases parseStep_next_progress hstep hs with ⟨hk, hkle, hs'⟩
      cases hres : parseIteration now ⟨c, buf, true, true⟩ with
      | error p => simp only [hres, untimedResult, reduceCtorEq] at hiter
      | ok s =>
        simp only [hres, untimedResult, Except.ok.injEq] at hiter
        rcases s with ⟨c₁, buf₁, ok₁, more₁⟩
        simp only [ParseState.untimed, ParseState.mk.injEq] at hiter
        rcases hiter with ⟨rfl, rfl, rfl, rfl⟩
        have hlen : (buf.drop k).length < fuel := by
          rw [List.length_drop]
          omega
        -- every step that goes on takes bytes, so the fuel lasts
        rcases ih c₁ (buf.drop k) hs' hlen with ⟨r, hr, hloop⟩
        exact ⟨r, .next hstep hr, hloop⟩
    | halt k c' e =>
      refine ⟨_, .halt hstep, ?_⟩
      simp only [iterationOf, hstep] at hiter
      cases hres : parseIteration now ⟨c, buf, true, true⟩ with
      | error p =>
        rw [hres] at hiter
        exact hiter
      | ok s =>
        rw [hres] at hiter
        have hmore : s.hasMore = false := by
          cases e <;> simp only [untimedResult, finish, Except.ok.injEq, reduceCtorEq] at hiter <;>
            exact congrArg ParseState.hasMore hiter
        rw [Except.bind, hstopped s hmore]
        exact hiter

theorem untimedResult_eq_finish {x : Except (Fault × ParseState) ParseState}
    {r : Ending HttpContext UInt8 ParseEnd} (h : untimedResult x = finish r) :
    ∃ r', x = finish r' ∧ r'.map untimed = r := by
  cases x with
  | ok s =>
    rcases s with ⟨c, rest, ok, more⟩
    cases r with
    | waiting c' rest' =>
      simp only [untimedResult, finish, ParseState.untimed, Except.ok.injEq,
        ParseState.mk.injEq] at h
      rcases h with ⟨rfl, rfl, rfl, rfl⟩
      exact ⟨.waiting c rest, rfl, rfl⟩
    | halted c' rest' e =>
      cases e <;> simp only [untimedResult, finish, ParseState.untimed, Except.ok.injEq,
        ParseState.mk.injEq, reduceCtorEq] at h
      · rcases h with ⟨rfl, rfl, rfl, rfl⟩
        exact ⟨.halted c rest .badRequestLine, rfl, rfl⟩
      · rcases h with ⟨rfl, rfl, rfl, rfl⟩
        exact ⟨.halted c rest .gotAll, rfl, rfl⟩
  | error p =>
    rcases p with ⟨f, c, rest, ok, more⟩
    cases r with
    | waiting c' rest' => simp only [untimedResult, finish, reduceCtorEq] at h
    | halted c' rest' e =>
      cases e <;> simp only [untimedResult, finish, ParseState.untimed, Except.error.injEq,
        Prod.mk.injEq, ParseState.mk.injEq, reduceCtorEq] at h
      next x =>
        rcases h with ⟨rfl, rfl, rfl, rfl, rfl⟩
        exact ⟨.halted c rest (.exception x), rfl, rfl⟩
      next =>
        rcases h with ⟨rfl, rfl, rfl, rfl, rfl⟩
        exact ⟨.halted c rest .assertion, rfl, rfl⟩

/-- **The parser ends on every buffer** it can be called with, as the consumer does. -/
theorem parseRequest_spec (c : HttpContext) (buf : Bytes) (now : Timestamp)
    (hs : c.state_ ≠ .GOT_ALL) :
    ∃ r, c.parseRequest buf now = finish r ∧
      parser.Consumes c.untimed buf (r.map untimed) := by
  rcases parseLoop_spec now _ c buf hs (Nat.lt_succ_self _) with ⟨r, hr, hres⟩
  rcases untimedResult_eq_finish hres with ⟨r', hr', rfl⟩
  exact ⟨r', hr', hr⟩

end HttpContext

end Pallette
