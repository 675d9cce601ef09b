import Pallette.Http.Parsing

/-!
# Resumption — one request arriving in chunks

A reader appends each chunk to the buffer and calls `parseRequest`, until a call fails, throws or
has the whole request.  `feedChunks_eq_feed_whole`: but for the receive time it ends where a single
call on all the bytes ends.
-/

open Reasoning

namespace Pallette

/-- How the reader stops. -/
inductive FeedOutcome
  | returnedFalse
  | fault (f : Fault)
  | gotAll
  | waiting
deriving DecidableEq, Repr

/-- Where it stops: the context, and the bytes nobody has consumed, chunks not yet fed included. -/
structure FeedResult where
  outcome : FeedOutcome
  context : HttpContext
  unconsumed : Bytes
deriving DecidableEq

def FeedResult.untimed (r : FeedResult) : FeedResult :=
  { r with context := r.context.untimed }

namespace HttpContext

/-- Feeds `chunks`, each with the time it is received at. -/
def feedChunks (c : HttpContext) (buf : Bytes) : List (Bytes × Timestamp) → FeedResult
  | [] => ⟨.waiting, c, buf⟩
  | (chunk, receiveTime) :: chunks =>
      match c.parseRequest (buf ++ chunk) receiveTime with
      | .error (f, s) => ⟨.fault f, s.context, s.buf ++ (chunks.map Prod.fst).flatten⟩
      | .ok s =>
          if s.ok = false then ⟨.returnedFalse, s.context, s.buf ++ (chunks.map Prod.fst).flatten⟩
          else if s.context.gotAll then ⟨.gotAll, s.context, s.buf ++ (chunks.map Prod.fst).flatten⟩
          else feedChunks s.context s.buf chunks

/-- The reader's view of how the consumer ends. -/
def feedResultOf : Ending HttpContext UInt8 ParseEnd → FeedResult
  | .waiting c rest => ⟨.waiting, c, rest⟩
  | .halted c rest .badRequestLine => ⟨.returnedFalse, c, rest⟩
  | .halted c rest .gotAll => ⟨.gotAll, c, rest⟩
  | .halted c rest (.exception e) => ⟨.fault (.exception e), c, rest⟩
  | .halted c rest .assertion => ⟨.fault .assertion, c, rest⟩

variable {c c' : HttpContext} {buf rest : Bytes} {n : Nat} {e : ParseEnd}

theorem parseStep_wait_state (h : parseStep c buf = .wait) : c.state_ ≠ .GOT_ALL := by
  intro hs
  simp only [parseStep, hs, reduceCtorEq] at h

theorem consumes_gotAll_state (h : parser.Consumes c buf (.halted c' rest .gotAll))
    (hs : c.state_ ≠ .GOT_ALL) : c'.state_ = .GOT_ALL := by
  generalize hr : Ending.halted c' rest ParseEnd.gotAll = r at h
  induction h with
  | wait _ => cases hr
  | halt hstep =>
    cases hr
    rcases parseStep_gotAll_cases hstep with ⟨_, _, _, _, _, hget, rfl⟩ | ⟨_, _, _, _, rfl⟩
    · simp only [afterHead, hget]
    · rfl
  | next hstep _ ih => exact ih (parseStep_next_progress hstep hs).2.2 hr

/-- A call that fails, other than by finding the request complete, stops in a state from which the
next one starts. -/
theorem consumes_failure_state (h : parser.Consumes c buf (.halted c' rest e)) (he : e ≠ .gotAll)
    (hs : c.state_ ≠ .GOT_ALL) : c'.state_ ≠ .GOT_ALL := by
  generalize hr : Ending.halted c' rest e = r at h
  induction h with
  | wait _ => cases hr
  | halt hstep =>
    cases hr
    rcases (parseStep_failure_cases hstep he).2 with
      ⟨_, _, _, ⟨_, rfl, _⟩ | ⟨_, _, rfl, _⟩⟩ | ⟨_, _, _, _, rfl, _⟩
    · exact hs
    · exact hs
    · exact hs
  | next hstep _ ih => exact ih (parseStep_next_progress hstep hs).2.2 hr

/-- Going on leads into the head, or stays behind it. -/
theorem parseStep_next_line (h : parseStep c buf = .next n c') (hs : c.state_ ≠ .GOT_ALL) :
    c'.state_ ≠ .EXPECT_REQUEST_LINE := by
  rcases parseStep_next_cases h hs with
    ⟨_, _, _, ⟨_, _, _, rfl⟩ | ⟨hstate, _, rfl⟩ | ⟨hstate, _, _, rfl⟩⟩
  · simp
  · rw [hstate]
    simp
  · unfold afterHead
    split
    · simp
    · simp
    · rw [hstate]
      simp

/-- No call gets back to the request line. -/
theorem behind_of_consumes {w : Ending HttpContext UInt8 ParseEnd} (h : parser.Consumes c buf w)
    (hs : c.state_ ≠ .GOT_ALL) (hline : c.state_ ≠ .EXPECT_REQUEST_LINE) :
    w.state.state_ ≠ .EXPECT_REQUEST_LINE := by
  induction h with
  | wait _ => exact hline
  | next hstep _ ih =>
    exact ih (parseStep_next_progress hstep hs).2.2 (parseStep_next_line hstep hs)
  | @halt c t buf n e hstep =>
    by_cases hgot : e = .gotAll
    · subst hgot
      have hstate : t.state_ = .GOT_ALL := consumes_gotAll_state (.halt hstep) hs
      show t.state_ ≠ .EXPECT_REQUEST_LINE
      rw [hstate]
      simp
    · rcases (parseStep_failure_cases hstep hgot).2 with ⟨hstate, _⟩ | ⟨_, _, _, _, rfl, _⟩
      · exact absurd hstate hline
      · exact hline

/-- A line is refused where it stands: in front of the buffer, and before anything else is read. -/
theorem refused_at_line (h : parser.Consumes c buf (.halted c' rest .badRequestLine))
    (hs : c.state_ ≠ .GOT_ALL) :
    c.state_ = .EXPECT_REQUEST_LINE ∧ c'.state_ = .EXPECT_REQUEST_LINE ∧ rest = buf ∧
      ∃ crlf r, search kCRLF buf = some crlf ∧
        processRequestLine c.request_ (buf.take crlf) = some (false, r) := by
  generalize hr : Ending.halted c' rest ParseEnd.badRequestLine = w at h
  induction h with
  | wait _ => cases hr
  | next hstep _ ih =>
    have hstate := (ih (parseStep_next_progress hstep hs).2.2 hr).1
    exact absurd hstate (parseStep_next_line hstep hs)
  | halt hstep =>
    cases hr
    rcases parseStep_failure_cases hstep (by simp) with
      ⟨rfl, ⟨hstate, crlf, hcrlf, ⟨_, _, he⟩ | ⟨r, hrefused, rfl, _⟩⟩ | ⟨_, _, _, _, _, he⟩⟩
    · cases he
    · exact ⟨hstate, hstate, rfl, crlf, r, hcrlf, hrefused⟩
    · cases he

/-- A fresh context has no method yet when it meets the request line. -/
def Fresh (c : HttpContext) : Prop :=
  c.state_ = .EXPECT_REQUEST_LINE → c.request_.method_ = .INVALID

theorem processRequestLine_isSome (r : HttpRequest) (line : Bytes) (h : r.method_ = .INVALID) :
    processRequestLine r line ≠ none := by
  simp only [processRequestLine, HttpRequest.setMethod, h, if_true, bind, Option.bind, pure]
  split
  · split
    · split <;> simp
    · simp
  · simp

theorem consumes_no_assertion (h : parser.Consumes c buf (.halted c' rest e)) (hf : Fresh c)
    (hs : c.state_ ≠ .GOT_ALL) : e ≠ .assertion := by
  generalize hr : Ending.halted c' rest e = r at h
  induction h with
  | wait _ => cases hr
  | halt hstep =>
    cases hr
    rintro rfl
    rcases (parseStep_failure_cases hstep (by simp)).2 with
      ⟨hstate, _, _, ⟨hnone, _⟩ | ⟨_, _, _, he⟩⟩ | ⟨_, _, _, _, _, he⟩
    · exact processRequestLine_isSome _ _ (hf hstate) hnone
    · cases he
    · cases he
  | next hstep _ ih =>
    exact ih (fun hline ↦ absurd hline (parseStep_next_line hstep hs))
      (parseStep_next_progress hstep hs).2.2 hr

/-! ## What a call returns -/

/-- A call ends as the consumer does on the same bytes. -/
theorem parseRequest_of_consumes {w : Ending HttpContext UInt8 ParseEnd} (now : Timestamp)
    (h : parser.Consumes c.untimed buf w) (hs : c.state_ ≠ .GOT_ALL) :
    ∃ r, c.parseRequest buf now = finish r ∧ r.map untimed = w := by
  rcases parseRequest_spec c buf now hs with ⟨r, hcall, hr⟩
  exact ⟨r, hcall, hr.deterministic h⟩

theorem consumes_of_gotAll {now : Timestamp} {s : ParseState} (hs : c.state_ ≠ .GOT_ALL)
    (h : c.parseRequest buf now = .ok s) (hgot : s.context.gotAll = true) :
    parser.Consumes c.untimed buf (.halted s.context.untimed s.buf .gotAll) := by
  rcases parseRequest_spec c buf now hs with ⟨r, hcall, hr⟩
  have hstate : s.context.untimed.state_ = .GOT_ALL := of_decide_eq_true hgot
  rw [h] at hcall
  cases r with
  | waiting c' rest =>
    cases hcall
    exact absurd hstate (parseStep_wait_state hr.waits)
  | halted c' rest e =>
    cases e <;> cases hcall
    · exact absurd hstate (consumes_failure_state hr (by simp) hs)
    · exact hr

theorem parseRequest_gotAll (now : Timestamp)
    (h : parser.Consumes c.untimed buf (.halted c' rest .gotAll)) (hs : c.state_ ≠ .GOT_ALL) :
    ∃ s, c.parseRequest buf now = .ok s ∧ s.ok = true ∧ s.context.gotAll = true ∧
      s.context.untimed = c' ∧ s.buf = rest := by
  rcases parseRequest_of_consumes now h hs with ⟨r, hcall, hr⟩
  cases r with
  | waiting c₁ rest₁ => cases hr
  | halted c₁ rest₁ e =>
    cases hr
    have hgot : c₁.untimed.state_ = .GOT_ALL := consumes_gotAll_state h hs
    exact ⟨_, hcall, rfl, decide_eq_true hgot, rfl, rfl⟩

theorem parseRequest_waiting (now : Timestamp)
    (h : parser.Consumes c.untimed buf (.waiting c' rest)) (hs : c.state_ ≠ .GOT_ALL) :
    ∃ s, c.parseRequest buf now = .ok s ∧ s.ok = true ∧ s.context.gotAll = false ∧
      s.context.untimed = c' ∧ s.buf = rest := by
  rcases parseRequest_of_consumes now h hs with ⟨r, hcall, hr⟩
  cases r with
  | halted c₁ rest₁ e => cases hr
  | waiting c₁ rest₁ =>
    cases hr
    have hwait : c₁.untimed.state_ ≠ .GOT_ALL := parseStep_wait_state h.waits
    exact ⟨_, hcall, rfl, decide_eq_false hwait, rfl, rfl⟩

/-! ## The reader and the consumer -/

/-- The reader carries the consumer through the chunks. -/
theorem feedChunks_spec (chunks : List (Bytes × Timestamp)) (c : HttpContext) (buf : Bytes)
    (hs : c.state_ ≠ .GOT_ALL) :
    ∃ r, parser.Feeds c.untimed buf (chunks.map Prod.fst) r ∧
      (c.feedChunks buf chunks).untimed = feedResultOf r := by
  induction chunks generalizing c buf with
  | nil => exact ⟨_, .done, rfl⟩
  | cons p chunks ih =>
    rcases p with ⟨chunk, now⟩
    rcases parseRequest_spec c (buf ++ chunk) now hs with ⟨r, hcall, hr⟩
    simp only [feedChunks, List.map_cons, hcall]
    cases r with
    | waiting c₁ rest =>
      have hwait : parseStep c₁.untimed rest = .wait := hr.waits
      have hs₁ : c₁.state_ ≠ .GOT_ALL := by simpa using parseStep_wait_state hwait
      rcases ih c₁ rest hs₁ with ⟨w, hfeeds, hend⟩
      refine ⟨w, .more hr hfeeds, ?_⟩
      simp only [finish, gotAll, hs₁, decide_false, Bool.true_eq_false, Bool.false_eq_true,
        if_false, hend]
    | halted c₁ rest e =>
      refine ⟨_, .stop hr, ?_⟩
      cases e with
      | badRequestLine => rfl
      | exception x => rfl
      | assertion => rfl
      | gotAll =>
        have hended : parser.Consumes c.untimed (buf ++ chunk) (.halted c₁.untimed rest .gotAll) :=
          hr
        have hgot : c₁.state_ = .GOT_ALL := by simpa using consumes_gotAll_state hended hs
        simp only [finish, gotAll, hgot, decide_true, Bool.true_eq_false, if_true, if_false]
        rfl

/-- From a fresh context it ends as the consumer does on all the bytes at once. -/
theorem feedChunks_consumes (chunks : List (Bytes × Timestamp)) :
    ∃ w, parser.Consumes {} (chunks.map Prod.fst).flatten w ∧
      (feedChunks {} [] chunks).untimed = feedResultOf w := by
  have hwait : parser.step (untimed {}) [] = .wait := rfl
  rcases feedChunks_spec chunks {} [] (by decide) with ⟨w, hfeeds, hr⟩
  exact ⟨w, hfeeds.consumes hwait, hr⟩

/-- The chunk boundaries decide nothing but the receive time: a request stream fed in any chunks to
a fresh context ends as it does in one call, by `false`, an exception, a complete request or by
waiting for more, with the same request and the same bytes left over. -/
theorem feedChunks_eq_feed_whole (chunks : List (Bytes × Timestamp)) (now : Timestamp) :
    let r := feedChunks {} [] chunks
    r.untimed = (feedChunks {} [] [((chunks.map Prod.fst).flatten, now)]).untimed ∧
      r.outcome ≠ .fault .assertion ∧ r.outcome ≠ .fault .divergence := by
  intro r
  rcases feedChunks_consumes chunks with ⟨w, hc, hr⟩
  rcases feedChunks_consumes [((chunks.map Prod.fst).flatten, now)] with ⟨w', hc', hr'⟩
  have hflat : ([((chunks.map Prod.fst).flatten, now)].map Prod.fst).flatten =
      (chunks.map Prod.fst).flatten := by simp
  rw [hflat] at hc'
  have hw := hc.deterministic hc'
  refine ⟨by rw [hr, hr', hw], ?_⟩
  have hout : r.outcome = (feedResultOf w).outcome := by rw [← hr]; rfl
  rw [hout]
  cases w with
  | waiting c rest => simp [feedResultOf]
  | halted c rest e =>
    have hne := consumes_no_assertion hc (fun _ ↦ rfl) (by decide)
    cases e <;> simp_all [feedResultOf]

end HttpContext

end Pallette
