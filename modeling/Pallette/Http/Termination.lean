import Pallette.Http.ContentLength

/-!
# Termination — the loop of `parseRequest` ends

It would not in `GOT_ALL`, for which it has no branch.  In every other state an iteration that is
not the last one takes a line out of the buffer, also the one behind the head of a request that is
neither `GET` nor `POST`; and `onMessage` never calls the parser in `GOT_ALL`.
-/

open Reasoning

namespace Pallette

namespace HttpContext

variable {c : HttpContext} {buf : Bytes} {s : ParseState} {now : Timestamp}

/-- The states in which the iterations of the loop begin, up to `fuel` of them. -/
def iterationStates (now : Timestamp) : Nat → ParseState → List HttpRequestParseState
  | 0, _ => []
  | fuel + 1, s =>
      if s.hasMore then
        s.context.state_ ::
          match parseIteration now s with
          | .ok s => iterationStates now fuel s
          | .error _ => []
      else []

/-- In `GOT_ALL` there are as many iterations as are let happen. -/
theorem iterationStates_gotAll (hs : c.state_ = .GOT_ALL) (fuel : Nat) :
    iterationStates now fuel ⟨c, buf, true, true⟩ = List.replicate fuel .GOT_ALL := by
  have hstays : parseIteration now ⟨c, buf, true, true⟩ = .ok ⟨c, buf, true, true⟩ := by
    unfold parseIteration
    rw [hs]
  induction fuel with
  | zero => rfl
  | succ fuel ih =>
    unfold iterationStates
    rw [if_pos rfl, hstays, hs]
    dsimp only
    rw [ih]
    rfl

theorem iterationOf_more (h : iterationOf c buf = .ok s) (hmore : s.hasMore = true) :
    ∃ n c', parseStep c buf = .next n c' ∧ s = ⟨c', buf.drop n, true, true⟩ := by
  unfold iterationOf at h
  split at h
  next =>
    cases h
    cases hmore
  next n c' hstep =>
    cases h
    exact ⟨n, c', hstep, rfl⟩
  next n c' e _ =>
    cases e <;> cases h <;> cases hmore

/-- An iteration that goes on has taken bytes. -/
theorem parseIteration_more (hs : c.state_ ≠ .GOT_ALL)
    (h : parseIteration now ⟨c, buf, true, true⟩ = .ok s) (hmore : s.hasMore = true) :
    ∃ c' buf', s = ⟨c', buf', true, true⟩ ∧ c'.state_ ≠ .GOT_ALL ∧ buf'.length < buf.length := by
  have hspec := parseIteration_spec now c buf hs
  rw [h] at hspec
  obtain ⟨n, c₁, hstep, hsame⟩ := iterationOf_more hspec.symm hmore
  obtain ⟨hpos, hle, hstate⟩ := parseStep_next_progress hstep hs
  obtain ⟨c', buf', ok, more⟩ := s
  simp only [ParseState.untimed, ParseState.mk.injEq] at hsame
  obtain ⟨rfl, rfl, rfl, rfl⟩ := hsame
  refine ⟨c', buf.drop n, rfl, hstate, ?_⟩
  rw [List.length_drop]
  omega

theorem iterationStates_spec (fuel : Nat) (hs : c.state_ ≠ .GOT_ALL) :
    .GOT_ALL ∉ iterationStates now fuel ⟨c, buf, true, true⟩ ∧
      (iterationStates now fuel ⟨c, buf, true, true⟩).length ≤ buf.length + 1 := by
  induction fuel generalizing c buf with
  | zero => exact ⟨nofun, Nat.zero_le _⟩
  | succ fuel ih =>
    have hrest : .GOT_ALL ∉ (match parseIteration now ⟨c, buf, true, true⟩ with
        | .ok s => iterationStates now fuel s
        | .error _ => []) ∧
        (match parseIteration now ⟨c, buf, true, true⟩ with
        | .ok s => iterationStates now fuel s
        | .error _ => []).length ≤ buf.length := by
      cases hnext : parseIteration now ⟨c, buf, true, true⟩ with
      | error _ => exact ⟨nofun, Nat.zero_le _⟩
      | ok s =>
        dsimp only
        by_cases hmore : s.hasMore = true
        · obtain ⟨c', buf', rfl, hs', hless⟩ := parseIteration_more hs hnext hmore
          obtain ⟨hnever, hlength⟩ := ih hs'
          exact ⟨hnever, by omega⟩
        · have hnil : iterationStates now fuel s = [] := by
            cases fuel with
            | zero => rfl
            | succ fuel => exact if_neg hmore
          rw [hnil]
          exact ⟨nofun, Nat.zero_le _⟩
    unfold iterationStates
    rw [if_pos rfl, List.mem_cons, List.length_cons, not_or]
    exact ⟨⟨hs.symm, hrest.1⟩, Nat.succ_le_succ hrest.2⟩

end HttpContext

namespace ParseCall

variable (call : ParseCall)

def iterationStates (fuel : Nat) : List HttpContext.HttpRequestParseState :=
  HttpContext.iterationStates call.receiveTime fuel ⟨call.context, call.buf, true, true⟩

/-- The loop is never in `GOT_ALL` and comes to an end, which the bound on the loop of the model
leaves it room for. -/
structure Terminates : Prop where
  never_gotAll : ∀ fuel, .GOT_ALL ∉ call.iterationStates fuel
  finite : ∃ n, ∀ fuel, (call.iterationStates fuel).length ≤ n
  in_bound : ∀ s, call.result ≠ .error (.divergence, s)

theorem terminates (h : call.context.state_ ≠ .GOT_ALL) : call.Terminates where
  never_gotAll fuel := (HttpContext.iterationStates_spec fuel h).1
  finite := ⟨call.buf.length + 1, fun fuel ↦ (HttpContext.iterationStates_spec fuel h).2⟩
  in_bound := by
    intro s hresult
    obtain ⟨r, hcall, _⟩ := HttpContext.parseRequest_spec call.context call.buf call.receiveTime h
    rw [show call.context.parseRequest call.buf call.receiveTime = _ from hresult] at hcall
    cases r with
    | waiting _ _ => cases hcall
    | halted c' rest e => cases e <;> cases hcall

end ParseCall

namespace HttpServer

/-- Every call of the parser that is made for a connection terminates, and so does every other call
in a state other than `GOT_ALL`. -/
theorem parseCalls_terminate (httpCallback_ : HttpCallback) :
    (∀ chunks, ∀ call ∈ parseCalls httpCallback_ {} chunks,
      call.context.state_ ≠ .GOT_ALL ∧ call.Terminates) ∧
    ∀ call : ParseCall, call.context.state_ ≠ .GOT_ALL → call.Terminates := by
  constructor
  · intro chunks call hmem
    have hready := parseCalls_ready chunks {} nofun (fun _ ↦ rfl) hmem
    exact ⟨hready.1, call.terminates hready.1⟩
  · exact fun call h ↦ call.terminates h

end HttpServer

end Pallette
