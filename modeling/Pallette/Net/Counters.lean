import Pallette.Net.Writes

/-!
# Counters — the bytes received and sent

`bytesReceived_` is the sum of what `readFd` obtained.  `bytesSent_` misses what a step writes
unless that is the last of what there is to write and `writeCompleteCallback_` is set, and what has
been missed is never made up for.
-/

open Reasoning

namespace Pallette.TcpConnection

section

variable {s t : TcpConnection} {l : Label}

/-- The bytes `readFd` obtains in a run. -/
def received (s : TcpConnection) : List Label → Bytes
  | [] => []
  | l :: ls =>
      match s.next l with
      | some (.ok t) => s.obtained l ++ t.received ls
      | _ => []

/-- Of what it is offered the kernel accepts nothing in the step, or it accepts all of it and there
is somebody to tell. -/
def Counts (s : TcpConnection) (l : Label) : Prop :=
  ∀ bytes n, s.offered l = some (bytes, .count n) →
    bytes.take n = [] ∨ bytes.drop n = [] ∧ s.writeCompleteCallback_ = true

theorem counts_iff (s : TcpConnection) (l : Label) :
    Counts s l ↔ counted s.writeCompleteCallback_ (s.offered l) = (taken (s.offered l)).length := by
  unfold Counts counted
  constructor
  · intro h
    split
    next => rfl
    next hmissed =>
      -- what is not counted must not have been accepted
      cases hoffered : s.offered l with
      | none => rfl
      | some offer =>
        obtain ⟨bytes, result⟩ := offer
        cases result with
        | error e => rfl
        | count n =>
          obtain hnothing | ⟨hall, hcallback⟩ := h bytes n hoffered
          · rw [taken, hnothing]
            rfl
          · rw [hoffered] at hmissed
            exact absurd ⟨hcallback, decide_eq_true hall⟩ hmissed
  · intro h bytes n hoffered
    rw [hoffered] at h
    split at h
    next hcounted => exact .inr ⟨of_decide_eq_true hcounted.2, hcounted.1⟩
    next => exact .inl (List.eq_nil_of_length_eq_zero h.symm)

theorem counted_le (writeComplete : Bool) (offer : Option (Bytes × WriteResult)) :
    counted writeComplete offer ≤ (taken offer).length := by
  unfold counted
  split
  · exact Nat.le_refl _
  · exact Nat.zero_le _

theorem step_unique {u : TcpConnection} (h : Step s l t) (h' : Step s l u) : t = u := by
  have heq := h.symm.trans h'
  cases heq
  rfl

theorem step_bytesSent (h : Step s l t) :
    t.bytesSent_ + (accepted s.trace).length ≤ s.bytesSent_ + (accepted t.trace).length ∧
      (t.bytesSent_ + (accepted s.trace).length = s.bytesSent_ + (accepted t.trace).length ↔
      Counts s l) := by
  have heffect := step_effect h
  have hle := counted_le s.writeCompleteCallback_ (s.offered l)
  rw [counts_iff, heffect.bytesSent, heffect.accepted, List.length_append]
  omega

/-- What has not been counted when it was written stays uncounted. -/
theorem run_bytesSent {ls : List Label} (h : Run Step s ls t) :
    t.bytesSent_ + (accepted s.trace).length ≤ s.bytesSent_ + (accepted t.trace).length ∧
      (t.bytesSent_ + (accepted s.trace).length = s.bytesSent_ + (accepted t.trace).length ↔
        Run (Guarded Step Counts) s ls t) := by
  induction h with
  | nil s => exact ⟨Nat.le_refl _, fun _ ↦ .nil s, fun _ ↦ rfl⟩
  | @cons s t u l ls hstep hrun ih =>
    obtain ⟨hle, hiff⟩ := step_bytesSent hstep
    obtain ⟨hrest, hrestIff⟩ := ih
    -- no step counts more than it writes, so a sum that is right is right in each part
    refine ⟨by omega, fun heq ↦ ?_, fun hcounted ↦ ?_⟩
    · have hfirst : Counts s l := hiff.mp (by omega)
      exact .cons ⟨hstep, hfirst⟩ (hrestIff.mp (by omega))
    · cases hcounted with
      | cons hguarded hcounted =>
        obtain rfl := step_unique hstep hguarded.1
        have hfirst := hiff.mpr hguarded.2
        have hlast := hrestIff.mpr hcounted
        omega

theorem bytesReceived_run {ls : List Label} (h : Run Step s ls t) :
    t.bytesReceived_ = s.bytesReceived_ + (s.received ls).length := by
  induction h with
  | nil => rfl
  | @cons s t u l ls hstep _ ih =>
    have hreceived : s.received (l :: ls) = s.obtained l ++ t.received ls := by
      rw [received, show s.next l = some (.ok t) from hstep]
    rw [ih, (step_effect hstep).bytesReceived, hreceived, List.length_append, Nat.add_assoc]

end

/-- **The counters.**  What is received is always counted; what is sent is, if every write of the
run is. -/
theorem counters_iff {mark : Nat} {wc hw : Bool} {ls : List Label} {s : TcpConnection}
    (h : Run Step (established mark wc hw) ls s) :
    s.bytesSent_ = (accepted s.trace).length ∧
        s.bytesReceived_ = (received (established mark wc hw) ls).length ↔
      Run (Guarded Step Counts) (established mark wc hw) ls s := by
  have hreceived := bytesReceived_run h
  have hsent := (run_bytesSent h).2
  change s.bytesReceived_ = 0 + _ at hreceived
  change s.bytesSent_ + 0 = 0 + _ ↔ _ at hsent
  rw [Nat.zero_add] at hreceived
  rw [Nat.add_zero, Nat.zero_add] at hsent
  rw [hreceived, hsent]
  exact and_iff_left rfl

/-- A message that the socket takes whole, and then four bytes from the peer. -/
theorem counters_iff_whole :
    ∃ s, Run Step (established 1024 true false)
        [.call (.send [1, 2, 3]) (.count 3), .ret, .poll { EPOLLIN := true }, .handleEvent,
          .readStage (.data [7, 7, 7, 7])] s ∧
      s.bytesSent_ = 3 ∧ s.bytesReceived_ = 4 ∧
      s.bytesSent_ = (accepted s.trace).length := by
  have hrun := show Run Step (established 1024 true false)
        [.call (.send [1, 2, 3]) (.count 3), .ret, .poll { EPOLLIN := true }, .handleEvent,
          .readStage (.data [7, 7, 7, 7])] _ from
    .cons rfl <| .cons rfl <| .cons rfl <| .cons rfl <| .cons rfl <| .nil _
  have hcounts {s : TcpConnection} {l : Label} (h : s.offered l = none) : Counts s l := by
    intro bytes n hoffered
    cases h.symm.trans hoffered
  have hsend : Counts (established 1024 true false) (.call (.send [1, 2, 3]) (.count 3)) := by
    intro bytes n hoffered
    cases hoffered
    exact .inr ⟨rfl, rfl⟩
  refine ⟨_, hrun, rfl, rfl, ((counters_iff hrun).mpr ?_).1⟩
  exact .cons ⟨rfl, hsend⟩ <| .cons ⟨rfl, hcounts rfl⟩ <| .cons ⟨rfl, hcounts rfl⟩ <|
    .cons ⟨rfl, hcounts rfl⟩ <| .cons ⟨rfl, hcounts rfl⟩ <| .nil _

/-- The bytes of a message that the socket takes in two parts, and those of one nobody is told
about. -/
theorem counters_wrong :
    (∃ s, Run Step (established 1024 true false)
        [.call (.send [1, 2, 3]) (.count 2), .ret, .poll { EPOLLOUT := true }, .handleEvent,
          .readStage (.data []), .writeStage (.count 1)] s ∧
      accepted s.trace = [1, 2, 3] ∧ s.bytesSent_ = 1) ∧
    ∃ s, Run Step (established 1024 false false) [.call (.send [1, 2, 3]) (.count 3)] s ∧
      accepted s.trace = [1, 2, 3] ∧ s.bytesSent_ = 0 := by
  constructor
  · have hrun := show Run Step (established 1024 true false)
        [.call (.send [1, 2, 3]) (.count 2), .ret, .poll { EPOLLOUT := true }, .handleEvent,
          .readStage (.data []), .writeStage (.count 1)] _ from
      .cons rfl <| .cons rfl <| .cons rfl <| .cons rfl <| .cons rfl <| .cons rfl <| .nil _
    exact ⟨_, hrun, rfl, rfl⟩
  · exact ⟨_, .cons rfl (.nil _), rfl, rfl⟩

end Pallette.TcpConnection
