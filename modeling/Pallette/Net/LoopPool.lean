import Pallette.Net.ServerLoops
import Mathlib.Data.Int.CardIntervalMod

/-!
# LoopPool — the loops share the connections out evenly

`getNextLoop` goes round the pool, and nothing moves a connection from its loop.
-/

open Reasoning

namespace Pallette.ServerLoops

variable {s t : Server}

/-- What makes no connection: it leaves the pool and every connection's loop alone. -/
structure Keeps (s t : Server) : Prop where
  numThreads : t.numThreads = s.numThreads
  next_ : t.next_ = s.next_
  nextConnId_ : t.nextConnId_ = s.nextConnId_
  loop_ : ∀ c, (t.conn c).loop_ = (s.conn c).loop_

namespace Keeps

theorem refl (s : Server) : Keeps s s :=
  ⟨rfl, rfl, rfl, fun _ ↦ rfl⟩

theorem trans {u : Server} (h : Keeps s t) (h' : Keeps t u) : Keeps s u :=
  ⟨h'.numThreads.trans h.numThreads, h'.next_.trans h.next_, h'.nextConnId_.trans h.nextConnId_,
    fun c ↦ (h'.loop_ c).trans (h.loop_ c)⟩

theorem setConn {c : Nat} {k : Conn} (hk : k.loop_ = (s.conn c).loop_) :
    Keeps s (s.setConn c k) := by
  refine ⟨rfl, rfl, rfl, fun x ↦ ?_⟩
  by_cases hx : x = c
  · rw [hx, Server.setConn_conn_self, hk]
  · rw [Server.setConn_conn_ne k hx]

theorem queueInLoop (s : Server) (loop : Nat) (cb : Functor) : Keeps s (s.queueInLoop loop cb) :=
  ⟨rfl, rfl, rfl, fun _ ↦ rfl⟩

theorem connectEstablished {loop c : Nat} (h : s.connectEstablished loop c = .ok t) :
    Keeps s t := by
  unfold Server.connectEstablished at h
  split at h
  · cases h
    exact setConn rfl
  · cases h

theorem connectDestroyed {loop c : Nat} (h : s.connectDestroyed loop c = .ok t) : Keeps s t := by
  unfold Server.connectDestroyed at h
  split at h
  · cases h
    exact setConn rfl
  · cases h

theorem removeConnectionInLoop {c : Nat} (h : s.removeConnectionInLoop c = .ok t) : Keeps s t := by
  unfold Server.removeConnectionInLoop at h
  split at h
  · cases h
  · split at h
    · cases h
      have hset : Keeps s (s.setConn c { s.conn c with trace := (s.conn c).trace ++
        [(.removed, 0)] }) := setConn rfl
      exact ⟨hset.numThreads, hset.next_, hset.nextConnId_, hset.loop_⟩
    · cases h

theorem handleClose {c : Nat} (h : s.handleClose c = .ok t) : Keeps s t := by
  unfold Server.handleClose at h
  split at h
  · refine trans (setConn (c := c) (k := { s.conn c with
      state_ := .kDisconnected, trace := (s.conn c).trace ++ [(.closed, (s.conn c).loop_)] }) rfl)
        ?_
    simp only [Server.removeConnection] at h
    split at h
    · exact removeConnectionInLoop h
    · cases h
      exact queueInLoop _ _ _
  · cases h

theorem execute {loop : Nat} {cb : Functor} (h : s.execute loop cb = .ok t) : Keeps s t := by
  cases cb with
  | connectEstablished c => exact connectEstablished h
  | forceCloseInLoop c =>
    unfold Server.execute at h
    simp only at h
    split at h
    · exact handleClose h
    · cases h
      exact refl _
  | removeConnectionInLoop c => exact removeConnectionInLoop h
  | connectDestroyed c => exact connectDestroyed h

theorem destroyAll {cs : List Nat} (h : s.destroyAll cs = .ok t) : Keeps s t := by
  induction cs generalizing s with
  | nil =>
    cases h
    exact refl _
  | cons c cs ih =>
    unfold Server.destroyAll at h
    split at h
    · split at h
      next hc => exact (connectDestroyed hc).trans (ih h)
      next => cases h
    · exact (queueInLoop ..).trans (ih h)

theorem next {l : Label} (h : s.next l = .ok t) (hl : l ≠ .accept) : Keeps s t := by
  cases l with
  | accept => exact absurd rfl hl
  | run loop =>
    simp only [Server.next] at h
    split at h
    · cases h
      exact refl s
    · have hrun := execute h
      exact ⟨hrun.numThreads, hrun.next_, hrun.nextConnId_, hrun.loop_⟩
  | close c => exact handleClose h
  | shutdown c =>
    simp only [Server.next] at h
    split at h <;> cases h
    · exact setConn rfl
    · exact refl s
  | forceClose c =>
    simp only [Server.next] at h
    split at h <;> cases h
    · exact (setConn (c := c) (k := { s.conn c with state_ := .kDisconnecting }) rfl).trans
        (queueInLoop _ _ _)
    · exact refl s
  | destructor =>
    have hall := destroyAll h
    exact ⟨hall.numThreads, hall.next_, hall.nextConnId_, hall.loop_⟩

end Keeps

/-- The connections made so far went round the `n` loops of the pool. -/
structure Shared (n : Nat) (s : Server) : Prop where
  numThreads : s.numThreads = n
  counts : 0 < s.nextConnId_
  next_ : s.next_ = (s.nextConnId_ - 1) % n
  loop_ : ∀ c, s.Accepted c → (s.conn c).loop_ = (c - 1) % n + 1

variable {n : Nat}

theorem Shared.keeps (h : Shared n s) (ht : Keeps s t) : Shared n t := by
  refine ⟨ht.numThreads.trans h.numThreads, by
    rw [ht.nextConnId_]; exact h.counts, ?_, fun c hc ↦ ?_⟩
  · rw [ht.next_, ht.nextConnId_, h.next_]
  · unfold Server.Accepted at hc
    rw [ht.nextConnId_] at hc
    rw [ht.loop_, h.loop_ c hc]

/-- The index after `i`, back to 0 at the end. -/
theorem next_index (hn : 0 < n) (i : Nat) :
    (if n ≤ i % n + 1 then 0 else i % n + 1) = (i + 1) % n := by
  have hlt := Nat.mod_lt i hn
  rw [← Nat.mod_add_mod i]
  by_cases hlast : n ≤ i % n + 1
  · have heq : i % n + 1 = n := Nat.le_antisymm hlt hlast
    rw [if_pos hlast, heq, Nat.mod_self]
  · rw [if_neg hlast, Nat.mod_eq_of_lt (Nat.not_le.mp hlast)]

theorem Shared.newConnection (hn : 0 < n) (h : Shared n s) (hs : s.newConnection = .ok t) :
    Shared n t := by
  have hpool : s.numThreads ≠ 0 := by rw [h.numThreads]; exact hn.ne'
  have hcounts := h.counts
  unfold Server.newConnection at hs
  split at hs
  · cases hs
  · rw [Server.getNextLoop, if_neg hpool] at hs
    simp only [Nat.add_one_ne_zero, if_false] at hs
    cases hs
    refine ⟨h.numThreads, Nat.succ_pos _, ?_, fun c hc ↦ ?_⟩
    · show (if s.numThreads ≤ s.next_ + 1 then 0 else s.next_ + 1) = (s.nextConnId_ + 1 - 1) % n
      rw [h.numThreads, h.next_, next_index hn]
      congr 1
      omega
    · show (Function.update s.conn s.nextConnId_ { loop_ := s.next_ + 1 } c).loop_ = _
      by_cases hnew : c = s.nextConnId_
      · rw [hnew, Function.update_self, h.next_]
      · have hlt : c < s.nextConnId_ + 1 := hc.2
        rw [Function.update_of_ne hnew, h.loop_ c ⟨hc.1, by omega⟩]

theorem shared_run (hn : 0 < n) {ls : List Label} (h : Run Server.Step (Server.start n) ls s) :
    Shared n s := by
  have hstart : Shared n (Server.start n) := by
    refine ⟨rfl, Nat.one_pos, (Nat.zero_mod n).symm, fun c hc ↦ ?_⟩
    have hlt : c < 1 := hc.2
    have hpos := hc.1
    omega
  refine h.invariant (Shared n) (fun s l t hs hstep ↦ ?_) hstart
  by_cases hl : l = .accept
  · subst hl
    exact hs.newConnection hn hstep.2
  · exact hs.keeps (Keeps.next hstep.2 hl)

/-- The connections given to a loop so far. -/
def Server.load (s : Server) (loop : Nat) : Nat :=
  Nat.count (fun i ↦ (s.conn (i + 1)).loop_ = loop) (s.nextConnId_ - 1)

theorem Shared.load (hn : 0 < n) (h : Shared n s) {loop : Nat} (hpos : 0 < loop) (hle : loop ≤ n) :
    s.load loop = (s.nextConnId_ - 1) / n + if loop - 1 < (s.nextConnId_ - 1) % n then 1
    else 0 := by
  have hcount := Nat.count_modEq_card (s.nextConnId_ - 1) hn (loop - 1)
  rw [Nat.mod_eq_of_lt (by omega : loop - 1 < n)] at hcount
  rw [← hcount, Server.load, Nat.count_eq_card_filter_range, Nat.count_eq_card_filter_range]
  congr 1
  refine Finset.filter_congr fun i hi ↦ ?_
  have haccepted : s.Accepted (i + 1) := ⟨Nat.succ_pos i, by have := Finset.mem_range.mp hi; omega⟩
  rw [h.loop_ _ haccepted, Nat.ModEq, Nat.mod_eq_of_lt (by omega : loop - 1 < n),
    Nat.add_sub_cancel]
  omega

/-- However connections come and go, any two loops of the pool have been given equally many, or one
of them one more; and no connection has gone to the base loop. -/
theorem load_le_add_one (hn : 0 < n) {ls : List Label} (h : Run Server.Step (Server.start n) ls s)
    {loop loop' : Nat} (hloop : 0 < loop ∧ loop ≤ n) (hloop' : 0 < loop' ∧ loop' ≤ n) :
    s.load loop ≤ s.load loop' + 1 ∧ s.load 0 = 0 := by
  have hs := shared_run hn h
  refine ⟨?_, ?_⟩
  · rw [hs.load hn hloop.1 hloop.2, hs.load hn hloop'.1 hloop'.2]
    split <;> split <;> omega
  · rw [Server.load, Nat.count_iff_forall_not]
    intro i hi hzero
    rw [hs.loop_ _ ⟨Nat.succ_pos i, by omega⟩] at hzero
    omega

/-- Three connections for two loops. -/
theorem load_le_add_one_three :
    ∃ s, Run Server.Step (Server.start 2) [.accept, .accept, .accept] s ∧ s.load 1 = 2 ∧
      s.load 2 = 1 ∧ s.load 1 ≤ s.load 2 + 1 ∧ s.load 0 = 0 := by
  have hrun := show Run Server.Step (Server.start 2) [.accept, .accept, .accept] _ from
    .cons ⟨by decide, rfl⟩ (.cons ⟨by decide, rfl⟩ (.cons ⟨by decide, rfl⟩ (.nil _)))
  exact ⟨_, hrun, by decide, by decide, load_le_add_one (by decide) hrun (by decide) (by decide)⟩

end Pallette.ServerLoops
