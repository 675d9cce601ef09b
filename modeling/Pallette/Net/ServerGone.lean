import Pallette.Net.LoopPool

/-!
# ServerGone — calls on a server that is gone

`removeConnection` keeps `this` in a functor of the base loop.  Without a pool there is no such
functor: the close callback runs to its end at once, and behind `~TcpServer` no connection is left
that could close.
-/

open Reasoning

namespace Pallette.ServerLoops

variable {s t : Server} {c : Nat}

/-- A server without a pool, between two steps. -/
structure AtHome (s : Server) : Prop where
  numThreads : s.numThreads = 0
  loop_ : ∀ c, (s.conn c).loop_ = 0
  queued : ∀ loop, ∀ cb ∈ s.pendingFunctors_ loop, ∃ c, cb = .connectDestroyed c ∨
    cb = .forceCloseInLoop c
  alive : ∀ c, (s.conn c).Alive → s.gone = false ∧ c ∈ s.connections_

namespace AtHome

theorem setConn (h : AtHome s) {k : Conn} (hloop : k.loop_ = 0)
    (hk : k.Alive → s.gone = false ∧ c ∈ s.connections_) : AtHome (s.setConn c k) := by
  refine { h with loop_ := fun x ↦ ?_, alive := fun x hx ↦ ?_ }
  · by_cases hxc : x = c
    · rw [hxc, Server.setConn_conn_self, hloop]
    · rw [Server.setConn_conn_ne k hxc, h.loop_ x]
  · by_cases hxc : x = c
    · rw [hxc, Server.setConn_conn_self] at hx
      rw [hxc]
      exact hk hx
    · rw [Server.setConn_conn_ne k hxc] at hx
      exact h.alive x hx

theorem queueInLoop (h : AtHome s) (loop : Nat) {cb : Functor}
    (hcb : ∃ c, cb = .connectDestroyed c ∨ cb = .forceCloseInLoop c) :
    AtHome (s.queueInLoop loop cb) := by
  refine { h with queued := fun loop' cb' hmem ↦ ?_ }
  rcases Server.mem_queueInLoop hmem with hmem | heq
  · exact h.queued loop' cb' hmem
  · rw [heq]
    exact hcb

/-- It ends in such a state, or fails otherwise than by a call on the server that is gone. -/
structure Safe (result : Except Fault Server) : Prop where
  calls : result ≠ .error .serverGone
  atHome : ∀ t, result = .ok t → AtHome t

theorem Safe.ok (h : AtHome s) : Safe (.ok s) :=
  ⟨nofun, fun t ht ↦ by cases ht; exact h⟩

theorem Safe.error {e : Fault} (he : e ≠ .serverGone) : Safe (.error e) :=
  ⟨fun h ↦ he (by cases h; rfl), nofun⟩

/-- A closed connection is removed at once. -/
theorem removeConnection (h : AtHome s) (hdown : ¬ (s.conn c).Alive) (hhere : s.gone = false) :
    Safe (s.removeConnection c) := by
  unfold Server.removeConnection Server.removeConnectionInLoop
  rw [if_pos (h.loop_ c), if_neg (Bool.not_eq_true _ ▸ hhere)]
  split
  · have herase : AtHome { s with connections_ := s.connections_.erase c } := by
      refine { h with alive := fun x hx ↦ ⟨hhere, ?_⟩ }
      have hne : x ≠ c := fun heq ↦ hdown (heq ▸ hx)
      exact (List.mem_erase_of_ne hne).mpr (h.alive x hx).2
    have hset := herase.setConn (c := c)
      (k := { s.conn c with trace := (s.conn c).trace ++ [(.removed, 0)] })
      (h.loop_ c) fun halive ↦ absurd halive hdown
    exact .ok (hset.queueInLoop _ ⟨c, .inl rfl⟩)
  · exact .error nofun

theorem handleClose (h : AtHome s) (halive : (s.conn c).Alive) : Safe (s.handleClose c) := by
  unfold Server.handleClose
  rw [if_pos halive]
  have hset := h.setConn (c := c) (k := { s.conn c with
    state_ := .kDisconnected, trace := (s.conn c).trace ++ [(.closed, (s.conn c).loop_)] })
      (h.loop_ c)
    (by simp [Conn.Alive])
  refine hset.removeConnection ?_ (h.alive c halive).1
  rw [Server.setConn_conn_self]
  simp [Conn.Alive]

theorem connectEstablished (h : AtHome s) (loop : Nat) (hc : s.gone = false ∧ c ∈ s.connections_) :
    Safe (s.connectEstablished loop c) := by
  unfold Server.connectEstablished
  split
  · exact .ok (h.setConn (h.loop_ c) fun _ ↦ hc)
  · exact .error nofun

theorem connectDestroyed (h : AtHome s) (loop : Nat) : Safe (s.connectDestroyed loop c) := by
  unfold Server.connectDestroyed
  split
  · exact .ok (h.setConn (h.loop_ c) (by simp [Conn.Alive]))
  · exact .error nofun

theorem newConnection (h : AtHome s) (hhere : s.gone = false) : Safe s.newConnection := by
  unfold Server.newConnection
  split
  · exact .error nofun
  · rw [Server.getNextLoop, if_pos h.numThreads]
    have hconn : AtHome { s with connections_ := s.nextConnId_ :: s.connections_ } :=
      { h with alive := fun x hx ↦ ⟨hhere, List.mem_cons_of_mem _ (h.alive x hx).2⟩ }
    have hmake : AtHome (s.makeConnection 0) :=
      { hconn.setConn (c := s.nextConnId_) (k := { loop_ := 0 }) rfl (by simp [Conn.Alive]) with }
    exact hmake.connectEstablished 0 ⟨hhere, List.mem_cons_self⟩

end AtHome

theorem destroyAll_calls (s : Server) (cs : List Nat) : s.destroyAll cs ≠ .error .serverGone := by
  induction cs generalizing s with
  | nil => exact nofun
  | cons c cs ih =>
    unfold Server.destroyAll
    split
    · split
      · exact ih _
      next e he =>
        unfold Server.connectDestroyed at he
        split at he <;> cases he
        exact nofun
    · exact ih _

/-- `~TcpServer` leaves none of its connections alive. -/
theorem destroyAll_down {cs : List Nat} (hloop : ∀ c, (s.conn c).loop_ = 0)
    (ht : s.destroyAll cs = .ok t) :
    t.pendingFunctors_ = s.pendingFunctors_ ∧ ∀ c, (t.conn c).Alive → (s.conn c).Alive ∧
    c ∉ cs := by
  induction cs generalizing s with
  | nil =>
    cases ht
    exact ⟨rfl, fun c hc ↦ ⟨hc, List.not_mem_nil⟩⟩
  | cons c cs ih =>
    unfold Server.destroyAll at ht
    rw [if_pos (hloop c)] at ht
    split at ht
    next u hu =>
      obtain ⟨hpending, hdown⟩ :=
        ih (fun x ↦ ((Keeps.connectDestroyed hu).loop_ x).trans (hloop x)) ht
      unfold Server.connectDestroyed at hu
      split at hu <;> cases hu
      refine ⟨hpending, fun x hx ↦ ?_⟩
      obtain ⟨halive, hmem⟩ := hdown x hx
      by_cases hxc : x = c
      · rw [hxc, Server.setConn_conn_self] at halive
        simp [Conn.Alive] at halive
      · rw [Server.setConn_conn_ne _ hxc] at halive
        exact ⟨halive, List.not_mem_cons_of_ne_of_not_mem hxc hmem⟩
    next => cases ht

namespace AtHome

theorem destructor (h : AtHome s) : Safe s.destructor := by
  refine ⟨destroyAll_calls _ _, fun t ht ↦ ?_⟩
  unfold Server.destructor at ht
  have hkeeps := Keeps.destroyAll ht
  obtain ⟨hpending, hdown⟩ := destroyAll_down (s := { s with gone := true, connections_ := [] })
    h.loop_ ht
  refine ⟨hkeeps.numThreads.trans h.numThreads, fun c ↦ (hkeeps.loop_ c).trans (h.loop_ c), ?_,
    fun c hc ↦ ?_⟩
  · rw [hpending]
    exact h.queued
  · obtain ⟨halive, hmem⟩ := hdown c hc
    exact absurd (h.alive c halive).2 hmem

/-- **Step lemma.**  Without a pool no step calls on a server that is gone. -/
theorem next {l : Label} (h : AtHome s) (hl : s.Enabled l) : Safe (s.next l) := by
  cases l with
  | accept => exact h.newConnection hl
  | run loop =>
    obtain ⟨cb, rest, hqueue⟩ := List.exists_cons_of_ne_nil hl
    have hpop : AtHome { s with
        pendingFunctors_ := Function.update s.pendingFunctors_ loop rest } :=
      { h with queued := fun loop' cb' hmem ↦ h.queued loop' cb' (Server.pop_mem hqueue hmem) }
    simp only [Server.next, hqueue]
    obtain ⟨c, rfl | rfl⟩ := h.queued loop cb (by rw [hqueue]; exact List.mem_cons_self)
    · exact hpop.connectDestroyed loop
    · simp only [Server.execute]
      split
      next halive => exact hpop.handleClose halive
      next => exact .ok hpop
  | close c => exact h.handleClose hl.2
  | shutdown c =>
    simp only [Server.next]
    split
    next hconnected => exact .ok (h.setConn (h.loop_ c) fun _ ↦ h.alive c (.inl hconnected))
    next => exact .ok h
  | forceClose c =>
    simp only [Server.next]
    split
    next halive =>
      have hset := h.setConn (c := c) (k := { s.conn c with state_ := .kDisconnecting }) (h.loop_ c)
        fun _ ↦ h.alive c halive
      exact .ok (hset.queueInLoop _ ⟨c, .inr rfl⟩)
    next => exact .ok h
  | destructor => exact h.destructor

end AtHome

theorem atHome_run {ls : List Label} (h : Run Server.Step (Server.start 0) ls s) : AtHome s := by
  have hstart : AtHome (Server.start 0) :=
    ⟨rfl, fun _ ↦ rfl, fun _ _ hcb ↦ absurd hcb List.not_mem_nil,
      fun _ hc ↦ by simp [Server.start, Conn.Alive] at hc⟩
  exact h.invariant AtHome (fun s l t hs hstep ↦ (hs.next hstep.1).atHome t hstep.2) hstart

/-- A connection closes in its loop, and the server goes before the base loop runs the functor about
it. -/
theorem serverGone_reached {numThreads : Nat} (hn : numThreads ≠ 0) :
    ∃ s, Run Server.Step (Server.start numThreads) [.accept, .run 1, .close 1, .destructor] s ∧
      s.Enabled (.run 0) ∧ s.next (.run 0) = .error .serverGone := by
  have haccept : (Server.start numThreads).next .accept = .ok
      (({ Server.start numThreads with next_ := if numThreads ≤ 1 then 0 else
      1 }.makeConnection 1).queueInLoop 1
        (.connectEstablished 1)) := by
    have hpool : (Server.start numThreads).numThreads ≠ 0 := hn
    have hnext : (Server.start numThreads).nextConnId_ ≠ 2 ^ 31 - 1 := (by decide : 1 ≠ 2 ^ 31 - 1)
    rw [Server.next, Server.newConnection, if_neg hnext, Server.getNextLoop, if_neg hpool]
    rfl
  refine ⟨_, .cons ⟨rfl, haccept⟩
    (.cons ⟨?_, rfl⟩ (.cons ⟨⟨?_, .inl rfl⟩, rfl⟩ (.cons ⟨rfl, rfl⟩ (.nil _)))), ?_, rfl⟩
  · exact List.cons_ne_nil _ _
  · exact ⟨Nat.one_pos, Nat.lt_succ_self 1⟩
  · exact List.cons_ne_nil _ _

/-- A call reaches a `TcpServer` that is gone in some run of its loops exactly when it has loops of
its own. -/
theorem serverGone_iff (numThreads : Nat) :
    (∃ ls s l, Run Server.Step (Server.start numThreads) ls s ∧ s.Enabled l ∧
    s.next l = .error .serverGone) ↔
      numThreads ≠ 0 := by
  constructor
  · rintro ⟨ls, s, l, hrun, henabled, hnext⟩ rfl
    exact ((atHome_run hrun).next henabled).calls hnext
  · intro hn
    obtain ⟨s, hrun, henabled, hnext⟩ := serverGone_reached hn
    exact ⟨_, s, _, hrun, henabled, hnext⟩

end Pallette.ServerLoops
