import Pallette.Net.ServerLoops
import Mathlib.Data.List.Nodup

/-!
# Handing — every connection goes once through every stage

Between a connection and its end stands at most one functor, in one queue.  Which one is read off
its trace, and that there is no other is the invariant of the handing over; with it no assertion on
the way can fail.
-/

open Reasoning

namespace Pallette.ServerLoops

open TcpConnection (StateE)

variable {s t : Server} {c loop : Nat}

/-- The stages of a connection of `loop`, and where each is reached. -/
def lifecycle (loop : Nat) : List (Stage × Nat) :=
  [(.established, loop), (.closed, loop), (.removed, 0), (.destroyed, loop)]

namespace Functor

def conn : Functor → Nat
  | .connectEstablished c | .forceCloseInLoop c | .removeConnectionInLoop c
      | .connectDestroyed c => c

/-- The functor takes its connection to the next stage. -/
def Drives : Functor → Prop
  | .forceCloseInLoop _ => False
  | _ => True

end Functor

namespace Conn

/-- The functor connection `c` waits for, and the queue it waits in. -/
def awaits (k : Conn) (c : Nat) : Option (Nat × Functor) :=
  match k.trace.length with
  | 0 => some (k.loop_, .connectEstablished c)
  | 2 => some (0, .removeConnectionInLoop c)
  | 3 => some (k.loop_, .connectDestroyed c)
  | _ => none

/-- The trace is a part of the lifecycle, and the state the one of its last stage. -/
structure Fits (k : Conn) : Prop where
  trace : k.trace = (lifecycle k.loop_).take k.trace.length
  connecting : k.trace.length = 0 ↔ k.state_ = .kConnecting
  alive : k.trace.length = 1 ↔ k.Alive

end Conn

/-- Of a connection that is not `busy`, the functor it waits for. -/
def Due (busy : Nat) (s : Server) (loop : Nat) (cb : Functor) : Prop :=
  s.Accepted cb.conn ∧ cb.conn ≠ busy ∧ (s.conn cb.conn).awaits cb.conn = some (loop, cb)

instance (busy : Nat) (s : Server) (loop : Nat) (cb : Functor) : Decidable (Due busy s loop cb) :=
  inferInstanceAs (Decidable (_ ∧ _))

/-- What holds between two steps, when `busy` is 0, and within a step that has connection `busy` in
hand. -/
structure Handed (busy : Nat) (s : Server) : Prop where
  here : s.gone = false
  counts : 0 < s.nextConnId_
  fits : ∀ c, s.Accepted c → (s.conn c).Fits
  nodup : s.connections_.Nodup
  listed : ∀ c, c ∈ s.connections_ ↔ s.Accepted c ∧ (s.conn c).trace.length < 3
  queued : ∀ loop cb, cb.Drives →
    (s.pendingFunctors_ loop).count cb = if Due busy s loop cb then 1 else 0
  forced : ∀ loop c, .forceCloseInLoop c ∈ s.pendingFunctors_ loop → s.Accepted c

theorem queueInLoop_count (cb cb' : Functor) (loop' : Nat) :
    ((s.queueInLoop loop cb).pendingFunctors_ loop').count cb' =
      (s.pendingFunctors_ loop').count cb' + if loop' = loop ∧ cb' = cb then 1 else 0 := by
  by_cases hloop : loop' = loop
  · subst hloop
    rw [Server.queueInLoop_self, List.count_append, List.count_singleton]
    simp only [true_and, beq_iff_eq, @eq_comm _ cb']
  · rw [Server.queueInLoop_ne cb hloop, if_neg fun h ↦ hloop h.1, Nat.add_zero]

namespace Conn

variable {k : Conn}

theorem awaits_conn {cb : Functor} (h : k.awaits c = some (loop, cb)) :
    cb.conn = c ∧ cb.Drives := by
  unfold awaits at h
  split at h <;> cases h <;> exact ⟨rfl, trivial⟩

theorem awaits_established (h : k.trace.length = 0) :
    k.awaits c = some (k.loop_, .connectEstablished c) := by
  simp only [awaits, h]

theorem awaits_removed (h : k.trace.length = 2) :
    k.awaits c = some (0, .removeConnectionInLoop c) := by
  simp only [awaits, h]

theorem awaits_destroyed (h : k.trace.length = 3) :
    k.awaits c = some (k.loop_, .connectDestroyed c) := by
  simp only [awaits, h]

theorem awaits_none_iff : k.awaits c = none ↔ k.trace.length = 1 ∨ 4 ≤ k.trace.length := by
  unfold awaits
  split
  next hlength => exact iff_of_false nofun (by omega)
  next hlength => exact iff_of_false nofun (by omega)
  next hlength => exact iff_of_false nofun (by omega)
  next hzero htwo hthree =>
    have hzero : k.trace.length ≠ 0 := hzero
    have htwo : k.trace.length ≠ 2 := htwo
    have hthree : k.trace.length ≠ 3 := hthree
    exact iff_of_true rfl (by omega)

theorem awaits_none (h : k.trace.length = 1 ∨ 4 ≤ k.trace.length) : k.awaits c = none :=
  awaits_none_iff.mpr h

theorem awaits_length {cb : Functor} (h : k.awaits c = some (loop, cb)) :
    cb = .connectEstablished c ∧ k.trace.length = 0 ∧ k.loop_ = loop ∨
    cb = .removeConnectionInLoop c ∧ k.trace.length = 2 ∨
    cb = .connectDestroyed c ∧ k.trace.length = 3 ∧ k.loop_ = loop := by
  unfold awaits at h
  split at h
  next hlength =>
    cases h
    exact .inl ⟨rfl, hlength, rfl⟩
  next hlength =>
    cases h
    exact .inr (.inl ⟨rfl, hlength⟩)
  next hlength =>
    cases h
    exact .inr (.inr ⟨rfl, hlength, rfl⟩)
  next => cases h

end Conn

/-! ## Taking a connection in hand, and giving it on -/

/-- A connection that waits for nothing has nothing due, in hand or not. -/
theorem due_iff_of_awaits (hc : (s.conn c).awaits c = none) (loop : Nat) (cb : Functor) :
    Due 0 s loop cb ↔ Due c s loop cb := by
  refine and_congr_right fun haccepted ↦ and_congr_left fun hawaits ↦ ?_
  refine iff_of_true haccepted.1.ne' fun hbusy ↦ ?_
  rw [hbusy, hc] at hawaits
  cases hawaits

theorem Handed.take (h : Handed 0 s) (hc : (s.conn c).awaits c = none) : Handed c s :=
  { h with queued := fun loop cb hcb ↦
      (h.queued loop cb hcb).trans (if_congr (due_iff_of_awaits hc loop cb) rfl rfl) }

theorem Handed.leave (h : Handed c s) (hc : (s.conn c).awaits c = none) : Handed 0 s :=
  { h with queued := fun loop cb hcb ↦
      (h.queued loop cb hcb).trans (if_congr (due_iff_of_awaits hc loop cb).symm rfl rfl) }

/-- What is due besides the functors of `c` is due with them. -/
theorem due_iff_of_ne {cb : Functor} (hcb : cb.conn ≠ c) : Due 0 s loop cb ↔ Due c s loop cb :=
  and_congr_right fun haccepted ↦ and_congr_left fun _ ↦ iff_of_true haccepted.1.ne' hcb

theorem not_due_of_conn {cb : Functor} (hcb : cb.conn = c) : ¬ Due c s loop cb :=
  fun h ↦ h.2.1 hcb

/-- Of the functors of one connection the one it waits for is due. -/
theorem due_iff_of_conn {cb cb' : Functor} {loop' : Nat} (hc : s.Accepted c)
    (hawaits : (s.conn c).awaits c = some (loop, cb)) (hcb : cb'.conn = c) :
    Due 0 s loop' cb' ↔ loop' = loop ∧ cb' = cb := by
  subst hcb
  constructor
  · rintro ⟨-, -, h⟩
    rw [hawaits] at h
    cases h
    exact ⟨rfl, rfl⟩
  · rintro ⟨rfl, rfl⟩
    exact ⟨hc, hc.1.ne', hawaits⟩

/-- To queue the functor the connection waits for is to give it on. -/
theorem Handed.queue {cb : Functor} (h : Handed c s) (hc : s.Accepted c)
    (hawaits : (s.conn c).awaits c = some (loop, cb)) : Handed 0 (s.queueInLoop loop cb) := by
  obtain ⟨hconn, hdrives⟩ := Conn.awaits_conn hawaits
  refine { h with queued := fun loop' cb' hcb' ↦ ?_, forced := fun loop' c' hmem ↦ ?_ }
  · have hdue : Due 0 (s.queueInLoop loop cb) loop' cb' ↔ Due 0 s loop' cb' := Iff.rfl
    rw [queueInLoop_count, h.queued loop' cb' hcb', if_congr hdue rfl rfl]
    by_cases hcb : cb'.conn = c
    · rw [if_neg (not_due_of_conn hcb), Nat.zero_add,
        if_congr (due_iff_of_conn hc hawaits hcb) rfl rfl]
    · have hne : ¬ (loop' = loop ∧ cb' = cb) := fun h ↦ hcb (h.2 ▸ hconn)
      rw [if_neg hne, Nat.add_zero, if_congr (due_iff_of_ne hcb) rfl rfl]
  · refine h.forced loop' c' ((Server.mem_queueInLoop hmem).resolve_right fun hcb ↦ ?_)
    rw [← hcb] at hdrives
    exact hdrives

/-- What a queue holds once its first functor is taken from it. -/
theorem pop_count {cb : Functor} {rest : List Functor}
    (hqueue : s.pendingFunctors_ loop = cb :: rest) (cb' : Functor) (loop' : Nat) :
    (Function.update s.pendingFunctors_ loop rest loop').count cb' +
      (if loop' = loop ∧ cb' = cb then 1 else 0) = (s.pendingFunctors_ loop').count cb' := by
  by_cases hloop : loop' = loop
  · subst hloop
    rw [Function.update_self, hqueue, List.count_cons]
    simp only [true_and, beq_iff_eq, @eq_comm _ cb']
  · rw [Function.update_of_ne hloop, if_neg fun h ↦ hloop h.1, Nat.add_zero]

/-- The first functor of a queue, if it takes its connection on, is the one the connection waits
for. -/
theorem Handed.pop {cb : Functor} {rest : List Functor} (h : Handed 0 s)
    (hqueue : s.pendingFunctors_ loop = cb :: rest) (hdrives : cb.Drives) :
    s.Accepted cb.conn ∧ (s.conn cb.conn).awaits cb.conn = some (loop, cb) ∧
      Handed cb.conn { s with
      pendingFunctors_ := Function.update s.pendingFunctors_ loop rest } := by
  have hone := h.queued loop cb hdrives
  rw [hqueue, List.count_cons_self] at hone
  have hhead : Due 0 s loop cb := by
    by_contra hdue
    rw [if_neg hdue] at hone
    omega
  obtain ⟨hc, -, hawaits⟩ := hhead
  refine ⟨hc, hawaits, { h with
    queued := fun loop' cb' hcb' ↦ ?_, forced := fun loop' c' hmem ↦
      h.forced loop' c' (Server.pop_mem hqueue hmem) }⟩
  have hcount := (pop_count hqueue cb' loop').trans (h.queued loop' cb' hcb')
  by_cases hcb : cb'.conn = cb.conn
  · rw [if_congr (due_iff_of_conn hc hawaits hcb) rfl rfl] at hcount
    rw [if_neg (not_due_of_conn hcb)]
    exact Nat.add_right_cancel (hcount.trans (Nat.zero_add _).symm)
  · have hne : ¬ (loop' = loop ∧ cb' = cb) := fun h ↦ hcb (h.2 ▸ rfl)
    rw [if_neg hne, Nat.add_zero, if_congr (due_iff_of_ne hcb) rfl rfl] at hcount
    exact hcount

/-- A connection in hand may change, and with it its place among the connections. -/
theorem Handed.set (h : Handed c s) (hc : s.Accepted c) {k : Conn} (hk : k.Fits) {cs : List Nat}
    (hcs : cs.Nodup)
    (hlisted : ∀ x, x ∈ cs ↔ if x = c then k.trace.length < 3 else x ∈ s.connections_) :
    Handed c { s with conn := (s.setConn c k).conn, connections_ := cs } := by
  refine { h with
    fits := fun x hx ↦ ?_, nodup := hcs, listed := fun x ↦ ?_, queued := fun loop cb hcb ↦ ?_ }
  · by_cases hxc : x = c
    · subst hxc
      simpa only [Server.setConn_conn_self] using hk
    · simpa only [Server.setConn_conn_ne k hxc] using h.fits x hx
  · refine (hlisted x).trans ?_
    by_cases hxc : x = c
    · subst hxc
      simp only [if_true, Server.setConn_conn_self]
      exact (and_iff_right hc).symm
    · rw [if_neg hxc, h.listed x]
      simp only [Server.setConn_conn_ne k hxc]
      rfl
  · refine (h.queued loop cb hcb).trans (if_congr ?_ rfl rfl)
    refine and_congr_right fun _ ↦ and_congr_right fun hne ↦ ?_
    simp only [Server.setConn_conn_ne k hne]

theorem Handed.setConn (h : Handed c s) (hc : s.Accepted c) {k : Conn} (hk : k.Fits)
    (hlength : k.trace.length < 3 ↔ (s.conn c).trace.length < 3) : Handed c (s.setConn c k) := by
  refine h.set hc hk h.nodup fun x ↦ ?_
  by_cases hx : x = c
  · rw [if_pos hx, hx, h.listed c, hlength]
    exact and_iff_right hc
  · rw [if_neg hx]

/-- A functor that only may close its connection changes nothing in a queue. -/
theorem Handed.queueForced (h : Handed 0 s) (hc : s.Accepted c) (loop : Nat) :
    Handed 0 (s.queueInLoop loop (.forceCloseInLoop c)) := by
  refine { h with queued := fun loop' cb hcb ↦ ?_, forced := fun loop' c' hmem ↦ ?_ }
  · have hne : ¬ (loop' = loop ∧ cb = .forceCloseInLoop c) := fun h ↦ by
      rw [h.2] at hcb
      exact hcb
    rw [queueInLoop_count, if_neg hne]
    exact h.queued loop' cb hcb
  · rcases Server.mem_queueInLoop hmem with hmem | heq
    · exact h.forced loop' c' hmem
    · cases heq
      exact hc

theorem Handed.popForced {rest : List Functor} (h : Handed 0 s)
    (hqueue : s.pendingFunctors_ loop = .forceCloseInLoop c :: rest) :
    Handed 0 { s with pendingFunctors_ := Function.update s.pendingFunctors_ loop rest } := by
  refine { h with
    queued := fun loop' cb hcb ↦ ?_, forced := fun loop' c' hmem ↦
      h.forced loop' c' (Server.pop_mem hqueue hmem) }
  have hne : ¬ (loop' = loop ∧ cb = .forceCloseInLoop c) := fun h ↦ by
    rw [h.2] at hcb
    exact hcb
  have hcount := pop_count hqueue cb loop'
  rw [if_neg hne] at hcount
  exact hcount.trans (h.queued loop' cb hcb)

/-! ## The steps -/

theorem Conn.Fits.advance {k : Conn} {n : Nat} {x : Stage × Nat} {e : StateE} (hk : k.Fits)
    (hn : k.trace.length = n) (hx : (lifecycle k.loop_)[n]? = some x)
    (hconnecting : e ≠ .kConnecting) (halive : n = 0 ↔ e = .kConnected ∨ e = .kDisconnecting) :
    Conn.Fits { k with state_ := e, trace := k.trace ++ [x] } := by
  have hlength : (k.trace ++ [x]).length = n + 1 := by rw [List.length_append, hn]; rfl
  refine ⟨?_, ?_, ?_⟩
  · show k.trace ++ [x] = (lifecycle k.loop_).take (k.trace ++ [x]).length
    rw [hlength, List.take_add_one, hx, ← hn, ← hk.trace]
    rfl
  · exact iff_of_false (by rw [hlength]; omega) hconnecting
  · refine Iff.trans ?_ halive
    rw [hlength]
    omega

theorem Conn.Fits.disconnected {k : Conn} (hk : k.Fits) (hlength : 2 ≤ k.trace.length) :
    k.state_ = .kDisconnected := by
  have hconnecting : k.state_ ≠ .kConnecting := fun h ↦ by
    have hzero := hk.connecting.mpr h
    omega
  have halive : ¬ k.Alive := fun h ↦ by
    have hone := hk.alive.mpr h
    omega
  rw [Conn.Alive, not_or] at halive
  generalize k.state_ = state at hconnecting halive ⊢
  cases state with
  | kDisconnected => rfl
  | kConnecting => exact absurd rfl hconnecting
  | kConnected => exact absurd rfl halive.1
  | kDisconnecting => exact absurd rfl halive.2

theorem length_advance {k : Conn} {n : Nat} (hn : k.trace.length = n) (x : Stage × Nat) :
    (k.trace ++ [x]).length = n + 1 := by
  rw [List.length_append, hn]
  rfl

theorem connectEstablished_handed (h : Handed c s) (hc : s.Accepted c)
    (hlength : (s.conn c).trace.length = 0)
    (hloop : (s.conn c).loop_ = loop) : ∃ t, s.connectEstablished loop c = .ok t ∧ Handed 0 t := by
  subst hloop
  have hfits := h.fits c hc
  have hk := hfits.advance (e := .kConnected) hlength rfl (by decide) (by decide)
  have hone := length_advance hlength (.established, (s.conn c).loop_)
  refine ⟨_, if_pos (hfits.connecting.mp hlength),
    (h.setConn hc hk ?_).leave (Conn.awaits_none (.inl ?_))⟩
  · rw [hone, hlength]
    decide
  · rw [Server.setConn_conn_self]
    exact hone

theorem connectDestroyed_handed (h : Handed c s) (hc : s.Accepted c)
    (hlength : (s.conn c).trace.length = 3)
    (hloop : (s.conn c).loop_ = loop) : ∃ t, s.connectDestroyed loop c = .ok t ∧ Handed 0 t := by
  subst hloop
  have hfits := h.fits c hc
  have hk := hfits.advance (e := .kDisconnected) hlength rfl (by decide) (by decide)
  have hfour := length_advance hlength (.destroyed, (s.conn c).loop_)
  refine ⟨_, if_pos (.inr (hfits.disconnected (by omega))),
    (h.setConn hc hk ?_).leave (Conn.awaits_none (.inr ?_))⟩
  · rw [hfour, hlength]
    decide
  · rw [Server.setConn_conn_self]
    exact hfour.ge

theorem removeConnectionInLoop_handed (h : Handed c s) (hc : s.Accepted c)
    (hlength : (s.conn c).trace.length = 2) : ∃ t, s.removeConnectionInLoop c = .ok t ∧
    Handed 0 t := by
  have hfits := h.fits c hc
  have hmem : c ∈ s.connections_ := (h.listed c).mpr ⟨hc, by omega⟩
  have hdown := hfits.disconnected (by omega)
  have hk := hfits.advance (e := (s.conn c).state_) hlength rfl (by rw [hdown]; decide)
    (by rw [hdown]; decide)
  have hthree := length_advance hlength (.removed, 0)
  have hset := h.set hc hk (h.nodup.erase c) fun x ↦ by
    by_cases hx : x = c
    · rw [if_pos hx, hx, hthree]
      exact iff_of_false h.nodup.not_mem_erase (by decide)
    · rw [if_neg hx, List.mem_erase_of_ne hx]
  refine ⟨_, ?_, hset.queue hc (Conn.awaits_destroyed ?_)⟩
  · rw [Server.removeConnectionInLoop, h.here]
    exact if_pos hmem
  · rw [Server.setConn_conn_self]
    exact hthree

theorem handleClose_handed (h : Handed c s) (hc : s.Accepted c) (halive : (s.conn c).Alive) :
    ∃ t, s.handleClose c = .ok t ∧ Handed 0 t := by
  have hfits := h.fits c hc
  have hlength := hfits.alive.mpr halive
  have hk := hfits.advance (e := .kDisconnected) hlength rfl (by decide) (by decide)
  have htwo := length_advance hlength (.closed, (s.conn c).loop_)
  have hset := h.setConn hc hk (by rw [htwo, hlength]; decide)
  unfold Server.handleClose
  rw [if_pos halive]
  show ∃ t, Server.removeConnection _ c = .ok t ∧ Handed 0 t
  unfold Server.removeConnection
  split
  · exact removeConnectionInLoop_handed hset hc (by rw [Server.setConn_conn_self]; exact htwo)
  · exact ⟨_, rfl, hset.queue hc (Conn.awaits_removed
      (by rw [Server.setConn_conn_self]; exact htwo))⟩

theorem makeConnection_accepted_iff {x : Nat} (hx : x ≠ s.nextConnId_) :
    (s.makeConnection loop).Accepted x ↔ s.Accepted x := by
  unfold Server.Accepted Server.makeConnection
  simp only
  omega

theorem makeConnection_conn_ne {x : Nat} (hx : x ≠ s.nextConnId_) :
    (s.makeConnection loop).conn x = s.conn x :=
  Function.update_of_ne hx ..

theorem makeConnection_conn_self : (s.makeConnection loop).conn s.nextConnId_ = { loop_ := loop } :=
  Function.update_self ..

theorem not_accepted_next : ¬ s.Accepted s.nextConnId_ :=
  fun h ↦ Nat.lt_irrefl _ h.2

theorem Conn.fits_new (loop : Nat) : Conn.Fits { loop_ := loop } :=
  ⟨rfl, iff_of_true rfl rfl, iff_of_false Nat.zero_ne_one (by simp [Conn.Alive])⟩

theorem Handed.makeConnection (h : Handed 0 s) (loop : Nat) :
    Handed s.nextConnId_ (s.makeConnection loop) := by
  have hnew : (s.makeConnection loop).Accepted s.nextConnId_ := ⟨h.counts, Nat.lt_succ_self _⟩
  refine ⟨h.here, Nat.succ_pos _, fun x hx ↦ ?_, ?_, fun x ↦ ?_, fun loop' cb hcb ↦ ?_,
    fun loop' x hmem ↦ ?_⟩
  · by_cases hne : x = s.nextConnId_
    · rw [hne, makeConnection_conn_self]
      exact Conn.fits_new loop
    · rw [makeConnection_conn_ne hne]
      exact h.fits x ((makeConnection_accepted_iff hne).mp hx)
  · refine List.nodup_cons.mpr ⟨fun hmem ↦ ?_, h.nodup⟩
    exact not_accepted_next ((h.listed _).mp hmem).1
  · refine List.mem_cons.trans ?_
    by_cases hne : x = s.nextConnId_
    · subst hne
      rw [makeConnection_conn_self]
      exact iff_of_true (.inl rfl) ⟨hnew, Nat.succ_pos _⟩
    · rw [makeConnection_accepted_iff hne, makeConnection_conn_ne hne, ← h.listed x]
      exact or_iff_right hne
  · refine (h.queued loop' cb hcb).trans (if_congr ?_ rfl rfl)
    by_cases hne : cb.conn = s.nextConnId_
    · exact iff_of_false (fun hdue ↦ not_accepted_next (hne ▸ hdue.1)) (not_due_of_conn hne)
    · rw [due_iff_of_ne hne, Due, Due, makeConnection_accepted_iff hne, makeConnection_conn_ne hne]
  · have haccepted := h.forced loop' x hmem
    exact ⟨haccepted.1, Nat.lt_succ_of_lt haccepted.2⟩

theorem getNextLoop_handed (h : Handed 0 s) :
    Handed 0 s.getNextLoop.2 ∧ s.getNextLoop.2.nextConnId_ = s.nextConnId_ := by
  unfold Server.getNextLoop
  split
  · exact ⟨h, rfl⟩
  · exact ⟨{ h with }, rfl⟩

theorem newConnection_handed (h : Handed 0 s) (hnext : s.nextConnId_ ≠ 2 ^ 31 - 1) :
    ∃ t, s.newConnection = .ok t ∧ Handed 0 t := by
  unfold Server.newConnection
  rw [if_neg hnext]
  obtain ⟨hs, -⟩ := getNextLoop_handed h
  generalize s.getNextLoop = p at hs ⊢
  obtain ⟨ioLoop, s⟩ := p
  have hmake := hs.makeConnection ioLoop
  have hnew : (s.makeConnection ioLoop).Accepted s.nextConnId_ := ⟨hs.counts, Nat.lt_succ_self _⟩
  have hconn := @makeConnection_conn_self s ioLoop
  by_cases hbase : ioLoop = 0
  · have hloop : ((s.makeConnection ioLoop).conn s.nextConnId_).loop_ = 0 := by
      rw [hconn]; exact hbase
    obtain ⟨t, hrun, ht⟩ := connectEstablished_handed hmake hnew (by rw [hconn]; rfl) hloop
    exact ⟨t, (if_pos hbase).trans hrun, ht⟩
  · have hqueue := hmake.queue hnew (Conn.awaits_established (by rw [hconn]; rfl))
    rw [hconn] at hqueue
    exact ⟨_, if_neg hbase, hqueue⟩

/-- What the first functor of a queue does. -/
theorem run_handed (h : Handed 0 s) {cb : Functor} {rest : List Functor}
    (hqueue : s.pendingFunctors_ loop = cb :: rest) :
    ∃ t, Server.execute { s with pendingFunctors_ := Function.update s.pendingFunctors_ loop rest }
      loop cb = .ok t ∧
      Handed 0 t := by
  cases cb with
  | forceCloseInLoop c =>
    have hc : s.Accepted c := h.forced loop c (by rw [hqueue]; exact List.mem_cons_self)
    have hpop := h.popForced hqueue
    by_cases halive : (s.conn c).Alive
    · have hlength := (h.fits c hc).alive.mpr halive
      obtain ⟨t, hclose, ht⟩ := handleClose_handed
        (hpop.take (Conn.awaits_none (.inl hlength))) hc halive
      exact ⟨t, (if_pos halive).trans hclose, ht⟩
    · exact ⟨_, if_neg halive, hpop⟩
  | connectEstablished c =>
    obtain ⟨hc, hawaits, hpop⟩ := h.pop hqueue trivial
    rcases Conn.awaits_length hawaits with ⟨-, hlength, hloop⟩ | ⟨hcb, -⟩ | ⟨hcb, -⟩
    · exact connectEstablished_handed hpop hc hlength hloop
    · cases hcb
    · cases hcb
  | removeConnectionInLoop c =>
    obtain ⟨hc, hawaits, hpop⟩ := h.pop hqueue trivial
    rcases Conn.awaits_length hawaits with ⟨hcb, -⟩ | ⟨-, hlength⟩ | ⟨hcb, -⟩
    · cases hcb
    · exact removeConnectionInLoop_handed hpop hc hlength
    · cases hcb
  | connectDestroyed c =>
    obtain ⟨hc, hawaits, hpop⟩ := h.pop hqueue trivial
    rcases Conn.awaits_length hawaits with ⟨hcb, -⟩ | ⟨hcb, -⟩ | ⟨-, hlength, hloop⟩
    · cases hcb
    · cases hcb
    · exact connectDestroyed_handed hpop hc hlength hloop

/-- `shutdown` and the first part of `forceClose`. -/
theorem disconnecting_handed (h : Handed 0 s) (hc : s.Accepted c) (halive : (s.conn c).Alive) :
    Handed 0 (s.setConn c { s.conn c with state_ := .kDisconnecting }) := by
  have hfits := h.fits c hc
  have hlength := hfits.alive.mpr halive
  have hk : Conn.Fits { s.conn c with state_ := .kDisconnecting } :=
    ⟨hfits.trace, iff_of_false (by rw [hlength]; decide) nofun, iff_of_true hlength (.inr rfl)⟩
  refine ((h.take (Conn.awaits_none (.inl hlength))).setConn hc hk Iff.rfl).leave
    (Conn.awaits_none (.inl ?_))
  rw [Server.setConn_conn_self]
  exact hlength

/-- **Step lemma.**  Before `~TcpServer` no step fails but an `accept` past the last number. -/
theorem next_handed {l : Label} (h : Handed 0 s) (hl : s.Enabled l) (hlast : l ≠ .destructor)
    (haccept : l = .accept → s.nextConnId_ ≠ 2 ^ 31 - 1) : ∃ t, s.next l = .ok t ∧ Handed 0 t := by
  cases l with
  | accept => exact newConnection_handed h (haccept rfl)
  | run loop =>
    obtain ⟨cb, rest, hqueue⟩ := List.exists_cons_of_ne_nil hl
    obtain ⟨t, hrun, ht⟩ := run_handed h hqueue
    refine ⟨t, ?_, ht⟩
    simp only [Server.next, hqueue]
    exact hrun
  | close c =>
    have hlength := (h.fits c hl.1).alive.mpr hl.2
    exact handleClose_handed (h.take (Conn.awaits_none (.inl hlength))) hl.1 hl.2
  | shutdown c =>
    by_cases hconnected : (s.conn c).state_ = .kConnected
    · exact ⟨_, if_pos hconnected, disconnecting_handed h hl (.inl hconnected)⟩
    · exact ⟨s, if_neg hconnected, h⟩
  | forceClose c =>
    by_cases halive : (s.conn c).Alive
    · exact ⟨_, if_pos halive, (disconnecting_handed h hl halive).queueForced hl _⟩
    · exact ⟨s, if_neg halive, h⟩
  | destructor => exact absurd rfl hlast

/-! ## The runs -/

theorem handed_start (numThreads : Nat) : Handed 0 (Server.start numThreads) := by
  have hnone : ∀ c, ¬ (Server.start numThreads).Accepted c := fun c hc ↦ by
    have hlt : c < 1 := hc.2
    have hpos := hc.1
    omega
  refine ⟨rfl, Nat.one_pos, fun c hc ↦ absurd hc (hnone c), List.nodup_nil, fun c ↦ ?_,
    fun loop cb _ ↦ ?_, nofun⟩
  · exact iff_of_false List.not_mem_nil fun h ↦ hnone c h.1
  · exact (if_neg fun h ↦ hnone _ h.1).symm

/-- The steps up to `~TcpServer`. -/
abbrev BeforeDestructor : Server → Label → Server → Prop :=
  Guarded Server.Step fun _ l ↦ l ≠ .destructor

theorem handed_run {numThreads : Nat} {ls : List Label}
    (h : Run BeforeDestructor (Server.start numThreads) ls s) : Handed 0 s := by
  refine h.invariant (Handed 0) (fun s l t hs ⟨⟨henabled, hnext⟩, hlast⟩ ↦ ?_)
    (handed_start numThreads)
  have haccept : l = .accept → s.nextConnId_ ≠ 2 ^ 31 - 1 := by
    rintro rfl hmax
    have herror : s.newConnection = .error .nextConnId := if_pos hmax
    rw [Server.next, herror] at hnext
    cases hnext
  obtain ⟨u, hu, hhanded⟩ := next_handed hs henabled hlast haccept
  rw [hnext] at hu
  cases hu
  exact hhanded

/-- Whatever its loops do, in whatever order, until `~TcpServer` no assertion of the server or of a
connection fails, and every step that can come is taken; but when the numbers are used up the next
`accept` overflows. -/
theorem next_ok_iff {numThreads : Nat} {ls : List Label} {l : Label}
    (h : Run BeforeDestructor (Server.start numThreads) ls s) (henabled : s.Enabled l)
    (hlast : l ≠ .destructor) :
    (∃ t, s.next l = .ok t) ↔ ¬ (l = .accept ∧ s.nextConnId_ = 2 ^ 31 - 1) := by
  constructor
  · rintro ⟨t, hnext⟩ ⟨rfl, hmax⟩
    have herror : s.newConnection = .error .nextConnId := if_pos hmax
    rw [Server.next, herror] at hnext
    cases hnext
  · intro hl
    obtain ⟨t, ht, -⟩ := next_handed (handed_run h) henabled hlast
      fun haccept hmax ↦ hl ⟨haccept, hmax⟩
    exact ⟨t, ht⟩

/-- One loop besides the base loop, and one connection that comes up there and is closed. -/
theorem run_closed : ∃ s, Run BeforeDestructor (Server.start 1) [.accept, .run 1, .close 1] s ∧
    s.Enabled (.run 0) ∧ s.Accepted 1 :=
  ⟨_, .cons ⟨⟨by decide, rfl⟩, by decide⟩ (.cons ⟨⟨by decide, rfl⟩, by decide⟩
    (.cons ⟨⟨by decide, rfl⟩, by decide⟩ (.nil _))), by decide, by decide⟩

theorem next_ok_iff_closed :
    ∃ s, Run BeforeDestructor (Server.start 1) [.accept, .run 1, .close 1] s ∧
    ((∃ t, s.next (.run 0) = .ok t) ↔ ¬ (Label.run 0 = .accept ∧ s.nextConnId_ = 2 ^ 31 - 1)) := by
  obtain ⟨s, hrun, henabled, -⟩ := run_closed
  exact ⟨s, hrun, next_ok_iff hrun henabled (by decide)⟩

/-- The stages a connection has come to, each in the loop it belongs to. -/
structure InOrder (s : Server) (c : Nat) : Prop where
  /-- They come in their order, and none comes twice. -/
  stages : (s.conn c).trace <+: lifecycle (s.conn c).loop_
  /-- The server keeps the connection until it is removed. -/
  kept : c ∈ s.connections_ ↔ (.removed, 0) ∉ (s.conn c).trace
  /-- With no functor left, a connection is up or has come to its end. -/
  settled : (∀ loop, s.pendingFunctors_ loop = []) →
    (s.conn c).trace = [(.established, (s.conn c).loop_)] ∨
    (s.conn c).trace = lifecycle (s.conn c).loop_

theorem Conn.Fits.length_le {k : Conn} (hk : k.Fits) : k.trace.length ≤ 4 := by
  have hlength := congrArg List.length hk.trace
  rw [List.length_take] at hlength
  exact hlength ▸ Nat.min_le_right ..

theorem removed_not_mem_iff {k : Conn} (hk : k.Fits) :
    (.removed, 0) ∉ k.trace ↔ k.trace.length < 3 := by
  have htrace := hk.trace
  have hle := hk.length_le
  generalize k.trace.length = n at htrace hle ⊢
  rw [htrace]
  rcases Nat.lt_or_ge n 3 with hn | hn
  · refine iff_of_true (fun hmem ↦ ?_) hn
    have htwo := List.take_subset_take_left (lifecycle k.loop_) (Nat.le_of_lt_succ hn) hmem
    simp [lifecycle] at htwo
  · refine iff_of_false (not_not_intro ?_) (Nat.not_lt.mpr hn)
    exact List.take_subset_take_left (lifecycle k.loop_) hn (by simp [lifecycle])

/-- A connection no functor is queued for is up or at its end. -/
theorem awaits_of_settled (h : Handed 0 s) (hc : s.Accepted c)
    (hempty : ∀ loop, s.pendingFunctors_ loop = []) :
    (s.conn c).awaits c = none := by
  cases hawaits : (s.conn c).awaits c with
  | none => rfl
  | some due =>
    obtain ⟨loop, cb⟩ := due
    obtain ⟨hconn, hdrives⟩ := Conn.awaits_conn hawaits
    have hcount := h.queued loop cb hdrives
    have hdue : Due 0 s loop cb := (due_iff_of_conn hc hawaits hconn).mpr ⟨rfl, rfl⟩
    rw [hempty loop, if_pos hdue] at hcount
    cases hcount

/-- Whatever the order in which the loops run, every connection is established in its loop, closed
in its loop, removed in the base loop and destroyed in its loop: in this order, and no stage
twice. -/
theorem connections_inOrder {numThreads : Nat} {ls : List Label}
    (h : Run BeforeDestructor (Server.start numThreads) ls s) (hc : s.Accepted c) :
    InOrder s c := by
  have hs := handed_run h
  have hfits := hs.fits c hc
  refine ⟨?_, ?_, fun hempty ↦ ?_⟩
  · rw [hfits.trace]
    exact List.take_prefix ..
  · rw [hs.listed c, removed_not_mem_iff hfits]
    exact and_iff_right hc
  · have hawaits := awaits_of_settled hs hc hempty
    have htrace := hfits.trace
    have hle := hfits.length_le
    rcases Conn.awaits_none_iff.mp hawaits with hone | hfour
    · rw [hone] at htrace
      exact .inl htrace
    · rw [Nat.le_antisymm hle hfour] at htrace
      exact .inr htrace

theorem connections_inOrder_closed :
    ∃ s, Run BeforeDestructor (Server.start 1) [.accept, .run 1, .close 1] s ∧
    InOrder s 1 := by
  obtain ⟨s, hrun, -, hc⟩ := run_closed
  exact ⟨s, hrun, connections_inOrder hrun hc⟩

end Pallette.ServerLoops
