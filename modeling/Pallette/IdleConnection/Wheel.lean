import Mathlib.Data.List.Nodup
import Pallette.IdleConnection.EchoServer

/-!
# Wheel — the timing wheel keeps the deadlines

The bucket an entry was last put into is the one whose fall out of the wheel is its deadline; every
other bucket that holds it falls out before.
-/

open Reasoning

namespace Pallette.IdleConnection

variable {s t : EchoServer} {d : Deadlines} {idle conn c i time : Nat} {bucket : Bucket}
    {as : List Action} {a : Action}

/-- The wheel of `idle` buckets and the deadlines of the same run. -/
structure Keeps (idle : Nat) (s : EchoServer) (d : Deadlines) : Prop where
  maxSize : s.connectionBuckets_.maxSize_ = idle
  length : s.connectionBuckets_.buffer_.length = min idle d.now
  nodup : ∀ bucket ∈ s.connectionBuckets_.buffer_, bucket.Nodup
  context : ∀ conn, s.context conn = (d.deadline conn).isSome
  range : ∀ conn time, d.deadline conn = some time → idle < time ∧ time ≤ d.now + idle
  held : ∀ i bucket conn, s.connectionBuckets_.buffer_[i]? = some bucket → conn ∈ bucket →
    ∃ time, d.deadline conn = some time ∧ d.now + 1 + i + idle ≤
      time + s.connectionBuckets_.buffer_.length
  last : ∀ conn time, d.deadline conn = some time → d.now < time →
    ∃ i bucket, s.connectionBuckets_.buffer_[i]? = some bucket ∧ conn ∈ bucket ∧
      d.now + 1 + i + idle = time + s.connectionBuckets_.buffer_.length

theorem keeps_new (idle : Nat) (h : 0 < idle) : Keeps idle (.new idle h) {} where
  maxSize := rfl
  length := (Nat.min_zero _).symm
  nodup := fun _ hmem ↦ absurd hmem List.not_mem_nil
  context := fun _ ↦ rfl
  range := fun _ _ hnone ↦ by cases hnone
  held := fun _ _ _ hnone ↦ by cases hnone
  last := fun _ _ hnone ↦ by cases hnone

theorem holds_iff {buckets : List Bucket} :
    EchoServer.holds buckets conn ↔ ∃ bucket ∈ buckets, conn ∈ bucket := by
  simp [EchoServer.holds]

/-- An entry is there as long as its deadline has not come. -/
theorem Keeps.holds_iff (h : Keeps idle s d) :
    EchoServer.holds s.connectionBuckets_.buffer_ conn ↔
      ∃ time ∈ d.deadline conn, d.now < time := by
  rw [IdleConnection.holds_iff]
  constructor
  · rintro ⟨bucket, hbucket, hmem⟩
    obtain ⟨i, hi⟩ := List.getElem?_of_mem hbucket
    obtain ⟨time, htime, hle⟩ := h.held i bucket conn hi hmem
    have hlength := h.length
    exact ⟨time, htime, by omega⟩
  · rintro ⟨time, htime, hlater⟩
    obtain ⟨i, bucket, hbucket, hmem, -⟩ := h.last conn time htime hlater
    exact ⟨bucket, List.mem_of_getElem? hbucket, hmem⟩

/-! ## A connection is heard of -/

theorem insertBack_ok (h : s.insertBack conn = .ok t) :
    0 < s.connectionBuckets_.buffer_.length ∧
      t = { s with connectionBuckets_ := s.connectionBuckets_.modifyBack (List.insert conn) } := by
  unfold EchoServer.insertBack at h
  split at h
  next => cases h
  next hne =>
    cases h
    exact ⟨List.length_pos_iff.mpr hne, rfl⟩

/-- What is in a bucket once `conn` has been put into the last one. -/
theorem getElem?_modifyBack {b : CircularBuffer Bucket} :
    (b.modifyBack (List.insert conn)).buffer_[i]? = some bucket ↔
      ∃ old, b.buffer_[i]? = some old ∧
        bucket = if i + 1 = b.buffer_.length then old.insert conn else old := by
  change (b.buffer_.modify (b.buffer_.length - 1) (List.insert conn))[i]? = some bucket ↔ _
  rw [List.getElem?_modify, Option.map_eq_map, Option.map_eq_some_iff]
  refine exists_congr fun old ↦ and_congr_right fun hold ↦ ?_
  obtain ⟨hlt, -⟩ := List.getElem?_eq_some_iff.mp hold
  have hsame : b.buffer_.length - 1 = i ↔ i + 1 = b.buffer_.length := by omega
  simp only [hsame]
  exact eq_comm

theorem length_modifyBack (b : CircularBuffer Bucket) (f : Bucket → Bucket) :
    (b.modifyBack f).buffer_.length = b.buffer_.length :=
  List.length_modify ..

/-- Putting the entry into the last bucket sets its deadline anew. -/
theorem Keeps.extend {context alive : Nat → Bool} (h : Keeps idle s d)
    (hback : 0 < s.connectionBuckets_.buffer_.length)
    (hcontext : ∀ c, context c = if c = conn then true else s.context c) :
    Keeps idle { s with
      connectionBuckets_ := s.connectionBuckets_.modifyBack (List.insert conn)
      context := context
      alive := alive } (d.extend idle conn) where
  maxSize := h.maxSize
  length := (length_modifyBack _ _).trans h.length
  nodup := by
    intro bucket hmem
    obtain ⟨i, hi⟩ := List.getElem?_of_mem hmem
    obtain ⟨old, hold, rfl⟩ := getElem?_modifyBack.mp hi
    have hnodup := h.nodup old (List.mem_of_getElem? hold)
    split
    · exact hnodup.insert
    · exact hnodup
  context := by
    intro c
    dsimp only
    rw [hcontext]
    by_cases hc : c = conn
    · subst hc
      rw [if_pos rfl, Deadlines.deadline_extend_self]
      rfl
    · rw [if_neg hc, Deadlines.deadline_extend_of_ne hc]
      exact h.context c
  range := by
    intro c time htime
    have hlength := h.length
    by_cases hc : c = conn
    · subst hc
      rw [Deadlines.deadline_extend_self] at htime
      cases htime
      exact ⟨by omega, le_rfl⟩
    · rw [Deadlines.deadline_extend_of_ne hc] at htime
      exact h.range c time htime
  held := by
    intro i bucket c hbucket hmem
    obtain ⟨old, hold, rfl⟩ := getElem?_modifyBack.mp hbucket
    obtain ⟨hlt, -⟩ := List.getElem?_eq_some_iff.mp hold
    dsimp only
    rw [length_modifyBack]
    by_cases hc : c = conn
    · subst hc
      refine ⟨d.now + idle, Deadlines.deadline_extend_self .., ?_⟩
      rw [Deadlines.now_extend]
      omega
    · have hmem' : c ∈ old := by
        split at hmem
        · exact (List.mem_insert_iff.mp hmem).resolve_left hc
        · exact hmem
      obtain ⟨time, htime, hle⟩ := h.held i old c hold hmem'
      exact ⟨time, (Deadlines.deadline_extend_of_ne hc ..).trans htime, hle⟩
  last := by
    intro c time htime hlater
    dsimp only
    rw [length_modifyBack]
    by_cases hc : c = conn
    · subst hc
      rw [Deadlines.deadline_extend_self] at htime
      cases htime
      obtain ⟨old, hold⟩ : ∃ old,
          s.connectionBuckets_.buffer_[s.connectionBuckets_.buffer_.length - 1]? = some old :=
        ⟨_, List.getElem?_eq_getElem (by omega)⟩
      refine ⟨_, _, getElem?_modifyBack.mpr ⟨old, hold, rfl⟩, ?_, ?_⟩
      · rw [if_pos (by omega)]
        exact List.mem_insert_self
      · rw [Deadlines.now_extend]
        omega
    · rw [Deadlines.deadline_extend_of_ne hc] at htime
      obtain ⟨i, old, hold, hmem, heq⟩ := h.last c time htime hlater
      refine ⟨i, _, getElem?_modifyBack.mpr ⟨old, hold, rfl⟩, ?_, heq⟩
      split
      · exact List.mem_insert_of_mem hmem
      · exact hmem

/-! ## The wheel turns -/

theorem Keeps.full_iff (h : Keeps idle s d) : s.connectionBuckets_.full = true ↔ idle ≤ d.now := by
  have hlength := h.length
  have hmax := h.maxSize
  have hpos := s.connectionBuckets_.positive
  rw [CircularBuffer.full, decide_eq_true_iff, CircularBuffer.size]
  omega

/-- A push drops the first bucket when the wheel is full. -/
theorem Keeps.buffer_onTime (h : Keeps idle s d) :
    ∃ k, (k = 0 ∧ d.now < idle ∨ k = 1 ∧ idle ≤ d.now) ∧
      s.onTime.connectionBuckets_.buffer_ = s.connectionBuckets_.buffer_.drop k ++ [[]] ∧
      s.onTime.shutdowns = s.shutdowns ++
        ((s.connectionBuckets_.buffer_.take k).flatten).filter fun conn ↦
          !EchoServer.holds (s.connectionBuckets_.buffer_.drop k ++ [[]]) conn && s.alive conn := by
  have hlength := h.length
  have hmax := h.maxSize
  have hpos := s.connectionBuckets_.positive
  by_cases hfull : idle ≤ d.now
  · have hpush : (s.connectionBuckets_.pushBack []).buffer_ =
        s.connectionBuckets_.buffer_.drop 1 ++ [[]] := by
      rw [CircularBuffer.buffer_pushBack_of_full (by omega), List.drop_one]
    have hfront : s.connectionBuckets_.front.getD [] =
        (s.connectionBuckets_.buffer_.take 1).flatten := by
      unfold CircularBuffer.front
      cases s.connectionBuckets_.buffer_ with
      | nil => rfl
      | cons first rest => simp
    refine ⟨1, .inr ⟨rfl, hfull⟩, hpush, ?_⟩
    unfold EchoServer.onTime
    dsimp only
    rw [if_pos (h.full_iff.mpr hfull), hpush, hfront]
  · have hpush : (s.connectionBuckets_.pushBack []).buffer_ =
        s.connectionBuckets_.buffer_.drop 0 ++ [[]] :=
      CircularBuffer.buffer_pushBack_of_lt (by omega) []
    refine ⟨0, .inl ⟨rfl, Nat.lt_of_not_le hfull⟩, hpush, ?_⟩
    unfold EchoServer.onTime
    dsimp only
    rw [if_neg (mt h.full_iff.mp hfull)]
    rfl

theorem getElem?_push {buckets : List Bucket} (h : (buckets ++ [[]])[i]? = some bucket) :
    buckets[i]? = some bucket ∨ bucket = [] := by
  rw [List.getElem?_append] at h
  split at h
  · exact .inl h
  · exact .inr (List.mem_singleton.mp (List.mem_of_getElem? h))

theorem Keeps.tick (h : Keeps idle s d) : Keeps idle s.onTime { d with now := d.now + 1 } := by
  obtain ⟨k, hk, hbuffer, -⟩ := h.buffer_onTime
  have hlength := h.length
  have hmax := h.maxSize
  have hpos := s.connectionBuckets_.positive
  have hnew : s.onTime.connectionBuckets_.buffer_.length + k =
      s.connectionBuckets_.buffer_.length + 1 := by
    rw [hbuffer, List.length_append, List.length_drop, List.length_singleton]
    omega
  constructor
  · exact (CircularBuffer.maxSize_pushBack _).trans hmax
  · dsimp only
    omega
  · intro bucket hmem
    rw [hbuffer] at hmem
    obtain hold | hempty := List.mem_append.mp hmem
    · exact h.nodup bucket (List.mem_of_mem_drop hold)
    · rw [List.mem_singleton.mp hempty]
      exact List.nodup_nil
  · exact h.context
  · intro conn time htime
    have hrange := h.range conn time htime
    dsimp only
    omega
  · intro i bucket conn hbucket hmem
    rw [hbuffer] at hbucket
    obtain hold | hempty := getElem?_push hbucket
    · rw [List.getElem?_drop] at hold
      obtain ⟨time, htime, hle⟩ := h.held (k + i) bucket conn hold hmem
      refine ⟨time, htime, ?_⟩
      dsimp only
      omega
    · rw [hempty] at hmem
      exact absurd hmem List.not_mem_nil
  · intro conn time htime hlater
    dsimp only at htime hlater
    obtain ⟨i, bucket, hbucket, hmem, heq⟩ := h.last conn time htime (by omega)
    -- the bucket of a deadline still to come is not the one that is dropped
    have hi : k ≤ i := by omega
    obtain ⟨hlt, -⟩ := List.getElem?_eq_some_iff.mp hbucket
    refine ⟨i - k, bucket, ?_, hmem, ?_⟩
    · rw [hbuffer, List.getElem?_append_left (by rw [List.length_drop]; omega), List.getElem?_drop,
        Nat.add_sub_cancel' hi]
      exact hbucket
    · dsimp only
      omega

/-- The entries a turn of the wheel destroys are those whose deadline it is. -/
theorem Keeps.dropped (h : Keeps idle s d) :
    ∃ expired, s.onTime.shutdowns = s.shutdowns ++ expired ∧ expired.Nodup ∧
      ∀ conn, conn ∈ expired ↔ d.deadline conn = some (d.now + 1) ∧ s.alive conn = true := by
  obtain ⟨k, hk, hbuffer, hshutdowns⟩ := h.buffer_onTime
  have hlength := h.length
  have hafter := fun conn ↦ @Keeps.holds_iff _ _ _ conn h.tick
  rw [hbuffer] at hafter
  refine ⟨_, hshutdowns, ?_, ?_⟩
  · apply List.Nodup.filter
    obtain ⟨rfl, -⟩ | ⟨rfl, -⟩ := hk
    · exact List.nodup_nil
    · cases hfirst : s.connectionBuckets_.buffer_ with
      | nil => exact List.nodup_nil
      | cons first rest =>
        have hnodup := h.nodup first (by rw [hfirst]; exact List.mem_cons_self)
        simpa using hnodup
  · intro conn
    rw [List.mem_filter, Bool.and_eq_true, Bool.not_eq_true', ← Bool.not_eq_true, hafter conn]
    constructor
    · rintro ⟨hmem, hgone, halive⟩
      obtain ⟨bucket, hbucket, hconn⟩ := List.mem_flatten.mp hmem
      obtain ⟨i, hi⟩ := List.getElem?_of_mem hbucket
      rw [List.getElem?_take] at hi
      split at hi
      case isFalse => cases hi
      obtain ⟨time, htime, hle⟩ := h.held i bucket conn hi hconn
      have hnow : ¬ d.now + 1 < time := fun hlater ↦ hgone ⟨time, htime, hlater⟩
      have hexact : time = d.now + 1 := by omega
      exact ⟨hexact ▸ htime, halive⟩
    · rintro ⟨htime, halive⟩
      obtain ⟨i, bucket, hbucket, hmem, heq⟩ := h.last conn _ htime (Nat.lt_succ_self _)
      have hrange := h.range conn _ htime
      obtain ⟨hlt, -⟩ := List.getElem?_eq_some_iff.mp hbucket
      have hi : i < k := by omega
      refine ⟨?_, ?_, halive⟩
      · apply List.mem_flatten.mpr
        refine ⟨bucket, List.mem_of_getElem? (i := i) ?_, hmem⟩
        rw [List.getElem?_take, if_pos hi]
        exact hbucket
      · rintro ⟨time, htime', hlater⟩
        cases htime.symm.trans htime'
        exact Nat.lt_irrefl _ hlater

/-! ## The run -/

theorem Keeps.of_alive {alive : Nat → Bool} (h : Keeps idle s d) :
    Keeps idle { s with alive := alive } d :=
  ⟨h.maxSize, h.length, h.nodup, h.context, h.range, h.held, h.last⟩

theorem keeps_step (h : Keeps idle s d) (hstep : Step s a t) : Keeps idle t (d.step idle a) := by
  cases hstep with
  | @connected _ conn hnew hcall =>
    obtain ⟨u, hinsert, heq⟩ := ok_of_bind hcall
    obtain ⟨hback, rfl⟩ := insertBack_ok hinsert
    cases heq
    exact h.extend hback fun c ↦ Function.update_apply ..
  | @message _ conn halive hcall =>
    rw [EchoServer.onMessage] at hcall
    split at hcall
    case isFalse => cases hcall
    next hcontext =>
      rw [Deadlines.step]
      split at hcall
      next hholds =>
        obtain ⟨hback, rfl⟩ := insertBack_ok hcall
        rw [if_pos (h.holds_iff.mp hholds)]
        refine h.extend hback fun c ↦ ?_
        split
        next hc => rw [hc, hcontext]
        · rfl
      next hgone =>
        cases hcall
        rw [if_neg (mt h.holds_iff.mpr hgone)]
        exact h
  | disconnected _ hcall =>
    rw [EchoServer.disconnected] at hcall
    split at hcall
    · cases hcall
      exact h
    · cases hcall
  | destroyed _ => exact h.of_alive
  | time => exact h.tick

/-- Only a turn of the wheel shuts connections down. -/
theorem shutdowns_step (hstep : Step s a t) (ha : a ≠ .time) : t.shutdowns = s.shutdowns := by
  cases hstep with
  | connected hnew hcall =>
    obtain ⟨u, hinsert, heq⟩ := ok_of_bind hcall
    obtain ⟨hback, rfl⟩ := insertBack_ok hinsert
    cases heq
    rfl
  | message halive hcall =>
    rw [EchoServer.onMessage] at hcall
    split at hcall
    case isFalse => cases hcall
    split at hcall
    · obtain ⟨hback, rfl⟩ := insertBack_ok hcall
      rfl
    · cases hcall
      rfl
  | disconnected _ hcall =>
    rw [EchoServer.disconnected] at hcall
    split at hcall
    · cases hcall
      rfl
    · cases hcall
  | destroyed _ => rfl
  | time => exact absurd rfl ha

theorem keeps_of_run (h : Run Step s as t) (hs : Keeps idle s d) :
    Keeps idle t (as.foldl (Deadlines.step idle) d) := by
  induction h generalizing d with
  | nil => exact hs
  | cons hstep _ ih => exact ih (keeps_step hs hstep)

/-- A deadline that has passed stays as it is. -/
theorem deadline_passed (h : Keeps idle s d) (hstep : Step s a t)
    (htime : d.deadline conn = some time)
    (hpassed : time ≤ d.now) : (d.step idle a).deadline conn = some time ∧
    time ≤ (d.step idle a).now := by
  cases hstep with
  | @connected _ c hnew hcall =>
    have hc : conn ≠ c := by
      rintro rfl
      rw [h.context, htime] at hnew
      cases hnew
    exact ⟨(Deadlines.deadline_extend_of_ne hc ..).trans htime, hpassed⟩
  | @message _ c halive hcall =>
    rw [Deadlines.step]
    split
    next hlive =>
      have hc : conn ≠ c := by
        rintro rfl
        obtain ⟨time', htime', hlater⟩ := hlive
        cases htime.symm.trans htime'
        omega
      exact ⟨(Deadlines.deadline_extend_of_ne hc ..).trans htime, hpassed⟩
    · exact ⟨htime, hpassed⟩
  | disconnected _ _ => exact ⟨htime, hpassed⟩
  | destroyed _ => exact ⟨htime, hpassed⟩
  | time => exact ⟨htime, Nat.le_succ_of_le hpassed⟩

/-- Those shut down so far, each once, have had their deadline. -/
structure Served (idle : Nat) (s : EchoServer) (d : Deadlines) : Prop where
  keeps : Keeps idle s d
  once : s.shutdowns.Nodup
  passed : ∀ conn ∈ s.shutdowns, ∃ time, d.deadline conn = some time ∧ time ≤ d.now

theorem served_step (h : Served idle s d) (hstep : Step s a t) : Served idle t (d.step idle a) := by
  have hold : ∀ conn ∈ s.shutdowns, ∃ time, (d.step idle a).deadline conn = some time ∧
      time ≤ (d.step idle a).now := by
    intro conn hmem
    obtain ⟨time, htime, hpassed⟩ := h.passed conn hmem
    exact ⟨time, deadline_passed h.keeps hstep htime hpassed⟩
  have hkeeps := keeps_step h.keeps hstep
  by_cases ha : a = .time
  · subst ha
    cases hstep
    obtain ⟨expired, hshutdowns, hnodup, hmem⟩ := h.keeps.dropped
    refine ⟨hkeeps, ?_, ?_⟩
    · rw [hshutdowns, List.nodup_append']
      refine ⟨h.once, hnodup, fun conn hwas hnow ↦ ?_⟩
      obtain ⟨time, htime, hpassed⟩ := h.passed conn hwas
      cases htime.symm.trans ((hmem conn).mp hnow).1
      omega
    · rw [hshutdowns]
      intro conn hconn
      obtain hwas | hnow := List.mem_append.mp hconn
      · exact hold conn hwas
      · exact ⟨_, ((hmem conn).mp hnow).1, le_rfl⟩
  · rw [← shutdowns_step hstep ha] at hold
    exact ⟨hkeeps, shutdowns_step hstep ha ▸ h.once, hold⟩

theorem served_of_run (h : Run Step s as t) (hs : Served idle s d) :
    Served idle t (as.foldl (Deadlines.step idle) d) := by
  induction h generalizing d with
  | nil => exact hs
  | cons hstep _ ih => exact ih (served_step hs hstep)

theorem served_new (idle : Nat) (h : 0 < idle) : Served idle (.new idle h) {} :=
  ⟨keeps_new idle h, List.nodup_nil, fun _ hmem ↦ absurd hmem List.not_mem_nil⟩

/-- **Deadlines.**  A connection is shut down at the turn of the wheel that is `idle` turns behind
the last one before it was heard of, if it still exists, and at no other; and no connection is shut
down twice. -/
theorem shutdown_at_deadline (hidle : 0 < idle) (h : Run Step (.new idle hidle) as s)
    (hstep : Step s a t) :
    t.shutdowns.Nodup ∧ ∃ expired, t.shutdowns = s.shutdowns ++ expired ∧
      ∀ conn, conn ∈ expired ↔ a = .time ∧ s.alive conn = true ∧
        (Deadlines.after idle as).deadline conn = some ((Deadlines.after idle as).now + 1) := by
  have hserved := served_of_run h (served_new idle hidle)
  refine ⟨(served_step hserved hstep).once, ?_⟩
  by_cases ha : a = .time
  · subst ha
    cases hstep
    obtain ⟨expired, hshutdowns, -, hmem⟩ := hserved.keeps.dropped
    refine ⟨expired, hshutdowns, fun conn ↦ (hmem conn).trans ?_⟩
    exact ⟨fun hboth ↦ ⟨rfl, hboth.2, hboth.1⟩, fun hall ↦ ⟨hall.2.2, hall.2.1⟩⟩
  · refine ⟨[], by rw [shutdowns_step hstep ha, List.append_nil], fun conn ↦ ?_⟩
    exact ⟨fun hmem ↦ absurd hmem List.not_mem_nil, fun hall ↦ absurd hall.1 ha⟩

/-- A wheel of one bucket: the connection is shut down by the turn behind the one it came up in. -/
theorem shutdown_at_deadline_one :
    ∃ s, Run Step (.new 1 Nat.one_pos) [.time, .connected 7] s ∧ s.onTime.shutdowns.Nodup ∧
      ∃ expired, s.onTime.shutdowns = s.shutdowns ++ expired ∧ 7 ∈ expired := by
  have hrun : Run Step (.new 1 Nat.one_pos) [.time, .connected 7] _ :=
    .cons .time (.cons (.connected rfl rfl) (.nil _))
  obtain ⟨honce, expired, hshutdowns, hmem⟩ := shutdown_at_deadline Nat.one_pos hrun .time
  exact ⟨_, hrun, honce, expired, hshutdowns, (hmem 7).mpr ⟨rfl, rfl, rfl⟩⟩

/-! ## What can go wrong -/

theorem known_step (h : ∀ conn, s.alive conn = true → s.context conn = true) (hstep : Step s a t) :
    ∀ conn, t.alive conn = true → t.context conn = true := by
  cases hstep with
  | @connected _ c hnew hcall =>
    obtain ⟨u, hinsert, heq⟩ := ok_of_bind hcall
    obtain ⟨hback, rfl⟩ := insertBack_ok hinsert
    cases heq
    intro conn halive
    dsimp only at halive ⊢
    by_cases hc : conn = c
    · subst hc
      exact Function.update_self ..
    · rw [Function.update_of_ne hc] at halive ⊢
      exact h conn halive
  | message halive hcall =>
    rw [EchoServer.onMessage] at hcall
    split at hcall
    case isFalse => cases hcall
    split at hcall
    · obtain ⟨hback, rfl⟩ := insertBack_ok hcall
      exact h
    · cases hcall
      exact h
  | disconnected _ hcall =>
    rw [EchoServer.disconnected] at hcall
    split at hcall
    · cases hcall
      exact h
    · cases hcall
  | @destroyed c _ =>
    intro conn halive
    dsimp only at halive ⊢
    by_cases hc : conn = c
    · subst hc
      rw [Function.update_self] at halive
      cases halive
    · rw [Function.update_of_ne hc] at halive
      exact h conn halive
  | time => exact h

theorem insertBack_returns (s : EchoServer) (conn : Nat) :
    (∃ t, s.insertBack conn = .ok t) ↔ 0 < s.connectionBuckets_.buffer_.length := by
  refine ⟨fun ⟨_, hcall⟩ ↦ (insertBack_ok hcall).1, fun hpos ↦ ?_⟩
  rw [EchoServer.insertBack, if_neg (List.length_pos_iff.mp hpos)]
  exact ⟨_, rfl⟩

/-- **Start.**  A connection that comes up has a bucket to go into exactly when the wheel has turned
before; no other callback of a connection fails. -/
theorem connected_iff (hidle : 0 < idle) (h : Run Step (.new idle hidle) as s) (conn : Nat) :
    ((∃ t, s.connected conn = .ok t) ↔ 0 < (Deadlines.after idle as).now) ∧
      (s.alive conn = true → (∃ t, s.onMessage conn = .ok t) ∧
      ∃ t, s.disconnected conn = .ok t) := by
  have hkeeps := keeps_of_run h (keeps_new idle hidle)
  have hlength := hkeeps.length
  change s.connectionBuckets_.buffer_.length = min idle (Deadlines.after idle as).now at hlength
  have hknown := h.invariant (fun s ↦ ∀ conn, s.alive conn = true → s.context conn = true)
    (fun _ _ _ hs hstep ↦ known_step hs hstep) (fun _ halive ↦ by cases halive)
  refine ⟨?_, fun halive ↦ ⟨?_, ?_⟩⟩
  · have hinsert := insertBack_returns s conn
    constructor
    · rintro ⟨t, hcall⟩
      obtain ⟨u, hu, -⟩ := ok_of_bind hcall
      have hpos := hinsert.mp ⟨u, hu⟩
      omega
    · intro hnow
      obtain ⟨u, hu⟩ := hinsert.mpr (by omega)
      rw [EchoServer.connected, hu]
      exact ⟨_, rfl⟩
  · rw [EchoServer.onMessage, if_pos (hknown conn halive)]
    split
    next hholds =>
      obtain ⟨bucket, hbucket, -⟩ := holds_iff.mp hholds
      exact (insertBack_returns s conn).mpr (List.length_pos_of_mem hbucket)
    · exact ⟨s, rfl⟩
  · rw [EchoServer.disconnected, if_pos (hknown conn halive)]
    exact ⟨s, rfl⟩

/-- A connection has come up behind a turn of the wheel, and has sent a message; another comes up
there, and none does before the first turn. -/
theorem connected_iff_turned :
    (∃ s, Run Step (.new 3 (by decide)) [.time, .connected 7, .message 7] s ∧
      (∃ t, s.connected 8 = .ok t) ∧ (∃ t, s.onMessage 7 = .ok t) ∧
      ∃ t, s.disconnected 7 = .ok t) ∧
      ¬ ∃ t, (EchoServer.new 3 (by decide)).connected 8 = .ok t := by
  have hrun : Run Step (.new 3 (by decide)) [.time, .connected 7, .message 7] _ :=
    .cons .time (.cons (.connected rfl rfl) (.cons (.message rfl rfl) (.nil _)))
  have hbehind := connected_iff (by decide) hrun 8
  have hknown := (connected_iff (by decide) hrun 7).2 rfl
  have hstart := (connected_iff (by decide : 0 < 3) (.nil _) 8).1
  refine ⟨⟨_, hrun, hbehind.1.mpr (by decide), hknown⟩, fun hreturns ↦ ?_⟩
  exact absurd (hstart.mp hreturns) (by decide)

end Pallette.IdleConnection
