import Mathlib.Data.List.Count
import Pallette.Timer.Places

/-!
# Containers — the lists and the set of a queue agree, and no assertion fails

Each timer there is has one owner: its place, or `freeTimers_` once it has none (`Sound.owners`).
With the set in order and the addresses below the sentry this is all that the assertions check.
-/

open Reasoning

namespace Pallette.TimerQueue

variable {q q' : TimerQueue} {taken : List Nat} {timer : Nat}

/-! ## The order of the set -/

theorem Entry.lt_trans {a b c : Entry} (hab : a.lt b) (hbc : b.lt c) : a.lt c := by
  simp only [Entry.lt, Timestamp.lt_iff, Timestamp.eq_iff] at *
  omega

theorem Entry.lt_of_not_lt {a b : Entry} (h : ¬ a.lt b) (hne : a ≠ b) : b.lt a := by
  simp only [Entry.lt, Timestamp.lt_iff, Timestamp.eq_iff, ne_eq, Prod.ext_iff] at *
  omega

theorem mem_insertEntry {e a : Entry} {es : List Entry} (h : a ∈ insertEntry e es) :
    a = e ∨ a ∈ es := by
  induction es with
  | nil => exact .inl (List.mem_singleton.mp h)
  | cons e' es ih =>
    unfold insertEntry at h
    split at h
    next => exact List.mem_cons.mp h
    next =>
      split at h
      next => exact .inr h
      next =>
        rcases List.mem_cons.mp h with rfl | h
        · exact .inr List.mem_cons_self
        · exact (ih h).imp_right (List.mem_cons_of_mem _)

theorem insertEntry_sorted {e : Entry} {es : List Entry} (h : es.Pairwise Entry.lt) :
    (insertEntry e es).Pairwise Entry.lt := by
  induction es with
  | nil => exact List.pairwise_singleton _ _
  | cons e' es ih =>
    rcases List.pairwise_cons.mp h with ⟨hhead, htail⟩
    unfold insertEntry
    split
    next hlt =>
      refine List.pairwise_cons.mpr ⟨fun a ha ↦ ?_, h⟩
      rcases List.mem_cons.mp ha with rfl | ha
      · exact hlt
      · exact Entry.lt_trans hlt (hhead a ha)
    next hlt =>
      split
      next => exact h
      next hne =>
        refine List.pairwise_cons.mpr ⟨fun a ha ↦ ?_, ih htail⟩
        rcases mem_insertEntry ha with rfl | ha
        · exact Entry.lt_of_not_lt hlt hne
        · exact hhead a ha

theorem foldl_insertEntry_sorted (entries : List Entry) {es : List Entry}
    (h : es.Pairwise Entry.lt) :
    (entries.foldl (fun es e ↦ insertEntry e es) es).Pairwise Entry.lt := by
  induction entries generalizing es with
  | nil => exact h
  | cons e entries ih => exact ih (insertEntry_sorted h)

/-! ## The loop of `reset` -/

/-- `reset` arms the timer again. -/
def keeps (q : TimerQueue) (timer : Nat) : Bool :=
  (q.timer timer).repeat_ && decide (timer ∉ q.cancelingTimers_)

/-- The entry of a timer that is armed again. -/
def nextEntry (q : TimerQueue) (now : Timestamp) (timer : Nat) : Entry :=
  (((q.timer timer).restart now).expiration_, timer)

/-- What `rearm` makes of a batch. -/
def rearmed (q : TimerQueue) (now : Timestamp) (taken : List Nat) : TimerQueue :=
  { q with
    timers_ := ((taken.filter q.keeps).map (q.nextEntry now)).foldl (fun es e ↦ insertEntry e es)
      q.timers_
    waitTimers_ := q.waitTimers_ ++ taken.filter q.keeps
    freeTimers_ := q.freeTimers_ ++ taken.filter (!q.keeps ·)
    timer := fun a ↦ if a ∈ taken.filter q.keeps then (q.timer a).restart now else q.timer a }

/-- `restart` sets the expiration and nothing else. -/
theorem rearmed_timer (q : TimerQueue) (now : Timestamp) (taken : List Nat) (timer : Nat) :
    ∃ expiration, (q.rearmed now taken).timer timer =
      { q.timer timer with expiration_ := expiration } := by
  simp only [rearmed, Timer.restart]
  split
  · split <;> exact ⟨_, rfl⟩
  · exact ⟨_, rfl⟩

theorem insert_of_not_mem (h : q.entry timer ∉ q.timers_) :
    ∃ changed, q.insert timer = .ok ({ q with
      timers_ := insertEntry (q.entry timer) q.timers_, waitTimers_ := q.waitTimers_ ++ [timer] },
      changed) := by
  unfold insert
  exact ⟨_, if_neg h⟩

theorem not_wait_of_not_place (hnew : timer ∉ q.places taken) : timer ∉ q.waitTimers_ :=
  fun hmem ↦ hnew (List.mem_append_left _ (List.mem_append_right _ hmem))

namespace Settled

theorem entry_not_mem (h : Settled q taken) (hwait : timer ∉ q.waitTimers_) :
    q.entry timer ∉ q.timers_ :=
  fun hmem ↦ hwait (h.mem_timers hmem).1

/-- The timer at the head of a batch has no other place. -/
theorem head (h : Settled q (timer :: taken)) :
    timer ∉ q.places taken ∧ timer ∈ q.allocated ∧ Settled q taken := by
  have hmiddle : (q.places (timer :: taken)).Perm (timer :: q.places taken) := List.perm_middle
  exact ⟨(List.nodup_cons.mp (hmiddle.nodup_iff.mp h.once)).1,
    h.known timer (hmiddle.mem_iff.mpr List.mem_cons_self),
    h.of_places ((List.sublist_cons_self _ _).subperm.trans hmiddle.symm.subperm) rfl h.keyed⟩

end Settled

theorem rearmed_drop (now : Timestamp) (hkeeps : q.keeps timer = false) :
    rearmed { q with freeTimers_ := q.freeTimers_ ++ [timer] } now taken =
      q.rearmed now (timer :: taken) := by
  have hfilter : (timer :: taken).filter q.keeps = taken.filter q.keeps :=
    List.filter_cons_of_neg (by simp [hkeeps])
  have hfilter' : (timer :: taken).filter (!q.keeps ·) = timer :: taken.filter (!q.keeps ·) :=
    List.filter_cons_of_pos (by simp [hkeeps])
  simp only [rearmed, TimerQueue.mk.injEq, hfilter, hfilter', true_and, and_true]
  exact ⟨rfl, rfl, (List.append_cons _ _ _).symm, rfl⟩

/-- One timer armed again; the others of the batch are still what they were. -/
theorem rearmed_keep (now : Timestamp) (hkeeps : q.keeps timer = true) (hnot : timer ∉ taken) :
    let u := q.setTimer timer ((q.timer timer).restart now)
    rearmed { u with
      timers_ := insertEntry (u.entry timer) q.timers_, waitTimers_ := q.waitTimers_ ++ [timer] }
      now taken = q.rearmed now (timer :: taken) := by
  intro u
  have hself : u.timer timer = (q.timer timer).restart now := if_pos rfl
  have hother : ∀ a, a ≠ timer → u.timer a = q.timer a := fun a hne ↦ if_neg hne
  -- the timers behind it in the batch are others, so its restart does not change what becomes of
  -- them
  have hrest : ∀ a ∈ taken, u.timer a = q.timer a := by
    intro a ha
    exact hother a fun heq ↦ hnot (heq ▸ ha)
  have hkept : taken.filter u.keeps = taken.filter q.keeps :=
    List.filter_congr fun a ha ↦ by rw [keeps, hrest a ha]; rfl
  have hdropped : taken.filter (!u.keeps ·) = taken.filter (!q.keeps ·) :=
    List.filter_congr fun a ha ↦ by rw [keeps, hrest a ha]; rfl
  have hnext : (taken.filter q.keeps).map (u.nextEntry now) =
      (taken.filter q.keeps).map (q.nextEntry now) :=
    List.map_congr_left fun a ha ↦ by rw [nextEntry, hrest a (List.mem_of_mem_filter ha)]; rfl
  have hentry : u.entry timer = q.nextEntry now timer := by rw [entry, hself]; rfl
  have hfilter : (timer :: taken).filter q.keeps = timer :: taken.filter q.keeps :=
    List.filter_cons_of_pos hkeeps
  have hfilter' : (timer :: taken).filter (!q.keeps ·) = taken.filter (!q.keeps ·) :=
    List.filter_cons_of_neg (by simp [hkeeps])
  simp only [rearmed, TimerQueue.mk.injEq, hfilter, hfilter', List.map_cons, List.foldl_cons]
  refine ⟨rfl, ?_, rfl, rfl, rfl, ?_, rfl, ?_, rfl, ?_, rfl, rfl, rfl, rfl⟩
  · show ((taken.filter u.keeps).map (u.nextEntry now)).foldl _ (insertEntry (u.entry timer) _) = _
    rw [hkept, hnext, hentry]
  · show q.waitTimers_ ++ [timer] ++ taken.filter u.keeps = _
    rw [hkept, ← List.append_cons]
  · show q.freeTimers_ ++ taken.filter (!u.keeps ·) = _
    rw [hdropped]
  · funext a
    show (if a ∈ taken.filter u.keeps then (u.timer a).restart now else u.timer a) = _
    rw [hkept]
    by_cases heq : a = timer
    · subst heq
      rw [if_neg fun hmem ↦ hnot (List.mem_of_mem_filter hmem), if_pos List.mem_cons_self, hself]
    · rw [hother a heq]
      simp only [List.mem_cons, heq, false_or]

/-- The loop runs to its end, and this is what it leaves. -/
theorem Settled.rearm_eq (h : Settled q taken) (now : Timestamp) :
    q.rearm now taken = .ok (q.rearmed now taken) := by
  induction taken generalizing q with
  | nil => simp [TimerQueue.rearm, rearmed]
  | cons timer rest ih =>
    rcases h.head with ⟨hnew, hknown, hrest⟩
    have hwait := not_wait_of_not_place hnew
    have hnot : timer ∉ rest := fun hmem ↦ hnew (List.mem_append_right _ hmem)
    unfold TimerQueue.rearm
    cases hkeeps : q.keeps timer with
    | true =>
      have hcond : (q.timer timer).repeat_ = true ∧ timer ∉ q.cancelingTimers_ := by
        simpa [keeps] using hkeeps
      have hset := hrest.setTimer hwait ((q.timer timer).restart now)
      rcases insert_of_not_mem (hset.entry_not_mem hwait) with ⟨changed, hinsert⟩
      rw [if_pos hcond, hinsert]
      have hu := hset.insert hnew hknown hinsert
      exact (ih hu).trans (congrArg _ (rearmed_keep now hkeeps hnot))
    | false =>
      have hcond : ¬ ((q.timer timer).repeat_ = true ∧ timer ∉ q.cancelingTimers_) := by
        simpa [keeps] using hkeeps
      have hfreed : Settled { q with freeTimers_ := q.freeTimers_ ++ [timer] } rest :=
        ⟨hrest.once, hrest.known, hrest.keyed⟩
      rw [if_neg hcond]
      exact (ih hfreed).trans (congrArg _ (rearmed_drop now hkeeps))

/-! ## One owner each -/

/-- Everything that holds a timer. -/
def owners (q : TimerQueue) (taken : List Nat) : List Nat :=
  q.places taken ++ q.freeTimers_

structure Sound (q : TimerQueue) : Prop where
  inv : Inv q
  owners : (q.owners q.batch).Perm q.allocated
  distinct : q.allocated.Nodup
  sorted : q.timers_.Pairwise Entry.lt
  addresses : ∀ timer ∈ q.allocated, 0 < timer ∧ timer < UINTPTR_MAX

theorem sound_empty : Sound {} :=
  ⟨inv_empty, .nil, List.nodup_nil, .nil, fun _ h ↦ (by cases h)⟩

theorem count_owners (q : TimerQueue) (taken : List Nat) (a : Nat) :
    (q.owners taken).count a = (adds q.pendingFunctors_).count a + q.waitTimers_.count a +
      taken.count a + q.freeTimers_.count a := by
  simp only [owners, places, List.count_append]

theorem adds_append (cbs : List Functor) (cb : Functor) :
    adds (cbs ++ [cb]) = adds cbs ++ cb.added?.toList := by
  cases hadded : cb.added? <;> simp [adds, hadded]

theorem adds_cons (cb : Functor) (cbs : List Functor) :
    adds (cb :: cbs) = cb.added?.toList ++ adds cbs := by
  cases hadded : cb.added? <;> simp [adds, hadded]

/-- A step keeps the owners when it keeps, for each timer, how often it occurs. -/
theorem owners_perm {taken' : List Nat} (news : List Nat) (h : (q.owners taken).Perm q.allocated)
    (hallocated : q'.allocated = q.allocated ++ news)
    (hcount : ∀ a, (q'.owners taken').count a = (q.owners taken).count a + news.count a) :
    (q'.owners taken').Perm q'.allocated := by
  rw [List.perm_iff_count]
  intro a
  rw [hcount, hallocated, List.count_append, h.count_eq]

theorem owners_keep {taken' : List Nat} (h : (q.owners taken).Perm q.allocated)
    (hallocated : q'.allocated = q.allocated)
    (hcount : ∀ a, (q'.owners taken').count a = (q.owners taken).count a) :
    (q'.owners taken').Perm q'.allocated := by
  refine owners_perm [] h (by rw [hallocated, List.append_nil]) fun a ↦ ?_
  rw [hcount, List.count_nil, Nat.add_zero]

/-- A new timer at the address `address`. -/
theorem Sound.address (h : Sound q) {address : Nat} (hpos : 0 < address)
    (hmax : address < UINTPTR_MAX) (hnew : address ∉ q.allocated) :
    (q.allocated ++ [address]).Nodup ∧
      ∀ timer ∈ q.allocated ++ [address], 0 < timer ∧ timer < UINTPTR_MAX := by
  refine ⟨(List.perm_append_singleton _ _).nodup_iff.mpr (List.nodup_cons.mpr ⟨hnew, h.distinct⟩),
    fun timer hmem ↦ ?_⟩
  rcases List.mem_append.mp hmem with hmem | hmem
  · exact h.addresses timer hmem
  · rw [List.mem_singleton.mp hmem]
    exact ⟨hpos, hmax⟩

/-- What `cancelInLoop` takes out is free. -/
theorem owners_cancelInLoop {timerId : TimerId} (hok : q.cancelInLoop timerId = .ok q')
    (taken : List Nat) (a : Nat) : (q'.owners taken).count a = (q.owners taken).count a := by
  rcases cancelInLoop_ok hok with ⟨hwait, _, rfl⟩ | ⟨_, _, _, rfl⟩ | ⟨_, _, rfl⟩
  · have herase := (List.perm_cons_erase hwait).count_eq a
    simp only [count_owners, record, List.count_append, List.count_cons, List.count_nil] at herase ⊢
    omega
  · rfl
  · rfl

theorem sorted_cancelInLoop {timerId : TimerId} (hok : q.cancelInLoop timerId = .ok q')
    (h : q.timers_.Pairwise Entry.lt) : q'.timers_.Pairwise Entry.lt := by
  rcases cancelInLoop_ok hok with ⟨_, _, rfl⟩ | ⟨_, _, _, rfl⟩ | ⟨_, _, rfl⟩
  · exact h.sublist List.erase_sublist
  · exact h
  · exact h

/-- While `handleRead` is executing, the batch is `activeTimers_`. -/
theorem Sound.ended (h : Sound q) (hphase : q.phase ≠ .idle) :
    Settled { q with callingExpiredTimers_ := false, phase := .idle } q.activeTimers_ := by
  have hsettled := h.inv.settled
  rw [batch_of_calling h.inv hphase] at hsettled
  exact ⟨hsettled.once, hsettled.known, hsettled.keyed⟩

/-- The end of `handleRead`. -/
theorem Sound.finish_eq (h : Sound q) (hphase : q.phase ≠ .idle) {now clock : Timestamp}
    (hok : q.finish now clock = .ok q') : ∃ fd, q' =
      { q.rearmed now q.activeTimers_ with
        callingExpiredTimers_ := false, phase := .idle, timerfd_ := fd } := by
  rcases finish_ok hok with ⟨u, fd, hrearm, rfl⟩
  rw [(h.ended hphase).rearm_eq now] at hrearm
  cases hrearm
  exact ⟨fd, rfl⟩

/-- **One step.** -/
theorem Sound.step {l : Label} (h : Sound q) (hstep : Step q l q') : Sound q' := by
  have hinv := h.inv.step hstep
  cases step_cases hstep with
  | @addHere address when_ clock interval _ huser hpos hmax hnew hok =>
    rcases h.address hpos hmax hnew with ⟨hdistinct, haddresses⟩
    rcases addTimerInLoop_ok hok with ⟨fd, _, rfl⟩
    refine ⟨hinv, owners_perm [address] h.owners rfl fun a ↦ ?_, hdistinct,
      insertEntry_sorted h.sorted, haddresses⟩
    simp only [count_owners, List.count_append, newTimer, setTimer, batch]
    omega
  | @addElsewhere address when_ clock interval hpos hmax hnew =>
    rcases h.address hpos hmax hnew with ⟨hdistinct, haddresses⟩
    refine ⟨hinv, owners_perm [address] h.owners rfl fun a ↦ ?_, hdistinct, h.sorted,
      haddresses⟩
    simp only [count_owners, queueInLoop, adds_append, Functor.added?, Option.toList,
      List.count_append, newTimer, setTimer, batch]
    omega
  | cancelHere huser hissued hok =>
    have hcount := owners_cancelInLoop hok
    have hsorted := sorted_cancelInLoop hok h.sorted
    rcases cancelInLoop_ok hok with ⟨_, _, rfl⟩ | ⟨_, _, _, rfl⟩ | ⟨_, _, rfl⟩ <;>
      exact ⟨hinv, owners_keep h.owners rfl (hcount q.batch), h.distinct, hsorted, h.addresses⟩
  | @cancelElsewhere timerId hissued =>
    refine ⟨hinv, owners_keep h.owners rfl fun a ↦ ?_, h.distinct, h.sorted, h.addresses⟩
    have hadds := adds_append q.pendingFunctors_ (.cancelInLoop timerId)
    rw [Functor.added?, Option.toList, List.append_nil] at hadds
    show (adds (q.pendingFunctors_ ++ [.cancelInLoop timerId]) ++ q.waitTimers_ ++ q.batch ++
      q.freeTimers_).count a = _
    rw [hadds]
    rfl
  | @addQueued timer rest _ _ hidle hpending hok =>
    rcases addTimerInLoop_ok hok with ⟨fd, _, rfl⟩
    refine ⟨hinv, owners_keep h.owners rfl fun a ↦ ?_, h.distinct, insertEntry_sorted h.sorted,
      h.addresses⟩
    simp only [count_owners, hpending, adds_cons, Functor.added?, Option.toList,
      List.count_append, batch]
    omega
  | @cancelQueued timerId rest _ _ hidle hpending hok =>
    have hcount := owners_cancelInLoop hok
    have hsorted := sorted_cancelInLoop hok h.sorted
    have hsame : ∀ a, (TimerQueue.owners { q with pendingFunctors_ := rest } q.batch).count a =
        (q.owners q.batch).count a := fun a ↦ by
      simp only [count_owners, hpending, adds_cons, Functor.added?, Option.toList, List.nil_append]
    rcases cancelInLoop_ok hok with ⟨_, _, rfl⟩ | ⟨_, _, _, rfl⟩ | ⟨_, _, rfl⟩ <;>
      exact ⟨hinv, owners_keep h.owners rfl fun a ↦ (hcount q.batch a).trans (hsame a), h.distinct,
        hsorted, h.addresses⟩
  | expire harmed => exact ⟨hinv, h.owners, h.distinct, h.sorted, h.addresses⟩
  | handleRead hidle hok =>
    have hbatch := batch_of_idle h.inv hidle
    rcases handleRead_eq hok with ⟨fd, rest, wait, htimers, hwait, rfl⟩
    have hsorted := h.sorted
    rw [show q.timers_ = _ from htimers] at hsorted
    refine ⟨hinv, owners_keep h.owners rfl fun a ↦ ?_, h.distinct,
      (List.pairwise_append.mp hsorted).2.1, h.addresses⟩
    have hcount := hwait.count_eq a
    rw [hbatch, count_owners, count_owners, List.count_nil]
    simp only [List.count_append, batch, if_true] at hcount ⊢
    omega
  | run hphase => exact ⟨hinv, h.owners, h.distinct, h.sorted, h.addresses⟩
  | ret hphase => exact ⟨hinv, h.owners, h.distinct, h.sorted, h.addresses⟩
  | finish hphase hok =>
    have hbusy : q.phase ≠ .idle := by rw [hphase]; simp
    have hbatch := batch_of_calling h.inv hbusy
    rcases h.finish_eq hbusy hok with ⟨fd, rfl⟩
    refine ⟨hinv, owners_keep h.owners rfl fun a ↦ ?_, h.distinct,
      foldl_insertEntry_sorted _ h.sorted, h.addresses⟩
    -- the batch is split between those that wait again and the free ones
    have hcount := (List.filter_append_perm q.keeps q.activeTimers_).count_eq a
    rw [hbatch, count_owners, count_owners]
    simp only [List.count_append, batch, rearmed, Bool.false_eq_true, if_false, List.count_nil]
      at hcount ⊢
    omega

/-! ## No assertion fails -/

theorem Settled.addTimerInLoop_ne_error (h : Settled q taken) (hnew : timer ∉ q.places taken)
    (clock : Timestamp) (e : Assertion) : q.addTimerInLoop timer clock ≠ .error e := by
  rcases insert_of_not_mem (h.entry_not_mem (not_wait_of_not_place hnew)) with ⟨changed, hinsert⟩
  simp only [TimerQueue.addTimerInLoop, hinsert, bind, Except.bind, pure, Except.pure, ne_eq,
    reduceCtorEq, not_false_eq_true]

theorem Settled.cancelInLoop_ne_error (h : Settled q taken) (timerId : TimerId) (e : Assertion) :
    q.cancelInLoop timerId ≠ .error e := by
  unfold TimerQueue.cancelInLoop
  dsimp only
  split
  next hwait =>
    -- what waits has its entry in the set
    have hentry : q.entry timerId.timer_ ∈ q.timers_ :=
      h.keyed.mem_iff.mpr (List.mem_map_of_mem hwait)
    split
    next => simp
    next hno => exact absurd hentry hno
  next => split <;> simp

theorem activate_of_subperm {es : List Entry} (h : (es.map Prod.snd).Subperm q.waitTimers_) :
    ∃ q', q.activate es = .ok q' := by
  induction es generalizing q with
  | nil => exact ⟨q, rfl⟩
  | cons e es ih =>
    have hmem : e.2 ∈ q.waitTimers_ := h.subset List.mem_cons_self
    have hrest := h.erase e.2
    rw [List.map_cons, List.erase_cons_head] at hrest
    unfold activate
    rw [if_pos hmem]
    exact ih hrest

theorem Settled.same (h : Settled q taken) : (q.timers_.map Prod.snd).Perm q.waitTimers_ := by
  have hmap := h.keyed.map Prod.snd
  rw [List.map_map] at hmap
  exact hmap.trans (.of_eq (List.map_id _))

/-- Nothing the sentry leaves behind is due: no address is above that of the sentry. -/
theorem sentry_rest {now : Timestamp} (hmax : ∀ e ∈ q.timers_, e.2 < UINTPTR_MAX) :
    (q.timers_.dropWhile fun e ↦ decide (e.lt (now, UINTPTR_MAX))).head?.all
      (fun e ↦ decide (now < e.1)) = true := by
  cases hrest : q.timers_.dropWhile fun e ↦ decide (e.lt (now, UINTPTR_MAX)) with
  | nil => rfl
  | cons e rest =>
    have hmem : e ∈ q.timers_ := (List.dropWhile_suffix _).subset (hrest ▸ List.mem_cons_self)
    have hstays : ¬ e.lt (now, UINTPTR_MAX) := by
      have hhead := List.head?_dropWhile_not (fun e : Entry ↦ decide (e.lt (now, UINTPTR_MAX)))
        q.timers_
      rw [hrest] at hhead
      simpa using hhead
    have haddress := hmax e hmem
    simp only [Entry.lt, Timestamp.lt_iff, Timestamp.eq_iff] at hstays
    simp only [List.head?_cons, Option.all_some, decide_eq_true_eq, Timestamp.lt_iff]
    omega

theorem Settled.getExpired_ne_error (h : Settled q []) (hmax : ∀ e ∈ q.timers_, e.2 < UINTPTR_MAX)
    (now : Timestamp) (e : Assertion) : q.getExpired now ≠ .error e := by
  have htaken : ((q.expired now).map Prod.snd).Subperm q.waitTimers_ :=
    ((List.takeWhile_sublist _).map Prod.snd).subperm.trans h.same.subperm
  rcases activate_of_subperm (q := { q with activeTimers_ := [] }) htaken with ⟨u, hu⟩
  have hsizes : (q.timers_.dropWhile fun e ↦ decide (e.lt (now, UINTPTR_MAX))).length =
      u.waitTimers_.length := by
    rcases activate_ok hu with ⟨wait, hwait, rfl⟩
    have hall := h.same.length_eq
    have hleft := hwait.length_eq
    have hsplit : (q.expired now ++ _).length = q.timers_.length :=
      congrArg List.length List.takeWhile_append_dropWhile
    simp only [List.length_append, List.length_map] at hall hleft hsplit
    show _ = wait.length
    omega
  simp only [TimerQueue.getExpired]
  rw [if_pos (sentry_rest hmax)]
  intro herror
  have hu' : activate { q with activeTimers_ := [] }
      (q.timers_.takeWhile fun e ↦ decide (e.lt (now, UINTPTR_MAX))) = .ok u := hu
  rw [hu'] at herror
  simp only [bind, Except.bind, hsizes, if_true, pure, Except.pure, reduceCtorEq] at herror

namespace Sound

theorem handleRead_ne_error (h : Sound q) (hidle : q.phase = .idle) (now : Timestamp)
    (e : Assertion) :
    q.handleRead now ≠ .error e := by
  have hsettled := h.inv.settled
  rw [batch_of_idle h.inv hidle] at hsettled
  have hread := readTimerfd_settled hsettled
  have hmax : ∀ e ∈ q.readTimerfd.timers_, e.2 < UINTPTR_MAX := by
    intro e he
    rcases readTimerfd_eq q with ⟨fd, hfd⟩
    rw [hfd] at he
    have hwait := (hsettled.mem_timers he).1
    exact (h.addresses _ (hsettled.known _
      (List.mem_append_left _ (List.mem_append_right _ hwait)))).2
  cases hexpired : q.readTimerfd.getExpired now with
  | error e' => exact absurd hexpired (hread.getExpired_ne_error hmax now e')
  | ok u =>
    simp only [TimerQueue.handleRead, hexpired, bind, Except.bind, pure, Except.pure, ne_eq,
      reduceCtorEq, not_false_eq_true]

theorem finish_ne_error (h : Sound q) (hphase : q.phase ≠ .idle) (now clock : Timestamp)
    (e : Assertion) : q.finish now clock ≠ .error e := by
  have hrearm := (h.ended hphase).rearm_eq now
  simp only [TimerQueue.finish, reset, hrearm, bind, Except.bind, pure, Except.pure, ne_eq,
    reduceCtorEq, not_false_eq_true]

/-- **No assertion fails**, whatever the next step is. -/
theorem next_ne_error (h : Sound q) (l : Label) (e : Assertion) : q.next l ≠ some (.error e) := by
  intro herror
  cases l with
  | addTimer isInLoopThread address when_ interval clock =>
    simp only [next] at herror
    split at herror
    next hready =>
      have hfails := Option.some.inj herror
      unfold addTimer at hfails
      cases isInLoopThread with
      | true =>
        -- a new address is in neither container
        rcases h.inv.settled.newTimer hready.2.2.2 when_ interval with ⟨hsettled, hnone⟩
        exact hsettled.addTimerInLoop_ne_error hnone clock e hfails
      | false => cases hfails
    next => cases herror
  | cancel isInLoopThread timerId =>
    simp only [next] at herror
    split at herror
    next =>
      have hfails := Option.some.inj herror
      unfold cancel at hfails
      cases isInLoopThread with
      | true => exact h.inv.settled.cancelInLoop_ne_error timerId e hfails
      | false => cases hfails
    next => cases herror
  | functor clock =>
    simp only [next] at herror
    split at herror
    next timer rest hidle hpending =>
      rcases h.inv.settled.pop hpending with ⟨hpopped, hplace⟩
      exact hpopped.addTimerInLoop_ne_error (hplace timer rfl).1 clock e (Option.some.inj herror)
    next timerId rest hidle hpending =>
      exact (h.inv.settled.pop hpending).1.cancelInLoop_ne_error timerId e (Option.some.inj herror)
    next => cases herror
  | expire =>
    simp only [next] at herror
    split at herror <;> cases herror
  | handleRead now =>
    simp only [next] at herror
    split at herror
    next hidle => exact h.handleRead_ne_error hidle now e (Option.some.inj herror)
    next => cases herror
  | run =>
    simp only [next] at herror
    split at herror <;> cases herror
  | ret =>
    simp only [next] at herror
    split at herror <;> cases herror
  | finish clock =>
    simp only [next] at herror
    split at herror
    next hphase => exact h.finish_ne_error (by rw [hphase]; simp) _ clock e (Option.some.inj herror)
    next => cases herror

/-! ## Runs -/

theorem of_run {ls : List Label} (h : Run Step q ls q') (hq : Sound q) : Sound q' :=
  h.invariant Sound (fun _ _ _ hs hstep ↦ hs.step hstep) hq

/-- A free timer stays free. -/
theorem free_step {l : Label} (h : Sound q) (hstep : Step q l q') (hfree : timer ∈ q.freeTimers_) :
    timer ∈ q'.freeTimers_ := by
  cases step_cases hstep with
  | addHere _ _ _ _ hok =>
    rcases addTimerInLoop_ok hok with ⟨fd, _, rfl⟩
    exact hfree
  | addQueued _ _ hok =>
    rcases addTimerInLoop_ok hok with ⟨fd, _, rfl⟩
    exact hfree
  | cancelHere _ _ hok =>
    rcases cancelInLoop_ok hok with ⟨_, _, rfl⟩ | ⟨_, _, _, rfl⟩ | ⟨_, _, rfl⟩
    · exact List.mem_append_left _ hfree
    · exact hfree
    · exact hfree
  | cancelQueued _ _ hok =>
    rcases cancelInLoop_ok hok with ⟨_, _, rfl⟩ | ⟨_, _, _, rfl⟩ | ⟨_, _, rfl⟩
    · exact List.mem_append_left _ hfree
    · exact hfree
    · exact hfree
  | handleRead _ hok =>
    rcases handleRead_eq hok with ⟨fd, rest, wait, _, _, rfl⟩
    exact hfree
  | finish hphase hok =>
    rcases h.finish_eq (by rw [hphase]; simp) hok with ⟨fd, rfl⟩
    exact List.mem_append_left _ hfree
  | _ => exact hfree

theorem free_run {ls : List Label} (h : Run Step q ls q') (hq : Sound q)
    (hfree : timer ∈ q.freeTimers_) :
    timer ∈ q'.freeTimers_ := by
  have hboth : Sound q' ∧ timer ∈ q'.freeTimers_ :=
    h.invariant (fun q ↦ Sound q ∧ timer ∈ q.freeTimers_)
      (fun _ _ _ hs hstep ↦ ⟨hs.1.step hstep, hs.1.free_step hstep hs.2⟩) ⟨hq, hfree⟩
  exact hboth.2

end Sound

/-- What the containers of a queue have to do with each other. -/
structure Agree (q : TimerQueue) : Prop where
  same : (q.timers_.map Prod.snd).Perm q.waitTimers_
  once : q.waitTimers_.Nodup
  keyed : ∀ e ∈ q.timers_, e.1 = (q.timer e.2).expiration_
  active : q.phase ≠ .idle → q.activeTimers_.Disjoint q.waitTimers_
  free : q.freeTimers_.Disjoint q.waitTimers_

theorem Sound.agree (h : Sound q) : Agree q := by
  have hsettled := h.inv.settled
  have hnodup : (q.owners q.batch).Nodup := h.owners.nodup_iff.mpr h.distinct
  rcases List.nodup_append.mp hnodup with ⟨hplaces, _, hfree⟩
  rcases List.nodup_append.mp hplaces with ⟨hwait, _, hbatch⟩
  refine ⟨hsettled.same, (List.nodup_append.mp hwait).2.1, fun e he ↦ ?_, fun hphase a ha hmem ↦ ?_,
    fun a ha hmem ↦ ?_⟩
  · exact congrArg Prod.fst (hsettled.mem_timers he).2
  · rw [← batch_of_calling h.inv hphase] at ha
    exact hbatch a (List.mem_append_right _ hmem) a ha rfl
  · exact hfree a (List.mem_append_left _ (List.mem_append_right _ hmem)) a ha rfl

/-- **The containers agree** in every state of a run, callbacks included; a timer that is free never
waits again, and no assertion fails in the next step. -/
theorem containers_agree {ls : List Label} (h : Run Step {} ls q) :
    Agree q ∧
      (∀ (ls' : List Label) (q' : TimerQueue) (timer : Nat), Run Step q ls' q' →
      timer ∈ q.freeTimers_ →
        timer ∈ q'.freeTimers_ ∧ ∀ e ∈ q'.timers_, e.2 ≠ timer) ∧
      ∀ (l : Label) (e : Assertion), q.next l ≠ some (.error e) := by
  have hsound := sound_empty.of_run h
  refine ⟨hsound.agree, fun ls' q' timer hrun hfree ↦ ?_, hsound.next_ne_error⟩
  have hsound' := hsound.of_run hrun
  have hfree' := hsound.free_run hrun hfree
  refine ⟨hfree', fun e he heq ↦ ?_⟩
  subst heq
  exact hsound'.agree.free hfree' (hsound'.inv.settled.mem_timers he).1

/-- In the callback of a repeating timer one is added and the other of the batch cancelled. -/
theorem containers_agree_callback :
    ∃ q, Run Step {} [.addTimer true 8 ⟨5⟩ ⟨true, 10⟩ ⟨0⟩, .addTimer true 16 ⟨6⟩ ⟨true, 10⟩ ⟨0⟩,
        .handleRead ⟨7⟩, .run, .cancel true ⟨16, 1⟩, .addTimer true 24 ⟨9⟩ ⟨false, 0⟩ ⟨8⟩, .ret,
        .run, .ret, .finish ⟨8⟩] q ∧
      q.waitTimers_ = [24, 8] ∧ q.freeTimers_ = [16] ∧ Agree q ∧
      (∀ (ls' : List Label) (q' : TimerQueue) (timer : Nat), Run Step q ls' q' →
        timer ∈ q.freeTimers_ →
        timer ∈ q'.freeTimers_ ∧ ∀ e ∈ q'.timers_, e.2 ≠ timer) ∧
      ∀ (l : Label) (e : Assertion), q.next l ≠ some (.error e) := by
  have hrun := show Run Step {} [.addTimer true 8 ⟨5⟩ ⟨true, 10⟩ ⟨0⟩,
        .addTimer true 16 ⟨6⟩ ⟨true, 10⟩ ⟨0⟩, .handleRead ⟨7⟩, .run, .cancel true ⟨16, 1⟩,
        .addTimer true 24 ⟨9⟩ ⟨false, 0⟩ ⟨8⟩, .ret, .run, .ret, .finish ⟨8⟩] _ from
    .cons rfl <| .cons rfl <| .cons rfl <| .cons rfl <| .cons rfl <| .cons rfl <| .cons rfl <|
      .cons rfl <|
    .cons rfl <| .cons rfl <| .nil _
  exact ⟨_, hrun, rfl, rfl, containers_agree hrun⟩

end Pallette.TimerQueue
