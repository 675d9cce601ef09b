import Pallette.Log.AsyncLogging

/-!
# Rotation — the buffers of the frontend and of the backend, and what they hold

A buffer goes from `currentBuffer_` to the full ones, is written, and comes back as a spare.  The
second spare is gone only if `append` had used up `nextBuffer_` since the last swap, and then it had
also filled a buffer: so there are two to take the spares from.  `Pool` carries this counting,
`Accounted` the bytes.
-/

open Reasoning

namespace Pallette.AsyncLogging

variable {s t : AsyncLogging} {l : Label} {c : Buffer} {line : Bytes}

/-! ## The operations -/

theorem append_eq (hc : s.currentBuffer_ = some c) (line : Bytes) :
    s.append line = .ok
      (if line.length < c.avail then
        { s with lines := s.lines ++ [line], currentBuffer_ := some (c.append line) }
      else
        { s with
          lines := s.lines ++ [line]
          buffers_ := s.buffers_ ++ [some c]
          currentBuffer_ := some ((s.nextBuffer_.getD .new).append line)
          nextBuffer_ := none }) := by
  unfold append
  rw [hc]
  dsimp only
  by_cases hroom : line.length < c.avail
  · rw [if_pos hroom, if_pos hroom]
  · rw [if_neg hroom, if_neg hroom]
    cases hnext : s.nextBuffer_ with
    | none => rfl
    | some b => rfl

theorem swapBuffers_eq (s : AsyncLogging) :
    s.swapBuffers = .ok { s with
      currentBuffer_ := s.newBuffer1
      newBuffer1 := none
      buffersToWrite := s.buffers_ ++ [s.currentBuffer_]
      buffers_ := s.buffersToWrite
      nextBuffer_ := s.nextBuffer_.or s.newBuffer2
      newBuffer2 := if s.nextBuffer_.isSome then s.newBuffer2 else none
      phase := .writing 0 } := by
  unfold swapBuffers
  cases hnext : s.nextBuffer_ with
  | none => simp
  | some b => simp

/-- A spare that is there stays, and one that is gone is taken from the written buffers. -/
theorem refill_ok {spare : BufferPtr} {written : List BufferPtr}
    (hempty : ∀ b, spare = some b → b.data = [])
    (hfull : ∀ ptr ∈ written, ptr.isSome = true) (henough : spare = none → written ≠ []) :
    ∃ b rest, refill spare written = .ok (some b, rest) ∧ b.data = [] ∧
      (∀ ptr ∈ rest, ptr.isSome = true) ∧ written.length ≤ rest.length + 1 := by
  cases spare with
  | some b => exact ⟨b, written, rfl, hempty b rfl, hfull, Nat.le_succ _⟩
  | none =>
    have hlast := List.getLast?_eq_some_getLast (henough rfl)
    have hsome := hfull _ (List.getLast_mem (henough rfl))
    obtain ⟨b, hb⟩ := Option.isSome_iff_exists.mp hsome
    rw [hb] at hlast
    refine ⟨b.reset, written.dropLast, ?_, rfl, ?_, ?_⟩
    · unfold refill
      dsimp only
      rw [hlast]
    · intro ptr hptr
      exact hfull ptr (List.dropLast_subset _ hptr)
    · rw [List.length_dropLast]
      omega

/-! ## The pool never runs dry -/

/-- The locals of the backend before its lock. -/
structure Ready (newBuffer1 newBuffer2 : BufferPtr) (buffersToWrite : List BufferPtr) : Prop where
  first : ∃ b, newBuffer1 = some b ∧ b.data = []
  second : ∃ b, newBuffer2 = some b ∧ b.data = []
  cleared : buffersToWrite = []

/-- The locals of the backend behind its swap. -/
structure Writing (newBuffer1 newBuffer2 : BufferPtr) (buffersToWrite : List BufferPtr) : Prop where
  first : newBuffer1 = none
  second : ∀ b, newBuffer2 = some b → b.data = []
  full : ∀ ptr ∈ buffersToWrite, ptr.isSome = true
  swapped : buffersToWrite ≠ []
  enough : newBuffer2 = none → 2 ≤ buffersToWrite.length

def Backend (s : AsyncLogging) : Prop :=
  match s.phase with
  | .unstarted => s.buffersToWrite = []
  | .testing | .locking | .waiting | .finished => Ready s.newBuffer1 s.newBuffer2 s.buffersToWrite
  | .writing _ => Writing s.newBuffer1 s.newBuffer2 s.buffersToWrite

structure Pool (s : AsyncLogging) : Prop where
  current : ∃ c, s.currentBuffer_ = some c
  full : ∀ ptr ∈ s.buffers_, ptr.isSome = true
  /-- `append` takes `nextBuffer_` only for a buffer it has filled. -/
  consumed : s.nextBuffer_ = none → s.buffers_ ≠ []
  next : ∀ b, s.nextBuffer_ = some b → b.data = []
  backend : Backend s

theorem pool_init : Pool {} where
  current := ⟨_, rfl⟩
  full := by simp
  consumed := by simp
  next b hb := by
    cases hb
    rfl
  backend := rfl

theorem pool_append (h : Pool s) (line : Bytes) : ∃ t, s.append line = .ok t ∧ Pool t := by
  obtain ⟨c, hc⟩ := h.current
  rw [append_eq hc]
  refine ⟨_, rfl, ?_⟩
  by_cases hroom : line.length < c.avail
  · rw [if_pos hroom]
    exact ⟨⟨_, rfl⟩, h.full, h.consumed, h.next, h.backend⟩
  · rw [if_neg hroom]
    constructor
    · exact ⟨_, rfl⟩
    · intro ptr hptr
      rcases List.mem_append.mp hptr with hold | hnew
      · exact h.full ptr hold
      · rw [List.mem_singleton.mp hnew]
        rfl
    · simp
    · simp
    · exact h.backend

theorem writing_swapped (h : Pool s) (hready : Ready s.newBuffer1 s.newBuffer2 s.buffersToWrite) :
    Writing none (if s.nextBuffer_.isSome then s.newBuffer2
    else none) (s.buffers_ ++ [s.currentBuffer_]) := by
  obtain ⟨c, hc⟩ := h.current
  obtain ⟨b₂, hb₂, hempty⟩ := hready.second
  constructor
  · rfl
  · intro b hb
    split at hb
    · rw [hb₂] at hb
      cases hb
      exact hempty
    · cases hb
  · intro ptr hptr
    rcases List.mem_append.mp hptr with hold | hnew
    · exact h.full ptr hold
    · rw [List.mem_singleton.mp hnew, hc]
      rfl
  · simp
  · intro hgone
    -- the second spare went to the frontend, which had used up its own and filled a buffer for it
    have hnext : s.nextBuffer_ = none := by
      by_contra hsome
      rw [← ne_eq, Option.ne_none_iff_isSome] at hsome
      rw [if_pos hsome, hb₂] at hgone
      cases hgone
    have hfilled := List.length_pos_iff.mpr (h.consumed hnext)
    rw [List.length_append, List.length_singleton]
    omega

theorem pool_swap (h : Pool s) (hready : Ready s.newBuffer1 s.newBuffer2 s.buffersToWrite) :
    ∃ t, s.swapBuffers = .ok t ∧ Pool t := by
  obtain ⟨b₁, hb₁, _⟩ := hready.first
  obtain ⟨b₂, hb₂, hempty⟩ := hready.second
  rw [swapBuffers_eq]
  refine ⟨_, rfl, ?_⟩
  constructor
  · exact ⟨b₁, hb₁⟩
  · rw [hready.cleared]
    simp
  · rw [hb₂]
    simp
  · intro b hb
    cases hnext : s.nextBuffer_ with
    | none =>
      rw [hnext, hb₂] at hb
      cases hb
      exact hempty
    | some next =>
      rw [hnext] at hb
      cases hb
      exact h.next _ hnext
  · exact writing_swapped h hready

theorem recycle_eq (h : Writing s.newBuffer1 s.newBuffer2 s.buffersToWrite) :
    ∃ b₁ b₂, b₁.data = [] ∧ b₂.data = [] ∧ s.recycle = .ok { s with
      newBuffer1 := some b₁, newBuffer2 := some b₂, buffersToWrite := [], phase := .testing } := by
  have hlength := List.length_pos_iff.mpr h.swapped
  unfold recycle
  generalize hwritten :
    (if 2 < s.buffersToWrite.length then s.buffersToWrite.take 2 else s.buffersToWrite) = written
  have hfull : ∀ ptr ∈ written, ptr.isSome = true := by
    intro ptr hptr
    rw [← hwritten] at hptr
    split at hptr
    · exact h.full ptr (List.mem_of_mem_take hptr)
    · exact h.full ptr hptr
  have hshort : written.length = min 2 s.buffersToWrite.length := by
    rw [← hwritten]
    split
    · rw [List.length_take]
    · omega
  have hfirst : written ≠ [] := by
    apply List.ne_nil_of_length_pos
    omega
  obtain ⟨b₁, rest, hrefill, hempty₁, hrest, hleft⟩ := @refill_ok s.newBuffer1 _
    (by rw [h.first]; simp) hfull (fun _ ↦ hfirst)
  have hsecond : s.newBuffer2 = none → rest ≠ [] := by
    intro hgone
    have htwo := h.enough hgone
    apply List.ne_nil_of_length_pos
    omega
  obtain ⟨b₂, rest', hrefill', hempty₂, _, _⟩ := refill_ok h.second hrest hsecond
  refine ⟨b₁, b₂, hempty₁, hempty₂, ?_⟩
  simp only [hrefill, hrefill', bind, Except.bind, pure, Except.pure]

theorem pool_recycle (h : Pool s)
    (hwriting : Writing s.newBuffer1 s.newBuffer2 s.buffersToWrite) :
    ∃ t, s.recycle = .ok t ∧ Pool t := by
  obtain ⟨b₁, b₂, hempty₁, hempty₂, heq⟩ := recycle_eq hwriting
  rw [heq]
  exact ⟨_, rfl, h.current, h.full, h.consumed, h.next, ⟨b₁, rfl, hempty₁⟩, ⟨b₂, rfl, hempty₂⟩, rfl⟩

theorem Pool.ready (h : Pool s) (hphase : s.phase ≠ .unstarted)
    (hwriting : ∀ k, s.phase ≠ .writing k) :
    Ready s.newBuffer1 s.newBuffer2 s.buffersToWrite := by
  have hbackend := h.backend
  unfold Backend at hbackend
  cases heq : s.phase with
  | unstarted => exact absurd heq hphase
  | writing k => exact absurd heq (hwriting k)
  | testing | locking | waiting | finished =>
    rw [heq] at hbackend
    exact hbackend

theorem Pool.ready_swap (h : Pool s) (hphase : s.phase = .locking ∨ s.phase = .waiting) :
    Ready s.newBuffer1 s.newBuffer2 s.buffersToWrite := by
  apply h.ready
  · rcases hphase with hphase | hphase <;> simp [hphase]
  · rcases hphase with hphase | hphase <;> simp [hphase]

theorem Pool.writing (h : Pool s) {k : Nat} (hphase : s.phase = .writing k) :
    Writing s.newBuffer1 s.newBuffer2 s.buffersToWrite := by
  have hbackend := h.backend
  unfold Backend at hbackend
  rw [hphase] at hbackend
  exact hbackend

theorem Pool.unwritten_mem (h : Pool s) {k : Nat} {ptr : BufferPtr} (hphase : s.phase = .writing k)
    (hptr : s.buffersToWrite[k]? = some ptr) : ∃ b, ptr = some b := by
  apply Option.isSome_iff_exists.mp
  exact (h.writing hphase).full ptr (List.mem_of_getElem? hptr)

/-- What a step can be, given the pool: every one that is due returns. -/
inductive StepCases (s : AsyncLogging) : Label → AsyncLogging → Prop
  | start : s.phase = .unstarted → StepCases s .start { s with
      running_ := true, newBuffer1 := some .new, newBuffer2 := some .new, phase := .testing }
  | append {line : Bytes} {t : AsyncLogging} : s.append line = .ok t → StepCases s (.append line) t
  | test {phase : Phase} : s.phase = .testing →
      (s.running_ = true ∧ phase = .locking ∨ s.running_ = false ∧ phase = .finished) →
      StepCases s .test { s with phase := phase }
  | wait : s.phase = .locking → StepCases s .lock { s with phase := .waiting }
  | swap {l : Label} {t : AsyncLogging} : s.phase = .locking ∨ s.phase = .waiting →
      s.swapBuffers = .ok t → StepCases s l t
  | write {k : Nat} {b : Buffer} : s.phase = .writing k → s.buffersToWrite[k]? = some (some b) →
      StepCases s .write { s with output := s.output ++ b.data, phase := .writing (k + 1) }
  | recycle {k : Nat} {t : AsyncLogging} : s.phase = .writing k → k = s.buffersToWrite.length →
      s.recycle = .ok t → StepCases s .recycle t
  | stop : s.phase ≠ .unstarted → s.stopper = .idle →
      StepCases s .stop { s with running_ := false, stopper := .joining }
  | join : s.phase = .finished → s.stopper = .joining →
      StepCases s .join { s with stopper := .returned }

theorem step_cases (h : Pool s) {r : Except Fault AsyncLogging} (hnext : s.next l = some r) :
    ∃ t, r = .ok t ∧ StepCases s l t := by
  cases l with
  | start =>
    obtain ⟨hphase, heq⟩ := Option.ite_none_right_eq_some.mp hnext
    cases heq
    exact ⟨_, rfl, .start hphase⟩
  | append line =>
    cases hnext
    obtain ⟨t, ht, _⟩ := pool_append h line
    exact ⟨t, ht, .append ht⟩
  | test =>
    obtain ⟨hphase, heq⟩ := Option.ite_none_right_eq_some.mp hnext
    -- the assertion at the head of the loop holds: `buffersToWrite` is empty
    have hcleared := (h.ready (by simp [hphase]) (by simp [hphase])).cleared
    by_cases hrunning : s.running_ = true
    · rw [if_neg (by simp [hrunning]), if_neg (not_not_intro hcleared)] at heq
      cases heq
      exact ⟨_, rfl, .test hphase (.inl ⟨hrunning, rfl⟩)⟩
    · rw [Bool.not_eq_true] at hrunning
      rw [if_pos hrunning] at heq
      cases heq
      exact ⟨_, rfl, .test hphase (.inr ⟨hrunning, rfl⟩)⟩
  | lock =>
    obtain ⟨hphase, heq⟩ := Option.ite_none_right_eq_some.mp hnext
    by_cases hnone : s.buffers_ = []
    · rw [if_pos hnone] at heq
      cases heq
      exact ⟨_, rfl, .wait hphase⟩
    · rw [if_neg hnone] at heq
      cases heq
      obtain ⟨t, ht, _⟩ := pool_swap h (h.ready (by simp [hphase]) (by simp [hphase]))
      exact ⟨t, ht, .swap (.inl hphase) ht⟩
  | wake =>
    obtain ⟨hphase, heq⟩ := Option.ite_none_right_eq_some.mp hnext
    cases heq
    obtain ⟨t, ht, _⟩ := pool_swap h (h.ready (by simp [hphase]) (by simp [hphase]))
    exact ⟨t, ht, .swap (.inr hphase) ht⟩
  | write =>
    unfold next at hnext
    dsimp only at hnext
    split at hnext
    next k hphase =>
      obtain ⟨ptr, hptr, heq⟩ := Option.map_eq_some_iff.mp hnext
      obtain ⟨b, hb⟩ := h.unwritten_mem hphase hptr
      subst hb
      cases heq
      exact ⟨_, rfl, .write hphase hptr⟩
    next => cases hnext
  | recycle =>
    unfold next at hnext
    dsimp only at hnext
    split at hnext
    next k hphase =>
      obtain ⟨hk, heq⟩ := Option.ite_none_right_eq_some.mp hnext
      cases heq
      obtain ⟨t, ht, _⟩ := pool_recycle h (h.writing hphase)
      exact ⟨t, ht, .recycle hphase hk ht⟩
    next => cases hnext
  | stop =>
    obtain ⟨⟨hphase, hidle⟩, heq⟩ := Option.ite_none_right_eq_some.mp hnext
    cases heq
    exact ⟨_, rfl, .stop hphase hidle⟩
  | join =>
    obtain ⟨⟨hphase, hjoining⟩, heq⟩ := Option.ite_none_right_eq_some.mp hnext
    cases heq
    exact ⟨_, rfl, .join hphase hjoining⟩

theorem pool_of_step (h : Pool s) (hstep : StepCases s l t) : Pool t := by
  cases hstep with
  | start hphase =>
    have hcleared := h.backend
    unfold Backend at hcleared
    rw [hphase] at hcleared
    exact ⟨h.current, h.full, h.consumed, h.next, ⟨.new, rfl, rfl⟩, ⟨.new, rfl, rfl⟩, hcleared⟩
  | append happ =>
    obtain ⟨u, hu, hpool⟩ := pool_append h _
    cases happ.symm.trans hu
    exact hpool
  | test hphase hto =>
    have hready := h.ready (by simp [hphase]) (by simp [hphase])
    constructor
    · exact h.current
    · exact h.full
    · exact h.consumed
    · exact h.next
    · rcases hto with ⟨_, rfl⟩ | ⟨_, rfl⟩
      · exact hready
      · exact hready
  | wait hphase =>
    exact ⟨h.current, h.full, h.consumed, h.next, h.ready (by simp [hphase]) (by simp [hphase])⟩
  | swap hphase hswap =>
    obtain ⟨u, hu, hpool⟩ := pool_swap h (h.ready_swap hphase)
    cases hswap.symm.trans hu
    exact hpool
  | write hphase _ => exact ⟨h.current, h.full, h.consumed, h.next, h.writing hphase⟩
  | recycle hphase _ hrecycle =>
    obtain ⟨u, hu, hpool⟩ := pool_recycle h (h.writing hphase)
    cases hrecycle.symm.trans hu
    exact hpool
  | stop _ _ | join _ _ => exact ⟨h.current, h.full, h.consumed, h.next, h.backend⟩

theorem pool_run {ls : List Label} (h : Run Step {} ls s) : Pool s := by
  apply h.invariant Pool
  · intro s l t hs hstep
    obtain ⟨u, hu, hcases⟩ := step_cases hs hstep
    cases hu
    exact pool_of_step hs hcases
  · exact pool_init

/-- **The pool never runs dry.**  In every run, with lines of any length: `currentBuffer_` is there
whenever the mutex is free, both spares are there at the start of an iteration, and no step fails an
assertion or meets a null pointer. -/
theorem pool_never_dry {ls : List Label} (h : Run Step {} ls s) :
    s.currentBuffer_.isSome = true ∧
      (s.phase = .testing ∨ s.phase = .locking → s.newBuffer1.isSome = true ∧
      s.newBuffer2.isSome = true) ∧
      ∀ l e, s.next l ≠ some (.error e) := by
  have hpool := pool_run h
  refine ⟨Option.isSome_iff_exists.mpr hpool.current, ?_, ?_⟩
  · intro hphase
    have hready : Ready s.newBuffer1 s.newBuffer2 s.buffersToWrite := by
      rcases hphase with hphase | hphase
      · exact hpool.ready (by simp [hphase]) (by simp [hphase])
      · exact hpool.ready (by simp [hphase]) (by simp [hphase])
    obtain ⟨b₁, hb₁, _⟩ := hready.first
    obtain ⟨b₂, hb₂, _⟩ := hready.second
    rw [hb₁, hb₂]
    exact ⟨rfl, rfl⟩
  · intro l e herr
    obtain ⟨t, ht, _⟩ := step_cases hpool herr
    cases ht

/-- One iteration of the backend. -/
theorem pool_never_dry_iteration :
    ∃ s, Run Step {} [.start, .test, .lock, .append [7], .wake, .write, .recycle] s ∧
      s.currentBuffer_.isSome = true ∧
      (s.phase = .testing ∨ s.phase = .locking → s.newBuffer1.isSome = true ∧
      s.newBuffer2.isSome = true) ∧
      ∀ l e, s.next l ≠ some (.error e) := by
  have hrun := show Run Step {} [.start, .test, .lock, .append [7], .wake, .write, .recycle] _ from
    .cons rfl <| .cons rfl <| .cons rfl <| .cons rfl <| .cons rfl <| .cons rfl <|
      .cons rfl <| .nil _
  exact ⟨_, hrun, pool_never_dry hrun⟩

/-! ## Every byte is somewhere, in order -/

@[simp] theorem contents_nil : contents [] = [] := rfl

@[simp] theorem contents_append (xs ys : List BufferPtr) :
    contents (xs ++ ys) = contents xs ++ contents ys :=
  List.flatMap_append

@[simp] theorem contents_singleton (b : Buffer) : contents [some b] = b.data :=
  List.append_nil _

/-- What has been written, what the backend still has to write, the full buffers and the current
one: all lines in the order of `append`. -/
def Accounted (s : AsyncLogging) : Prop :=
  s.output ++ contents s.unwritten ++ contents s.buffers_ ++ contents [s.currentBuffer_] =
    s.lines.flatten

theorem unwritten_writing {k : Nat} (hphase : s.phase = .writing k) :
    s.unwritten = s.buffersToWrite.drop k := by
  unfold unwritten
  rw [hphase]

theorem unwritten_cleared (hcleared : s.buffersToWrite = []) : s.unwritten = [] := by
  unfold unwritten
  split
  · rw [hcleared, List.drop_nil]
  · exact hcleared

/-- Outside of the writing nothing is left to write. -/
theorem Pool.unwritten_eq (h : Pool s) (hwriting : ∀ k, s.phase ≠ .writing k) :
    s.unwritten = [] := by
  by_cases hphase : s.phase = .unstarted
  · have hbackend := h.backend
    unfold Backend at hbackend
    rw [hphase] at hbackend
    exact unwritten_cleared hbackend
  · exact unwritten_cleared (h.ready hphase hwriting).cleared

theorem accounted_init : Accounted {} := rfl

theorem accounted_append (h : Pool s) (hs : Accounted s) (hshort : line.length < kLargeBuffer)
    (happ : s.append line = .ok t) : Accounted t := by
  obtain ⟨c, hc⟩ := h.current
  rw [append_eq hc] at happ
  cases happ
  unfold Accounted at hs ⊢
  rw [hc, contents_singleton] at hs
  by_cases hroom : line.length < c.avail
  · rw [if_pos hroom]
    change s.output ++ contents s.unwritten ++ contents s.buffers_ ++
      contents [some (c.append line)] =
      (s.lines ++ [line]).flatten
    rw [contents_singleton, LogBuffer.data_append hroom, ← List.append_assoc, hs]
    simp
  · rw [if_neg hroom]
    change s.output ++ contents s.unwritten ++ contents (s.buffers_ ++ [some c]) ++
      contents [some ((s.nextBuffer_.getD .new).append line)] = (s.lines ++ [line]).flatten
    have hfresh : (s.nextBuffer_.getD .new).data = [] := by
      cases hnext : s.nextBuffer_ with
      | none => rfl
      | some b => exact h.next b hnext
    have hfits : line.length < (s.nextBuffer_.getD .new).avail := by
      unfold LogBuffer.avail
      rw [hfresh]
      exact hshort
    rw [contents_append, contents_singleton, contents_singleton,
      LogBuffer.data_append hfits, hfresh, List.nil_append, ← List.append_assoc, hs]
    simp

theorem accounted_swap (hs : Accounted s)
    (hready : Ready s.newBuffer1 s.newBuffer2 s.buffersToWrite)
    (hswap : s.swapBuffers = .ok t) : Accounted t := by
  obtain ⟨b, hb, hempty⟩ := hready.first
  rw [swapBuffers_eq] at hswap
  cases hswap
  unfold Accounted at hs ⊢
  rw [unwritten_cleared hready.cleared, contents_nil, List.append_nil] at hs
  rw [unwritten_writing rfl]
  change s.output ++ contents (s.buffers_ ++ [s.currentBuffer_]) ++ contents s.buffersToWrite ++
    contents [s.newBuffer1] = s.lines.flatten
  rw [hready.cleared, hb, contents_append, contents_singleton, hempty, contents_nil,
    List.append_nil, List.append_nil, ← List.append_assoc, hs]

theorem accounted_write (hs : Accounted s) {k : Nat} {b : Buffer} (hphase : s.phase = .writing k)
    (hb : s.buffersToWrite[k]? = some (some b)) :
    Accounted { s with output := s.output ++ b.data, phase := .writing (k + 1) } := by
  obtain ⟨hlt, hget⟩ := List.getElem?_eq_some_iff.mp hb
  unfold Accounted at hs ⊢
  rw [unwritten_writing hphase, List.drop_eq_getElem_cons hlt, hget, ← List.singleton_append,
    contents_append, contents_singleton, ← List.append_assoc s.output] at hs
  rw [unwritten_writing rfl]
  exact hs

theorem accounted_recycle (hs : Accounted s) {k : Nat} (hphase : s.phase = .writing k)
    (hk : k = s.buffersToWrite.length)
    (hwriting : Writing s.newBuffer1 s.newBuffer2 s.buffersToWrite)
    (hrecycle : s.recycle = .ok t) : Accounted t := by
  obtain ⟨b₁, b₂, _, _, heq⟩ := recycle_eq hwriting
  rw [heq] at hrecycle
  cases hrecycle
  unfold Accounted at hs ⊢
  rw [unwritten_writing hphase, hk, List.drop_length] at hs
  exact hs

theorem accounted_of_step (h : Pool s) (hs : Accounted s) (hshort : ShortLine s l)
    (hstep : StepCases s l t) : Accounted t := by
  have hstill : ∀ u : AsyncLogging, u.output = s.output → u.buffers_ = s.buffers_ →
      u.currentBuffer_ = s.currentBuffer_ → u.lines = s.lines → u.unwritten = s.unwritten →
      Accounted u := by
    intro u houtput hbuffers hcurrent hlines hunwritten
    unfold Accounted
    rw [houtput, hbuffers, hcurrent, hlines, hunwritten]
    exact hs
  cases hstep with
  | start hphase => exact hstill _ rfl rfl rfl rfl (by simp [unwritten, hphase])
  | append happ => exact accounted_append h hs hshort happ
  | test hphase hto =>
    rcases hto with ⟨_, rfl⟩ | ⟨_, rfl⟩
    · exact hstill _ rfl rfl rfl rfl (by simp [unwritten, hphase])
    · exact hstill _ rfl rfl rfl rfl (by simp [unwritten, hphase])
  | wait hphase => exact hstill _ rfl rfl rfl rfl (by simp [unwritten, hphase])
  | swap hphase hswap => exact accounted_swap hs (h.ready_swap hphase) hswap
  | write hphase hb => exact accounted_write hs hphase hb
  | recycle hphase hk hrecycle => exact accounted_recycle hs hphase hk (h.writing hphase) hrecycle
  | stop _ _ | join _ _ => exact hstill _ rfl rfl rfl rfl rfl

/-- What steps with short lines keep of states with a sound pool, their runs keep. -/
theorem invariant_run {inv : AsyncLogging → Prop}
    (hinv : ∀ s l t, Pool s → Accounted s → inv s → ShortLine s l → StepCases s l t → inv t)
    {ls : List Label} (h : Run (Guarded Step ShortLine) s ls t) (hpool : Pool s) (hs : Accounted s)
    (hstart : inv s) : Pool t ∧ Accounted t ∧ inv t := by
  apply h.invariant (fun s ↦ Pool s ∧ Accounted s ∧ inv s)
  · intro s l t hs hstep
    obtain ⟨hpool, haccounted, hkept⟩ := hs
    obtain ⟨u, hu, hcases⟩ := step_cases hpool hstep.1
    cases hu
    exact ⟨pool_of_step hpool hcases, accounted_of_step hpool haccounted hstep.2 hcases,
      hinv s l _ hpool haccounted hkept hstep.2 hcases⟩
  · exact ⟨hpool, hs, hstart⟩

theorem accounted_run {ls : List Label} (h : Run (Guarded Step ShortLine) s ls t) (hpool : Pool s)
    (hs : Accounted s) : Pool t ∧ Accounted t := by
  have hall : Pool t ∧ Accounted t ∧ True :=
    invariant_run (fun _ _ _ _ _ _ _ _ ↦ trivial) h hpool hs trivial
  exact ⟨hall.1, hall.2.1⟩

/-! ## The lines that are appended -/

def Label.line? : Label → Option Bytes
  | .append line => some line
  | _ => none

theorem append_lines (happ : s.append line = .ok t) : t.lines = s.lines ++ [line] := by
  cases hc : s.currentBuffer_ with
  | none =>
    unfold append at happ
    rw [hc] at happ
    cases happ
  | some c =>
    rw [append_eq hc] at happ
    cases happ
    split <;> rfl

theorem recycle_lines (hrecycle : s.recycle = .ok t) : t.lines = s.lines := by
  obtain ⟨_, _, hrest⟩ := ok_of_bind hrecycle
  obtain ⟨_, _, heq⟩ := ok_of_bind hrest
  cases heq
  rfl

theorem swapBuffers_lines (hswap : s.swapBuffers = .ok t) : t.lines = s.lines := by
  rw [swapBuffers_eq] at hswap
  cases hswap
  rfl

theorem write_lines {k : Nat} {ptr : BufferPtr} (hwrite : s.write k ptr = .ok t) :
    t.lines = s.lines := by
  cases ptr with
  | none => cases hwrite
  | some b =>
    cases hwrite
    rfl

/-- A line is noted by the step that takes the mutex for it, and by no other. -/
theorem lines_of_next (hstep : Step s l t) : t.lines = s.lines ++ l.line?.toList := by
  have hkept : t.lines = s.lines → l.line? = none → t.lines = s.lines ++ l.line?.toList := by
    intro hsame hnone
    rw [hsame, hnone, Option.toList_none, List.append_nil]
  cases l with
  | start =>
    obtain ⟨-, heq⟩ := Option.ite_none_right_eq_some.mp hstep
    cases heq
    exact hkept rfl rfl
  | append line => exact append_lines (Option.some.inj hstep)
  | test =>
    obtain ⟨-, heq⟩ := Option.ite_none_right_eq_some.mp hstep
    refine hkept ?_ rfl
    split at heq
    next =>
      cases heq
      rfl
    next =>
      split at heq
      next => cases heq
      next =>
        cases heq
        rfl
  | lock =>
    obtain ⟨-, heq⟩ := Option.ite_none_right_eq_some.mp hstep
    refine hkept ?_ rfl
    split at heq
    next =>
      cases heq
      rfl
    next => exact swapBuffers_lines (Option.some.inj heq)
  | wake =>
    obtain ⟨-, heq⟩ := Option.ite_none_right_eq_some.mp hstep
    exact hkept (swapBuffers_lines (Option.some.inj heq)) rfl
  | write =>
    simp only [Step, next] at hstep
    split at hstep
    next k _ =>
      obtain ⟨ptr, -, hwrite⟩ := Option.map_eq_some_iff.mp hstep
      exact hkept (write_lines hwrite) rfl
    next => cases hstep
  | recycle =>
    simp only [Step, next] at hstep
    split at hstep
    next k _ =>
      obtain ⟨-, heq⟩ := Option.ite_none_right_eq_some.mp hstep
      exact hkept (recycle_lines (Option.some.inj heq)) rfl
    next => cases hstep
  | stop =>
    obtain ⟨-, heq⟩ := Option.ite_none_right_eq_some.mp hstep
    cases heq
    exact hkept rfl rfl
  | join =>
    obtain ⟨-, heq⟩ := Option.ite_none_right_eq_some.mp hstep
    cases heq
    exact hkept rfl rfl

/-- **All lines, in order.**  In every run with lines that fit into a buffer: the bytes passed to
`LogFile::append`, then those of the buffers the backend still has to write, of the full ones and of
the current one are the lines of all calls of `append`, in the order in which they took the mutex;
and what the frontend is handed again, the spares before a swap and `nextBuffer_`, is empty. -/
theorem lines_in_order {ls : List Label} (h : Run (Guarded Step ShortLine) {} ls s) :
    s.lines = ls.filterMap Label.line? ∧
      s.output ++ contents s.unwritten ++ contents s.buffers_ ++ contents [s.currentBuffer_] =
        (ls.filterMap Label.line?).flatten ∧
      (s.phase = .locking ∨ s.phase = .waiting →
        ∀ b, s.newBuffer1 = some b ∨ s.newBuffer2 = some b → b.data = []) ∧
      ∀ b, s.nextBuffer_ = some b → b.data = [] := by
  have hlines : s.lines = ls.filterMap Label.line? :=
    h.history AsyncLogging.lines Label.line? fun _ _ _ hstep ↦ lines_of_next hstep.1
  obtain ⟨hpool, haccounted⟩ := accounted_run h pool_init accounted_init
  refine ⟨hlines, hlines ▸ haccounted, ?_, hpool.next⟩
  intro hphase b hb
  have hready := hpool.ready_swap hphase
  obtain ⟨b₁, hb₁, hempty₁⟩ := hready.first
  obtain ⟨b₂, hb₂, hempty₂⟩ := hready.second
  rcases hb with hb | hb
  · rw [hb₁] at hb
    cases hb
    exact hempty₁
  · rw [hb₂] at hb
    cases hb
    exact hempty₂

/-- A line that is written, and one behind it in the buffer the frontend got for the written one. -/
theorem lines_in_order_two :
    ∃ s, Run (Guarded Step ShortLine) {}
        [.start, .append [7], .test, .lock, .wake, .append [8], .write] s ∧
      s.output = [7] ∧ contents [s.currentBuffer_] = [8] ∧ s.lines = [[7], [8]] ∧
      s.output ++ contents s.unwritten ++ contents s.buffers_ ++ contents [s.currentBuffer_] =
        [7, 8] ∧
      (s.phase = .locking ∨ s.phase = .waiting →
        ∀ b, s.newBuffer1 = some b ∨ s.newBuffer2 = some b → b.data = []) ∧
      ∀ b, s.nextBuffer_ = some b → b.data = [] := by
  have hrun := show Run (Guarded Step ShortLine) {}
        [.start, .append [7], .test, .lock, .wake, .append [8], .write] _ from
    .cons ⟨rfl, trivial⟩ <| .cons ⟨rfl, show 1 < kLargeBuffer by decide⟩ <|
    .cons ⟨rfl, trivial⟩ <| .cons ⟨rfl, trivial⟩ <| .cons ⟨rfl, trivial⟩ <|
    .cons ⟨rfl, show 1 < kLargeBuffer by decide⟩ <| .cons ⟨rfl, trivial⟩ <| .nil _
  exact ⟨_, hrun, rfl, rfl, lines_in_order hrun⟩

end Pallette.AsyncLogging
