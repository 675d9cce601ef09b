import Pallette.Buffer.Growth
import Pallette.Reasoning.Run

/-!
# Fifo — buffers nobody prepends to

Without `prepend` the reserve in front of the readable bytes stays whole, and a buffer hands out
what was put into it, in order.  What `ensureWritableBytes` computes from the length it is given is
a `size_t`: a length with which `writeIndex_ + len` is not one is answered without room for it.
-/

open Reasoning

namespace Pallette.Buffer

variable {b c : Buffer} {data got : Bytes} {len : Nat}

/-- The calls of a program that does not prepend, `swap` apart. -/
inductive FifoOp
  | append (data : Bytes)
  | appendInt64 (x : BitVec 64)
  | appendInt32 (x : BitVec 32)
  | appendInt16 (x : BitVec 16)
  | appendInt8 (x : BitVec 8)
  | ensureWritableBytes (len : Nat)
  | write (data : Bytes)
  | readFd (avail : Option Bytes)
  | retrieve (len : Nat)
  | retrieveUntil (stop : Int)
  | retrieveAll
  | retrieveAsString (len : Nat)
  | retrieveAllAsString

namespace FifoOp

/-- The bytes that go into the buffer. -/
def put (b : Buffer) : FifoOp → Bytes
  | append data | write data => data
  | appendInt64 x => hostToNetwork 8 x
  | appendInt32 x => hostToNetwork 4 x
  | appendInt16 x => hostToNetwork 2 x
  | appendInt8 x => hostToNetwork 1 x
  | readFd avail => (avail.map b.received).getD []
  | _ => []

/-- The bytes that are taken out, and the buffer behind the call.  Those of a `retrieve` that
returns no string are the ones its caller finds at `peek()`. -/
def run (b : Buffer) : FifoOp → Except Failure (Bytes × Buffer)
  | append data => (b.append data).map ([], ·)
  | appendInt64 x => (b.appendInt64 x).map ([], ·)
  | appendInt32 x => (b.appendInt32 x).map ([], ·)
  | appendInt16 x => (b.appendInt16 x).map ([], ·)
  | appendInt8 x => (b.appendInt8 x).map ([], ·)
  | ensureWritableBytes len => (b.ensureWritableBytes len).map ([], ·)
  | write data => (b.write data).map ([], ·)
  | readFd avail => (b.readFd avail).map fun r ↦ ([], r.2)
  | retrieve len => (b.retrieve len).map (b.content.take len, ·)
  | retrieveUntil stop => (b.retrieveUntil stop).map (b.content.take stop.toNat, ·)
  | retrieveAll => .ok (b.content, b.retrieveAll)
  | retrieveAsString len => b.retrieveAsString len
  | retrieveAllAsString => b.retrieveAllAsString

/-- What the callers see to: nothing is written beyond the free end or retrieved beyond the readable
bytes, and what is appended is in memory. -/
def Allowed (b : Buffer) : FifoOp → Prop
  | append data => data.length ≤ maxSize
  | write data => data.length ≤ b.writableBytes
  | retrieve len | retrieveAsString len => len ≤ b.readableBytes
  | retrieveUntil stop => 0 < stop ∧ stop ≤ b.readableBytes
  | _ => True

/-- Where `ensureWritableBytes` has to make space, the size it needs is a `size_t`. -/
def InRange (b : Buffer) : FifoOp → Prop
  | ensureWritableBytes len => b.writableBytes < len → kPrePrePend + b.readableBytes + len < 2 ^ 64
  | _ => True

end FifoOp

/-- A buffer, what has been put into it and what has been taken out of it. -/
structure Traced where
  buffer : Buffer
  put : Bytes := []
  got : Bytes := []

/-- The calls of a run on a family of buffers. -/
inductive FifoCall (ι : Type)
  | op (i : ι) (o : FifoOp)
  | swap (i j : ι)

variable {ι : Type} [DecidableEq ι]

/-- One call.  What went in and came out stays with the bytes when two buffers are swapped. -/
def fifoCall (s : ι → Traced) : FifoCall ι → Except Failure (ι → Traced)
  | .op i o => do
      let (got, b) ← o.run (s i).buffer
      let t : Traced := ⟨b, (s i).put ++ o.put (s i).buffer, (s i).got ++ got⟩
      return fun k ↦ if k = i then t else s k
  | .swap i j =>
      let (b, rhs) := (s i).buffer.swap (s j).buffer
      .ok fun k ↦
        if k = i then ⟨b, (s j).put, (s j).got⟩ else if k = j then ⟨rhs, (s i).put, (s i).got⟩
          else s k

def FifoStep (s : ι → Traced) (l : FifoCall ι) (t : ι → Traced) : Prop :=
  fifoCall s l = .ok t

def FifoCall.InRange (s : ι → Traced) : FifoCall ι → Prop
  | .op i o => o.InRange (s i).buffer
  | .swap _ _ => True

/-! ## The reserve stays whole -/

/-- The layout in the picture of `Buffer.h`, with the reserve of `kPrePrePend` bytes. -/
structure Layout (b : Buffer) : Prop where
  reserve : kPrePrePend ≤ b.readIndex_
  read_le : b.readIndex_ ≤ b.writeIndex_
  write_le : b.writeIndex_ ≤ b.buffer_.length

structure Whole (b : Buffer) : Prop extends WellFormed b where
  reserve : kPrePrePend ≤ b.readIndex_

theorem Whole.layout (h : b.Whole) : b.Layout :=
  ⟨h.reserve, h.read_le, h.write_le⟩

theorem readIndex_of_compact (h : b.compact = .ok c) : c.readIndex_ = kPrePrePend := by
  obtain ⟨v, _, _, rfl⟩ := compact_ok h
  rfl

theorem readIndex_of_makeSpace (h : b.makeSpace len = .ok c) : c.readIndex_ = kPrePrePend := by
  unfold makeSpace at h
  split at h
  · obtain ⟨c', hcompact, hresize⟩ := ok_of_bind h
    obtain ⟨v, _, heq⟩ := ok_of_bind hresize
    cases heq
    have hindex := readIndex_of_compact hcompact
    exact hindex
  · exact readIndex_of_compact h

theorem reserve_of_ensure (hr : kPrePrePend ≤ b.readIndex_)
    (h : b.ensureWritableBytes len = .ok c) :
    kPrePrePend ≤ c.readIndex_ := by
  unfold ensureWritableBytes at h
  split at h
  · exact (readIndex_of_makeSpace h).ge
  · cases h
    exact hr

theorem reserve_of_append (hr : kPrePrePend ≤ b.readIndex_) (h : b.append data = .ok c) :
    kPrePrePend ≤ c.readIndex_ := by
  obtain ⟨c', hens, hcopy⟩ := ok_of_bind h
  obtain ⟨v, _, heq⟩ := ok_of_bind hcopy
  cases heq
  have hreserve := reserve_of_ensure hr hens
  exact hreserve

theorem reserve_of_readFd {avail : Option Bytes} {n : Int} (hr : kPrePrePend ≤ b.readIndex_)
    (h : b.readFd avail = .ok (n, c)) : kPrePrePend ≤ c.readIndex_ := by
  cases avail with
  | none =>
    cases h
    exact hr
  | some bytes =>
    obtain ⟨v, _, hrest⟩ := ok_of_bind h
    split at hrest
    · cases hrest
      exact hr
    · obtain ⟨c', happ, heq⟩ := ok_of_bind hrest
      cases heq
      have hspilled : kPrePrePend ≤ Buffer.readIndex_ { b with buffer_ := v, writeIndex_ :=
        v.length } := hr
      exact reserve_of_append hspilled happ

theorem reserve_of_retrieve (hr : kPrePrePend ≤ b.readIndex_) (h : b.retrieve len = .ok c) :
    kPrePrePend ≤ c.readIndex_ := by
  unfold retrieve at h
  split at h
  · cases h
  · split at h
    · cases h
      exact hr.trans (Nat.le_add_right _ _)
    · cases h
      exact le_rfl

theorem new_whole {n : Nat} (hn : kPrePrePend + n < 2 ^ 64) (h : Buffer.new n = .ok b) :
    b.Whole ∧ b.content = [] := by
  have hwf := new_wellFormed hn h
  obtain ⟨v, _, heq⟩ := ok_of_bind h
  cases heq
  exact ⟨⟨hwf, le_rfl⟩, by simp [content, readableBytes]⟩

/-! ## One call -/

/-- What a call that returns has done. -/
structure Passes (b c : Buffer) (put got : Bytes) : Prop where
  whole : c.Whole
  content : b.content ++ put = got ++ c.content

theorem passes_append (h : b.Whole) (happ : b.append data = .ok c) : Passes b c data [] := by
  obtain ⟨hwf, hcont⟩ := append_ok h.toWellFormed happ
  constructor
  · exact ⟨hwf, reserve_of_append h.reserve happ⟩
  · rw [List.nil_append, hcont]

theorem passes_ensure (h : b.Whole) (hrange : (FifoOp.ensureWritableBytes len).InRange b)
    (hens : b.ensureWritableBytes len = .ok c) : Passes b c [] [] := by
  obtain ⟨hwf, hcont, _⟩ :=
    ensureWritableBytes_wellFormed h.toWellFormed (fun hlt _ ↦ hrange hlt) hens
  constructor
  · exact ⟨hwf, reserve_of_ensure h.reserve hens⟩
  · rw [List.append_nil, List.nil_append, hcont]

theorem passes_write (h : b.Whole) (hwrite : b.write data = .ok c) : Passes b c data [] := by
  obtain ⟨v, hcopy, heq⟩ := ok_of_bind hwrite
  cases heq
  have hroom : data.length ≤ b.writableBytes := by
    have hfit := (copyInto_ok hcopy).1
    rw [writableBytes_eq h.write_le]
    omega
  obtain ⟨v', hv', hwf, hcont⟩ := write_spec h.toWellFormed hroom
  rw [hcopy] at hv'
  cases hv'
  constructor
  · exact ⟨hwf, h.reserve⟩
  · rw [List.nil_append, hcont]

theorem passes_readFd {avail : Option Bytes} {n : Int} (h : b.Whole)
    (hread : b.readFd avail = .ok (n, c)) :
    Passes b c ((avail.map b.received).getD []) [] := by
  obtain ⟨hwf, hcont⟩ := readFd_wellFormed h.toWellFormed hread
  constructor
  · exact ⟨hwf, reserve_of_readFd h.reserve hread⟩
  · rw [List.nil_append, hcont]

theorem passes_retrieve (h : b.Whole) (hret : b.retrieve len = .ok c) :
    Passes b c [] (b.content.take len) := by
  obtain ⟨hwf, hcont, _⟩ := retrieve_wellFormed h.toWellFormed hret
  constructor
  · exact ⟨hwf, reserve_of_retrieve h.reserve hret⟩
  · rw [List.append_nil, hcont, List.take_append_drop]

theorem passes_retrieveAsString (h : b.Whole) (hret : b.retrieveAsString len = .ok (got, c)) :
    Passes b c [] got := by
  unfold retrieveAsString at hret
  split at hret
  · cases hret
  next hle =>
    obtain ⟨c', hc', heq⟩ := ok_of_bind hret
    cases heq
    have hgot : window b.buffer_ b.readIndex_ len = b.content.take len := by
      rw [content, window, window, List.take_take, Nat.min_eq_left (by omega)]
    rw [hgot]
    exact passes_retrieve h hc'

theorem passes_retrieveAll (h : b.Whole) : Passes b b.retrieveAll [] b.content := by
  constructor
  · exact ⟨retrieveAll_wellFormed h.toWellFormed, le_rfl⟩
  · simp [content, readableBytes, retrieveAll]

theorem passes_run {o : FifoOp} (h : b.Whole) (hrange : o.InRange b)
    (hrun : o.run b = .ok (got, c)) :
    Passes b c (o.put b) got := by
  cases o with
  | append | appendInt64 | appendInt32 | appendInt16 | appendInt8 =>
    obtain ⟨c', hc', heq⟩ := ok_of_map hrun
    cases heq
    exact passes_append h hc'
  | ensureWritableBytes len =>
    obtain ⟨c', hc', heq⟩ := ok_of_map hrun
    cases heq
    exact passes_ensure h hrange hc'
  | write data =>
    obtain ⟨c', hc', heq⟩ := ok_of_map hrun
    cases heq
    exact passes_write h hc'
  | readFd avail =>
    obtain ⟨⟨n, c'⟩, hc', heq⟩ := ok_of_map hrun
    cases heq
    exact passes_readFd h hc'
  | retrieve len =>
    obtain ⟨c', hc', heq⟩ := ok_of_map hrun
    cases heq
    exact passes_retrieve h hc'
  | retrieveUntil stop =>
    obtain ⟨c', hc', heq⟩ := ok_of_map hrun
    cases heq
    unfold retrieveUntil at hc'
    split at hc'
    · exact passes_retrieve h hc'
    · cases hc'
  | retrieveAll =>
    cases hrun
    exact passes_retrieveAll h
  -- these two return what they take away
  | retrieveAsString len => exact passes_retrieveAsString h hrun
  | retrieveAllAsString => exact passes_retrieveAsString h hrun

/-! ## Calls that fail -/

theorem resize_error {v : Bytes} {n : Nat} {e : Failure} (h : resize v n = .error e) :
    e = .lengthError := by
  unfold resize at h
  split at h
  · cases h
  · cases h
    rfl

theorem ensure_error {e : Failure} (h : b.Whole) (herr : b.ensureWritableBytes len = .error e) :
    e = .lengthError := by
  obtain ⟨v, hv, _, _⟩ := compact_of_le h.toWellFormed h.reserve
  unfold ensureWritableBytes makeSpace at herr
  rw [hv] at herr
  split at herr
  · split at herr
    · simp only [bind, Except.bind] at herr
      split at herr
      next hresize =>
        cases herr
        exact resize_error hresize
      · cases herr
    · cases herr
  · cases herr

theorem append_error {e : Failure} (h : b.Whole) (hlen : data.length ≤ maxSize)
    (herr : b.append data = .error e) : e = .lengthError := by
  rcases append_of_reserve h.toWellFormed h.reserve hlen with ⟨c, hc, _⟩ | ⟨hc, _⟩
  · rw [hc] at herr
    cases herr
  · rw [hc] at herr
    cases herr
    rfl

theorem write_returns (h : b.Whole) (hroom : data.length ≤ b.writableBytes) :
    ∃ c, b.write data = .ok c := by
  obtain ⟨v, hv, _⟩ := write_spec h.toWellFormed hroom
  exact ⟨hasWritten { b with buffer_ := v } data.length, by rw [write, hv]; rfl⟩

theorem readFd_error {avail : Option Bytes} {e : Failure} (h : b.Whole)
    (herr : b.readFd avail = .error e) : e = .lengthError := by
  cases avail with
  | none => cases herr
  | some bytes =>
    simp only [readFd] at herr
    have hfill : ((b.received bytes).take b.writableBytes).length ≤ b.writableBytes := by
      rw [List.length_take]
      omega
    obtain ⟨v, hv, hwf, _⟩ := write_spec h.toWellFormed hfill
    rw [hv] at herr
    simp only [bind, Except.bind] at herr
    split at herr
    · cases herr
    next hspills =>
      split at herr
      next e' happ =>
        cases herr
        have hrest : ((b.received bytes).drop b.writableBytes).length ≤ maxSize := by
          have hx : extraBufSize ≤ maxSize := by decide
          rw [List.length_drop, received, List.length_take]
          split <;> omega
        -- what the spill is appended to is the buffer filled up to its end
        have hfull : Whole { b with buffer_ := v, writeIndex_ := v.length } := by
          have hsize := (copyInto_ok hv).2
          constructor
          · exact ⟨h.reserved.trans (hsize ▸ h.write_le),
              h.read_le.trans (hsize ▸ h.write_le), le_rfl, hsize ▸ h.size_le⟩
          · exact h.reserve
        exact append_error hfull hrest happ
      · cases herr

theorem retrieve_returns (hlen : len ≤ b.readableBytes) : ∃ c, b.retrieve len = .ok c := by
  unfold retrieve
  rw [if_neg (by omega)]
  split
  · exact ⟨_, rfl⟩
  · exact ⟨_, rfl⟩

theorem retrieveAsString_returns (hlen : len ≤ b.readableBytes) :
    ∃ r, b.retrieveAsString len = .ok r := by
  obtain ⟨c, hc⟩ := retrieve_returns hlen
  unfold retrieveAsString
  rw [if_neg (by omega), hc]
  exact ⟨_, rfl⟩

theorem error_of_map {α β : Type} {x : Except Failure α} {f : α → β} {e : Failure}
    (h : x.map f = .error e) : x = .error e := by
  cases x with
  | error e' =>
    cases h
    rfl
  | ok a => cases h

theorem not_error {α : Type} {x : Except Failure α} {e : Failure} (h : ∃ r, x = .ok r) :
    x ≠ .error e := by
  obtain ⟨r, hr⟩ := h
  rw [hr]
  exact fun heq ↦ by cases heq

/-- What callers see to is enough for every assertion, and for every copy to stay in the vector. -/
theorem run_error {o : FifoOp} {e : Failure} (h : b.Whole) (hallowed : o.Allowed b)
    (herr : o.run b = .error e) : e = .lengthError := by
  have hint : ∀ n (x : BitVec (8 * n)), n ≤ 8 → (hostToNetwork n x).length ≤ maxSize := by
    intro n x hn
    rw [length_hostToNetwork]
    exact hn.trans (by decide)
  cases o with
  | append data => exact append_error h hallowed (error_of_map herr)
  | appendInt64 x => exact append_error h (hint 8 x (by decide)) (error_of_map herr)
  | appendInt32 x => exact append_error h (hint 4 x (by decide)) (error_of_map herr)
  | appendInt16 x => exact append_error h (hint 2 x (by decide)) (error_of_map herr)
  | appendInt8 x => exact append_error h (hint 1 x (by decide)) (error_of_map herr)
  | ensureWritableBytes len => exact ensure_error h (error_of_map herr)
  | write data => exact absurd (error_of_map herr) (not_error (write_returns h hallowed))
  | readFd avail => exact readFd_error h (error_of_map herr)
  | retrieve len => exact absurd (error_of_map herr) (not_error (retrieve_returns hallowed))
  | retrieveUntil stop =>
    have hstop := error_of_map herr
    obtain ⟨hpos, hle⟩ : 0 < stop ∧ stop ≤ b.readableBytes := hallowed
    rw [retrieveUntil, if_pos ⟨hpos, hle⟩] at hstop
    exact absurd hstop (not_error (retrieve_returns (by omega)))
  | retrieveAll => cases herr
  | retrieveAsString len => exact absurd herr (not_error (retrieveAsString_returns hallowed))
  | retrieveAllAsString => exact absurd herr (not_error (retrieveAsString_returns le_rfl))

/-! ## `ensureWritableBytes` -/

theorem length_of_resize {v w : Bytes} {n : Nat} (h : resize v n = .ok w) : w.length = n := by
  unfold resize at h
  split at h
  · cases h
    simp only [List.length_append, List.length_take, List.length_replicate]
    omega
  · cases h

/-- Whatever happens to the size, the space is made behind the readable bytes. -/
theorem makeSpace_length (h : b.Whole) (hlen : len < 2 ^ 64)
    (hwraps : 2 ^ 64 ≤ kPrePrePend + b.readableBytes + len) (hspace : b.makeSpace len = .ok c) :
    c.writeIndex_ = kPrePrePend + b.readableBytes ∧
      (c.buffer_.length < c.writeIndex_ ∨ c.writableBytes < len) := by
  obtain ⟨v, hv, hvlen, _⟩ := compact_of_le h.toWellFormed h.reserve
  have hread := h.read_le
  have hwrite := h.write_le
  have hsize := h.size_le
  have hmax : maxSize = 2 ^ 63 - 1 := rfl
  have hpre : kPrePrePend = 8 := rfl
  have hreadable : b.readableBytes = b.writeIndex_ - b.readIndex_ := rfl
  have hreserve := h.reserve
  unfold makeSpace at hspace
  rw [hv] at hspace
  split at hspace
  · obtain ⟨c', hc', hresize⟩ := ok_of_bind hspace
    cases hc'
    obtain ⟨w, hw, heq⟩ := ok_of_bind hresize
    cases heq
    constructor
    · rfl
    · left
      -- the sum wraps once, and the vector is cut to what is left of it
      have hsum : sizeT (kPrePrePend + b.readableBytes + len) =
          kPrePrePend + b.readableBytes + len - 2 ^ 64 := by
        unfold sizeT
        omega
      have hcut := length_of_resize hw
      change w.length < kPrePrePend + b.readableBytes
      rw [hcut]
      change sizeT (kPrePrePend + b.readableBytes + len) < kPrePrePend + b.readableBytes
      omega
  · cases hspace
    constructor
    · rfl
    · -- moving the content to the front leaves the vector as long as it was
      right
      rw [writableBytes_eq]
      · dsimp only
        omega
      · dsimp only
        omega

/-- Where `ensureWritableBytes` returns, there is room in the layout exactly if its sums are a
`size_t`. -/
theorem ensure_meets_iff (h : b.Whole) (hlen : len < 2 ^ 64)
    (hens : b.ensureWritableBytes len = .ok c) :
    c.Layout ∧ len ≤ c.writableBytes ↔ (FifoOp.ensureWritableBytes len).InRange b := by
  constructor
  · intro hroom hshort
    by_contra hwraps
    rw [ensureWritableBytes, if_pos hshort] at hens
    have hcut := (makeSpace_length h hlen (by omega) hens).2
    have hlayout := hroom.1.write_le
    omega
  · intro hrange
    obtain ⟨hwf, _, hroom⟩ :=
      ensureWritableBytes_wellFormed h.toWellFormed (fun hlt _ ↦ hrange hlt) hens
    exact ⟨⟨reserve_of_ensure h.reserve hens, hwf.read_le, hwf.write_le⟩, hroom⟩

/-! ## Runs -/

/-- The buffer holds, in order, what has been put into it and not yet been taken out. -/
def Traced.Holds (t : Traced) : Prop :=
  t.got ++ t.buffer.content = t.put

def Sound (t : Traced) : Prop :=
  t.buffer.Whole ∧ t.Holds

theorem sound_of_step {s t : ι → Traced} {l : FifoCall ι} (hs : ∀ i, Sound (s i))
    (hstep : FifoStep s l t) (hrange : l.InRange s) : ∀ i, Sound (t i) := by
  cases l with
  | op i o =>
    obtain ⟨⟨got, c⟩, hrun, heq⟩ := ok_of_bind hstep
    cases heq
    have hpasses := passes_run (hs i).1 hrange hrun
    intro k
    dsimp only
    by_cases hk : k = i
    · rw [if_pos hk]
      constructor
      · exact hpasses.whole
      · have hholds : (s i).got ++ (s i).buffer.content = (s i).put := (hs i).2
        change (s i).got ++ got ++ c.content = (s i).put ++ o.put (s i).buffer
        rw [List.append_assoc, ← hpasses.content, ← List.append_assoc, hholds]
    · rw [if_neg hk]
      exact hs k
  | swap i j =>
    cases hstep
    intro k
    dsimp only
    by_cases hi : k = i
    · rw [if_pos hi]
      exact hs j
    · rw [if_neg hi]
      by_cases hj : k = j
      · rw [if_pos hj]
        exact hs i
      · rw [if_neg hj]
        exact hs k

/-- Buffers of any initial sizes that are a `size_t` together with the reserve. -/
structure Built (size : ι → Nat) (s : ι → Traced) : Prop where
  inRange : ∀ i, kPrePrePend + size i < 2 ^ 64
  new : ∀ i, Buffer.new (size i) = .ok (s i).buffer
  untouched : ∀ i, (s i).put = [] ∧ (s i).got = []

omit [DecidableEq ι] in
theorem sound_built {size : ι → Nat} {s : ι → Traced} (h : Built size s) (i : ι) : Sound (s i) := by
  obtain ⟨hwhole, hempty⟩ := new_whole (h.inRange i) (h.new i)
  constructor
  · exact hwhole
  · rw [Traced.Holds, hempty, (h.untouched i).1, (h.untouched i).2, List.append_nil]

theorem sound_of_run {size : ι → Nat} {s₀ s : ι → Traced} {ls : List (FifoCall ι)}
    (hbuilt : Built size s₀)
    (h : Run (Guarded FifoStep fun s l ↦ l.InRange s) s₀ ls s) : ∀ i, Sound (s i) := by
  apply h.invariant (fun s ↦ ∀ i, Sound (s i))
  · intro s l t hs hstep
    exact sound_of_step hs hstep.1 hstep.2
  · exact sound_built hbuilt

/-- **Byte FIFO.**  In every run of any number of buffers without `prepend`, with the sizes asked of
them a `size_t`, what has been taken out of a buffer followed by what is readable is what was put
into it, and the layout is the documented one.  A failing `readv` changes no content,
`ensureWritableBytes` makes room in the layout exactly if the size it needs is a `size_t`, and a
call that is allowed fails only when no vector is long enough. -/
theorem fifo {size : ι → Nat} {s₀ s : ι → Traced} {ls : List (FifoCall ι)} (hbuilt : Built size s₀)
    (h : Run (Guarded FifoStep fun s l ↦ l.InRange s) s₀ ls s) (i : ι) :
    (s i).got ++ (s i).buffer.content = (s i).put ∧ (s i).buffer.Layout ∧
      (∀ n c, (s i).buffer.readFd none = .ok (n, c) → c.content = (s i).buffer.content) ∧
      (∀ len c, len < 2 ^ 64 → (s i).buffer.ensureWritableBytes len = .ok c →
        (c.Layout ∧ len ≤ c.writableBytes ↔
        (FifoOp.ensureWritableBytes len).InRange (s i).buffer)) ∧
      ∀ o e, FifoOp.Allowed (s i).buffer o → o.run (s i).buffer = .error e → e = .lengthError := by
  obtain ⟨hwhole, hholds⟩ := sound_of_run hbuilt h i
  refine ⟨hholds, hwhole.layout, ?_, ?_, ?_⟩
  · intro n c hread
    cases hread
    rfl
  · intro len c hlen hens
    exact ensure_meets_iff hwhole hlen hens
  · intro o e hallowed herr
    exact run_error hwhole hallowed herr

/-- `Buffer(8)`, not used yet. -/
def unused : Unit → Traced :=
  fun _ ↦ { buffer := ⟨List.replicate 16 0, 8, 8⟩ }

theorem built_unused : Built (fun _ ↦ 8) unused where
  inRange _ := by decide
  new _ := show Buffer.new 8 = .ok ⟨List.replicate 16 0, 8, 8⟩ by decide
  untouched _ := ⟨rfl, rfl⟩

/-- Three bytes in, one out, and space for six more, which moves the two that are left. -/
theorem fifo_moved :
    ∃ s, Run (Guarded FifoStep fun s l ↦ l.InRange s) unused
        [.op () (.append [1, 2, 3]), .op () (.retrieve 1), .op () (.ensureWritableBytes 6)] s ∧
      (s ()).got ++ (s ()).buffer.content = (s ()).put ∧ (s ()).buffer.Layout ∧
      (∀ n c, (s ()).buffer.readFd none = .ok (n, c) → c.content = (s ()).buffer.content) ∧
      (∀ len c, len < 2 ^ 64 → (s ()).buffer.ensureWritableBytes len = .ok c →
        (c.Layout ∧ len ≤ c.writableBytes ↔
        (FifoOp.ensureWritableBytes len).InRange (s ()).buffer)) ∧
      ∀ o e, FifoOp.Allowed (s ()).buffer o → o.run (s ()).buffer = .error e →
          e = .lengthError := by
  have hrun := show Run (Guarded FifoStep fun s l ↦ l.InRange s) unused
        [.op () (.append [1, 2, 3]), .op () (.retrieve 1), .op () (.ensureWritableBytes 6)] _ from
    .cons ⟨rfl, trivial⟩ <| .cons ⟨rfl, trivial⟩ <| .cons ⟨rfl, fun _ ↦ by decide⟩ <| .nil _
  exact ⟨_, hrun, fifo built_unused hrun ()⟩

/-- `ensureWritableBytes(SIZE_MAX)` returns, and makes no room. -/
theorem ensure_wraps :
    ¬ ∀ (s : Unit → Traced) (ls : List (FifoCall Unit)), Run FifoStep unused ls s →
    ∀ len c, len < 2 ^ 64 →
        (s ()).buffer.ensureWritableBytes len = .ok c → c.Layout ∧ len ≤ c.writableBytes := by
  intro h
  have hroom := h unused [] (.nil _) (2 ^ 64 - 1) ⟨List.replicate 16 0, 8, 8⟩ (by decide)
    (by decide)
  exact absurd hroom.2 (by decide)

end Pallette.Buffer
