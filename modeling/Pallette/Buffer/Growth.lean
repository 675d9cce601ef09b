import Pallette.Buffer

/-!
# Growth — what `append` does when the vector is too short

`makeSpace` moves the readable bytes down to offset `kPrePrePend` and asserts that they were at or
above it.  `prepend` puts them below.  So the buffer can grow exactly while `prepend` has not eaten
into the reserve, and no length has wrapped: `append_meets_iff` is that statement over every
reachable buffer.
-/

open Reasoning

namespace Pallette.Buffer

variable {b c : Buffer} {data : Bytes} {len : Nat}

/-- The layout in the picture of `Buffer.h`. -/
structure WellFormed (b : Buffer) : Prop where
  reserved : kPrePrePend ≤ b.writeIndex_
  read_le : b.readIndex_ ≤ b.writeIndex_
  write_le : b.writeIndex_ ≤ b.buffer_.length
  size_le : b.buffer_.length ≤ maxSize

theorem writableBytes_eq (h : b.writeIndex_ ≤ b.buffer_.length) :
    b.writableBytes = b.buffer_.length - b.writeIndex_ :=
  if_pos h

theorem WellFormed.length_content (h : b.WellFormed) : b.content.length = b.readableBytes := by
  have hr := h.read_le
  have hw := h.write_le
  apply length_window
  unfold readableBytes
  omega

/-- Lengths of memory that can exist add up to a `size_t`. -/
theorem WellFormed.sum_lt (h : b.WellFormed) (hr : kPrePrePend ≤ b.readIndex_)
    (hlen : len ≤ maxSize) :
    kPrePrePend + b.readableBytes + len < 2 ^ 64 := by
  have hw := h.write_le
  have hsz := h.size_le
  have hmax : maxSize = 2 ^ 63 - 1 := rfl
  have hpre : kPrePrePend = 8 := rfl
  have hread : b.readableBytes = b.writeIndex_ - b.readIndex_ := rfl
  omega

/-! ## The steps of `makeSpace` -/

theorem compact_of_le (h : b.WellFormed) (hr : kPrePrePend ≤ b.readIndex_) :
    ∃ v, b.compact = .ok ⟨v, kPrePrePend, kPrePrePend + b.readableBytes⟩ ∧
      v.length = b.buffer_.length ∧ window v kPrePrePend b.readableBytes = b.content := by
  have hrw := h.read_le
  have hw := h.write_le
  have hlen := h.length_content
  have hfit : kPrePrePend + b.content.length ≤ b.buffer_.length := by
    rw [hlen]
    unfold readableBytes
    omega
  refine ⟨overwrite b.buffer_ kPrePrePend b.content, ?_, length_overwrite hfit, ?_⟩
  · have hwhole : ¬ b.content.length < b.readableBytes := by omega
    simp [compact, copyInto, hr, hwhole, hfit, bind, Except.bind, pure, Except.pure]
  · rw [← hlen]
    exact window_overwrite_self hfit

theorem makeSpace_of_lt (hr : b.readIndex_ < kPrePrePend) :
    b.makeSpace len = .error .assertion := by
  have hn : ¬ kPrePrePend ≤ b.readIndex_ := by omega
  have hc : b.compact = .error .assertion := by
    simp [compact, hn, bind, Except.bind, throw, throwThe, MonadExceptOf.throw]
  unfold makeSpace
  split
  · rw [hc]
    rfl
  · exact hc

theorem resize_grow {v : Bytes} {n : Nat} (hlen : v.length ≤ n) (hn : n ≤ maxSize) :
    resize v n = .ok (v ++ List.replicate (n - v.length) 0) := by
  rw [resize, if_pos hn, List.take_of_length_le hlen]

/-- A content of `n` bytes right behind the reserve. -/
theorem front_spec {v : Bytes} {n : Nat} (hfits : kPrePrePend + n + len ≤ v.length)
    (hmax : v.length ≤ maxSize) :
    WellFormed ⟨v, kPrePrePend, kPrePrePend + n⟩ ∧
      content ⟨v, kPrePrePend, kPrePrePend + n⟩ = window v kPrePrePend n ∧
      len ≤ writableBytes ⟨v, kPrePrePend, kPrePrePend + n⟩ := by
  have hwrite : kPrePrePend + n ≤ v.length := by omega
  refine ⟨⟨Nat.le_add_right _ _, Nat.le_add_right _ _, hwrite, hmax⟩, ?_, ?_⟩
  · show window v kPrePrePend (kPrePrePend + n - kPrePrePend) = _
    rw [Nat.add_sub_cancel_left]
  · rw [writableBytes_eq hwrite]
    dsimp only
    omega

/-- With the readable bytes above the reserve, `makeSpace` keeps them and makes room, unless no
vector is long enough for the result. -/
theorem makeSpace_spec (h : b.WellFormed) (hr : kPrePrePend ≤ b.readIndex_)
    (hlen : kPrePrePend + b.readableBytes + len < 2 ^ 64) :
    (∃ c, b.makeSpace len = .ok c ∧ c.WellFormed ∧ kPrePrePend ≤ c.readIndex_ ∧
      c.content = b.content ∧ len ≤ c.writableBytes) ∨
    (b.makeSpace len = .error .lengthError ∧
      maxSize < kPrePrePend + b.readableBytes + len) := by
  rcases compact_of_le h hr with ⟨v, hv, hvlen, hcont⟩
  have hrw := h.read_le
  have hw := h.write_le
  have hsz := h.size_le
  have hmax : maxSize = 2 ^ 63 - 1 := rfl
  have hpre : kPrePrePend = 8 := rfl
  have hread : b.readableBytes = b.writeIndex_ - b.readIndex_ := rfl
  have hwrap : sizeT (len + kPrePrePend) = len + kPrePrePend := sizeT_of_lt (by omega)
  have hroom : sizeT (b.writableBytes + b.prependableBytes) =
      b.buffer_.length - b.writeIndex_ + b.readIndex_ := by
    rw [writableBytes_eq hw]
    apply sizeT_of_lt
    unfold prependableBytes
    omega
  unfold makeSpace
  rw [hwrap, hroom]
  split
  next hshort =>
    -- the content does not fit in front either: the vector grows
    have hnew : sizeT (kPrePrePend + b.readableBytes + len) =
        kPrePrePend + b.readableBytes + len := sizeT_of_lt hlen
    rw [hv]
    simp only [bind, Except.bind, hnew]
    by_cases hfit : kPrePrePend + b.readableBytes + len ≤ maxSize
    · left
      have hlength : (v ++ List.replicate (kPrePrePend + b.readableBytes + len - v.length)
        0).length =
          kPrePrePend + b.readableBytes + len := by
        rw [List.length_append, List.length_replicate]
        omega
      obtain ⟨hwf, hfront, hwritable⟩ :=
        front_spec (Nat.le_of_eq hlength.symm) (Nat.le_trans (Nat.le_of_eq hlength) hfit)
      rw [resize_grow (by omega) hfit]
      refine ⟨_, rfl, hwf, le_rfl, ?_, hwritable⟩
      rw [hfront, window_append_left (by omega), hcont]
    · right
      rw [resize, if_neg hfit]
      exact ⟨rfl, by omega⟩
  next hlong =>
    -- moving the content to the front makes enough room
    left
    obtain ⟨hwf, hfront, hwritable⟩ := @front_spec len v b.readableBytes (by omega) (by omega)
    exact ⟨_, hv, hwf, le_rfl, hfront.trans hcont, hwritable⟩

/-! ## `append` -/

/-- Writing into free space that is long enough. -/
theorem write_spec (h : c.WellFormed) (hroom : data.length ≤ c.writableBytes) :
    ∃ v, copyInto c.buffer_ c.writeIndex_ data = .ok v ∧
      (hasWritten { c with buffer_ := v } data.length).WellFormed ∧
      (hasWritten { c with buffer_ := v } data.length).content = c.content ++ data := by
  have hres := h.reserved
  have hrw := h.read_le
  have hw := h.write_le
  have hsz := h.size_le
  have hfit : c.writeIndex_ + data.length ≤ c.buffer_.length := by
    rw [writableBytes_eq hw] at hroom
    omega
  have hvlen : (overwrite c.buffer_ c.writeIndex_ data).length = c.buffer_.length :=
    length_overwrite hfit
  refine ⟨overwrite c.buffer_ c.writeIndex_ data, by rw [copyInto, if_pos hfit],
    ⟨?_, ?_, ?_, ?_⟩, ?_⟩
  · show kPrePrePend ≤ c.writeIndex_ + data.length
    omega
  · show c.readIndex_ ≤ c.writeIndex_ + data.length
    omega
  · show c.writeIndex_ + data.length ≤ (overwrite c.buffer_ c.writeIndex_ data).length
    omega
  · show (overwrite c.buffer_ c.writeIndex_ data).length ≤ maxSize
    omega
  · show window (overwrite c.buffer_ c.writeIndex_ data) c.readIndex_
      (c.writeIndex_ + data.length - c.readIndex_) = c.content ++ data
    rw [show c.writeIndex_ + data.length - c.readIndex_ = c.readableBytes + data.length by
      unfold readableBytes
      omega, window_add]
    have hsum : c.readIndex_ + c.readableBytes = c.writeIndex_ := by
      unfold readableBytes
      omega
    rw [window_overwrite_before (by omega) hw, hsum, window_overwrite_self hfit]
    rfl

theorem append_of_le (h : b.WellFormed) (hroom : data.length ≤ b.writableBytes) :
    ∃ b', b.append data = .ok b' ∧ b'.WellFormed ∧ b'.readIndex_ = b.readIndex_ ∧
      b'.content = b.content ++ data := by
  rcases write_spec h hroom with ⟨v, hv, hwf, hcont⟩
  refine ⟨_, ?_, hwf, rfl, hcont⟩
  rw [append, ensureWritableBytes, if_neg (by omega)]
  simp only [bind, Except.bind, hv]
  rfl

/-- The reserve stays whole, and only `max_size()` is in the way. -/
theorem append_of_reserve (h : b.WellFormed) (hr : kPrePrePend ≤ b.readIndex_)
    (hlen : data.length ≤ maxSize) :
    (∃ b', b.append data = .ok b' ∧ b'.WellFormed ∧ kPrePrePend ≤ b'.readIndex_ ∧
      b'.content = b.content ++ data) ∨
    (b.append data = .error .lengthError ∧
      maxSize < kPrePrePend + b.readableBytes + data.length) := by
  by_cases hroom : data.length ≤ b.writableBytes
  · rcases append_of_le h hroom with ⟨b', hb', hwf, hread, hcont⟩
    exact .inl ⟨b', hb', hwf, hread ▸ hr, hcont⟩
  · rcases makeSpace_spec h hr (h.sum_lt hr hlen) with ⟨c, hc, hcwf, hcr, hcont,
      hcroom⟩ | ⟨hc, hmax⟩
    · left
      rcases write_spec hcwf hcroom with ⟨v, hv, hwf, hcont'⟩
      refine ⟨_, ?_, hwf, hcr, by rw [hcont', hcont]⟩
      rw [append, ensureWritableBytes, if_pos (by omega), hc]
      simp only [bind, Except.bind, hv]
      rfl
    · right
      refine ⟨?_, hmax⟩
      rw [append, ensureWritableBytes, if_pos (by omega), hc]
      rfl

theorem append_of_prepended (hroom : b.writableBytes < data.length)
    (hr : b.readIndex_ < kPrePrePend) : b.append data = .error .assertion := by
  rw [append, ensureWritableBytes, if_pos hroom, makeSpace_of_lt hr]
  rfl

/-! ## Reachable buffers -/

/-- The calls a program makes on a buffer, `swap` apart. -/
inductive Op
  | append (data : Bytes)
  | appendInt64 (x : BitVec 64)
  | appendInt32 (x : BitVec 32)
  | appendInt16 (x : BitVec 16)
  | appendInt8 (x : BitVec 8)
  | ensureWritableBytes (len : Nat)
  | readFd (avail : Option Bytes)
  | retrieve (len : Nat)
  | retrieveAll
  | prepend (data : Bytes)
  | prependInt64 (x : BitVec 64)
  | prependInt32 (x : BitVec 32)
  | prependInt16 (x : BitVec 16)
  | prependInt8 (x : BitVec 8)

def Op.apply : Op → Buffer → Except Failure Buffer
  | append data, b => b.append data
  | appendInt64 x, b => b.appendInt64 x
  | appendInt32 x, b => b.appendInt32 x
  | appendInt16 x, b => b.appendInt16 x
  | appendInt8 x, b => b.appendInt8 x
  | ensureWritableBytes len, b => b.ensureWritableBytes len
  | readFd avail, b => (b.readFd avail).map Prod.snd
  | retrieve len, b => b.retrieve len
  | retrieveAll, b => .ok b.retrieveAll
  | prepend data, b => b.prepend data
  | prependInt64 x, b => b.prependInt64 x
  | prependInt32 x, b => b.prependInt32 x
  | prependInt16 x, b => b.prependInt16 x
  | prependInt8 x, b => b.prependInt8 x

/-- The buffers a program can hold: built with any size and worked on by any calls that returned. -/
inductive Reachable : Buffer → Prop
  | new {n : Nat} {b : Buffer} : n < 2 ^ 64 → Buffer.new n = .ok b → Reachable b
  | op {b b' : Buffer} (o : Op) : Reachable b → o.apply b = .ok b' → Reachable b'
  | swap {b rhs : Buffer} : Reachable b → Reachable rhs → Reachable (b.swap rhs).1

theorem new_wellFormed {n : Nat} (hn : kPrePrePend + n < 2 ^ 64) (h : Buffer.new n = .ok b) :
    b.WellFormed := by
  rw [Buffer.new, sizeT_of_lt hn, resize] at h
  by_cases hmax : kPrePrePend + n ≤ maxSize
  · simp only [if_pos hmax, bind, Except.bind, pure, Except.pure, Except.ok.injEq] at h
    subst h
    refine ⟨le_rfl, le_rfl, ?_, ?_⟩ <;>
      simp only [List.take_nil, List.length_nil, List.nil_append, List.length_replicate] <;> omega
  · simp only [if_neg hmax, bind, Except.bind, reduceCtorEq] at h

theorem append_wellFormed (h : b.WellFormed) (hlen : data.length ≤ maxSize)
    (happ : b.append data = .ok c) : c.WellFormed ∧ c.content = b.content ++ data := by
  by_cases hroom : data.length ≤ b.writableBytes
  · rcases append_of_le h hroom with ⟨b', hb', hwf, _, hcont⟩
    rw [hb'] at happ
    cases happ
    exact ⟨hwf, hcont⟩
  · by_cases hr : kPrePrePend ≤ b.readIndex_
    · rcases append_of_reserve h hr hlen with ⟨b', hb', hwf, _, hcont⟩ | ⟨herr, _⟩
      · rw [hb'] at happ
        cases happ
        exact ⟨hwf, hcont⟩
      · rw [herr] at happ
        cases happ
    · rw [append_of_prepended (by omega) (by omega)] at happ
      cases happ

theorem copyInto_ok {v w : Bytes} {i : Nat} (h : copyInto v i data = .ok w) :
    i + data.length ≤ v.length ∧ w.length = v.length := by
  unfold copyInto at h
  split at h
  next hfit =>
    cases h
    exact ⟨hfit, length_overwrite hfit⟩
  next => cases h

theorem compact_ok (h : b.compact = .ok c) :
    ∃ v, copyInto b.buffer_ kPrePrePend b.content = .ok v ∧ kPrePrePend ≤ b.readIndex_ ∧
      c = ⟨v, kPrePrePend, kPrePrePend + b.readableBytes⟩ := by
  by_cases hread : kPrePrePend ≤ b.readIndex_
  · by_cases hshort : b.content.length < b.readableBytes
    · simp [compact, hread, hshort, bind, Except.bind, throw, throwThe,
        MonadExceptOf.throw] at h
    · rw [compact, if_neg (not_not.mpr hread), if_neg hshort] at h
      obtain ⟨v, hv, heq⟩ := ok_of_bind h
      cases heq
      exact ⟨v, hv, hread, rfl⟩
  · simp [compact, hread, bind, Except.bind, throw, throwThe, MonadExceptOf.throw] at h

/-- However long the space asked for, the vector stays one that can exist. -/
theorem ensureWritableBytes_size (h : b.buffer_.length ≤ maxSize)
    (hens : b.ensureWritableBytes len = .ok c) : c.buffer_.length ≤ maxSize := by
  -- compaction moves bytes within the vector
  have hcompact : ∀ {c : Buffer}, b.compact = .ok c → c.buffer_.length ≤ maxSize := by
    intro c hc
    obtain ⟨v, hv, -, rfl⟩ := compact_ok hc
    exact (copyInto_ok hv).2.trans_le h
  unfold ensureWritableBytes makeSpace at hens
  split at hens
  next =>
    split at hens
    next =>
      simp only [bind, Except.bind] at hens
      split at hens
      next => cases hens
      next =>
        unfold resize at hens
        split at hens
        next => cases hens
        next v hv =>
          split at hv
          next hmax =>
            cases hv
            cases hens
            simp only [List.length_append, List.length_take, List.length_replicate]
            omega
          next => cases hv
    next => exact hcompact hens
  next =>
    cases hens
    exact h

/-- What could not be in memory is not appended. -/
theorem length_le_of_append (h : b.WellFormed) (happ : b.append data = .ok c) :
    data.length ≤ maxSize := by
  obtain ⟨c', hens, hcopy⟩ := ok_of_bind happ
  obtain ⟨v, hv, _⟩ := ok_of_bind hcopy
  have hfit := (copyInto_ok hv).1
  have hsize := ensureWritableBytes_size h.size_le hens
  omega

theorem append_ok (h : b.WellFormed) (happ : b.append data = .ok c) :
    c.WellFormed ∧ c.content = b.content ++ data :=
  append_wellFormed h (length_le_of_append h happ) happ

/-- One piece after the other. -/
theorem appends_ok {ds : List Bytes} (h : b.WellFormed) (happ : ds.foldlM append b = .ok c) :
    c.WellFormed ∧ c.content = b.content ++ ds.flatten := by
  induction ds generalizing b with
  | nil =>
    cases happ
    exact ⟨h, by simp⟩
  | cons d ds ih =>
    rw [List.foldlM_cons] at happ
    cases hd : b.append d with
    | error e =>
      rw [hd] at happ
      cases happ
    | ok b' =>
      rw [hd] at happ
      rcases append_ok h hd with ⟨hwf, hcont⟩
      rcases ih hwf happ with ⟨hwf', hcont'⟩
      exact ⟨hwf', by rw [hcont', hcont, List.append_assoc, List.flatten_cons]⟩

/-- With the reserve whole, what a vector can hold is appended. -/
theorem appends_return {ds : List Bytes} (h : b.WellFormed) (hr : kPrePrePend ≤ b.readIndex_)
    (hfits : kPrePrePend + (b.content ++ ds.flatten).length ≤ maxSize) :
    ∃ c, ds.foldlM append b = .ok c := by
  induction ds generalizing b with
  | nil => exact ⟨b, rfl⟩
  | cons d ds ih =>
    have hcontent := h.length_content
    simp only [List.flatten_cons, List.length_append] at hfits
    have hd : d.length ≤ maxSize := by omega
    rcases append_of_reserve h hr hd with ⟨b', hb', hwf, hr', hcont⟩ | ⟨_, hmax⟩
    · rw [List.foldlM_cons, hb']
      apply ih hwf hr'
      rw [hcont]
      simp only [List.length_append]
      omega
    · omega

/-- Nothing to read means that the reserve is whole. -/
theorem WellFormed.reserve_of_empty (h : b.WellFormed) (hempty : b.content = []) :
    kPrePrePend ≤ b.readIndex_ := by
  have hlength := h.length_content
  have hreserved := h.reserved
  rw [hempty, List.length_nil] at hlength
  unfold readableBytes at hlength
  omega

theorem ensureWritableBytes_wellFormed (h : b.WellFormed)
    (hlen : b.writableBytes < len → kPrePrePend ≤ b.readIndex_ →
      kPrePrePend + b.readableBytes + len < 2 ^ 64)
    (hens : b.ensureWritableBytes len = .ok c) :
    c.WellFormed ∧ c.content = b.content ∧ len ≤ c.writableBytes := by
  unfold ensureWritableBytes at hens
  split at hens
  next hshort =>
    by_cases hr : kPrePrePend ≤ b.readIndex_
    · rcases makeSpace_spec h hr (hlen hshort hr) with ⟨b', hb', hwf, _, hcont, hroom⟩ | ⟨herr, _⟩
      · rw [hb'] at hens
        cases hens
        exact ⟨hwf, hcont, hroom⟩
      · rw [herr] at hens
        cases hens
    · rw [makeSpace_of_lt (by omega)] at hens
      cases hens
  next hroom =>
    cases hens
    exact ⟨h, rfl, by omega⟩

theorem retrieveAll_wellFormed (h : b.WellFormed) : b.retrieveAll.WellFormed := by
  have hres := h.reserved
  have hw := h.write_le
  exact ⟨le_rfl, le_rfl, hres.trans hw, h.size_le⟩

theorem retrieve_wellFormed (h : b.WellFormed) (hret : b.retrieve len = .ok c) :
    c.WellFormed ∧ c.content = b.content.drop len ∧ len ≤ b.readableBytes := by
  unfold retrieve at hret
  split at hret
  next => cases hret
  next hle =>
    split at hret
    next hlt =>
      cases hret
      have hsum : b.readableBytes = b.writeIndex_ - b.readIndex_ := rfl
      refine ⟨⟨h.reserved, ?_, h.write_le, h.size_le⟩, ?_, by omega⟩
      · show b.readIndex_ + len ≤ b.writeIndex_
        omega
      · show window b.buffer_ (b.readIndex_ + len) (b.writeIndex_ - (b.readIndex_ + len)) =
          (window b.buffer_ b.readIndex_ b.readableBytes).drop len
        rw [window, window, List.drop_take, List.drop_drop, hsum, Nat.sub_sub]
    next hge =>
      cases hret
      refine ⟨retrieveAll_wellFormed h, ?_, by omega⟩
      rw [List.drop_eq_nil_of_le (by rw [h.length_content]; omega)]
      show window b.buffer_ kPrePrePend (kPrePrePend - kPrePrePend) = []
      rw [Nat.sub_self, window_zero]

theorem prepend_wellFormed (h : b.WellFormed) (hpre : b.prepend data = .ok c) :
    c.WellFormed ∧ c.content = data ++ b.content := by
  have hres := h.reserved
  have hrw := h.read_le
  have hw := h.write_le
  have hsz := h.size_le
  unfold prepend at hpre
  by_cases hlen : b.readIndex_ < data.length
  · simp [hlen, bind, Except.bind, throw, throwThe, MonadExceptOf.throw] at hpre
  · have hfit : b.readIndex_ - data.length + data.length ≤ b.buffer_.length := by omega
    simp only [hlen, if_false, copyInto, if_pos hfit, bind, Except.bind, pure, Except.pure,
      Except.ok.injEq] at hpre
    subst hpre
    have hvlen := length_overwrite hfit
    refine ⟨⟨hres, ?_, ?_, ?_⟩, ?_⟩
    · show b.readIndex_ - data.length ≤ b.writeIndex_
      omega
    · show b.writeIndex_ ≤ (overwrite b.buffer_ (b.readIndex_ - data.length) data).length
      omega
    · show (overwrite b.buffer_ (b.readIndex_ - data.length) data).length ≤ maxSize
      omega
    · show window (overwrite b.buffer_ (b.readIndex_ - data.length) data)
        (b.readIndex_ - data.length) (b.writeIndex_ - (b.readIndex_ - data.length)) =
        data ++ window b.buffer_ b.readIndex_ b.readableBytes
      rw [show b.writeIndex_ - (b.readIndex_ - data.length) = data.length + b.readableBytes by
        unfold readableBytes
        omega, window_add, window_overwrite_self hfit,
        show b.readIndex_ - data.length + data.length = b.readIndex_ by omega,
        window_overwrite_after (by omega) (by omega)]

/-- What `readFd` leaves in the buffer on the stack. -/
theorem length_spilled_le (b : Buffer) (bytes : Bytes) :
    ((b.received bytes).drop b.writableBytes).length ≤ maxSize := by
  have hlength : (b.received bytes).length ≤ b.writableBytes + extraBufSize := by
    rw [received, List.length_take]
    split <;> omega
  have hextra : extraBufSize ≤ maxSize := by decide
  rw [List.length_drop]
  omega

theorem readFd_wellFormed {avail : Option Bytes} {n : Int} (h : b.WellFormed)
    (hread : b.readFd avail = .ok (n, c)) :
    c.WellFormed ∧ c.content = b.content ++ (avail.map b.received).getD [] := by
  cases avail with
  | none =>
    cases hread
    exact ⟨h, by simp⟩
  | some bytes =>
    simp only [readFd] at hread
    generalize hgot : b.received bytes = got at hread
    have hfill : (got.take b.writableBytes).length ≤ b.writableBytes := by
      rw [List.length_take]
      omega
    rcases write_spec h hfill with ⟨v, hv, hwf, hcont⟩
    rw [hv] at hread
    simp only [bind, Except.bind] at hread
    split at hread
    next hfits =>
      -- all the bytes are in the vector
      change Except.ok (_, hasWritten { b with buffer_ := v } got.length) = _ at hread
      rw [List.take_of_length_le (by omega)] at hwf hcont
      cases hread
      exact ⟨hwf, by simp [hcont, hgot]⟩
    next hspills =>
      -- `readv` fills the vector and then the stack buffer, which is appended
      have hlong : (got.take b.writableBytes).length = b.writableBytes := by
        rw [List.length_take]
        omega
      have hvlen : v.length = b.writeIndex_ + b.writableBytes := by
        have hw := h.write_le
        rw [(copyInto_ok hv).2, writableBytes_eq hw]
        omega
      have hfull : hasWritten { b with buffer_ := v } (got.take b.writableBytes).length =
          { b with buffer_ := v, writeIndex_ := v.length } := by
        rw [hlong, hvlen]
        rfl
      rw [hfull] at hwf hcont
      cases happ : append { b with buffer_ := v, writeIndex_ := v.length }
          (got.drop b.writableBytes) with
      | error e =>
        rw [happ] at hread
        cases hread
      | ok c' =>
        rw [happ] at hread
        cases hread
        have hrest := b.length_spilled_le bytes
        rw [hgot] at hrest
        rcases append_wellFormed hwf hrest happ with ⟨hwf', hcont'⟩
        refine ⟨hwf', ?_⟩
        rw [hcont', hcont, List.append_assoc, List.take_append_drop]
        simp [hgot]

/-! ## What no call changes -/

/-- What holds of every reachable buffer, also of one whose vector ends below the bytes to read
because a length has wrapped. -/
structure Placed (b : Buffer) : Prop where
  reserved : kPrePrePend ≤ b.writeIndex_
  read_le : b.readIndex_ ≤ b.writeIndex_
  write_le : b.writeIndex_ ≤ maxSize
  size_le : b.buffer_.length ≤ maxSize

theorem Placed.wellFormed (h : b.Placed) (hwrite : b.writeIndex_ ≤ b.buffer_.length) :
    b.WellFormed :=
  ⟨h.reserved, h.read_le, hwrite, h.size_le⟩

theorem WellFormed.placed (h : b.WellFormed) : b.Placed :=
  ⟨h.reserved, h.read_le, h.write_le.trans h.size_le, h.size_le⟩

theorem resize_length {v w : Bytes} {n : Nat} (h : resize v n = .ok w) : w.length ≤ maxSize := by
  unfold resize at h
  split at h
  next hmax =>
    cases h
    rw [List.length_append, List.length_take, List.length_replicate]
    omega
  next => cases h

theorem new_placed {n : Nat} (h : Buffer.new n = .ok b) : b.Placed := by
  obtain ⟨v, hv, heq⟩ := ok_of_bind h
  cases heq
  exact ⟨le_rfl, le_rfl, (by decide : kPrePrePend ≤ maxSize), resize_length hv⟩

theorem compact_placed (h : b.Placed) (hcompact : b.compact = .ok c) : c.Placed := by
  obtain ⟨v, hv, hread, rfl⟩ := compact_ok hcompact
  have hwrite := h.write_le
  have hreserved := h.reserved
  refine ⟨Nat.le_add_right _ _, Nat.le_add_right _ _, ?_, (copyInto_ok hv).2.trans_le h.size_le⟩
  -- the assertion has seen that the readable bytes move down
  show kPrePrePend + (b.writeIndex_ - b.readIndex_) ≤ maxSize
  omega

theorem ensureWritableBytes_placed (h : b.Placed) (hens : b.ensureWritableBytes len = .ok c) :
    c.Placed := by
  unfold ensureWritableBytes makeSpace at hens
  split at hens
  next =>
    split at hens
    next =>
      obtain ⟨c', hcompact, hrest⟩ := ok_of_bind hens
      obtain ⟨v, hv, heq⟩ := ok_of_bind hrest
      cases heq
      have hplaced := compact_placed h hcompact
      exact ⟨hplaced.reserved, hplaced.read_le, hplaced.write_le, resize_length hv⟩
    next => exact compact_placed h hens
  next =>
    cases hens
    exact h

/-- What is copied to `beginWrite()` ends in the vector. -/
theorem hasWritten_placed (h : b.Placed) {v : Bytes}
    (hcopy : copyInto b.buffer_ b.writeIndex_ data = .ok v) :
    (hasWritten { b with buffer_ := v } data.length).Placed := by
  obtain ⟨hfits, hlength⟩ := copyInto_ok hcopy
  have hsize := h.size_le
  have hreserved := h.reserved
  have hread := h.read_le
  constructor
  · show kPrePrePend ≤ b.writeIndex_ + data.length
    omega
  · show b.readIndex_ ≤ b.writeIndex_ + data.length
    omega
  · show b.writeIndex_ + data.length ≤ maxSize
    omega
  · exact hlength.trans_le hsize

theorem append_placed (h : b.Placed) (happ : b.append data = .ok c) : c.Placed := by
  obtain ⟨c', hens, hcopy⟩ := ok_of_bind happ
  obtain ⟨v, hv, heq⟩ := ok_of_bind hcopy
  cases heq
  exact hasWritten_placed (ensureWritableBytes_placed h hens) hv

theorem readFd_placed {avail : Option Bytes} {n : Int} (h : b.Placed)
    (hread : b.readFd avail = .ok (n, c)) :
    c.Placed := by
  cases avail with
  | none =>
    cases hread
    exact h
  | some bytes =>
    obtain ⟨v, hv, -⟩ := ok_of_bind hread
    -- `readv` writes to the vector, so it does not end below `writeIndex_`
    have hfits := (copyInto_ok hv).1
    have hwrite : b.writeIndex_ ≤ b.buffer_.length := by omega
    exact (readFd_wellFormed (h.wellFormed hwrite) hread).1.placed

theorem retrieveAll_placed (h : b.Placed) : b.retrieveAll.Placed :=
  ⟨le_rfl, le_rfl, (by decide : kPrePrePend ≤ maxSize), h.size_le⟩

theorem retrieve_placed (h : b.Placed) (hret : b.retrieve len = .ok c) : c.Placed := by
  unfold retrieve at hret
  split at hret
  next => cases hret
  next =>
    split at hret
    next hlt =>
      cases hret
      have hreadable : b.readableBytes = b.writeIndex_ - b.readIndex_ := rfl
      refine ⟨h.reserved, ?_, h.write_le, h.size_le⟩
      show b.readIndex_ + len ≤ b.writeIndex_
      omega
    next =>
      cases hret
      exact retrieveAll_placed h

theorem prepend_placed (h : b.Placed) (hpre : b.prepend data = .ok c) : c.Placed := by
  unfold prepend at hpre
  split at hpre
  next => cases hpre
  next =>
    obtain ⟨v, hv, heq⟩ := ok_of_bind hpre
    cases heq
    exact ⟨h.reserved, (Nat.sub_le _ _).trans h.read_le, h.write_le,
      (copyInto_ok hv).2.trans_le h.size_le⟩

theorem apply_placed {o : Op} (h : b.Placed) (happ : o.apply b = .ok c) : c.Placed := by
  cases o with
  | append | appendInt64 | appendInt32 | appendInt16 | appendInt8 => exact append_placed h happ
  | ensureWritableBytes len => exact ensureWritableBytes_placed h happ
  | readFd avail =>
    obtain ⟨⟨n, c'⟩, hread, rfl⟩ := ok_of_map happ
    exact readFd_placed h hread
  | retrieve len => exact retrieve_placed h happ
  | retrieveAll =>
    cases happ
    exact retrieveAll_placed h
  | prepend | prependInt64 | prependInt32 | prependInt16
      | prependInt8 => exact prepend_placed h happ

theorem Reachable.placed (h : Reachable b) : b.Placed := by
  induction h with
  | new _ hb => exact new_placed hb
  | op o _ happ ih => exact apply_placed ih happ
  | swap _ _ _ ih => exact ih

/-! ## The next `append` -/

/-- What `append(data, len)` is for: the layout stays as documented and the readable bytes grow by
`data`.  An allocation no vector can satisfy may be refused, nothing else may go wrong. -/
def AppendMeets (b : Buffer) (data : Bytes) : Prop :=
  match b.append data with
  | .ok b' => b'.readIndex_ ≤ b'.writeIndex_ ∧ b'.writeIndex_ ≤ b'.buffer_.length ∧
      b'.content = b.content ++ data
  | .error .lengthError => maxSize < kPrePrePend + b.readableBytes + data.length
  | .error _ => False

/-- Behind a length that has wrapped there seems to be room, and the copy goes outside the
vector. -/
theorem append_of_cut (h : b.Placed) (hcut : b.buffer_.length < b.writeIndex_)
    (hlen : data.length ≤ maxSize) :
    b.append data = .error .outOfBounds := by
  have hwrite := h.write_le
  have hmax : maxSize = 2 ^ 63 - 1 := rfl
  have hroom : ¬ b.writableBytes < data.length := by
    rw [writableBytes, if_neg (by omega)]
    omega
  rw [append, ensureWritableBytes, if_neg hroom]
  simp only [bind, Except.bind, copyInto]
  rw [if_neg (by omega)]

/-- `append` meets its purpose exactly when the vector does not end below the bytes to read, and the
free end is long enough or the reserve in front of the readable bytes is whole. -/
theorem append_meets_iff (h : Reachable b) (hlen : data.length ≤ maxSize) :
    AppendMeets b data ↔ b.writeIndex_ ≤ b.buffer_.length ∧
      (data.length ≤ b.writableBytes ∨ kPrePrePend ≤ b.prependableBytes) := by
  constructor
  · intro hmeets
    by_cases hwrite : b.writeIndex_ ≤ b.buffer_.length
    · refine ⟨hwrite, ?_⟩
      by_contra hcond
      have herr : b.append data = .error .assertion :=
        append_of_prepended (by omega) (by unfold prependableBytes at hcond; omega)
      simp only [AppendMeets, herr] at hmeets
    · have herr := append_of_cut h.placed (Nat.lt_of_not_le hwrite) hlen
      simp only [AppendMeets, herr] at hmeets
  · rintro ⟨hwrite, hcond⟩
    have hwf := h.placed.wellFormed hwrite
    have hspec : (∃ b', b.append data = .ok b' ∧ b'.WellFormed ∧
        b'.content = b.content ++ data) ∨ (b.append data = .error .lengthError ∧
        maxSize < kPrePrePend + b.readableBytes + data.length) := by
      rcases hcond with hroom | hr
      · rcases append_of_le hwf hroom with ⟨b', hb', hwf', _, hcont⟩
        exact .inl ⟨b', hb', hwf', hcont⟩
      · exact (append_of_reserve hwf hr hlen).imp_left fun ⟨b', hb', hwf', _, hcont⟩ ↦
          ⟨b', hb', hwf', hcont⟩
    rcases hspec with ⟨b', hb', hwf', hcont⟩ | ⟨herr, hmax⟩
    · simp only [AppendMeets, hb']
      exact ⟨hwf'.read_le, hwf'.write_le, hcont⟩
    · simp only [AppendMeets, herr]
      exact hmax

/-- `Buffer(0)` after `prependInt8(5)`: the reserve is one byte short. -/
def prepended : Buffer := ⟨[0, 0, 0, 0, 0, 0, 0, 5], 7, 8⟩

theorem prepended_reachable : Reachable prepended :=
  .op (.prependInt8 5) (.new (n := 0) (by decide) rfl) (by decide)

theorem append_meets_iff_prepended :
    AppendMeets prepended [1] ↔ prepended.writeIndex_ ≤ prepended.buffer_.length ∧
      (([1] : Bytes).length ≤ prepended.writableBytes ∨ kPrePrePend ≤ prepended.prependableBytes) :=
  append_meets_iff prepended_reachable (by decide)

/-- Appending a single byte to it fails the assertion in `makeSpace`. -/
theorem append_fails_after_prepend :
    ¬ ∀ b data, Reachable b → data.length ≤ maxSize → AppendMeets b data := by
  intro h
  have hmeets := h prepended [1] prepended_reachable (by decide)
  have herr : prepended.append [1] = .error .assertion := by decide
  simp only [AppendMeets, herr] at hmeets

end Pallette.Buffer
