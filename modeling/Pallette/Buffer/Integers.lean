import Pallette.Buffer.Fifo
import Pallette.Reasoning.Digits

/-!
# Integers — integers of mixed widths through a buffer

An integer goes in as its big-endian bytes, and reading the same width takes as many out.
-/

open Reasoning

namespace Pallette.Buffer

inductive Width
  | int8
  | int16
  | int32
  | int64
deriving DecidableEq, Repr

def Width.bytes : Width → Nat
  | .int8 => 1
  | .int16 => 2
  | .int32 => 4
  | .int64 => 8

/-- A signed integer with the width it is written in. -/
structure SignedInt where
  width : Width
  value : Int
  low : -2 ^ (8 * width.bytes - 1) ≤ value
  high : value < 2 ^ (8 * width.bytes - 1)

namespace SignedInt

/-- The big-endian bytes of its two's complement. -/
def wire (v : SignedInt) : Bytes :=
  (digits 256 v.width.bytes (v.value % 256 ^ v.width.bytes).toNat).map UInt8.ofNat

def append (b : Buffer) (v : SignedInt) : Except Failure Buffer :=
  match v.width with
  | .int8 => b.appendInt8 (BitVec.ofInt 8 v.value)
  | .int16 => b.appendInt16 (BitVec.ofInt 16 v.value)
  | .int32 => b.appendInt32 (BitVec.ofInt 32 v.value)
  | .int64 => b.appendInt64 (BitVec.ofInt 64 v.value)

def prepend (b : Buffer) (v : SignedInt) : Except Failure Buffer :=
  match v.width with
  | .int8 => b.prependInt8 (BitVec.ofInt 8 v.value)
  | .int16 => b.prependInt16 (BitVec.ofInt 16 v.value)
  | .int32 => b.prependInt32 (BitVec.ofInt 32 v.value)
  | .int64 => b.prependInt64 (BitVec.ofInt 64 v.value)

end SignedInt

def Width.read (b : Buffer) : Width → Except Failure (Int × Buffer)
  | .int8 => b.readInt8.map fun (x, c) ↦ (x.toInt, c)
  | .int16 => b.readInt16.map fun (x, c) ↦ (x.toInt, c)
  | .int32 => b.readInt32.map fun (x, c) ↦ (x.toInt, c)
  | .int64 => b.readInt64.map fun (x, c) ↦ (x.toInt, c)

def appendInts (b : Buffer) (vs : List SignedInt) : Except Failure Buffer :=
  vs.foldlM SignedInt.append b

def readInts (b : Buffer) : List Width → Except Failure (List Int × Buffer)
  | [] => .ok ([], b)
  | w :: ws => do
      let (x, b) ← w.read b
      let (xs, b) ← readInts b ws
      return (x :: xs, b)

variable {b c : Buffer} {n : Nat} {rest : Bytes}

/-! ## The bytes of an integer -/

theorem hostToNetwork_eq (n : Nat) (x : BitVec (8 * n)) :
    hostToNetwork n x = (digits 256 n x.toNat).map UInt8.ofNat := by
  unfold hostToNetwork digits
  rw [List.map_map]
  apply List.map_congr_left
  intro i _
  apply UInt8.toNat_inj.mp
  rw [Function.comp_apply, UInt8.toNat_ofNat', UInt8.toNat_ofNat', pow_mul]
  exact (Nat.mod_mod _ _).symm

theorem networkToHost_hostToNetwork (n : Nat) (x : BitVec (8 * n)) :
    networkToHost n (hostToNetwork n x) = x := by
  have hbytes : ∀ (ds : List Nat) (acc : Nat), (∀ d ∈ ds, d < 256) →
      (ds.map UInt8.ofNat).foldl (fun value byte ↦ 256 * value + byte.toNat) acc =
        ds.foldl (fun value d ↦ 256 * value + d) acc := by
    intro ds
    induction ds with
    | nil => exact fun _ _ ↦ rfl
    | cons d ds ih =>
      intro acc h
      rw [List.map_cons, List.foldl_cons, List.foldl_cons, UInt8.toNat_ofNat',
        Nat.mod_eq_of_lt (h d List.mem_cons_self)]
      exact ih _ fun d' hd' ↦ h d' (List.mem_cons_of_mem d hd')
  have hpow : 256 ^ n = 2 ^ (8 * n) := (pow_mul 2 8 n).symm
  have hvalue := valueOf_digits 256 n x.toNat
  rw [hpow, Nat.mod_eq_of_lt x.isLt] at hvalue
  unfold networkToHost
  rw [hostToNetwork_eq, hbytes _ _ fun d hd ↦ lt_of_mem_digits (by decide) hd]
  change BitVec.ofNat (8 * n) (valueOf 256 (digits 256 n x.toNat)) = x
  rw [hvalue, BitVec.ofNat_toNat, BitVec.setWidth_eq]

namespace SignedInt

variable (v : SignedInt)

def bits : BitVec (8 * v.width.bytes) :=
  BitVec.ofInt _ v.value

theorem toInt_bits : v.bits.toInt = v.value := by
  obtain ⟨width, value, low, high⟩ := v
  unfold bits
  rw [BitVec.toInt_ofInt]
  cases width <;>
    (dsimp only [Width.bytes] at low high ⊢; apply Int.bmod_eq_of_le <;> omega)

theorem wire_eq : v.wire = hostToNetwork v.width.bytes v.bits := by
  have hpow : ((256 ^ v.width.bytes : Int)) = ((2 ^ (8 * v.width.bytes) : Nat) : Int) := by
    rw [pow_mul]
    norm_num
  rw [hostToNetwork_eq]
  unfold wire bits
  rw [BitVec.toNat_ofInt, hpow]

theorem append_eq (b : Buffer) : append b v = b.append v.wire := by
  rw [wire_eq]
  obtain ⟨width, value, low, high⟩ := v
  cases width <;> rfl

theorem prepend_eq (b : Buffer) : prepend b v = b.prepend v.wire := by
  rw [wire_eq]
  obtain ⟨width, value, low, high⟩ := v
  cases width <;> rfl

theorem length_wire : v.wire.length = v.width.bytes := by
  rw [wire_eq, length_hostToNetwork]

end SignedInt

/-! ## Reading -/

theorem Width.read_eq (w : Width) (b : Buffer) :
    w.read b = (b.readInt (b.peekInt w.bytes)).map fun (x, c) ↦ (x.toInt, c) := by
  cases w <;> rfl

theorem readInt_front (h : b.WellFormed) {x : BitVec (8 * n)}
    (hfront : b.content = hostToNetwork n x ++ rest) :
    ∃ c, b.readInt (b.peekInt n) = .ok (x, c) ∧ c.WellFormed ∧ c.content = rest := by
  have hlength := h.length_content
  rw [hfront, List.length_append, length_hostToNetwork] at hlength
  have hread := h.read_le
  have hwrite := h.write_le
  have hreadable : b.readableBytes = b.writeIndex_ - b.readIndex_ := rfl
  have hwindow : window b.buffer_ b.readIndex_ n = hostToNetwork n x := by
    have htake : window b.buffer_ b.readIndex_ n = b.content.take n := by
      rw [content, window, window, List.take_take, Nat.min_eq_left (by omega)]
    rw [htake, hfront]
    exact List.take_left' (length_hostToNetwork n x)
  obtain ⟨c, hc⟩ := @retrieve_returns b n (by omega)
  obtain ⟨hwf, hcontent, _⟩ := retrieve_wellFormed h hc
  refine ⟨c, ?_, hwf, ?_⟩
  · have hpeek : b.peekInt n = .ok x := by
      rw [peekInt, if_pos (by omega), hwindow, networkToHost_hostToNetwork]
    rw [hpeek]
    change (b.retrieve n >>= fun c ↦ pure (x, c)) = _
    rw [hc]
    rfl
  · rw [hcontent, hfront]
    exact List.drop_left' (length_hostToNetwork n x)

theorem SignedInt.read_front (h : b.WellFormed) {v : SignedInt}
    (hfront : b.content = v.wire ++ rest) :
    ∃ c, v.width.read b = .ok (v.value, c) ∧ c.WellFormed ∧ c.content = rest := by
  have hvalue := v.toInt_bits
  rw [v.wire_eq] at hfront
  obtain ⟨c, hread, hwf, hrest⟩ := readInt_front h hfront
  refine ⟨c, ?_, hwf, hrest⟩
  rw [v.width.read_eq, hread, ← hvalue]
  rfl

theorem readInts_front {vs : List SignedInt} (h : b.WellFormed)
    (hfront : b.content = (vs.map SignedInt.wire).flatten ++ rest) :
    ∃ c, readInts b (vs.map SignedInt.width) = .ok (vs.map SignedInt.value, c) ∧
      c.content = rest := by
  induction vs generalizing b with
  | nil => exact ⟨b, rfl, hfront⟩
  | cons v vs ih =>
    rw [List.map_cons, List.flatten_cons, List.append_assoc] at hfront
    obtain ⟨c, hread, hwf, hcontent⟩ := SignedInt.read_front h hfront
    obtain ⟨d, hreads, hrest⟩ := ih hwf hcontent
    refine ⟨d, ?_, hrest⟩
    change (v.width.read b >>= fun (x, b) ↦ readInts b (vs.map SignedInt.width) >>= fun (xs, b) ↦
      pure (x :: xs, b)) = _
    rw [hread]
    change (readInts c (vs.map SignedInt.width) >>= fun (xs, b) ↦ pure (v.value :: xs, b)) = _
    rw [hreads]
    rfl

/-! ## Appending and prepending -/

theorem appendInts_eq (b : Buffer) (vs : List SignedInt) :
    appendInts b vs = (vs.map SignedInt.wire).foldlM append b := by
  unfold appendInts
  induction vs generalizing b with
  | nil => rfl
  | cons v vs ih =>
    rw [List.map_cons, List.foldlM_cons, List.foldlM_cons, SignedInt.append_eq]
    exact bind_congr fun c ↦ ih c

theorem SignedInt.length_wire_le (v : SignedInt) : v.wire.length ≤ maxSize := by
  rw [v.length_wire]
  cases v.width <;> decide

theorem appends_error {ds : List Bytes} {e : Failure} (h : b.Whole)
    (hds : ∀ d ∈ ds, d.length ≤ maxSize)
    (herr : ds.foldlM append b = .error e) : e = .lengthError := by
  induction ds generalizing b with
  | nil => cases herr
  | cons d ds ih =>
    rw [List.foldlM_cons] at herr
    cases hd : b.append d with
    | error e' =>
      rw [hd] at herr
      cases herr
      exact append_error h (hds d List.mem_cons_self) hd
    | ok c =>
      rw [hd] at herr
      exact ih (passes_append h hd).whole (fun d' hd' ↦ hds d' (List.mem_cons_of_mem d hd')) herr

theorem prepend_returns {data : Bytes} (h : b.WellFormed) (hroom : data.length ≤ b.readIndex_) :
    ∃ c, b.prepend data = .ok c := by
  have hread := h.read_le
  have hwrite := h.write_le
  have hfit : b.readIndex_ - data.length + data.length ≤ b.buffer_.length := by omega
  unfold prepend copyInto
  rw [if_neg (by omega), if_pos hfit]
  exact ⟨_, rfl⟩

/-! ## There and back -/

/-- What is appended to a buffer is written behind its content and read back, and leaves nothing; an
allocation no vector can satisfy is refused. -/
def AppendsBack (b : Buffer) (vs : List SignedInt) : Prop :=
  (∃ c, appendInts b vs = .ok c ∧ c.content = b.content ++ (vs.map SignedInt.wire).flatten ∧
    ∃ c', c.retrieve b.readableBytes = .ok c' ∧
      ∃ c'', readInts c' (vs.map SignedInt.width) = .ok (vs.map SignedInt.value, c'') ∧
        c''.content = []) ∨
  (appendInts b vs = .error .lengthError ∧
    maxSize < kPrePrePend + (b.content ++ (vs.map SignedInt.wire).flatten).length)

/-- What is prepended where there is room for it is read back, and leaves the content as it was. -/
def PrependsBack (b : Buffer) (v : SignedInt) : Prop :=
  v.width.bytes ≤ b.prependableBytes →
    ∃ c c', v.prepend b = .ok c ∧ v.width.read c = .ok (v.value, c') ∧ c'.content = b.content

theorem Whole.appendsBack (h : b.Whole) (vs : List SignedInt) : AppendsBack b vs := by
  unfold AppendsBack
  rw [appendInts_eq]
  cases happ : (vs.map SignedInt.wire).foldlM append b with
  | error e =>
    right
    have hsmall : ∀ d ∈ vs.map SignedInt.wire, d.length ≤ maxSize := by
      intro d hd
      obtain ⟨v, _, rfl⟩ := List.mem_map.mp hd
      exact v.length_wire_le
    refine ⟨by rw [appends_error h hsmall happ], ?_⟩
    by_contra hfits
    obtain ⟨c, hc⟩ := appends_return h.toWellFormed h.reserve (Nat.le_of_not_lt hfits)
    rw [hc] at happ
    cases happ
  | ok c =>
    left
    obtain ⟨hwf, hcontent⟩ := appends_ok h.toWellFormed happ
    have hold := h.length_content
    have hlength := hwf.length_content
    rw [hcontent, List.length_append] at hlength
    obtain ⟨c', hc'⟩ := @retrieve_returns c b.readableBytes (by omega)
    obtain ⟨hwf', hcontent', _⟩ := retrieve_wellFormed hwf hc'
    have hfront : c'.content = (vs.map SignedInt.wire).flatten ++ [] := by
      rw [hcontent', hcontent, List.append_nil]
      exact List.drop_left' hold
    obtain ⟨c'', hreads, hempty⟩ := readInts_front hwf' hfront
    exact ⟨c, rfl, hcontent, c', hc', c'', hreads, hempty⟩

theorem WellFormed.prependsBack (h : b.WellFormed) (v : SignedInt) : PrependsBack b v := by
  intro hroom
  rw [← v.length_wire] at hroom
  obtain ⟨c, hc⟩ := prepend_returns h hroom
  obtain ⟨hwf, hcontent⟩ := prepend_wellFormed h hc
  obtain ⟨c', hread, _, hrest⟩ := SignedInt.read_front hwf hcontent
  exact ⟨c, c', by rw [v.prepend_eq, hc], hread, hrest⟩

variable {ι : Type} [DecidableEq ι]

/-- **Integers.**  Behind every run without `prepend`, with the sizes asked of the buffers a
`size_t`, integers of any widths that are appended to a buffer are read back from it, as is one that
is prepended; and the latter holds of every buffer in the documented layout. -/
theorem ints_round_trip {size : ι → Nat} {s₀ s : ι → Traced} {ls : List (FifoCall ι)}
    (hbuilt : Built size s₀) (h : Run (Guarded FifoStep fun s l ↦ l.InRange s) s₀ ls s) (i : ι) :
    (∀ vs, AppendsBack (s i).buffer vs) ∧ (∀ v, PrependsBack (s i).buffer v) ∧
      ∀ b : Buffer, b.WellFormed → ∀ v, PrependsBack b v := by
  have hwhole := (sound_of_run hbuilt h i).1
  exact ⟨hwhole.appendsBack, hwhole.toWellFormed.prependsBack, fun b hb ↦ hb.prependsBack⟩

/-- Three bytes in, one out. -/
theorem ints_round_trip_moved :
    ∃ s, Run (Guarded FifoStep fun s l ↦ l.InRange s) unused [.op () (.append [1, 2, 3]),
      .op () (.retrieve 1)] s ∧
      (∀ vs, AppendsBack (s ()).buffer vs) ∧ (∀ v, PrependsBack (s ()).buffer v) ∧
      ∀ b : Buffer, b.WellFormed → ∀ v, PrependsBack b v := by
  have hrun := show Run (Guarded FifoStep fun s l ↦ l.InRange s) unused
        [.op () (.append [1, 2, 3]), .op () (.retrieve 1)] _ from
    .cons ⟨rfl, trivial⟩ <| .cons ⟨rfl, trivial⟩ <| .nil _
  exact ⟨_, hrun, ints_round_trip built_unused hrun ()⟩

/-- `Buffer(8)` with two bytes, behind `ensureWritableBytes(SIZE_MAX - 8)`: the vector ends in front
of them. -/
def cut : Buffer := ⟨[0], 8, 10⟩

theorem run_cut :
    ∃ s, Run FifoStep unused [.op () (.append [1, 2]),
      .op () (.ensureWritableBytes (2 ^ 64 - 9))] s ∧
      (s ()).buffer = cut :=
  ⟨_, .cons rfl (.cons rfl (.nil _)), rfl⟩

/-- To `append` there seems to be room behind it, and a byte is written outside the vector. -/
theorem append_outside :
    ¬ ∀ (s : Unit → Traced) (ls : List (FifoCall Unit)), Run FifoStep unused ls s →
        ∀ vs, AppendsBack (s ()).buffer vs := by
  intro h
  obtain ⟨s, hrun, hcut⟩ := run_cut
  have hback := h s _ hrun [⟨.int8, 1, by decide, by decide⟩]
  have herr : appendInts cut [⟨.int8, 1, by decide, by decide⟩] = .error .outOfBounds := by
    decide
  rw [hcut] at hback
  unfold AppendsBack at hback
  rw [herr] at hback
  obtain ⟨c, hok, _⟩ | ⟨hrefused, _⟩ := hback
  · cases hok
  · cases hrefused

end Pallette.Buffer
