import Mathlib.Data.List.Basic

/-!
# CircularBuffer — a deque that forgets

`push_back` on a full buffer drops the front.  On an empty deque `back` and `front` are undefined.
-/

namespace Pallette

structure CircularBuffer (α : Type) where
  maxSize_ : Nat
  buffer_ : List α
  positive : 0 < maxSize_
  fits : buffer_.length ≤ maxSize_

namespace CircularBuffer

variable {α : Type} (b : CircularBuffer α)

def new (maxSize : Nat) (h : 0 < maxSize) : CircularBuffer α :=
  ⟨maxSize, [], h, Nat.zero_le _⟩

def size : Nat := b.buffer_.length

def full : Bool := b.size = b.maxSize_

def front : Option α := b.buffer_.head?

def pushBack (value : α) : CircularBuffer α :=
  if h : b.buffer_.length < b.maxSize_ then
    { b with buffer_ := b.buffer_ ++ [value], fits := by rw [List.length_append]; exact h }
  else
    { b with
      buffer_ := b.buffer_.tail ++ [value]
      fits := by
        have hfits := b.fits
        have hpos := b.positive
        rw [List.length_append, List.length_tail, List.length_singleton]
        omega }

/-- What a caller does who changes `back()`. -/
def modifyBack (f : α → α) : CircularBuffer α :=
  { b with
    buffer_ := b.buffer_.modify (b.buffer_.length - 1) f
    fits := by
      rw [List.length_modify]
      exact b.fits }

variable {b}

theorem maxSize_pushBack (value : α) : (b.pushBack value).maxSize_ = b.maxSize_ := by
  unfold pushBack
  split <;> rfl

theorem buffer_pushBack_of_lt (h : b.buffer_.length < b.maxSize_) (value : α) :
    (b.pushBack value).buffer_ = b.buffer_ ++ [value] := by
  rw [pushBack, dif_pos h]

theorem buffer_pushBack_of_full (h : b.maxSize_ ≤ b.buffer_.length) (value : α) :
    (b.pushBack value).buffer_ = b.buffer_.tail ++ [value] := by
  rw [pushBack, dif_neg (Nat.not_lt.mpr h)]

end CircularBuffer

end Pallette
