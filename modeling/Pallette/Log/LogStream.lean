import Pallette.Basic

/-!
# LogStream — the fixed buffers log lines are collected in

`LogBuffer<SIZE>` is an array and a pointer into it; here it is the bytes below the pointer.  What
does not fit is cut off.
-/

namespace Pallette

def kSmallBuffer : Nat := 4000
def kLargeBuffer : Nat := 4000 * 1000

structure LogBuffer (SIZE : Nat) where
  data : Bytes
  fits : data.length ≤ SIZE

namespace LogBuffer

variable {SIZE : Nat}

def new : LogBuffer SIZE := ⟨[], Nat.zero_le _⟩

def length (b : LogBuffer SIZE) : Nat := b.data.length

def avail (b : LogBuffer SIZE) : Nat := SIZE - b.data.length

def append (b : LogBuffer SIZE) (buf : Bytes) : LogBuffer SIZE :=
  if h : buf.length < b.avail then
    ⟨b.data ++ buf, by rw [List.length_append]; unfold avail at h; omega⟩
  else
    ⟨b.data ++ buf.take b.avail, by
      have hfits := b.fits
      rw [List.length_append, List.length_take]
      unfold avail
      omega⟩

def reset (_ : LogBuffer SIZE) : LogBuffer SIZE := new

/-- A line that is shorter than what is left is appended whole. -/
theorem data_append {b : LogBuffer SIZE} {buf : Bytes} (h : buf.length < b.avail) :
    (b.append buf).data = b.data ++ buf := by
  rw [append, dif_pos h]

end LogBuffer

end Pallette
