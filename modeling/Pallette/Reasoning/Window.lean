import Mathlib.Data.List.Basic
import Mathlib.Tactic.Common

/-!
# Window — reading and overwriting a stretch of a list

`window v i n` is the stretch of length `n` at offset `i` and `overwrite v i xs` puts `xs` there:
what a copy out of, or into, a range of a vector does.  The lemmas say which windows a write
changes.
-/

namespace Reasoning

variable {α : Type*} {v w xs : List α} {i j m n : Nat}

def window (v : List α) (i n : Nat) : List α :=
  (v.drop i).take n

def overwrite (v : List α) (i : Nat) (xs : List α) : List α :=
  v.take i ++ xs ++ v.drop (i + xs.length)

@[simp] theorem window_zero (v : List α) (i : Nat) : window v i 0 = [] := by
  simp [window]

theorem length_window (h : i + n ≤ v.length) : (window v i n).length = n := by
  simp only [window, List.length_take, List.length_drop]
  omega

theorem length_overwrite (h : i + xs.length ≤ v.length) :
    (overwrite v i xs).length = v.length := by
  simp only [overwrite, List.length_append, List.length_take, List.length_drop]
  omega

theorem window_add (v : List α) (i m n : Nat) :
    window v i (m + n) = window v i m ++ window v (i + m) n := by
  simp only [window, List.take_add, List.drop_drop]

theorem window_append_left (h : i + n ≤ v.length) : window (v ++ w) i n = window v i n := by
  rw [window, window, List.drop_append_of_le_length (by omega),
    List.take_append_of_le_length (by rw [List.length_drop]; omega)]

theorem window_take (h : i + n ≤ m) : window (v.take m) i n = window v i n := by
  rw [window, window, List.drop_take, List.take_take, Nat.min_eq_left (by omega)]

theorem window_overwrite_self (h : i + xs.length ≤ v.length) :
    window (overwrite v i xs) i xs.length = xs := by
  rw [window, overwrite, List.append_assoc,
    List.drop_append_of_le_length (by rw [List.length_take]; omega),
    List.drop_eq_nil_of_le (by rw [List.length_take]; omega), List.nil_append,
    List.take_left]

theorem window_overwrite_before (h : j + n ≤ i) (hi : i ≤ v.length) :
    window (overwrite v i xs) j n = window v j n := by
  rw [overwrite, List.append_assoc, window_append_left (by rw [List.length_take]; omega),
    window_take h]

theorem window_overwrite_after (h : i + xs.length ≤ j) (hi : i ≤ v.length) :
    window (overwrite v i xs) j n = window v j n := by
  have hlen : (v.take i ++ xs).length = i + xs.length := by
    rw [List.length_append, List.length_take, Nat.min_eq_left hi]
  rw [window, overwrite, List.drop_append, hlen, List.drop_eq_nil_of_le (by omega),
    List.nil_append, List.drop_drop, window, Nat.add_sub_cancel' h]

end Reasoning
