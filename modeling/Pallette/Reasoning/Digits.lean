import Mathlib.Tactic.Ring

/-!
# Digits — numbers written with a fixed number of digits, and with as many as they need

To any base, the most significant digit first.  What is read back from a fixed number of digits is
the number modulo the power of the base that there are digits for.  A numeral has the digits a
number needs, in any type of glyphs; a loop that divides by the base writes it from behind.
-/

namespace Reasoning

variable {base n v : Nat}

def digits (base n v : Nat) : List Nat :=
  (List.range n).map fun i ↦ v / base ^ (n - 1 - i) % base

/-- The number that digits stand for. -/
def valueOf (base : Nat) (ds : List Nat) : Nat :=
  ds.foldl (fun value d ↦ base * value + d) 0

theorem digits_succ (base n v : Nat) :
    digits base (n + 1) v = v / base ^ n % base :: digits base n v := by
  unfold digits
  rw [List.range_succ_eq_map, List.map_cons, List.map_map]
  congr 1
  apply List.map_congr_left
  intro i _
  change v / base ^ (n + 1 - 1 - (i + 1)) % base = _
  rw [show n + 1 - 1 - (i + 1) = n - 1 - i by omega]

theorem lt_of_mem_digits (hbase : 0 < base) {d : Nat} (h : d ∈ digits base n v) : d < base := by
  obtain ⟨i, _, rfl⟩ := List.mem_map.mp h
  exact Nat.mod_lt _ hbase

theorem foldl_digits (base n v acc : Nat) :
    (digits base n v).foldl (fun value d ↦ base * value + d) acc = acc * base ^ n + v %
      base ^ n := by
  induction n generalizing acc with
  | zero => simp [digits, Nat.mod_one]
  | succ n ih =>
    rw [digits_succ, List.foldl_cons, ih, Nat.mod_pow_succ]
    ring

theorem valueOf_digits (base n v : Nat) : valueOf base (digits base n v) = v % base ^ n := by
  unfold valueOf
  rw [foldl_digits, Nat.zero_mul, Nat.zero_add]

/-! ## Numerals -/

variable {α ε : Type*} {glyph : Char → α}

def numeral (glyph : Char → α) (base n : Nat) : List α :=
  (Nat.toDigits base n).map glyph

theorem numeral_eq (hbase : 1 < base) (n : Nat) :
    numeral glyph base n =
      if n < base then [glyph (Nat.digitChar n)]
      else numeral glyph base (n / base) ++ [glyph (Nat.digitChar (n % base))] := by
  unfold numeral
  rw [Nat.toDigits_eq_if hbase]
  split
  · rfl
  · rw [List.map_append]
    rfl

theorem length_numeral_pos (glyph : Char → α) (base n : Nat) :
    0 < (numeral glyph base n).length := by
  rw [numeral, List.length_map]
  exact Nat.length_toDigits_pos

theorem length_numeral_le (hbase : 1 < base) {k : Nat} (hk : 0 < k) (h : n < base ^ k) :
    (numeral glyph base n).length ≤ k := by
  rw [numeral, List.length_map]
  exact (Nat.length_toDigits_le_iff hbase hk).mpr h

/-- With room for the whole numeral, the loop does not run out of it. -/
theorem numeral_loop {loop : Nat → Nat → List α → Except ε (List α)} (hbase : 1 < base)
    (hloop : ∀ room n text, loop (room + 1) n text =
      if n / base = 0 then .ok (glyph (Nat.digitChar (n % base)) :: text)
      else loop room (n / base) (glyph (Nat.digitChar (n % base)) :: text))
    {room n : Nat} (h : (numeral glyph base n).length ≤ room) (text : List α) :
    loop room n text = .ok (numeral glyph base n ++ text) := by
  induction room generalizing n text with
  | zero =>
    have hpos := length_numeral_pos glyph base n
    omega
  | succ room ih =>
    have hdone : n / base = 0 ↔ n < base := Nat.div_eq_zero_iff_lt (Nat.lt_of_succ_lt hbase)
    rw [numeral_eq hbase] at h ⊢
    rw [hloop]
    by_cases hlast : n < base
    · rw [if_pos (hdone.mpr hlast), if_pos hlast, Nat.mod_eq_of_lt hlast]
      rfl
    · rw [if_neg hlast, List.length_append] at h
      rw [if_neg (hdone.not.mpr hlast), if_neg hlast, ih (Nat.le_of_succ_le_succ h),
        List.append_assoc]
      rfl

end Reasoning
