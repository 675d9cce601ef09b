import Mathlib.Data.List.Basic
import Mathlib.Tactic.Common

/-!
# Bisect — the lower bound of a predicate in a list

`lowerBound below xs` halves what is left, as `std::lower_bound` does.  Whatever the order of the
list, the place found is a boundary: what stands before it is below and what stands at it is not.
In a list whose first elements are the ones that are below there is one boundary only.
-/

namespace Reasoning

variable {α : Type*} {below : α → Bool} {xs : List α} {i r : Nat}

/-- `len` elements are left, behind the first `first`; each round of the loop takes one of the
fuel. -/
def lowerBoundFrom (below : α → Bool) (xs : List α) : Nat → Nat → Nat → Nat
  | 0, first, _ => first
  | fuel + 1, first, len =>
      if len = 0 then first
      else
        let half := len / 2
        if xs[first + half]?.any below then
          lowerBoundFrom below xs fuel (first + half + 1) (len - half - 1)
        else lowerBoundFrom below xs fuel first half

def lowerBound (below : α → Bool) (xs : List α) : Nat :=
  lowerBoundFrom below xs xs.length 0 xs.length

structure Boundary (below : α → Bool) (xs : List α) (r : Nat) : Prop where
  le_length : r ≤ xs.length
  below_before : ∀ i, r = i + 1 → xs[i]?.any below = true
  not_below : xs[r]?.any below = false

/-- The loop invariant: the element before what is left is below, the one behind it is not. -/
theorem boundary_lowerBoundFrom {fuel first len : Nat} (hfuel : len ≤ fuel)
    (hlen : first + len ≤ xs.length) (hbefore : ∀ i, first = i + 1 → xs[i]?.any below = true)
    (hbehind : xs[first + len]?.any below = false) :
    Boundary below xs (lowerBoundFrom below xs fuel first len) := by
  induction fuel generalizing first len with
  | zero =>
    rw [Nat.le_zero.mp hfuel] at hlen hbehind
    exact ⟨hlen, hbefore, hbehind⟩
  | succ fuel ih =>
    unfold lowerBoundFrom
    by_cases hnone : len = 0
    · rw [if_pos hnone]
      rw [hnone] at hlen hbehind
      exact ⟨hlen, hbefore, hbehind⟩
    · rw [if_neg hnone]
      dsimp only
      by_cases hmiddle : xs[first + len / 2]?.any below = true
      · rw [if_pos hmiddle]
        apply ih
        · omega
        · omega
        · intro i hi
          rw [Nat.succ.inj hi] at hmiddle
          exact hmiddle
        · have hend : first + len / 2 + 1 + (len - len / 2 - 1) = first + len := by omega
          rw [hend]
          exact hbehind
      · rw [if_neg hmiddle]
        apply ih
        · omega
        · omega
        · exact hbefore
        · exact Bool.not_eq_true _ ▸ hmiddle

theorem boundary_lowerBound (below : α → Bool) (xs : List α) :
    Boundary below xs (lowerBound below xs) := by
  apply boundary_lowerBoundFrom
  · exact Nat.le_refl _
  · exact Nat.le_of_eq (Nat.zero_add _)
  · exact nofun
  · rw [Nat.zero_add, List.getElem?_eq_none (Nat.le_refl _)]
    rfl

/-- Where nothing below stands behind something that is not, all before a boundary is below. -/
theorem Boundary.below_of_lt (h : Boundary below xs r)
    (hdown : xs.Pairwise fun x y ↦ below y → below x) (hi : i < r) : xs[i]?.any below = true := by
  obtain ⟨k, rfl⟩ := Nat.exists_eq_succ_of_ne_zero (Nat.ne_of_gt (Nat.zero_lt_of_lt hi))
  have hlast := h.below_before k rfl
  have hk : k < xs.length := h.le_length
  rcases Nat.lt_succ_iff_lt_or_eq.mp hi with hlt | rfl
  · rw [List.getElem?_eq_getElem hk] at hlast
    rw [List.getElem?_eq_getElem (Nat.lt_trans hlt hk)]
    exact List.pairwise_iff_getElem.mp hdown i k _ hk hlt hlast
  · exact hlast

theorem Boundary.not_below_of_le (h : Boundary below xs r)
    (hdown : xs.Pairwise fun x y ↦ below y → below x) (hi : r ≤ i) : xs[i]?.any below = false := by
  by_cases hlt : i < xs.length
  · rcases Nat.lt_or_eq_of_le hi with hri | rfl
    · have hr : r < xs.length := Nat.lt_trans hri hlt
      have hfirst := h.not_below
      rw [List.getElem?_eq_getElem hr] at hfirst
      rw [List.getElem?_eq_getElem hlt]
      by_contra hbelow
      have hback := List.pairwise_iff_getElem.mp hdown r i hr hlt hri (Bool.not_eq_false _ ▸ hbelow)
      exact absurd (hback.symm.trans hfirst) nofun
    · exact h.not_below
  · rw [List.getElem?_eq_none (Nat.le_of_not_lt hlt)]
    rfl

/-- In a list whose first `i` elements are below and whose others are not the boundary is there. -/
theorem Boundary.eq (h : Boundary below xs r) (hbelow : ∀ k < i, xs[k]?.any below = true)
    (hnot : ∀ k, i ≤ k → xs[k]?.any below = false) : r = i := by
  rcases Nat.lt_trichotomy r i with hlt | heq | hgt
  · have hnow := hbelow r hlt
    rw [h.not_below] at hnow
    cases hnow
  · exact heq
  · obtain ⟨k, rfl⟩ := Nat.exists_eq_succ_of_ne_zero (Nat.ne_of_gt (Nat.zero_lt_of_lt hgt))
    have hlast := h.below_before k rfl
    rw [hnot k (Nat.le_of_lt_succ hgt)] at hlast
    cases hlast

theorem lowerBound_eq (hbelow : ∀ k < i, xs[k]?.any below = true)
    (hnot : ∀ k, i ≤ k → xs[k]?.any below = false) : lowerBound below xs = i :=
  (boundary_lowerBound below xs).eq hbelow hnot

end Reasoning
