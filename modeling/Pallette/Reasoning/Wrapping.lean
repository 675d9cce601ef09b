import Mathlib.Data.List.Basic
import Mathlib.Tactic.Common
import Mathlib.Tactic.TypeStar

/-!
# Wrapping — a text cut into lines of one width

The lines of `Wrapped` have the width, but for the last, which may be shorter and is not empty.
-/

namespace Reasoning

variable {α : Type*} {width : Nat} {line text : List α} {lines : List (List α)} {mark : α}

structure Wrapped (width : Nat) (lines : List (List α)) (text : List α) : Prop where
  joined : lines.flatten = text
  full : ∀ line ∈ lines.dropLast, line.length = width
  last : ∀ line ∈ lines.getLast?, 0 < line.length ∧ line.length ≤ width

namespace Wrapped

theorem single (hpos : 0 < text.length) (hle : text.length ≤ width) :
    Wrapped width [text] text where
  joined := by simp
  full := by simp
  last := by
    rintro line hline
    cases hline
    exact ⟨hpos, hle⟩

theorem cons (hline : line.length = width) (hne : lines ≠ []) (h : Wrapped width lines text) :
    Wrapped width (line :: lines) (line ++ text) where
  joined := by rw [List.flatten_cons, h.joined]
  full := by
    rw [List.dropLast_cons_of_ne_nil hne]
    intro piece hpiece
    obtain rfl | hpiece := List.mem_cons.mp hpiece
    · exact hline
    · exact h.full piece hpiece
  last := by
    rw [List.getLast?_cons_of_ne_nil hne]
    exact h.last

theorem ne_nil (h : Wrapped width lines text) (hne : text ≠ []) : lines ≠ [] := by
  rintro rfl
  exact hne h.joined.symm

theorem of_cons (h : Wrapped width (line :: lines) text) (hne : lines ≠ []) :
    line.length = width ∧ Wrapped width lines lines.flatten := by
  have hfull := h.full
  have hlast := h.last
  rw [List.dropLast_cons_of_ne_nil hne] at hfull
  rw [List.getLast?_cons_of_ne_nil hne] at hlast
  exact ⟨hfull line List.mem_cons_self, rfl, fun piece hpiece ↦
    hfull piece (List.mem_cons_of_mem _ hpiece), hlast⟩

theorem length_pos (h : Wrapped width lines text) (hne : lines ≠ []) : 0 < text.length := by
  obtain ⟨init, line, rfl⟩ : ∃ init line, lines = init ++ [line] :=
    ⟨_, _, (List.dropLast_append_getLast hne).symm⟩
  have hlast := (h.last line (by simp)).1
  rw [← h.joined, List.flatten_append, List.flatten_singleton, List.length_append]
  omega

end Wrapped

/-- The text comes back when the marks between its lines are taken out. -/
theorem filter_intercalate [DecidableEq α] (h : mark ∉ lines.flatten) :
    ([mark].intercalate lines).filter (· ≠ mark) = lines.flatten := by
  induction lines with
  | nil => rfl
  | cons line lines ih =>
    rw [List.flatten_cons, List.mem_append, not_or] at h
    have hline : line.filter (· ≠ mark) = line := by
      apply List.filter_eq_self.mpr
      intro a ha
      apply decide_eq_true
      rintro rfl
      exact h.1 ha
    by_cases hlast : lines = []
    · subst hlast
      simpa using hline
    · rw [List.intercalate_cons_of_ne_nil hlast, List.filter_append, List.filter_append,
        ih h.2, hline]
      simp

end Reasoning
