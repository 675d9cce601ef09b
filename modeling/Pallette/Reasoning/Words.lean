import Mathlib.Data.List.Basic
import Mathlib.Tactic.Common

/-!
# Words — the pieces of a list between its separators, the empty ones left out

Separators in a row, in front of the first piece or behind the last one make no word.
-/

namespace Reasoning

variable {α : Type*} [DecidableEq α] {sep : α} {text word : List α}

def words (sep : α) (text : List α) : List (List α) :=
  (text.splitOn sep).filter (· ≠ [])

theorem words_nil : words sep [] = [] := by
  rw [words, List.splitOn_nil]
  rfl

/-- A separator ends a word, if there is one. -/
theorem words_append_cons (text rest : List α) :
    words sep (text ++ sep :: rest) = words sep text ++ words sep rest := by
  rw [words, List.splitOn_append_cons_self, List.filter_append]
  rfl

theorem words_cons_sep (text : List α) : words sep (sep :: text) = words sep text := by
  have happend := @words_append_cons α _ sep [] text
  rwa [words_nil] at happend

theorem words_of_notMem (hne : text ≠ []) (h : sep ∉ text) : words sep text = [text] := by
  rw [words, List.splitOn_eq_singleton h]
  exact List.filter_cons_of_pos (decide_eq_true hne)

theorem words_word_append (hne : word ≠ []) (h : sep ∉ word) (rest : List α) :
    words sep (word ++ sep :: rest) = word :: words sep rest := by
  rw [words_append_cons, words_of_notMem hne h]
  rfl

/-- A word ends with the text or at a separator. -/
theorem words_cons_of_head {rest : List α} (hne : word ≠ []) (h : sep ∉ word)
    (hrest : rest = [] ∨ ∃ tail, rest = sep :: tail) :
    words sep (word ++ rest) = word :: words sep rest := by
  obtain rfl | ⟨tail, rfl⟩ := hrest
  · rw [List.append_nil, words_of_notMem hne h, words_nil]
  · rw [words_word_append hne h, words_cons_sep]

theorem words_replicate (n : Nat) (text : List α) :
    words sep (List.replicate n sep ++ text) = words sep text := by
  induction n with
  | zero => rfl
  | succ n ih =>
    rw [List.replicate_succ, List.cons_append, words_cons_sep]
    exact ih

theorem words_replicate_sep (n : Nat) : words sep (List.replicate n sep) = [] := by
  have hpad := @words_replicate α _ sep n []
  rwa [List.append_nil, words_nil] at hpad

/-- What is not only separators has a word. -/
theorem words_ne_nil {a : α} {text : List α} (hmem : a ∈ text) (hne : a ≠ sep) :
    words sep text ≠ [] := by
  by_cases hsep : sep ∈ text
  · obtain ⟨front, back, htext⟩ := List.append_of_mem hsep
    rw [htext, words_append_cons]
    rw [htext] at hmem
    obtain hfront | hback := List.mem_append.mp hmem
    · exact List.append_ne_nil_of_left_ne_nil (words_ne_nil hfront hne) _
    · have hlater : a ∈ back := (List.mem_cons.mp hback).resolve_left hne
      exact List.append_ne_nil_of_right_ne_nil _ (words_ne_nil hlater hne)
  · rw [words_of_notMem (List.ne_nil_of_mem hmem) hsep]
    exact List.cons_ne_nil _ _
termination_by text.length
decreasing_by
  all_goals
    simp only [*, List.length_append, List.length_cons]
    omega

theorem words_intercalate {ws : List (List α)} (h : ∀ word ∈ ws, word ≠ [] ∧ sep ∉ word) :
    words sep ([sep].intercalate ws) = ws := by
  cases ws with
  | nil => exact words_nil
  | cons word ws =>
    rw [words, List.splitOn_intercalate sep (fun word hword ↦ (h word hword).2)
      (List.cons_ne_nil _ _)]
    apply List.filter_eq_self.mpr
    intro word hword
    exact decide_eq_true (h word hword).1

theorem notMem_intercalate {a : α} {pieces : List (List α)} (hne : a ≠ sep)
    (h : ∀ piece ∈ pieces, a ∉ piece) :
    a ∉ [sep].intercalate pieces := by
  induction pieces with
  | nil => exact List.not_mem_nil
  | cons piece pieces ih =>
    have hpiece := h piece List.mem_cons_self
    have hrest := ih fun piece hmem ↦ h piece (List.mem_cons_of_mem _ hmem)
    by_cases hlast : pieces = []
    · rwa [hlast, List.intercalate_singleton]
    · rw [List.intercalate_cons_of_ne_nil hlast, List.mem_append, List.mem_append,
        List.mem_singleton]
      tauto

end Reasoning
