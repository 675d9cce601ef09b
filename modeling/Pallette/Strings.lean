import Pallette.Basic
import Pallette.Reasoning.Words

/-!
# Strings — the search for a byte in a string, and strings taken apart at blanks
-/

open Reasoning

namespace Pallette

def slash : UInt8 := 47

variable {before rest : Bytes} {c : UInt8}

/-- `text.find(c)` -/
def find (c : UInt8) (text : Bytes) : Option Nat :=
  text.findIdx? (· = c)

/-- `text.rfind(c)` -/
def rfind (c : UInt8) (text : Bytes) : Option Nat :=
  (text.reverse.findIdx? (· = c)).map fun i ↦ text.length - 1 - i

theorem find_of_notMem {text : Bytes} (h : c ∉ text) : find c text = none := by
  apply List.findIdx?_eq_none_iff.mpr
  intro b hb
  apply decide_eq_false
  rintro rfl
  exact h hb

theorem find_append (h : c ∉ before) (rest : Bytes) :
    find c (before ++ c :: rest) = some before.length := by
  have hnone := find_of_notMem h
  unfold find at hnone ⊢
  rw [List.findIdx?_append, hnone, List.findIdx?_cons, if_pos (decide_eq_true rfl)]
  simp

theorem find_lt {text : Bytes} {i : Nat} (h : find c text = some i) : i < text.length := by
  by_cases hmem : c ∈ text
  · obtain ⟨before, rest, rfl, hbefore⟩ := List.eq_append_cons_of_mem hmem
    rw [find_append hbefore] at h
    cases h
    rw [List.length_append, List.length_cons]
    omega
  · rw [find_of_notMem hmem] at h
    cases h

theorem find_cases (c : UInt8) (text : Bytes) :
    (c ∉ text ∧ find c text = none) ∨
      ∃ before rest, text = before ++ c :: rest ∧ c ∉ before ∧
        find c text = some before.length := by
  by_cases hmem : c ∈ text
  · obtain ⟨before, rest, rfl, hbefore⟩ := List.eq_append_cons_of_mem hmem
    exact .inr ⟨before, rest, rfl, hbefore, find_append hbefore rest⟩
  · exact .inl ⟨hmem, find_of_notMem hmem⟩

theorem rfind_append (before : Bytes) (h : c ∉ rest) :
    rfind c (before ++ c :: rest) = some before.length := by
  have hreverse : (before ++ c :: rest).reverse = rest.reverse ++ c :: before.reverse := by simp
  have hfirst := @find_append rest.reverse c (by simpa using h) before.reverse
  unfold find at hfirst
  unfold rfind
  rw [hreverse, hfirst, Option.map_some, List.length_reverse, List.length_append, List.length_cons]
  congr 1
  omega

/-- `utils::regexSplit` at ` +`.  The tokens between the matches keep an empty one in front of the
first match, and none behind the last. -/
def regexSplit (text : Bytes) : List Bytes :=
  let tokens := match text.splitOn space with
    | [] => []
    | first :: rest => first :: rest.filter (· ≠ [])
  let splitResult := if tokens = [text] then [] else tokens
  if splitResult.head? = some [] then splitResult.tail else splitResult

theorem regexSplit_eq {text : Bytes} (h : space ∈ text) : regexSplit text = words space text := by
  obtain ⟨front, back, rfl, hfront⟩ := List.eq_append_cons_of_mem h
  -- the first token is shorter than the text: nothing is cleared
  have hsplit : ∀ rest : List Bytes, front :: rest ≠ [front ++ space :: back] := by
    intro rest heq
    have hlength := congrArg List.length (List.cons.inj heq).1
    rw [List.length_append, List.length_cons] at hlength
    omega
  rw [regexSplit, List.splitOn_append_cons_self_of_not_mem hfront]
  dsimp only
  rw [if_neg (hsplit _), List.head?_cons]
  by_cases hempty : front = []
  · subst hempty
    rw [if_pos rfl, List.nil_append, words_cons_sep]
    rfl
  · rw [if_neg (by simpa using hempty), words_word_append hempty hfront]
    rfl

end Pallette
