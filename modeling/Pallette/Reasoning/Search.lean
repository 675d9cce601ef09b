import Mathlib.Data.List.Infix
import Mathlib.Tactic.Common

/-!
# Search — the first occurrence of a pattern in a list

`search pat xs` is the offset of the first occurrence, as `memmem` and `std::string::find` report
it.  What a reader of a growing input needs is `search_append`: more input behind a found occurrence
does not move it.  `search_append_pattern` locates the end of a piece that does not contain the
pattern.
-/

namespace Reasoning

variable {α : Type*} [DecidableEq α] {pat xs ys piece : List α} {i : Nat}

def search (pat : List α) : List α → Option Nat
  | [] => if pat = [] then some 0 else none
  | x :: xs => if pat <+: x :: xs then some 0 else (search pat xs).map (· + 1)

theorem search_prefix (h : pat <+: xs) : search pat xs = some 0 := by
  cases xs with
  | nil => simp [search, List.prefix_nil.mp h]
  | cons x xs => simp [search, h]

theorem search_cons_skip {x : α} (h : ¬ pat <+: x :: xs) :
    search pat (x :: xs) = (search pat xs).map (· + 1) := by
  simp [search, h]

theorem search_nil_cases (h : search pat [] = some i) : pat = [] ∧ i = 0 := by
  by_cases hp : pat = []
  · simp only [search, hp, if_true, Option.some.injEq] at h
    exact ⟨hp, h.symm⟩
  · simp [search, hp] at h

theorem search_cons_cases {x : α} (h : search pat (x :: xs) = some i) :
    (pat <+: x :: xs ∧ i = 0) ∨
      (¬ pat <+: x :: xs ∧ ∃ j, search pat xs = some j ∧ i = j + 1) := by
  by_cases hp : pat <+: x :: xs
  · have hzero : search pat (x :: xs) = some 0 := search_prefix hp
    rw [hzero, Option.some.injEq] at h
    exact .inl ⟨hp, h.symm⟩
  · rw [search_cons_skip hp] at h
    obtain ⟨j, hj, rfl⟩ := Option.map_eq_some_iff.mp h
    exact .inr ⟨hp, j, hj, rfl⟩

/-- The reported offset is one where the pattern starts. -/
theorem search_eq_some (h : search pat xs = some i) : ∃ rest, xs = xs.take i ++ pat ++ rest ∧
    i + pat.length ≤ xs.length := by
  induction xs generalizing i with
  | nil =>
    obtain ⟨rfl, rfl⟩ := search_nil_cases h
    exact ⟨[], by simp⟩
  | cons x xs ih =>
    rcases search_cons_cases h with ⟨⟨rest, hrest⟩, rfl⟩ | ⟨_, j, hj, rfl⟩
    · exact ⟨rest, by simp [hrest], by rw [← hrest]; simp⟩
    · obtain ⟨rest, hrest, hle⟩ := ih hj
      refine ⟨rest, ?_, by simp only [List.length_cons]; omega⟩
      rw [List.take_succ_cons, List.cons_append, List.cons_append, ← hrest]

theorem search_bound (h : search pat xs = some i) : i + pat.length ≤ xs.length := by
  obtain ⟨_, _, hle⟩ := search_eq_some h
  exact hle

theorem search_eq_none (h : ¬ pat <:+: xs) : search pat xs = none := by
  cases hi : search pat xs with
  | none => rfl
  | some i =>
    obtain ⟨rest, hrest, _⟩ := search_eq_some hi
    exact absurd ⟨_, _, hrest.symm⟩ h

/-- Input behind the first occurrence does not change where it is. -/
theorem search_append (h : search pat xs = some i) (ys : List α) :
    search pat (xs ++ ys) = some i := by
  induction xs generalizing i with
  | nil =>
    obtain ⟨rfl, rfl⟩ := search_nil_cases h
    exact search_prefix (by simp)
  | cons x xs ih =>
    rcases search_cons_cases h with ⟨hp, rfl⟩ | ⟨hp, j, hj, rfl⟩
    · exact search_prefix (hp.trans (List.prefix_append _ ys))
    · have hlen := search_bound hj
      have hp' : ¬ pat <+: x :: (xs ++ ys) := by
        intro hpre
        apply hp
        rw [← List.cons_append] at hpre
        exact List.prefix_of_prefix_length_le hpre (List.prefix_append _ _)
          (by simp only [List.length_cons]; omega)
      rw [List.cons_append, search_cons_skip hp', ih hj]
      rfl

omit [DecidableEq α] in
/-- A pattern does not reach across an element it does not contain. -/
theorem infix_append_cons {b : α} (hb : b ∉ pat) (h : pat <:+: xs ++ b :: ys) :
    pat <:+: xs ∨ pat <:+: ys := by
  induction xs with
  | nil =>
    rcases List.infix_cons_iff.mp h with hpre | hin
    · cases pat with
      | nil => exact .inl List.infix_rfl
      | cons p ps =>
        have hp : p = b := (List.cons_prefix_cons.mp hpre).1
        exact absurd (by simp [hp]) hb
    · exact .inr hin
  | cons x xs ih =>
    rw [List.cons_append, List.infix_cons_iff] at h
    rcases h with hpre | hin
    · have hend : x :: xs <+: x :: (xs ++ b :: ys) := List.prefix_append (x :: xs) (b :: ys)
      rcases List.prefix_or_prefix_of_prefix hpre hend with hshort | hlong
      · exact .inl hshort.isInfix
      · rcases hlong with ⟨zs, rfl⟩
        have hzs : zs <+: b :: ys := by
          rw [← List.cons_append] at hpre
          exact (List.prefix_append_right_inj (x :: xs)).mp hpre
        cases zs with
        | nil => exact .inl (by simp)
        | cons z zs =>
          have hz : z = b := (List.cons_prefix_cons.mp hzs).1
          exact absurd (by simp [hz]) hb
    · exact (ih hin).imp_left fun hxs ↦ hxs.trans (List.suffix_cons x xs).isInfix

/-- A pattern that does not occur before the end of `piece`, not even overlapping it, is found right
behind `piece`. -/
theorem search_append_pattern (hne : pat ≠ []) (h : ¬ pat <:+: piece ++ pat.dropLast)
    (rest : List α) : search pat (piece ++ pat ++ rest) = some piece.length := by
  induction piece with
  | nil => exact search_prefix (by simp)
  | cons x piece ih =>
    have hp : ¬ pat <+: x :: (piece ++ pat ++ rest) := by
      intro hpre
      apply h
      have hshort : x :: piece ++ pat.dropLast <+: x :: (piece ++ pat ++ rest) := by
        rw [List.cons_append, List.append_assoc]
        exact (List.cons_prefix_cons.mpr ⟨rfl, (List.prefix_append_right_inj piece).mpr
          ((List.dropLast_prefix pat).trans (List.prefix_append _ _))⟩)
      have hlen : 0 < pat.length := List.length_pos_iff.mpr hne
      exact (List.prefix_of_prefix_length_le hpre hshort (by
        simp only [List.length_append, List.length_cons, List.length_dropLast]; omega)).isInfix
    have hrest : ¬ pat <:+: piece ++ pat.dropLast := fun hin ↦
      h (hin.trans (by rw [List.cons_append]; exact (List.suffix_cons x _).isInfix))
    rw [List.cons_append, List.cons_append, search_cons_skip hp, ih hrest]
    rfl

/-- Nothing before the first occurrence contains the pattern. -/
theorem not_infix_take_of_search (hne : pat ≠ []) (h : search pat xs = some i) :
    ¬ pat <:+: xs.take i := by
  induction xs generalizing i with
  | nil => simpa using hne
  | cons x xs ih =>
    rcases search_cons_cases h with ⟨_, rfl⟩ | ⟨hp, j, hj, rfl⟩
    · simpa using hne
    · rw [List.take_succ_cons, List.infix_cons_iff]
      rintro (hpre | hin)
      · exact hp (hpre.trans (by rw [← List.take_succ_cons]; exact List.take_prefix _ _))
      · exact ih hj hin

end Reasoning
