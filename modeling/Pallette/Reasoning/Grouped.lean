import Mathlib.Data.List.Flatten
import Mathlib.Data.List.Basic

/-!
# Grouped — records kept in chunks

Records are collected in chunks, and the chunks in larger ones: a buffer, a file.  `Grouped` says
that no record is torn: each chunk is the records of a group, one after the other, and the groups
are the records in their order.
-/

namespace Reasoning

variable {α : Type*} {records : List (List α)} {chunks : List (List α)} {record chunk : List α}

def Grouped (records chunks : List (List α)) : Prop :=
  ∃ groups : List (List (List α)), groups.flatten = records ∧ chunks = groups.map List.flatten

namespace Grouped

theorem nil : Grouped ([] : List (List α)) [] :=
  ⟨[], rfl, rfl⟩

theorem append {records' chunks' : List (List α)} (h : Grouped records chunks)
    (h' : Grouped records' chunks') :
    Grouped (records ++ records') (chunks ++ chunks') := by
  obtain ⟨groups, rfl, rfl⟩ := h
  obtain ⟨groups', rfl, rfl⟩ := h'
  exact ⟨groups ++ groups', List.flatten_append, List.map_append.symm⟩

/-- A chunk with nothing in it. -/
theorem empty : Grouped ([] : List (List α)) [[]] :=
  ⟨[[]], rfl, rfl⟩

theorem single (record : List α) : Grouped [record] [record] :=
  ⟨[[record]], rfl, by simp⟩

/-- One more record in the last chunk. -/
theorem write (h : Grouped records (chunks ++ [chunk])) (record : List α) :
    Grouped (records ++ [record]) (chunks ++ [chunk ++ record]) := by
  obtain ⟨groups, rfl, hchunks⟩ := h
  obtain ⟨front, last, rfl, rfl, hlast⟩ := List.append_eq_map_iff.mp hchunks
  obtain ⟨group, rfl, rfl⟩ := List.map_eq_singleton_iff.mp hlast
  exact ⟨front ++ [group ++ [record]], by simp, by simp⟩

/-- The chunks in front hold the records in front. -/
theorem split {front back : List (List α)} (h : Grouped records (front ++ back)) :
    ∃ records₁ records₂, records = records₁ ++ records₂ ∧ Grouped records₁ front ∧
      Grouped records₂ back := by
  obtain ⟨groups, rfl, hchunks⟩ := h
  obtain ⟨groups₁, groups₂, rfl, rfl, rfl⟩ := List.append_eq_map_iff.mp hchunks
  exact ⟨groups₁.flatten, groups₂.flatten, List.flatten_append, ⟨groups₁, rfl, rfl⟩,
    ⟨groups₂, rfl, rfl⟩⟩

/-- **Layers.**  What is whole in chunks that are whole in larger ones is whole in these. -/
theorem trans {larger : List (List α)} (h : Grouped records chunks) (h' : Grouped chunks larger) :
    Grouped records larger := by
  obtain ⟨groups, rfl, rfl⟩ := h'
  induction groups generalizing records with
  | nil =>
    obtain ⟨inner, rfl, hinner⟩ := h
    rw [List.flatten_nil, eq_comm, List.map_eq_nil_iff] at hinner
    rw [hinner]
    exact nil
  | cons group groups ih =>
    obtain ⟨records₁, records₂, rfl, hgroup, hrest⟩ := split h
    obtain ⟨inner, rfl, rfl⟩ := hgroup
    have hfirst : Grouped inner.flatten [(inner.map List.flatten).flatten] :=
      ⟨[inner.flatten], by simp, by simp [List.flatten_flatten]⟩
    exact hfirst.append (ih hrest)

end Grouped

end Reasoning
