import Mathlib.Data.List.Lookmap
import Mathlib.Order.Lattice
import Mathlib.Tactic.Common

/-!
# OrdMap — a map kept as its entries in key order

The list an iteration over a `std::map` visits, with the proof that its keys ascend strictly.
Assignment through `insert` replaces the value of a key that is there, so the last one wins.
-/

namespace Reasoning

structure OrdMap (κ ν : Type*) [LinearOrder κ] where
  entries : List (κ × ν)
  ascending : entries.Pairwise (·.1 < ·.1)
deriving DecidableEq

namespace OrdMap

variable {κ ν : Type*} [LinearOrder κ] {k k' : κ} {v : ν}

def empty : OrdMap κ ν := ⟨[], .nil⟩

def insertEntry (k : κ) (v : ν) : List (κ × ν) → List (κ × ν)
  | [] => [(k, v)]
  | (k', v') :: rest =>
      if k < k' then (k, v) :: (k', v') :: rest
      else if k = k' then (k, v) :: rest
      else (k', v') :: insertEntry k v rest

theorem mem_insertEntry {e : κ × ν} {l : List (κ × ν)} (h : e ∈ insertEntry k v l) :
    e = (k, v) ∨ e ∈ l := by
  induction l with
  | nil => simpa [insertEntry] using h
  | cons e' rest ih =>
    simp only [insertEntry] at h
    split at h
    · simpa using h
    · split at h
      · exact (List.mem_cons.mp h).imp_right (List.mem_cons_of_mem _)
      · rcases List.mem_cons.mp h with rfl | hrest
        · exact .inr (by simp)
        · exact (ih hrest).imp_right (List.mem_cons_of_mem _)

theorem insertEntry_ascending {l : List (κ × ν)} (h : l.Pairwise (·.1 < ·.1)) :
    (insertEntry k v l).Pairwise (·.1 < ·.1) := by
  induction l with
  | nil => simp [insertEntry]
  | cons e' rest ih =>
    have htail := (List.pairwise_cons.mp h).2
    have hhead := (List.pairwise_cons.mp h).1
    simp only [insertEntry]
    split
    next hlt =>
      refine List.pairwise_cons.mpr ⟨?_, h⟩
      intro e he
      rcases List.mem_cons.mp he with rfl | hrest
      · exact hlt
      · exact hlt.trans (hhead e hrest)
    next hlt =>
      split
      next heq =>
        subst heq
        exact List.pairwise_cons.mpr ⟨hhead, htail⟩
      next hne =>
        refine List.pairwise_cons.mpr ⟨?_, ih htail⟩
        intro e he
        rcases mem_insertEntry he with rfl | hrest
        · exact lt_of_le_of_ne (not_lt.mp hlt) (Ne.symm hne)
        · exact hhead e hrest

/-- `m[k] = v` -/
def insert (m : OrdMap κ ν) (k : κ) (v : ν) : OrdMap κ ν :=
  ⟨insertEntry k v m.entries, insertEntry_ascending m.ascending⟩

/-- `m.find(k)`, with the value when there is one. -/
def find? (m : OrdMap κ ν) (k : κ) : Option ν :=
  m.entries.lookup k

@[simp] theorem find?_empty (k : κ) : (empty : OrdMap κ ν).find? k = none := rfl

private theorem lookup_cons_ite (k₀ : κ) (v₀ : ν) (rest : List (κ × ν)) :
    ((k₀, v₀) :: rest).lookup k' = if k' = k₀ then some v₀ else rest.lookup k' := by
  by_cases hk : k' = k₀
  · subst hk
    simp
  · rw [List.lookup_cons, if_neg hk, beq_eq_false_iff_ne.mpr hk]

theorem lookup_insertEntry (k k' : κ) (v : ν) (l : List (κ × ν)) :
    (insertEntry k v l).lookup k' = if k' = k then some v else l.lookup k' := by
  induction l with
  | nil => rw [insertEntry, lookup_cons_ite]
  | cons e rest ih =>
    obtain ⟨k₀, v₀⟩ := e
    simp only [insertEntry]
    split
    next hlt => rw [lookup_cons_ite]
    next hlt =>
      split
      next heq =>
        subst heq
        simp only [lookup_cons_ite]
        split <;> rfl
      next hne =>
        rw [lookup_cons_ite, lookup_cons_ite, ih]
        split
        next hk₀ => rw [if_neg (by rw [hk₀]; exact Ne.symm hne)]
        next => rfl

theorem find?_insert (m : OrdMap κ ν) (k k' : κ) (v : ν) :
    (m.insert k v).find? k' = if k' = k then some v else m.find? k' :=
  lookup_insertEntry k k' v m.entries

/-- `m.erase(k)` -/
def erase (m : OrdMap κ ν) (k : κ) : OrdMap κ ν :=
  ⟨m.entries.filter (·.1 ≠ k), m.ascending.filter _⟩

theorem lookup_filter_ne (k k' : κ) (l : List (κ × ν)) :
    (l.filter (·.1 ≠ k)).lookup k' = if k' = k then none else l.lookup k' := by
  induction l with
  | nil => simp
  | cons e rest ih =>
    obtain ⟨k₀, v₀⟩ := e
    by_cases hk : k₀ = k
    · rw [List.filter_cons_of_neg (by simpa using hk), ih, lookup_cons_ite, hk]
      split
      next => rfl
      next => rfl
    · rw [List.filter_cons_of_pos (by simpa using hk), lookup_cons_ite, lookup_cons_ite, ih]
      by_cases hk' : k' = k₀
      · rw [if_pos hk', if_pos hk', if_neg (by rw [hk']; exact hk)]
      · rw [if_neg hk', if_neg hk']

theorem find?_erase (m : OrdMap κ ν) (k k' : κ) :
    (m.erase k).find? k' = if k' = k then none else m.find? k' :=
  lookup_filter_ne k k' m.entries

/-- An iteration visits exactly what the look-ups find. -/
theorem find?_eq_some_iff (m : OrdMap κ ν) : m.find? k = some v ↔ (k, v) ∈ m.entries := by
  unfold find?
  rw [List.lookup_eq_some_iff]
  constructor
  · rintro ⟨before, behind, hentries, -⟩
    rw [hentries]
    exact List.mem_append_right _ List.mem_cons_self
  · intro h
    obtain ⟨before, behind, hentries⟩ := List.append_of_mem h
    refine ⟨before, behind, hentries, ?_⟩
    have hascending := m.ascending
    rw [hentries] at hascending
    intro e he
    have hlt := (List.pairwise_append.mp hascending).2.2 e he (k, v) List.mem_cons_self
    exact bne_iff_ne.mpr hlt.ne'

/-! ## Maps of maps -/

section Nested

variable {κ' : Type*} [LinearOrder κ'] {j j' : κ'}

/-- The value under two keys. -/
def findAt? (m : OrdMap κ (OrdMap κ' ν)) (k : κ) (j : κ') : Option ν :=
  (m.find? k).bind (·.find? j)

/-- `m[k][j] = v`, which makes an empty map for a new key. -/
def insertAt (m : OrdMap κ (OrdMap κ' ν)) (k : κ) (j : κ') (v : ν) : OrdMap κ (OrdMap κ' ν) :=
  m.insert k (((m.find? k).getD empty).insert j v)

/-- `m[k].erase(j)` -/
def eraseAt (m : OrdMap κ (OrdMap κ' ν)) (k : κ) (j : κ') : OrdMap κ (OrdMap κ' ν) :=
  m.insert k (((m.find? k).getD empty).erase j)

theorem find?_getD (m : OrdMap κ (OrdMap κ' ν)) (k : κ) (j : κ') :
    ((m.find? k).getD empty).find? j = m.findAt? k j := by
  unfold findAt?
  cases m.find? k <;> rfl

theorem findAt?_insertAt (m : OrdMap κ (OrdMap κ' ν)) (k k' : κ) (j j' : κ') (v : ν) :
    (m.insertAt k j v).findAt? k' j' = if k' = k ∧ j' = j then some v else m.findAt? k' j' := by
  rw [findAt?, insertAt, find?_insert]
  by_cases hk : k' = k
  · subst hk
    rw [if_pos rfl, Option.bind_some, find?_insert, find?_getD]
    simp only [true_and]
  · rw [if_neg hk, if_neg (fun h ↦ hk h.1)]
    rfl

theorem findAt?_eraseAt (m : OrdMap κ (OrdMap κ' ν)) (k k' : κ) (j j' : κ') :
    (m.eraseAt k j).findAt? k' j' = if k' = k ∧ j' = j then none else m.findAt? k' j' := by
  rw [findAt?, eraseAt, find?_insert]
  by_cases hk : k' = k
  · subst hk
    rw [if_pos rfl, Option.bind_some, find?_erase, find?_getD]
    simp only [true_and]
  · rw [if_neg hk, if_neg (fun h ↦ hk h.1)]
    rfl

/-- What an iteration within an iteration visits. -/
def entriesAt (m : OrdMap κ (OrdMap κ' ν)) : List (κ × κ' × ν) :=
  m.entries.flatMap fun e ↦ e.2.entries.map (e.1, ·)

theorem mem_entriesAt_iff (m : OrdMap κ (OrdMap κ' ν)) :
    (k, j, v) ∈ m.entriesAt ↔ m.findAt? k j = some v := by
  unfold entriesAt findAt?
  rw [List.mem_flatMap, Option.bind_eq_some_iff]
  constructor
  · rintro ⟨⟨k₀, inner⟩, hentry, hmem⟩
    obtain ⟨⟨j₀, v₀⟩, hinner, heq⟩ := List.mem_map.mp hmem
    cases heq
    exact ⟨inner, m.find?_eq_some_iff.mpr hentry, inner.find?_eq_some_iff.mpr hinner⟩
  · rintro ⟨inner, hentry, hinner⟩
    exact ⟨(k, inner), m.find?_eq_some_iff.mp hentry,
      List.mem_map_of_mem (inner.find?_eq_some_iff.mp hinner)⟩

/-- No pair of keys is visited twice. -/
theorem nodup_entriesAt (m : OrdMap κ (OrdMap κ' ν)) :
    (m.entriesAt.map fun e ↦ (e.1, e.2.1)).Nodup := by
  unfold entriesAt List.Nodup
  rw [List.pairwise_map, List.pairwise_flatMap]
  constructor
  · rintro ⟨k, inner⟩ -
    rw [List.pairwise_map]
    apply inner.ascending.imp
    intro a b hlt heq
    exact hlt.ne (Prod.ext_iff.mp heq).2
  · apply m.ascending.imp
    intro a b hlt x hx y hy heq
    obtain ⟨_, _, rfl⟩ := List.mem_map.mp hx
    obtain ⟨_, _, rfl⟩ := List.mem_map.mp hy
    exact hlt.ne (Prod.ext_iff.mp heq).1

end Nested

end OrdMap

end Reasoning
