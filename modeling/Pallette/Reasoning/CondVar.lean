import Mathlib.Data.List.Basic
import Mathlib.Tactic.Common

/-!
# CondVar — threads that sleep on a condition variable

The threads are the entries of a list.  Of each a condition variable sees whether it sleeps and
whether it has been woken and not run since.  What they sleep for comes in tokens: `Covered` says
that while one of them sleeps there are no more tokens than woken threads, so that none is missed.
It survives threads that take a token out of turn and threads that wake up for no reason.
-/

namespace Reasoning

/-- What a condition variable sees of a thread, and what a notification does to it. -/
structure CondVar (τ : Type*) where
  sleeping : τ → Bool
  woken : τ → Bool
  wake : τ → τ
  wake_sleeping : ∀ t, sleeping (wake t) = false
  wake_woken : ∀ t, sleeping t = true → woken (wake t) = true
  woken_of_sleeping : ∀ t, sleeping t = true → woken t = false

/-- A thread is replaced: a property counts it afterwards if it has it then, and not if it had
it. -/
theorem countP_set_add {τ : Type*} {ts : List τ} {i : Nat} {t : τ} (ht : ts[i]? = some t)
    (p : τ → Bool)
    (t' : τ) : (ts.set i t').countP p + (p t).toNat = ts.countP p + (p t').toNat := by
  obtain ⟨hlt, hget⟩ := List.getElem?_eq_some_iff.mp ht
  have hpos : p t = true → 0 < ts.countP p := by
    intro hp
    exact List.countP_pos_iff.mpr ⟨t, List.mem_of_getElem? ht, hp⟩
  rw [List.countP_set hlt, hget]
  cases hold : p t <;> cases hnew : p t'
  · simp
  · simp
  · have hcount := hpos hold
    simp only [if_true, Bool.false_eq_true, if_false, Bool.toNat_true, Bool.toNat_false]
    omega
  · have hcount := hpos hold
    simp only [if_true, Bool.toNat_true]
    omega

namespace CondVar

variable {τ : Type*} {v : CondVar τ} {ts us : List τ} {i m n : Nat} {t t' : τ} {choice : Option Nat}

/-- `notify_one`, which wakes the sleeping thread chosen, and none only if none sleeps. -/
def notifyOne (v : CondVar τ) (ts : List τ) : Option Nat → Option (List τ)
  | none => if ts.countP v.sleeping = 0 then some ts else none
  | some j =>
      match ts[j]? with
      | some t => if v.sleeping t then some (ts.set j (v.wake t)) else none
      | none => none

def notifyAll (v : CondVar τ) (ts : List τ) : List τ :=
  ts.map fun t ↦ if v.sleeping t then v.wake t else t

/-- Tokens are noticed: while a thread sleeps, a woken thread is on its way for each of them. -/
def Covered (v : CondVar τ) (ts : List τ) (tokens : Nat) : Prop :=
  0 < ts.countP v.sleeping → tokens ≤ ts.countP v.woken

theorem Covered.mono (h : v.Covered ts n) (hmn : m ≤ n) : v.Covered ts m :=
  fun hsleeping ↦ Nat.le_trans hmn (h hsleeping)

theorem covered_zero (v : CondVar τ) (ts : List τ) : v.Covered ts 0 :=
  fun _ ↦ Nat.zero_le _

/-- A thread does something that leaves it awake.  If it had been woken, or is now, that counts. -/
theorem Covered.set (h : v.Covered ts n) (ht : ts[i]? = some t) (hawake : v.sleeping t' = false)
    (htokens : m + (v.woken t).toNat ≤ n + (v.woken t').toNat) : v.Covered (ts.set i t') m := by
  intro hsleeping
  have hcount := countP_set_add ht v.sleeping t'
  have hwoken := countP_set_add ht v.woken t'
  rw [hawake] at hcount
  have hold := h (by simp at hcount; omega)
  omega

theorem Covered.append (h : v.Covered ts n) (hawake : v.sleeping t = false) :
    v.Covered (ts ++ [t]) n := by
  intro hsleeping
  rw [List.countP_append, List.countP_singleton, hawake] at hsleeping
  rw [List.countP_append]
  exact Nat.le_trans (h (by simpa using hsleeping)) (Nat.le_add_right _ _)

theorem Covered.exists_woken (h : v.Covered ts n) (hn : 0 < n)
    (hsleeping : ∃ t ∈ ts, v.sleeping t = true) :
    ∃ t ∈ ts, v.woken t = true := by
  have hcount := h (List.countP_pos_iff.mpr hsleeping)
  exact List.countP_pos_iff.mp (by omega)

theorem Covered.exists_awake (h : v.Covered ts n) (hn : 0 < n) (hne : ts ≠ []) :
    ∃ t ∈ ts, v.sleeping t = false := by
  by_cases hsleeping : ∃ t ∈ ts, v.sleeping t = true
  · obtain ⟨t, ht, hwoken⟩ := h.exists_woken hn hsleeping
    refine ⟨t, ht, ?_⟩
    by_contra hnot
    rw [v.woken_of_sleeping t (by simpa using hnot)] at hwoken
    cases hwoken
  · obtain ⟨t, ht⟩ := List.exists_mem_of_ne_nil ts hne
    exact ⟨t, ht, by simpa using fun hnot ↦ hsleeping ⟨t, ht, hnot⟩⟩

/-- What `notify_one` does: nothing where nobody sleeps, else it wakes one thread. -/
theorem notifyOne_cases (h : v.notifyOne ts choice = some us) :
    us = ts ∧ ts.countP v.sleeping = 0 ∨
      ∃ j t, ts[j]? = some t ∧ v.sleeping t = true ∧ us = ts.set j (v.wake t) := by
  unfold notifyOne at h
  cases choice with
  | none =>
    obtain ⟨hnone, heq⟩ := Option.ite_none_right_eq_some.mp h
    exact .inl ⟨(Option.some.inj heq).symm, hnone⟩
  | some j =>
    dsimp only at h
    split at h
    next t ht =>
      obtain ⟨hsleeping, heq⟩ := Option.ite_none_right_eq_some.mp h
      exact .inr ⟨j, t, ht, hsleeping, (Option.some.inj heq).symm⟩
    next => cases h

/-- One more token, and one thread notified of it. -/
theorem Covered.notifyOne (h : v.Covered ts n) (hone : v.notifyOne ts choice = some us) :
    v.Covered us (n + 1) := by
  rcases notifyOne_cases hone with ⟨rfl, hnone⟩ | ⟨j, t, ht, hsleeping, rfl⟩
  · intro hpos
    omega
  · apply h.set ht (v.wake_sleeping t)
    rw [v.woken_of_sleeping t hsleeping, v.wake_woken t hsleeping]
    simp

/-- There is always somebody to notify, or nobody who sleeps. -/
theorem exists_notifyOne (v : CondVar τ) (ts : List τ) :
    ∃ choice us, v.notifyOne ts choice = some us := by
  by_cases hnone : ts.countP v.sleeping = 0
  · exact ⟨none, ts, if_pos hnone⟩
  · obtain ⟨t, ht, hsleeping⟩ := List.countP_pos_iff.mp (Nat.pos_of_ne_zero hnone)
    obtain ⟨j, hj⟩ := List.mem_iff_getElem?.mp ht
    refine ⟨some j, ts.set j (v.wake t), ?_⟩
    unfold notifyOne
    dsimp only
    rw [hj]
    exact if_pos hsleeping

theorem length_notifyOne (hone : v.notifyOne ts choice = some us) : us.length = ts.length := by
  rcases notifyOne_cases hone with ⟨rfl, _⟩ | ⟨j, t, _, _, rfl⟩
  · rfl
  · exact List.length_set

@[simp] theorem length_notifyAll (v : CondVar τ) (ts : List τ) :
    (v.notifyAll ts).length = ts.length :=
  List.length_map _

@[simp] theorem notifyAll_sleeping (v : CondVar τ) (ts : List τ) :
    (v.notifyAll ts).countP v.sleeping = 0 := by
  rw [List.countP_eq_zero]
  intro t ht
  obtain ⟨u, _, rfl⟩ := List.mem_map.mp ht
  split
  · simp [v.wake_sleeping]
  next hawake => exact hawake

theorem covered_notifyAll (v : CondVar τ) (ts : List τ) (n : Nat) :
    v.Covered (v.notifyAll ts) n := by
  intro hpos
  rw [notifyAll_sleeping] at hpos
  omega

/-- A notification wakes threads and does nothing else: what does not tell sleeping from woken keeps
its count. -/
theorem countP_notifyOne {p : τ → Bool} (hp : ∀ t, v.sleeping t = true → p (v.wake t) = p t)
    (hone : v.notifyOne ts choice = some us) : us.countP p = ts.countP p := by
  rcases notifyOne_cases hone with ⟨rfl, _⟩ | ⟨j, t, ht, hsleeping, rfl⟩
  · rfl
  · have hcount := countP_set_add ht p (v.wake t)
    rw [hp t hsleeping] at hcount
    omega

theorem countP_notifyAll {p : τ → Bool} (hp : ∀ t, v.sleeping t = true → p (v.wake t) = p t) :
    (v.notifyAll ts).countP p = ts.countP p := by
  unfold notifyAll
  rw [List.countP_map]
  apply List.countP_congr
  intro t _
  by_cases hsleeping : v.sleeping t = true
  · simp [hsleeping, hp t hsleeping]
  · simp [hsleeping]

end CondVar

end Reasoning
