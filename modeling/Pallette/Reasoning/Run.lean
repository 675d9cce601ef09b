import Mathlib.Logic.Basic
import Mathlib.Tactic.TypeStar

/-!
# Run — finite runs of a labelled step relation

A system is a step relation `step s l t` over states and labels, or a step function that may fail.
Everything proved about whole runs elsewhere goes through the rules here: what one step keeps, every
run keeps; and what can always come nearer to its end comes to it.
-/

namespace Reasoning

variable {σ ℓ : Type*}

/-- A finite run from the first state to the last, with the labels of its steps in order. -/
inductive Run (step : σ → ℓ → σ → Prop) : σ → List ℓ → σ → Prop
  | nil (s : σ) : Run step s [] s
  | cons {s t u : σ} {l : ℓ} {ls : List ℓ} :
      step s l t → Run step t ls u → Run step s (l :: ls) u

/-- The steps whose label also meets a condition on the state they start in. -/
def Guarded (step : σ → ℓ → σ → Prop) (ok : σ → ℓ → Prop) (s : σ) (l : ℓ) (t : σ) : Prop :=
  step s l t ∧ ok s l

/-- The steps that lead to a state with a property. -/
def Into (step : σ → ℓ → σ → Prop) (p : σ → Prop) (s : σ) (l : ℓ) (t : σ) : Prop :=
  step s l t ∧ p t

namespace Run

variable {step : σ → ℓ → σ → Prop} {s t : σ} {ls : List ℓ}

/-- **Invariant rule.**  What every step keeps holds at the end of every run that starts in it. -/
theorem invariant (inv : σ → Prop) (hstep : ∀ s l t, inv s → step s l t → inv t)
    (h : Run step s ls t) (hs : inv s) : inv t := by
  induction h with
  | nil => exact hs
  | cons hl _ ih => exact ih (hstep _ _ _ hs hl)

theorem append {u : σ} {ls' : List ℓ} (h : Run step s ls t) (h' : Run step t ls' u) :
    Run step s (ls ++ ls') u := by
  induction h with
  | nil => exact h'
  | cons hl _ ih => exact .cons hl (ih h')

/-- Steps that have been restricted are steps. -/
theorem mono {step' : σ → ℓ → σ → Prop} (h : Run step s ls t)
    (hstep : ∀ s l t, step s l t → step' s l t) : Run step' s ls t := by
  induction h with
  | nil s => exact .nil s
  | cons hl _ ih => exact .cons (hstep _ _ _ hl) ih

/-- **Invariant rule with labels.**  What every step keeps of a state and the labels that have led
to it holds at the end of every run. -/
theorem invariant_labels (inv : List ℓ → σ → Prop)
    (hstep : ∀ history s l t, inv history s → step s l t → inv (history ++ [l]) t)
    (h : Run step s ls t) {history : List ℓ} (hs : inv history s) : inv (history ++ ls) t := by
  induction h generalizing history with
  | nil => rwa [List.append_nil]
  | cons hl _ ih =>
    rw [List.append_cons]
    exact ih (hstep _ _ _ _ hs hl)

/-- **History rule.**  Where each step adds to a record what its label says, a run adds what its
labels say, in order. -/
theorem history {α : Type*} (record : σ → List α) (entry : ℓ → Option α)
    (hstep : ∀ s l t, step s l t → record t = record s ++ (entry l).toList) (h : Run step s ls t) :
    record t = record s ++ ls.filterMap entry := by
  induction h with
  | nil => exact (List.append_nil _).symm
  | @cons s u t l ls hl _ ih =>
    have hentry : (l :: ls).filterMap entry = (entry l).toList ++ ls.filterMap entry := by
      rw [List.filterMap_cons]
      cases entry l <;> rfl
    rw [ih, hstep s l u hl, hentry, List.append_assoc]

/-- A run from a state with a property to one without it takes a step that loses it. -/
theorem exists_crossing (p : σ → Prop) (h : Run step s ls t) (hs : p s) (ht : ¬ p t) :
    ∃ before l after u v, ls = before ++ l :: after ∧ Run step s before u ∧ step u l v ∧
      Run step v after t ∧ p u ∧ ¬ p v := by
  induction h with
  | nil => exact absurd hs ht
  | @cons s u t l ls hl hrun ih =>
    by_cases hu : p u
    · obtain ⟨before, m, after, v, w, hls, hbefore, hm, hafter, hv, hw⟩ := ih hu ht
      exact ⟨l :: before, m, after, v, w, by rw [hls]; rfl, .cons hl hbefore, hm, hafter, hv, hw⟩
    · exact ⟨[], l, ls, s, u, rfl, .nil s, hl, hrun, hs, hu⟩

/-- A run as far as each of its steps starts with the property, and from there on. -/
theorem exists_while (p : σ → Prop) (h : Run step s ls t) :
    ∃ before after u, ls = before ++ after ∧ Run (Guarded step fun s _ ↦ p s) s before u ∧
      Run step u after t ∧ (after = [] ∨ ¬ p u) := by
  induction h with
  | nil s => exact ⟨[], [], s, rfl, .nil s, .nil s, .inl rfl⟩
  | @cons s u t l ls hl hrun ih =>
    by_cases hs : p s
    · obtain ⟨before, after, v, hls, hbefore, hafter, hend⟩ := ih
      exact ⟨l :: before, after, v, by rw [hls]; rfl, .cons ⟨hl, hs⟩ hbefore, hafter, hend⟩
    · exact ⟨[], l :: ls, s, rfl, .nil s, .cons hl hrun, .inr hs⟩

end Run

/-- **Totality rule.**  Where a state that fits its history has, for every label allowed, a next
state that fits, a whole run does not fail, and its end fits the labels of the run. -/
theorem exists_foldlM {ε : Type*} {step : σ → ℓ → Except ε σ} (inv : List ℓ → σ → Prop)
    (ok : ℓ → Prop)
    (hstep : ∀ history s l, inv history s → ok l → ∃ t, step s l = .ok t ∧ inv (history ++ [l]) t)
    {history : List ℓ} {s : σ} (hs : inv history s) {ls : List ℓ} (hls : ∀ l ∈ ls, ok l) :
    ∃ t, ls.foldlM step s = .ok t ∧ inv (history ++ ls) t := by
  induction ls generalizing history s with
  | nil => exact ⟨s, rfl, by rwa [List.append_nil]⟩
  | cons l ls ih =>
    obtain ⟨t, hl, ht⟩ := hstep history s l hs (hls l List.mem_cons_self)
    obtain ⟨u, hrun, hu⟩ := ih ht fun l hl ↦ hls l (List.mem_cons_of_mem _ hl)
    refine ⟨u, ?_, ?_⟩
    · rw [List.foldlM_cons, hl]
      exact hrun
    · rwa [List.append_cons]

/-- **Progress rule.**  What can always get on until it is done, and has less left each time, can
come to its end. -/
theorem exists_done {leads : σ → σ → Prop} (inv done : σ → Prop) (left : σ → Nat)
    (hrefl : ∀ s, leads s s) (htrans : ∀ s t u, leads s t → leads t u → leads s u)
    (hstep : ∀ s, inv s → ¬ done s → ∃ t, leads s t ∧ inv t ∧ left t < left s) {s : σ}
    (hs : inv s) :
    ∃ t, leads s t ∧ inv t ∧ done t := by
  generalize hleft : left s = n
  induction n using Nat.strongRecOn generalizing s with
  | ind n ih =>
    by_cases hdone : done s
    · exact ⟨s, hrefl s, hs, hdone⟩
    · obtain ⟨t, hst, ht, hless⟩ := hstep s hs hdone
      obtain ⟨u, htu, hu, hdone⟩ := ih (left t) (hleft ▸ hless) ht rfl
      exact ⟨u, htrans s t u hst htu, hu, hdone⟩

end Reasoning
