import Mathlib.Data.List.Basic
import Mathlib.Tactic.Common
import Mathlib.Tactic.TypeStar

/-!
# Consumer — readers that resume when more input arrives

A consumer looks at its state and at the unread input and either waits for more input, takes some of
it and goes on, or takes some of it and halts.  If its decisions are *stable*, that is, more input
behind what it has seen changes none but "wait", then how the input is cut into chunks is invisible:
`Consumes.resume` and `Consumes.append_of_halted` say so for one cut, `feed_eq_consume` for any
number.
-/

namespace Reasoning

/-- One decision of a consumer. -/
inductive Verdict (σ ε : Type*)
  | wait
  | next (n : Nat) (s : σ)
  | halt (n : Nat) (s : σ) (e : ε)

/-- How a consumer ends: out of input, or halted for a reason, with what it left unread. -/
inductive Ending (σ α ε : Type*)
  | waiting (s : σ) (rest : List α)
  | halted (s : σ) (rest : List α) (e : ε)

/-- The ending with its state seen through `f`. -/
def Ending.map {σ τ α ε : Type*} (f : σ → τ) : Ending σ α ε → Ending τ α ε
  | .waiting s rest => .waiting (f s) rest
  | .halted s rest e => .halted (f s) rest e

def Ending.state {σ α ε : Type*} : Ending σ α ε → σ
  | .waiting s _ => s
  | .halted s _ _ => s

/-- The same decision, in related states. -/
inductive Verdict.Rel {σ τ ε : Type*} (rel : σ → τ → Prop) : Verdict σ ε → Verdict τ ε → Prop
  | wait : Rel rel .wait .wait
  | next {n : Nat} {s : σ} {t : τ} : rel s t → Rel rel (.next n s) (.next n t)
  | halt {n : Nat} {s : σ} {t : τ} {e : ε} : rel s t → Rel rel (.halt n s e) (.halt n t e)

/-- The same ending, in related states, with as much left unread. -/
inductive Ending.Rel {σ τ α ε : Type*} (rel : σ → τ → Prop) : Ending σ α ε → Ending τ α ε → Prop
  | waiting {s : σ} {t : τ} {xs ys : List α} :
      rel s t → xs.length = ys.length → Rel rel (.waiting s xs) (.waiting t ys)
  | halted {s : σ} {t : τ} {xs ys : List α} {e : ε} :
      rel s t → xs.length = ys.length → Rel rel (.halted s xs e) (.halted t ys e)

theorem Ending.Rel.mono {σ τ α ε : Type*} {rel rel' : σ → τ → Prop} {r : Ending σ α ε}
    {r' : Ending τ α ε} (hrel : ∀ s t, rel s t → rel' s t) (h : Rel rel r r') : Rel rel' r r' := by
  cases h with
  | waiting hst hlen => exact .waiting (hrel _ _ hst) hlen
  | halted hst hlen => exact .halted (hrel _ _ hst) hlen

/-- A consumer carries the proof that it never takes more than there is and that its decisions,
waiting apart, do not depend on input it has not reached. -/
structure Consumer (σ α ε : Type*) where
  step : σ → List α → Verdict σ ε
  next_le : ∀ {s xs n t}, step s xs = .next n t → n ≤ xs.length
  halt_le : ∀ {s xs n t e}, step s xs = .halt n t e → n ≤ xs.length
  stable : ∀ {s xs} ys, step s xs ≠ .wait → step s (xs ++ ys) = step s xs

namespace Consumer

variable {σ α ε : Type*}

/-- `c.Consumes s xs r`: started in `s` on the unread input `xs`, the consumer ends as `r`. -/
inductive Consumes (c : Consumer σ α ε) : σ → List α → Ending σ α ε → Prop
  | wait {s : σ} {xs : List α} : c.step s xs = .wait → Consumes c s xs (.waiting s xs)
  | halt {s t : σ} {xs : List α} {n : Nat} {e : ε} :
      c.step s xs = .halt n t e → Consumes c s xs (.halted t (xs.drop n) e)
  | next {s t : σ} {xs : List α} {n : Nat} {r : Ending σ α ε} :
      c.step s xs = .next n t → Consumes c t (xs.drop n) r → Consumes c s xs r

variable {c : Consumer σ α ε} {s t : σ} {xs ys rest : List α} {e : ε} {r r' : Ending σ α ε}

theorem Consumes.deterministic (h : c.Consumes s xs r) (h' : c.Consumes s xs r') : r = r' := by
  induction h with
  | wait hs =>
    cases h' with
    | wait _ => rfl
    | halt hs' => rw [hs] at hs'; cases hs'
    | next hs' _ => rw [hs] at hs'; cases hs'
  | halt hs =>
    cases h' with
    | wait hs' => rw [hs] at hs'; cases hs'
    | halt hs' => rw [hs] at hs'; cases hs'; rfl
    | next hs' _ => rw [hs] at hs'; cases hs'
  | next hs _ ih =>
    cases h' with
    | wait hs' => rw [hs] at hs'; cases hs'
    | halt hs' => rw [hs] at hs'; cases hs'
    | next hs' hrest => rw [hs] at hs'; cases hs'; exact ih hrest

theorem Consumes.waits (h : c.Consumes s xs (.waiting t rest)) : c.step t rest = .wait := by
  generalize hr : Ending.waiting t rest = r at h
  induction h with
  | wait hs => cases hr; exact hs
  | halt _ => cases hr
  | next _ _ ih => exact ih hr

/-- A decision to go on is one step of the run. -/
theorem consumes_iff_of_next {n : Nat} (h : c.step s xs = .next n t) :
    c.Consumes s xs r ↔ c.Consumes t (xs.drop n) r := by
  refine ⟨fun hr ↦ ?_, fun hr ↦ .next h hr⟩
  cases hr with
  | wait h' => rw [h] at h'; cases h'
  | halt h' => rw [h] at h'; cases h'
  | next h' hrest =>
    rw [h] at h'
    cases h'
    exact hrest

theorem consumes_iff_of_halt {n : Nat} (h : c.step s xs = .halt n t e) :
    c.Consumes s xs r ↔ r = .halted t (xs.drop n) e := by
  refine ⟨fun hr ↦ hr.deterministic (.halt h), ?_⟩
  rintro rfl
  exact .halt h

private theorem step_append_of_eq {v : Verdict σ ε} (h : c.step s xs = v) (hv : v ≠ .wait)
    (ys : List α) : c.step s (xs ++ ys) = v := by
  rw [c.stable ys (by rw [h]; exact hv), h]

/-- **Resumption.**  Where the consumer ran out of input it goes on, when more arrives, as if it had
had all of it from the start. -/
theorem Consumes.resume (h : c.Consumes s xs (.waiting t rest))
    (h' : c.Consumes t (rest ++ ys) r) : c.Consumes s (xs ++ ys) r := by
  generalize hr : Ending.waiting t rest = w at h
  induction h with
  | wait _ => cases hr; exact h'
  | halt _ => cases hr
  | next hs _ ih =>
    refine .next (step_append_of_eq hs (by simp) ys) ?_
    rw [List.drop_append_of_le_length (c.next_le hs)]
    exact ih hr

/-- A consumer that ends on all it is given later ends as it would have on the whole. -/
theorem Consumes.resume_iff (h : c.Consumes s xs (.waiting t rest))
    (htotal : ∃ r', c.Consumes t (rest ++ ys) r') :
    c.Consumes t (rest ++ ys) r ↔ c.Consumes s (xs ++ ys) r := by
  refine ⟨h.resume, fun hr ↦ ?_⟩
  rcases htotal with ⟨r', hr'⟩
  rw [hr.deterministic (h.resume hr')]
  exact hr'

/-- Input behind the point where the consumer halts stays unread. -/
theorem Consumes.append_of_halted (h : c.Consumes s xs (.halted t rest e)) (ys : List α) :
    c.Consumes s (xs ++ ys) (.halted t (rest ++ ys) e) := by
  generalize hr : Ending.halted t rest e = w at h
  induction h with
  | wait _ => cases hr
  | halt hs =>
    cases hr
    rw [← List.drop_append_of_le_length (c.halt_le hs)]
    exact .halt (step_append_of_eq hs (by simp) ys)
  | next hs _ ih =>
    refine .next (step_append_of_eq hs (by simp) ys) ?_
    rw [List.drop_append_of_le_length (c.next_le hs)]
    exact ih hr

/-- The consumer reads from the front: what it leaves is an end of what it got. -/
theorem Consumes.halted_suffix (h : c.Consumes s xs (.halted t rest e)) : rest <:+ xs := by
  generalize hr : Ending.halted t rest e = w at h
  induction h with
  | wait _ => cases hr
  | halt _ => cases hr; exact List.drop_suffix _ _
  | next _ _ ih => exact (ih hr).trans (List.drop_suffix _ _)

theorem Consumes.waiting_suffix (h : c.Consumes s xs (.waiting t rest)) : rest <:+ xs := by
  generalize hr : Ending.waiting t rest = w at h
  induction h with
  | wait _ => cases hr; exact List.suffix_rfl
  | halt _ => cases hr
  | next _ _ ih => exact (ih hr).trans (List.drop_suffix _ _)

/-- **Simulation.**  A consumer whose states cannot be told apart by its decisions ends the same in
them. -/
theorem Consumes.simulate {τ : Type*} {d : Consumer τ α ε} {rel : σ → τ → Prop}
    (hstep : ∀ s t xs, rel s t → Verdict.Rel rel (c.step s xs) (d.step t xs)) {t : τ}
    (h : c.Consumes s xs r) (hrel : rel s t) : ∃ r', d.Consumes t xs r' ∧ Ending.Rel rel r r' := by
  induction h generalizing t with
  | @wait s xs hs =>
    have hboth := hstep s t xs hrel
    generalize hd : d.step t xs = v at hboth
    rw [hs] at hboth
    cases hboth
    exact ⟨_, .wait hd, .waiting hrel rfl⟩
  | @halt s _ xs n e hs =>
    have hboth := hstep s t xs hrel
    generalize hd : d.step t xs = v at hboth
    rw [hs] at hboth
    cases hboth with
    | halt hrel' => exact ⟨_, .halt hd, .halted hrel' rfl⟩
  | @next s _ xs n r hs _ ih =>
    have hboth := hstep s t xs hrel
    generalize hd : d.step t xs = v at hboth
    rw [hs] at hboth
    cases hboth with
    | next hrel' =>
      rcases ih hrel' with ⟨r', hr', hends⟩
      exact ⟨r', .next hd hr', hends⟩

/-- Input arriving in chunks: the consumer runs after each, until it halts; what it has not been
given by then counts as unread. -/
inductive Feeds (c : Consumer σ α ε) : σ → List α → List (List α) → Ending σ α ε → Prop
  | done {s : σ} {xs : List α} : Feeds c s xs [] (.waiting s xs)
  | more {s t : σ} {xs rest chunk : List α} {chunks : List (List α)} {r : Ending σ α ε} :
      c.Consumes s (xs ++ chunk) (.waiting t rest) → Feeds c t rest chunks r →
      Feeds c s xs (chunk :: chunks) r
  | stop {s t : σ} {xs rest chunk : List α} {chunks : List (List α)} {e : ε} :
      c.Consumes s (xs ++ chunk) (.halted t rest e) →
      Feeds c s xs (chunk :: chunks) (.halted t (rest ++ chunks.flatten) e)

/-- **Chunks are invisible.**  A consumer that has caught up with its input ends on any chunks as it
ends on their concatenation. -/
theorem Feeds.consumes {chunks : List (List α)} (h : c.Feeds s xs chunks r)
    (hs : c.step s xs = .wait) : c.Consumes s (xs ++ chunks.flatten) r := by
  induction h with
  | done => simpa using Consumes.wait hs
  | more hc _ ih =>
    rw [List.flatten_cons, ← List.append_assoc]
    exact hc.resume (ih hc.waits)
  | stop hc =>
    rw [List.flatten_cons, ← List.append_assoc]
    exact hc.append_of_halted _

end Consumer

end Reasoning
