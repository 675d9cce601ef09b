import Mathlib.Logic.Basic
import Mathlib.Tactic.TypeStar

/-!
# Warranted — what has to have happened before an event

A trace grows at its end.  `Warranted p ok trace` says that each event with `p` came when the
history before it satisfied `ok`; it is kept by every other event, and by one with `p` where `ok`
holds.
-/

namespace Reasoning

variable {ε : Type*}

def Warranted (p : ε → Prop) (ok : List ε → Prop) (trace : List ε) : Prop :=
  ∀ pre e post, trace = pre ++ e :: post → p e → ok pre

namespace Warranted

variable {p : ε → Prop} {ok : List ε → Prop} {trace es : List ε} {e : ε}

theorem of_none (h : ∀ e ∈ trace, ¬ p e) : Warranted p ok trace := by
  rintro pre e post rfl he
  exact absurd he (h e (by simp))

theorem snoc (h : Warranted p ok trace) (he : p e → ok trace) : Warranted p ok (trace ++ [e]) := by
  intro pre e' post hsplit he'
  rcases List.eq_nil_or_concat post with rfl | ⟨post, last, rfl⟩
  · rcases List.append_inj' hsplit rfl with ⟨rfl, hlast⟩
    rcases List.cons.inj hlast with ⟨rfl, _⟩
    exact he he'
  · have hsplit' : trace ++ [e] = (pre ++ e' :: post) ++ [last] := by
      rw [hsplit, List.concat_eq_append, List.append_assoc, List.cons_append]
    exact h pre e' post (List.append_inj' hsplit' rfl).1 he'

theorem append (h : Warranted p ok trace) (hes : ∀ e ∈ es, ¬ p e) :
    Warranted p ok (trace ++ es) := by
  induction es generalizing trace with
  | nil =>
    rw [List.append_nil]
    exact h
  | cons e es ih =>
    have hsnoc : Warranted p ok (trace ++ [e]) := h.snoc fun he ↦ absurd he (hes e (by simp))
    have hrest := ih hsnoc fun e' he' ↦ hes e' (List.mem_cons_of_mem e he')
    rw [List.append_assoc] at hrest
    exact hrest

end Warranted

end Reasoning
