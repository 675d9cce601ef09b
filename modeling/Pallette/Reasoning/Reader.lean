import Mathlib.Data.List.Basic
import Mathlib.Tactic.Common

/-!
# Reader — reading records from an input, with a state and exceptions

A reader takes what is left of an input and a state.  It ends with a value, or throws, and what it
has done to the state stays done; or it does something that has no meaning.  `Advances r k f e` says
all of a reader that ends well exactly if `k` items are left: its value, the items it takes and what
it does to the state.  Such readers compose, and a loop over one is one.
-/

namespace Reasoning

inductive Outcome (β σ ε φ α : Type*)
  | done (value : α) (rest : List β) (state : σ)
  | thrown (what : ε) (state : σ)
  | fault (what : φ)

def Reader (β σ ε φ α : Type*) :=
  List β → σ → Outcome β σ ε φ α

namespace Reader

section

universe u
variable {β σ ε φ : Type*} {α γ : Type u} {r : Reader β σ ε φ α} {g : α → Reader β σ ε φ γ}
  {rest rest' : List β} {s s' : σ} {k : Nat} {f : List β → α} {e : List β → σ → σ}

instance : Monad (Reader β σ ε φ) where
  pure a := fun rest s ↦ .done a rest s
  bind r g := fun rest s ↦
    match r rest s with
    | .done a rest s => g a rest s
    | .thrown what s => .thrown what s
    | .fault what => .fault what

def throwing (what : ε) : Reader β σ ε φ α :=
  fun _ s ↦ .thrown what s

def crash (what : φ) : Reader β σ ε φ α :=
  fun _ _ ↦ .fault what

def modify (e : σ → σ) : Reader β σ ε φ PUnit.{u + 1} :=
  fun rest s ↦ .done ⟨⟩ rest (e s)

def get : Reader β σ ε φ σ :=
  fun rest s ↦ .done s rest s

/-- `for (i = first; i < first + n; ++i)`, with what the rounds give. -/
def loopFrom (body : Nat → Reader β σ ε φ α) : Nat → Nat → Reader β σ ε φ (List α)
  | _, 0 => pure []
  | first, n + 1 => do
      let a ← body first
      let as ← loopFrom body (first + 1) n
      pure (a :: as)

def loop (n : Nat) (body : Nat → Reader β σ ε φ α) : Reader β σ ε φ (List α) :=
  loopFrom body 0 n

theorem pure_done {a b : α} : (pure a : Reader β σ ε φ α) rest s = .done b rest' s' ↔
    b = a ∧ rest' = rest ∧ s' = s := by
  change Outcome.done a rest s = .done b rest' s' ↔ _
  rw [Outcome.done.injEq]
  exact and_congr eq_comm (and_congr eq_comm eq_comm)

theorem modify_done {change : σ → σ} {u : PUnit.{u + 1}} :
    (modify change : Reader β σ ε φ PUnit.{u + 1}) rest s = .done u rest' s' ↔
      rest' = rest ∧ s' = change s := by
  change Outcome.done _ rest (change s) = .done u rest' s' ↔ _
  rw [Outcome.done.injEq, and_iff_right rfl]
  exact and_congr eq_comm eq_comm

theorem bind_done {c : γ} : (r >>= g) rest s = .done c rest' s' ↔
    ∃ a m d, r rest s = .done a m d ∧ g a m d = .done c rest' s' := by
  change (match r rest s with
    | .done a rest s => g a rest s
    | .thrown what s => .thrown what s
    | .fault what => .fault what) = _ ↔ _
  cases r rest s with
  | done a m d =>
    constructor
    · exact fun h ↦ ⟨a, m, d, rfl, h⟩
    · rintro ⟨_, _, _, heq, h⟩
      cases heq
      exact h
  | thrown what s => exact iff_of_false nofun (by rintro ⟨_, _, _, heq, _⟩; cases heq)
  | fault what => exact iff_of_false nofun (by rintro ⟨_, _, _, heq, _⟩; cases heq)

/-- The state of a reader that throws is that of the part that throws. -/
theorem bind_thrown {what : ε} : (r >>= g) rest s = .thrown what s' ↔
    r rest s = .thrown what s' ∨ ∃ a m d, r rest s = .done a m d ∧ g a m d = .thrown what s' := by
  change (match r rest s with
    | .done a rest s => g a rest s
    | .thrown what s => .thrown what s
    | .fault what => .fault what) = _ ↔ _
  cases r rest s with
  | done a m d => simp
  | thrown what s => simp
  | fault what => simp

/-- A reader that ends well exactly if `k` items are left: with value `f`, and with the state
changed by `e`, both of what was left. -/
def Advances (r : Reader β σ ε φ α) (k : Nat) (f : List β → α) (e : List β → σ → σ) : Prop :=
  ∀ rest s a rest' s', r rest s = .done a rest' s' ↔
    k ≤ rest.length ∧ a = f rest ∧ rest' = rest.drop k ∧ s' = e rest s

theorem Advances.bind_done (h : Advances r k f e) {c : γ} : (r >>= g) rest s = .done c rest' s' ↔
    k ≤ rest.length ∧ g (f rest) (rest.drop k) (e rest s) = .done c rest' s' := by
  rw [Reader.bind_done]
  constructor
  · rintro ⟨a, m, d, hr, hg⟩
    obtain ⟨hlen, rfl, rfl, rfl⟩ := (h _ _ _ _ _).mp hr
    exact ⟨hlen, hg⟩
  · rintro ⟨hlen, hg⟩
    exact ⟨_, _, _, (h _ _ _ _ _).mpr ⟨hlen, rfl, rfl, rfl⟩, hg⟩

/-- A reader that leaves the state alone. -/
theorem Advances.bind_done_same (h : Advances r k f fun _ s ↦ s) {c : γ} :
    (r >>= g) rest s = .done c rest' s' ↔
    k ≤ rest.length ∧ g (f rest) (rest.drop k) s = .done c rest' s' :=
  h.bind_done

theorem advances_pure (a : α) : Advances (pure a : Reader β σ ε φ α) 0 (fun _ ↦ a) fun _ s ↦ s := by
  intro rest s b rest' s'
  rw [pure_done, List.drop_zero]
  exact (and_iff_right (Nat.zero_le _)).symm

theorem advances_modify (change : σ → σ) :
    Advances (modify change : Reader β σ ε φ PUnit.{u + 1}) 0 (fun _ ↦ ⟨⟩) fun _ s ↦ change s := by
  intro rest s b rest' s'
  rw [modify_done, List.drop_zero, and_iff_right (Nat.zero_le _), and_iff_right rfl]

theorem Advances.bind {k' : Nat} {f' : α → List β → γ} {e' : α → List β → σ → σ}
    (h : Advances r k f e) (hg : ∀ a, Advances (g a) k' (f' a) (e' a)) :
    Advances (r >>= g) (k + k') (fun rest ↦ f' (f rest) (rest.drop k))
      fun rest s ↦ e' (f rest) (rest.drop k) (e rest s) := by
  intro rest s c rest' s'
  rw [h.bind_done, hg, List.length_drop, List.drop_drop]
  constructor
  · rintro ⟨hlen, hmore, heqs⟩
    exact ⟨by omega, heqs⟩
  · rintro ⟨hlen, heqs⟩
    exact ⟨by omega, by omega, heqs⟩

/-- What the rounds of a loop give, each from its own items. -/
def values (k : Nat) (f : List β → α) (n : Nat) (rest : List β) : List α :=
  (List.range n).map fun i ↦ f (rest.drop (k * i))

/-- What the rounds of a loop do to the state. -/
def rounds (k : Nat) (e : List β → σ → σ) : Nat → List β → σ → σ
  | 0, _, s => s
  | n + 1, rest, s => rounds k e n (rest.drop k) (e rest s)

@[simp] theorem length_values (k : Nat) (f : List β → α) (n : Nat) (rest : List β) :
    (values k f n rest).length = n := by
  rw [values, List.length_map, List.length_range]

theorem values_succ (k n : Nat) (f : List β → α) (rest : List β) :
    values k f (n + 1) rest = f rest :: values k f n (rest.drop k) := by
  unfold values
  rw [List.range_succ_eq_map, List.map_cons, List.map_map, Nat.mul_zero, List.drop_zero]
  congr 1
  apply List.map_congr_left
  intro i _
  rw [List.drop_drop, Nat.add_comm k, ← Nat.mul_succ]
  rfl

theorem advances_loopFrom {body : Nat → Reader β σ ε φ α} (h : ∀ i, Advances (body i) k f e)
    (first n : Nat) :
    Advances (loopFrom body first n) (k * n) (values k f n) (rounds k e n) := by
  induction n generalizing first with
  | zero => exact advances_pure []
  | succ n ih =>
    intro rest s as rest' s'
    change (body first >>= fun a ↦ loopFrom body (first + 1) n >>= fun as ↦ pure (a :: as)) rest s =
      _ ↔ _
    have hdrop : (rest.drop k).drop (k * n) = rest.drop (k * (n + 1)) := by
      rw [List.drop_drop, Nat.mul_succ, Nat.add_comm]
    rw [(h first).bind_done, (ih (first + 1)).bind_done, advances_pure]
    dsimp only
    rw [values_succ, hdrop, List.length_drop, List.drop_zero]
    have hmore : k * (n + 1) = k * n + k := Nat.mul_succ k n
    constructor
    · rintro ⟨hlen, hlens, _, heqs⟩
      exact ⟨by omega, heqs⟩
    · rintro ⟨hlen, heqs⟩
      exact ⟨by omega, by omega, Nat.zero_le _, heqs⟩

theorem advances_loop {body : Nat → Reader β σ ε φ α} (h : ∀ i, Advances (body i) k f e) (n : Nat) :
    Advances (loop n body) (k * n) (values k f n) (rounds k e n) :=
  advances_loopFrom h 0 n

/-- However the reader ends, the state has a property if it had it before. -/
def Keeps (p : σ → Prop) (r : Reader β σ ε φ α) : Prop :=
  ∀ rest s, p s →
    match r rest s with
    | .done _ _ s' => p s'
    | .thrown _ s' => p s'
    | .fault _ => True

variable {p : σ → Prop}

theorem Keeps.done (h : Keeps p r) (hs : p s) {a : α} (hr : r rest s = .done a rest' s') :
    p s' := by
  have hend := h rest s hs
  rw [hr] at hend
  exact hend

theorem Keeps.thrown (h : Keeps p r) (hs : p s) {what : ε} (hr : r rest s = .thrown what s') :
    p s' := by
  have hend := h rest s hs
  rw [hr] at hend
  exact hend

theorem keeps_pure (a : α) : Keeps p (pure a : Reader β σ ε φ α) :=
  fun _ _ hs ↦ hs

theorem keeps_throwing (what : ε) : Keeps p (throwing what : Reader β σ ε φ α) :=
  fun _ _ hs ↦ hs

theorem keeps_crash (what : φ) : Keeps p (crash what : Reader β σ ε φ α) :=
  fun _ _ _ ↦ trivial

theorem keeps_modify {change : σ → σ} (h : ∀ s, p s → p (change s)) :
    Keeps p (modify change : Reader β σ ε φ PUnit.{u + 1}) :=
  fun _ s hs ↦ h s hs

theorem Keeps.bind (h : Keeps p r) (hg : ∀ a, Keeps p (g a)) : Keeps p (r >>= g) := by
  intro rest s hs
  have hr := h rest s hs
  change match (match r rest s with
    | .done a rest s => g a rest s
    | .thrown what s => .thrown what s
    | .fault what => .fault what) with
    | .done _ _ s' => p s'
    | .thrown _ s' => p s'
    | .fault _ => True
  cases hcase : r rest s with
  | done a m d =>
    rw [hcase] at hr
    exact hg a m d hr
  | thrown what d =>
    rw [hcase] at hr
    exact hr
  | fault what => trivial

theorem keeps_loopFrom {body : Nat → Reader β σ ε φ α} (h : ∀ i, Keeps p (body i)) (first n : Nat) :
    Keeps p (loopFrom body first n) := by
  induction n generalizing first with
  | zero => exact keeps_pure []
  | succ n ih => exact (h first).bind fun a ↦ (ih (first + 1)).bind fun as ↦ keeps_pure (a :: as)

theorem rounds_same (k n : Nat) (rest : List β) (s : σ) : rounds k (fun _ s ↦ s) n rest s = s := by
  induction n generalizing rest with
  | zero => rfl
  | succ n ih => exact ih (rest.drop k)

theorem advances_loop_same {body : Nat → Reader β σ ε φ α}
    (h : ∀ i, Advances (body i) k f fun _ s ↦ s)
    (n : Nat) : Advances (loop n body) (k * n) (values k f n) fun _ s ↦ s := by
  intro rest s a rest' s'
  rw [advances_loop h n, rounds_same]

end

end Reader

end Reasoning
