import Pallette.Basic
import Pallette.Reasoning.Run
import Mathlib.Data.List.Nodup

/-!
# ObjectPool — a pool that hands its objects out and takes them back

An object is the number of the `new T` that made it.  The pool is used from one thread, so that the
mutex it may have is free at every call, and for as long as it exists.
-/

open Reasoning

namespace Pallette

namespace SimpleObjectPool

inductive Fault
  | overflow
  -- `pool_.back()` of an empty vector
  | emptyBack
deriving DecidableEq, Repr

end SimpleObjectPool

open SimpleObjectPool

/-- `made` counts the calls of `new T`. -/
structure SimpleObjectPool where
  maxSize_ : Int
  useSize_ : Int := 0
  objectPoolExist_ : Bool := true
  pool_ : List Nat := []
  made : Nat := 0
deriving DecidableEq, Repr

namespace SimpleObjectPool

variable (pool : SimpleObjectPool)

def addObject (addSize : Int) : SimpleObjectPool :=
  { pool with
    pool_ := pool.pool_ ++ List.range' pool.made addSize.toNat
    made := pool.made + addSize.toNat }

def constructed (maxSize : Int) : SimpleObjectPool :=
  ({ maxSize_ := maxSize } : SimpleObjectPool).addObject (maxSize.tdiv 100 + 1)

/-- The part of `allotObjectWithUnlocked` behind the test for an empty pool. -/
def takeBack : Except Fault (Option Nat × SimpleObjectPool) :=
  match pool.pool_.getLast? with
  | none => .error .emptyBack
  | some t => .ok (some t, { pool with pool_ := pool.pool_.dropLast, useSize_ :=
      pool.useSize_ + 1 })

/-- The handle that is returned has an object or is null. -/
def allotObjectWithUnlocked : Except Fault (Option Nat × SimpleObjectPool) :=
  if pool.pool_ = [] then
    let usedSize := pool.useSize_
    match asInt (usedSize * 2) with
    | none => .error .overflow
    | some twice =>
      if twice < pool.maxSize_ then (pool.addObject usedSize).takeBack
      else if usedSize < pool.maxSize_ then (pool.addObject (pool.maxSize_ - usedSize)).takeBack
      -- "no more object"
      else .ok (none, pool)
  else pool.takeBack

/-- With or without the lock. -/
def allotObject : Except Fault (Option Nat × SimpleObjectPool) :=
  pool.allotObjectWithUnlocked

/-- The deleter of a handle. -/
def takeIn (t : Nat) : SimpleObjectPool :=
  if pool.objectPoolExist_ then { pool with pool_ := pool.pool_ ++ [t], useSize_ :=
    pool.useSize_ - 1 }
  -- `delete t`
  else pool

/-- A pool and the objects that live handles own. -/
structure Usage where
  pool : SimpleObjectPool
  handles : List Nat := []
deriving DecidableEq, Repr

inductive Op
  | allot
  -- the handle of an object is destroyed
  | destroy (t : Nat)
deriving DecidableEq, Repr

namespace Usage

def start (maxSize : Int) : Usage where
  pool := constructed maxSize

def next (s : Usage) : Op → Option (Except Fault Usage)
  | .allot => some (s.pool.allotObject.map fun (handle, pool) ↦ ⟨pool, s.handles ++ handle.toList⟩)
  | .destroy t => if t ∈ s.handles then some (.ok ⟨s.pool.takeIn t, s.handles.erase t⟩) else none

def Step (s : Usage) (op : Op) (t : Usage) : Prop :=
  s.next op = some (.ok t)

/-- Every object there is, with its owner. -/
def objects (s : Usage) : List Nat :=
  s.handles ++ s.pool.pool_

/-! ## The invariant -/

structure Inv (maxSize : Int) (s : Usage) : Prop where
  limit : s.pool.maxSize_ = maxSize
  exist : s.pool.objectPoolExist_ = true
  useSize : s.pool.useSize_ = s.handles.length
  pos : 0 < s.objects.length
  bound : (s.objects.length : Int) ≤ maxSize
  nodup : s.objects.Nodup
  made : ∀ t ∈ s.objects, t < s.pool.made

variable {maxSize : Int} {s t : Usage} {pool : SimpleObjectPool} {handles : List Nat} {n : Int}

theorem length_objects (s : Usage) : s.objects.length = s.handles.length + s.pool.pool_.length :=
  List.length_append

/-- The owners change, the objects stay. -/
theorem Inv.perm (h : Inv maxSize s) (hperm : t.objects.Perm s.objects)
    (hmax : t.pool.maxSize_ = s.pool.maxSize_)
    (hexist : t.pool.objectPoolExist_ = s.pool.objectPoolExist_)
    (hmade : t.pool.made = s.pool.made) (huse : t.pool.useSize_ = t.handles.length) :
    Inv maxSize t where
  limit := hmax.trans h.limit
  exist := hexist.trans h.exist
  useSize := huse
  pos := hperm.length_eq ▸ h.pos
  bound := hperm.length_eq ▸ h.bound
  nodup := hperm.nodup_iff.mpr h.nodup
  made := by
    intro x hx
    rw [hmade]
    exact h.made x (hperm.mem_iff.mp hx)

theorem objects_addObject (s : Usage) (n : Int) :
    objects ⟨s.pool.addObject n, s.handles⟩ = s.objects ++ List.range' s.pool.made n.toNat :=
  (List.append_assoc ..).symm

theorem length_addObject (s : Usage) (hn : 0 ≤ n) :
    ((objects ⟨s.pool.addObject n, s.handles⟩).length : Int) = s.objects.length + n := by
  rw [objects_addObject, List.length_append, List.length_range']
  omega

theorem nodup_addObject (hnodup : s.objects.Nodup) (hmade : ∀ x ∈ s.objects, x < s.pool.made) :
    (objects ⟨s.pool.addObject n, s.handles⟩).Nodup := by
  rw [objects_addObject]
  apply List.Nodup.append hnodup List.nodup_range'
  intro x hold hnew
  have hlt := hmade x hold
  have hge := (List.mem_range'_1.mp hnew).1
  omega

theorem made_addObject (hmade : ∀ x ∈ s.objects, x < s.pool.made) :
    ∀ x ∈ objects ⟨s.pool.addObject n, s.handles⟩, x < (s.pool.addObject n).made := by
  intro x hx
  rw [objects_addObject, List.mem_append] at hx
  change x < s.pool.made + n.toNat
  obtain hold | hnew := hx
  · have hlt := hmade x hold
    omega
  · exact (List.mem_range'_1.mp hnew).2

theorem Inv.addObject (h : Inv maxSize s) (hn : 0 ≤ n) (hroom : s.objects.length + n ≤ maxSize) :
    Inv maxSize ⟨s.pool.addObject n, s.handles⟩ where
  limit := h.limit
  exist := h.exist
  useSize := h.useSize
  pos := by
    have hlength := length_addObject s hn
    have hpos := h.pos
    omega
  bound := by
    rw [length_addObject s hn]
    exact hroom
  nodup := nodup_addObject h.nodup h.made
  made := made_addObject h.made

theorem inv_start (hpos : 1 ≤ maxSize) : Inv maxSize (start maxSize) := by
  have hdiv : 0 ≤ maxSize.tdiv 100 + 1 ∧ maxSize.tdiv 100 + 1 ≤ maxSize := by
    rw [Int.tdiv_eq_ediv_of_nonneg (by omega)]
    omega
  have hlength := length_addObject ⟨{ maxSize_ := maxSize }, []⟩ hdiv.1
  change ((start maxSize).objects.length : Int) = (0 : Nat) + _ at hlength
  exact {
    limit := rfl
    exist := rfl
    useSize := rfl
    pos := by
      rw [Int.tdiv_eq_ediv_of_nonneg (by omega)] at hlength
      omega
    bound := by omega
    nodup := nodup_addObject (s := ⟨{ maxSize_ := maxSize }, []⟩) List.nodup_nil nofun
    made := made_addObject (s := ⟨{ maxSize_ := maxSize }, []⟩) nofun }

/-! ## One call -/

theorem Inv.takeBack (h : Inv maxSize s) (hne : s.pool.pool_ ≠ []) :
    ∃ x pool, s.pool.takeBack = .ok (some x, pool) ∧ Inv maxSize ⟨pool, s.handles ++ [x]⟩ ∧
      (objects ⟨pool, s.handles ++ [x]⟩).length = s.objects.length := by
  have hlast := List.getLast?_eq_some_getLast hne
  have hperm : (objects ⟨{ s.pool with pool_ := s.pool.pool_.dropLast, useSize_ :=
    s.pool.useSize_ + 1 },
      s.handles ++ [s.pool.pool_.getLast hne]⟩).Perm s.objects := by
    change (s.handles ++ [s.pool.pool_.getLast hne] ++ s.pool.pool_.dropLast).Perm
      (s.handles ++ s.pool.pool_)
    rw [List.append_assoc]
    apply List.Perm.append_left
    apply List.perm_append_comm.trans
    rw [List.dropLast_append_getLast hne]
  refine ⟨_, _, ?_, ?_, hperm.length_eq⟩
  · unfold SimpleObjectPool.takeBack
    rw [hlast]
  · apply h.perm hperm rfl rfl rfl
    change s.pool.useSize_ + 1 = ((s.handles ++ [_]).length : Int)
    rw [h.useSize, List.length_append]
    rfl

/-- A call that makes objects first. -/
theorem Inv.takeNew (h : Inv maxSize s) (hn : 0 < n) (hroom : s.objects.length + n ≤ maxSize) :
    ∃ x pool, (s.pool.addObject n).takeBack = .ok (some x, pool) ∧
      Inv maxSize ⟨pool, s.handles ++ [x]⟩ ∧
      s.objects.length ≤ (objects ⟨pool, s.handles ++ [x]⟩).length := by
  have hne : (s.pool.addObject n).pool_ ≠ [] := by
    apply List.append_ne_nil_of_right_ne_nil
    rw [ne_eq, List.range'_eq_nil_iff]
    omega
  obtain ⟨x, pool, htake, hinv, hlength⟩ := (h.addObject (Int.le_of_lt hn) hroom).takeBack hne
  have hadd := length_addObject s (Int.le_of_lt hn)
  dsimp only at hlength
  exact ⟨x, pool, htake, hinv, by omega⟩

/-- A call of `allotObject` returns null if all objects there may be are in use, and an object
else. -/
theorem Inv.allotObject (h : Inv maxSize s) (hmax : maxSize < 2 ^ 30) :
    (s.pool.useSize_ = maxSize ∧ s.pool.allotObject = .ok (none, s.pool)) ∨
    (s.pool.useSize_ < maxSize ∧ ∃ x pool, s.pool.allotObject = .ok (some x, pool) ∧
      Inv maxSize ⟨pool, s.handles ++ [x]⟩ ∧
      s.objects.length ≤ (objects ⟨pool, s.handles ++ [x]⟩).length) := by
  have hlength := length_objects s
  have hpos := h.pos
  have hbound := h.bound
  have huse := h.useSize
  unfold SimpleObjectPool.allotObject allotObjectWithUnlocked
  by_cases hempty : s.pool.pool_ = []
  · -- every object is in use
    rw [hempty, List.length_nil] at hlength
    rw [if_pos hempty]
    dsimp only
    rw [asInt_eq (by omega) (by omega), h.limit]
    dsimp only
    by_cases hdouble : s.pool.useSize_ * 2 < maxSize
    · rw [if_pos hdouble]
      exact .inr ⟨by omega, h.takeNew (by omega) (by omega)⟩
    · rw [if_neg hdouble]
      by_cases hless : s.pool.useSize_ < maxSize
      · rw [if_pos hless]
        exact .inr ⟨hless, h.takeNew (by omega) (by omega)⟩
      · rw [if_neg hless]
        exact .inl ⟨by omega, rfl⟩
  · rw [if_neg hempty]
    have hpooled := List.length_pos_iff.mpr hempty
    obtain ⟨x, pool, htake, hinv, hsame⟩ := h.takeBack hempty
    exact .inr ⟨by omega, x, pool, htake, hinv, by omega⟩

theorem Inv.destroy (h : Inv maxSize s) {x : Nat} (hx : x ∈ s.handles) :
    Inv maxSize ⟨s.pool.takeIn x, s.handles.erase x⟩ ∧
      (objects ⟨s.pool.takeIn x, s.handles.erase x⟩).length = s.objects.length := by
  unfold takeIn
  rw [if_pos h.exist]
  have hperm : (objects ⟨{ s.pool with pool_ := s.pool.pool_ ++ [x], useSize_ :=
    s.pool.useSize_ - 1 },
      s.handles.erase x⟩).Perm s.objects := by
    change (s.handles.erase x ++ (s.pool.pool_ ++ [x])).Perm (s.handles ++ s.pool.pool_)
    rw [← List.append_assoc]
    apply List.perm_append_comm.trans
    exact List.Perm.append_right _ (List.perm_cons_erase hx).symm
  refine ⟨h.perm hperm rfl rfl rfl ?_, hperm.length_eq⟩
  change s.pool.useSize_ - 1 = ((s.handles.erase x).length : Int)
  have hcount := List.length_pos_of_mem hx
  rw [h.useSize, List.length_erase_of_mem hx]
  omega

/-! ## Runs -/

theorem Inv.step (h : Inv maxSize s) (hmax : maxSize < 2 ^ 30) {op : Op} (hstep : Step s op t) :
    Inv maxSize t ∧ s.objects.length ≤ t.objects.length := by
  unfold Step next at hstep
  cases op with
  | allot =>
    dsimp only at hstep
    obtain ⟨_, hnull⟩ | ⟨_, x, pool, hsome, hinv, hlength⟩ := h.allotObject hmax
    · rw [hnull] at hstep
      cases hstep
      dsimp only
      rw [Option.toList_none, List.append_nil]
      exact ⟨h, Nat.le_refl _⟩
    · rw [hsome] at hstep
      cases hstep
      exact ⟨hinv, hlength⟩
  | destroy x =>
    dsimp only at hstep
    by_cases hx : x ∈ s.handles
    · rw [if_pos hx] at hstep
      cases hstep
      obtain ⟨hinv, hlength⟩ := h.destroy hx
      exact ⟨hinv, Nat.le_of_eq hlength.symm⟩
    · rw [if_neg hx] at hstep
      cases hstep

theorem Inv.run (h : Inv maxSize s) (hmax : maxSize < 2 ^ 30) {ops : List Op}
    (hrun : Run Step s ops t) :
    Inv maxSize t ∧ s.objects.length ≤ t.objects.length := by
  induction hrun with
  | nil => exact ⟨h, Nat.le_refl _⟩
  | cons hstep _ ih =>
    obtain ⟨hinv, hle⟩ := h.step hmax hstep
    obtain ⟨hlast, hmore⟩ := ih hinv
    exact ⟨hlast, Nat.le_trans hle hmore⟩

/-- In every state a pool comes to, `useSize()` counts the live handles, no object has two owners,
there are at most `maxSize` objects, no call fails and a handle is null exactly when all of them are
in use; and whatever is done next, the objects do not become fewer. -/
theorem objects_accounted {ops : List Op} (hpos : 1 ≤ maxSize) (hmax : maxSize < 2 ^ 30)
    (hrun : Run Step (start maxSize) ops s) :
    s.pool.useSize_ = s.handles.length ∧
      s.pool.useSize_ + s.pool.pool_.length ≤ maxSize ∧
      (∀ more t, Run Step s more t →
        s.pool.useSize_ + s.pool.pool_.length ≤ t.pool.useSize_ + t.pool.pool_.length) ∧
      (s.handles ++ s.pool.pool_).Nodup ∧
      (∀ op fault, s.next op ≠ some (.error fault)) ∧
      ∃ handle pool, s.pool.allotObject = .ok (handle, pool) ∧
        (handle = none ↔ s.pool.useSize_ = maxSize) := by
  obtain ⟨h, _⟩ := (inv_start hpos).run hmax hrun
  have hlength := length_objects s
  have hbound := h.bound
  have huse := h.useSize
  refine ⟨huse, by omega, ?_, h.nodup, ?_, ?_⟩
  · intro more t hmore
    -- objects are made and never given up, so their number only grows
    obtain ⟨hinv, hle⟩ := h.run hmax hmore
    have hlast := length_objects t
    have hlastUse := hinv.useSize
    omega
  · intro op fault
    unfold next
    cases op with
    | allot =>
      dsimp only
      obtain ⟨_, hnull⟩ | ⟨_, x, pool, hsome, _⟩ := h.allotObject hmax
      · rw [hnull]
        nofun
      · rw [hsome]
        nofun
    | destroy x =>
      dsimp only
      split <;> nofun
  · obtain ⟨hfull, hnull⟩ | ⟨hless, x, pool, hsome, _⟩ := h.allotObject hmax
    · exact ⟨none, s.pool, hnull, fun _ ↦ hfull, fun _ ↦ rfl⟩
    · exact ⟨some x, pool, hsome, nofun, by omega⟩

/-- A pool of two objects that gives out both and takes the first one back. -/
theorem objects_accounted_two :
    let s : Usage := ⟨⟨2, 1, true, [0], 2⟩, [1]⟩
    s.pool.useSize_ = s.handles.length ∧
      s.pool.useSize_ + s.pool.pool_.length ≤ 2 ∧
      (∀ more t, Run Step s more t →
        s.pool.useSize_ + s.pool.pool_.length ≤ t.pool.useSize_ + t.pool.pool_.length) ∧
      (s.handles ++ s.pool.pool_).Nodup ∧
      (∀ op fault, s.next op ≠ some (.error fault)) ∧
      ∃ handle pool, s.pool.allotObject = .ok (handle, pool) ∧
        (handle = none ↔ s.pool.useSize_ = 2) := by
  have hrun : Run Step (start 2) [.allot, .allot, .destroy 0] ⟨⟨2, 1, true, [0], 2⟩, [1]⟩ :=
    .cons (t := ⟨⟨2, 1, true, [], 1⟩, [0]⟩) (by unfold Step; decide)
      (.cons (t := ⟨⟨2, 2, true, [], 2⟩, [0, 1]⟩) (by unfold Step; decide)
        (.cons (by unfold Step; decide) (.nil _)))
  exact objects_accounted (by decide) (by decide) hrun

end Usage

end SimpleObjectPool

end Pallette
