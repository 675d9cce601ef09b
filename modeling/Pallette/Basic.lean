import Mathlib.Algebra.Group.Int.Defs
import Mathlib.Algebra.Group.Nat.Defs
import Mathlib.Data.List.Lex
import Mathlib.Order.Lattice
import Mathlib.Tactic.Common

/-! Bytes, their literals and the timestamps every other module uses, and how a computation that may
fail comes apart. -/

namespace Pallette

abbrev Bytes := List UInt8

/-- Bytes compare as unsigned numbers, as `std::string` compares its characters. -/
instance byteLinearOrder : LinearOrder UInt8 where
  le_refl _ := UInt8.le_refl _
  le_trans _ _ _ := UInt8.le_trans
  le_antisymm _ _ := UInt8.le_antisymm
  le_total := UInt8.le_total
  lt_iff_le_not_ge a b := by
    rw [UInt8.le_iff_toNat_le, UInt8.le_iff_toNat_le, UInt8.lt_iff_toNat_lt]
    omega
  toDecidableLE := inferInstance

/-- The bytes of a string literal of the source (all of them are ASCII). -/
def ascii (s : String) : Bytes :=
  s.toList.map fun c ↦ UInt8.ofNat c.toNat

theorem ascii_repr (n : Nat) :
    ascii (Nat.repr n) = (Nat.toDigits 10 n).map fun c ↦ UInt8.ofNat c.toNat := by
  rw [ascii, Nat.toList_repr]

theorem length_repr_le {n k : Nat} (hk : 0 < k) (h : n < 10 ^ k) :
    (ascii (Nat.repr n)).length ≤ k := by
  rw [ascii_repr, List.length_map]
  exact (Nat.length_toDigits_le_iff (by decide) hk).mpr h

def space : UInt8 := 32
def colonByte : UInt8 := 58

def kCRLF : Bytes := [13, 10]

/-- A `size_t` computation keeps the low 64 bits of its result. -/
def sizeT (n : Nat) : Nat :=
  n % 2 ^ 64

theorem sizeT_of_lt {n : Nat} (h : n < 2 ^ 64) : sizeT n = n :=
  Nat.mod_eq_of_lt h

/-- The result of a computation in `int`, if it does not overflow. -/
def asInt (n : Int) : Option Int :=
  if -2 ^ 31 ≤ n ∧ n < 2 ^ 31 then some n else none

theorem asInt_eq {n : Int} (hlow : -2147483648 ≤ n) (hhigh : n ≤ 2147483647) : asInt n = some n :=
  if_pos (by omega)

theorem some_bind {α β : Type} (a : α) (f : α → Option β) : (some a >>= f) = f a :=
  rfl

theorem asInt_bind {α : Type} {n : Int} (hlow : -2147483648 ≤ n) (hhigh : n ≤ 2147483647)
    (f : Int → Option α) : (asInt n >>= f) = f n := by
  rw [asInt_eq hlow hhigh]
  rfl

/-- `int` division rounds to zero. -/
def divInt (n d : Int) : Option Int :=
  if d = 0 then none else asInt (n.tdiv d)

theorem divInt_bind {α : Type} {n d : Int} (hlow : 0 ≤ n) (hhigh : n ≤ 2147483647) (hd : 0 < d)
    (f : Int → Option α) : (divInt n d >>= f) = f (n / d) := by
  have hle := Int.ediv_le_self d hlow
  have hpos := Int.ediv_nonneg hlow (Int.le_of_lt hd)
  rw [divInt, if_neg (by omega), Int.tdiv_eq_ediv_of_nonneg hlow]
  exact asInt_bind (by omega) (by omega) f

/-- `Timestamp`: microseconds since the epoch. -/
structure Timestamp where
  microSeconds_ : Int
deriving DecidableEq, Repr

namespace Timestamp

def kMicroSecondsPerSecond : Int := 1000 * 1000

def invalid : Timestamp := ⟨0⟩

def valid (t : Timestamp) : Bool :=
  decide (0 < t.microSeconds_)

instance : LT Timestamp := ⟨fun a b ↦ a.microSeconds_ < b.microSeconds_⟩

instance (a b : Timestamp) : Decidable (a < b) :=
  inferInstanceAs (Decidable (a.microSeconds_ < b.microSeconds_))

/-- `less_than_comparable` makes `a <= b` from `b < a`. -/
instance : LE Timestamp := ⟨fun a b ↦ ¬ b < a⟩

instance (a b : Timestamp) : Decidable (a ≤ b) :=
  inferInstanceAs (Decidable (¬ b < a))

theorem lt_iff {a b : Timestamp} : a < b ↔ a.microSeconds_ < b.microSeconds_ :=
  Iff.rfl

theorem le_iff {a b : Timestamp} : a ≤ b ↔ a.microSeconds_ ≤ b.microSeconds_ :=
  Int.not_lt

theorem eq_iff {a b : Timestamp} : a = b ↔ a.microSeconds_ = b.microSeconds_ := by
  cases a
  cases b
  rw [mk.injEq]

end Timestamp

theorem ok_of_bind {ε α β : Type} {x : Except ε α} {f : α → Except ε β} {b : β}
    (h : x >>= f = .ok b) :
    ∃ a, x = .ok a ∧ f a = .ok b := by
  cases x with
  | error e => cases h
  | ok a => exact ⟨a, rfl, h⟩

theorem ok_of_map {ε α β : Type} {x : Except ε α} {f : α → β} {b : β} (h : x.map f = .ok b) :
    ∃ a, x = .ok a ∧ b = f a := by
  cases x with
  | error e => cases h
  | ok a =>
    cases h
    exact ⟨a, rfl, rfl⟩

theorem ok_of_mapError {ε ε' α : Type} {x : Except ε α} {f : ε → ε'} {a : α}
    (h : x.mapError f = .ok a) : x = .ok a := by
  cases x with
  | error e => cases h
  | ok a =>
    cases h
    rfl

end Pallette
