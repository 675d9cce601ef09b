import Pallette.Log.LogStream
import Pallette.Numerals
import Pallette.Reasoning.Digits
import Mathlib.Data.List.TakeWhile

/-!
# Integers — integers inserted into a LogStream

`convert` fills a buffer of 32 bytes from behind, a closing zero first.  Here it is the text written
so far, with room for 31 bytes.  Signed arithmetic is two's complement in the width of the type.
-/

open Reasoning

namespace Pallette

namespace LogStream

inductive Fault
  -- `digits[i]` outside the table
  | digitIndex
  -- `*--ptr` in front of `buf`
  | overrun
deriving DecidableEq, Repr

/-- The integer types that have an `operator<<`. -/
inductive IntegerType
  | short
  | unsignedShort
  | int
  | unsignedInt
  | long
  | unsignedLong
  | longLong
  | unsignedLongLong
deriving DecidableEq, Repr

namespace IntegerType

def width : IntegerType → Nat
  | .short | .unsignedShort => 16
  | .int | .unsignedInt => 32
  | .long | .unsignedLong | .longLong | .unsignedLongLong => 64

def isSigned : IntegerType → Bool
  | .short | .int | .long | .longLong => true
  | .unsignedShort | .unsignedInt | .unsignedLong | .unsignedLongLong => false

variable (T : IntegerType)

def min : Int :=
  if T.isSigned then -2 ^ (T.width - 1) else 0

def max : Int :=
  if T.isSigned then 2 ^ (T.width - 1) - 1 else 2 ^ T.width - 1

def Value : Type :=
  { n : Int // T.min ≤ n ∧ n ≤ T.max }

/-- The value of the type that has the same low bits. -/
def wrap (n : Int) : Int :=
  if T.isSigned then n.bmod (2 ^ T.width) else n % 2 ^ T.width

end IntegerType

def digit (i : Int) : Except Fault UInt8 :=
  if 0 ≤ i then
    match (ascii "0123456789")[i.toNat]? with
    | some c => .ok c
    | none => .error .digitIndex
  else .error .digitIndex

/-- The `do` loop, with the room that is left in front of `ptr`. -/
def digitLoop : Nat → Int → Bytes → Except Fault Bytes
  | 0, _, _ => .error .overrun
  | room + 1, value, text => do
      let c ← digit (value.tmod 10)
      if value.tdiv 10 = 0 then .ok (c :: text) else digitLoop room (value.tdiv 10) (c :: text)

/-- The text at the pointer that `convert` returns. -/
def convert {T : IntegerType} (value : T.Value) : Except Fault Bytes := do
  let signFlag := decide (value.1 < 0)
  let text ← digitLoop 31 (if signFlag then T.wrap (-value.1) else value.1) []
  if signFlag then if text.length < 31 then .ok (45 :: text) else .error .overrun
  else .ok text

def kMaxNumberSize : Nat := 32

end LogStream

open LogStream

structure LogStream where
  buffer_ : LogBuffer kSmallBuffer := .new

namespace LogStream

/-- Each `operator<<` for an integer type is a call of this at that type. -/
def foramtInteger (os : LogStream) {T : IntegerType} (value : T.Value) : Except Fault LogStream :=
  if kMaxNumberSize < os.buffer_.avail then do
    let text ← convert value
    -- `strlen` stops at a zero
    .ok { os with buffer_ := os.buffer_.append (text.takeWhile (· ≠ 0)) }
  else .ok os

/-! ## Decimal texts -/

/-- The digits of a number, the most significant one first. -/
def digitsOf (n : Nat) : Bytes :=
  (Nat.toDigits 10 n).map fun c ↦ UInt8.ofNat c.toNat

theorem ascii_toString (n : Int) :
    ascii (toString n) = (if n < 0 then [45] else []) ++ digitsOf n.natAbs := by
  rw [digitsOf, ← ascii_repr]
  exact decimalText_eq n

theorem ne_zero_of_mem_digitsOf {n : Nat} {b : UInt8} (h : b ∈ digitsOf n) : b ≠ 0 := by
  rw [digitsOf, ← ascii_repr] at h
  have hdigit := isdigit_of_mem_repr h
  rintro rfl
  contradiction

theorem length_digitsOf_le {n : Nat} (h : n < 10 ^ 20) : (digitsOf n).length ≤ 20 :=
  length_numeral_le (by decide) (by decide) h

theorem digit_digitChar {d : Nat} (h : d < 10) :
    digit d = .ok (UInt8.ofNat (Nat.digitChar d).toNat) := by
  have hall : ∀ d : Fin 10, digit d.val = .ok (UInt8.ofNat (Nat.digitChar d.val).toNat) := by decide
  exact hall ⟨d, h⟩

theorem digitLoop_natCast {room n : Nat} (h : (digitsOf n).length ≤ room) (text : Bytes) :
    digitLoop room n text = .ok (digitsOf n ++ text) := by
  apply @numeral_loop 10 _ _ _ (fun room n text ↦ digitLoop room (n : Nat) text) (by decide) _ _
    _ h text
  intro room n text
  have hmod : (n : Int).tmod 10 = ((n % 10 : Nat) : Int) := (Int.ofNat_tmod n 10).symm
  have hdiv : (n : Int).tdiv 10 = ((n / 10 : Nat) : Int) := (Int.ofNat_tdiv n 10).symm
  change (digit ((n : Int).tmod 10) >>= fun c ↦ if (n : Int).tdiv 10 = 0 then _ else _) = _
  rw [hmod, hdiv, digit_digitChar (Nat.mod_lt n (by decide))]
  change (if ((n / 10 : Nat) : Int) = 0 then _ else _) = _
  simp only [Int.natCast_eq_zero]

/-! ## All values but the smallest one -/

variable {T : IntegerType}

theorem IntegerType.bounds (T : IntegerType) : -2 ^ 63 ≤ T.min ∧ T.max < 2 ^ 64 := by
  cases T <;> decide

theorem IntegerType.min_of_unsigned (h : T.isSigned ≠ true) : T.min = 0 :=
  if_neg h

theorem natAbs_lt (value : T.Value) : value.1.natAbs < 10 ^ 20 := by
  obtain ⟨hmin, hmax⟩ := T.bounds
  obtain ⟨hlow, hhigh⟩ := value.2
  omega

/-- The negation of a negative value is a value of the type again, unless it is the smallest. -/
theorem wrap_neg (value : T.Value) (hneg : value.1 < 0)
    (hne : T.isSigned = true → value.1 ≠ T.min) :
    T.wrap (-value.1) = -value.1 := by
  obtain ⟨hlow, hhigh⟩ := value.2
  have hhalf : T.isSigned = true → T.min = -((2 ^ T.width / 2 : Nat) : Int) := by
    cases T <;> decide
  have hsigned : T.isSigned = true := by
    by_contra hnot
    have hzero := IntegerType.min_of_unsigned hnot
    omega
  have hmin := hhalf hsigned
  have hne := hne hsigned
  unfold IntegerType.wrap
  rw [if_pos hsigned]
  apply Int.bmod_eq_of_le <;> omega

theorem convert_eq (value : T.Value) (hne : T.isSigned = true → value.1 ≠ T.min) :
    convert value = .ok (ascii (toString value.1)) := by
  have hlength := length_digitsOf_le (natAbs_lt value)
  have hloop := digitLoop_natCast (Nat.le_trans hlength (by decide : 20 ≤ 31)) []
  rw [List.append_nil] at hloop
  rw [ascii_toString]
  unfold convert
  dsimp only
  by_cases hneg : value.1 < 0
  · have hmagnitude : T.wrap (-value.1) = (value.1.natAbs : Int) := by
      rw [wrap_neg value hneg hne]
      omega
    have hroom : (digitsOf value.1.natAbs).length < 31 := by omega
    rw [decide_eq_true hneg, if_pos rfl, hmagnitude, hloop, if_pos hneg]
    exact if_pos hroom
  · have hmagnitude : (value.1.natAbs : Int) = value.1 := by omega
    rw [hmagnitude] at hloop
    rw [decide_eq_false hneg, if_neg Bool.false_ne_true, hloop, if_neg hneg]
    rfl

/-! ## The smallest value of a signed type -/

theorem convert_min (value : T.Value) (hsigned : T.isSigned = true) (hmin : value.1 = T.min) :
    convert value = .error .digitIndex := by
  have hwrap : T.isSigned = true → digitLoop 31 (T.wrap (-T.min)) [] = .error .digitIndex := by
    cases T <;> decide
  have hneg : T.isSigned = true → T.min < 0 := by
    cases T <;> decide
  unfold convert
  dsimp only
  rw [hmin, decide_eq_true (hneg hsigned), if_pos rfl, hwrap hsigned]
  rfl

/-! ## Into the stream -/

theorem foramtInteger_room {os : LogStream} (hroom : 32 < os.buffer_.avail) (value : T.Value) :
    os.foramtInteger value = (convert value).map fun text ↦
      { os with buffer_ := os.buffer_.append (text.takeWhile (· ≠ 0)) } := by
  have hroom : kMaxNumberSize < os.buffer_.avail := hroom
  unfold foramtInteger
  rw [if_pos hroom]
  cases convert value <;> rfl

theorem length_toString_lt (value : T.Value) : (ascii (toString value.1)).length < 32 := by
  have hlength := length_digitsOf_le (natAbs_lt value)
  rw [ascii_toString, List.length_append]
  split
  · rw [List.length_singleton]
    omega
  · rw [List.length_nil]
    omega

theorem takeWhile_toString (n : Int) :
    (ascii (toString n)).takeWhile (· ≠ 0) = ascii (toString n) := by
  rw [ascii_toString, List.takeWhile_eq_self_iff]
  intro b hb
  obtain hsign | hdigit := List.mem_append.mp hb
  · split at hsign
    · rw [List.mem_singleton.mp hsign]
      rfl
    · cases hsign
  · exact decide_eq_true (ne_zero_of_mem_digitsOf hdigit)

/-- An integer is inserted as its decimal text exactly when it is not the smallest value of a signed
type. -/
theorem foramtInteger_iff (os : LogStream) (hroom : 32 < os.buffer_.avail) (T : IntegerType)
    (value : T.Value) :
    (∃ os', os.foramtInteger value = .ok os' ∧
      os'.buffer_.data = os.buffer_.data ++ ascii (toString value.1)) ↔
    (T.isSigned = true → value.1 ≠ T.min) := by
  rw [foramtInteger_room hroom]
  constructor
  · rintro ⟨os', hok, _⟩ hsigned hmin
    rw [convert_min value hsigned hmin] at hok
    cases hok
  · intro hne
    rw [convert_eq value hne]
    refine ⟨_, rfl, ?_⟩
    dsimp only
    rw [takeWhile_toString]
    exact LogBuffer.data_append (Nat.lt_trans (length_toString_lt value) hroom)

def minusSeven : IntegerType.short.Value :=
  ⟨-7, by decide⟩

theorem foramtInteger_minusSeven :
    (∃ os', LogStream.foramtInteger {} minusSeven = .ok os' ∧
      os'.buffer_.data = ([] : Bytes) ++ ascii (toString minusSeven.1)) ↔
    (IntegerType.short.isSigned = true → minusSeven.1 ≠ IntegerType.short.min) :=
  foramtInteger_iff {} (by decide) .short minusSeven

def intMin : IntegerType.int.Value :=
  ⟨-2147483648, by decide⟩

/-- `INT_MIN` stays negative when it is negated, and the first digit is read from in front of the
table. -/
theorem foramtInteger_intMin :
    ¬ ∃ os', LogStream.foramtInteger {} intMin = .ok os' ∧
      os'.buffer_.data = ([] : Bytes) ++ ascii (toString intMin.1) := by
  have hroom : 32 < ({} : LogStream).buffer_.avail := by decide
  rintro ⟨os', hok, _⟩
  rw [foramtInteger_room hroom, convert_min intMin rfl rfl] at hok
  cases hok

end LogStream

end Pallette
