import Pallette.Basic

/-!
# Numerals — integers in texts, as the C library writes and reads them

`%d`, `%4d`, `%02d` and their like take an integer of any size: what does not fit the width of a
directive makes the text longer.  `decimal` reads the digits back.
-/

namespace Pallette

def isdigit (c : UInt8) : Bool :=
  48 ≤ c && c ≤ 57

/-- The number a run of decimal digits denotes. -/
def decimal (digits : Bytes) : Nat :=
  digits.foldl (fun n d ↦ 10 * n + (d.toNat - 48)) 0

/-- The sign `strtol` accepts in front of the digits. -/
def splitSign : Bytes → Bool × Bytes
  | 45 :: rest => (true, rest)
  | 43 :: rest => (false, rest)
  | text => (false, text)

/-- `isspace` in the "C" locale. -/
def isspace (c : UInt8) : Bool :=
  c == 32 || (9 ≤ c && c ≤ 13)

/-- `strtol(text, NULL, 10)` stays in the range of a `long`. -/
def strtol (text : Bytes) : Int :=
  let (negative, rest) := splitSign (text.dropWhile isspace)
  let digits := rest.takeWhile isdigit
  if negative then max (-2 ^ 63) (-(decimal digits : Int)) else min (2 ^ 63 - 1) (decimal digits)

/-- What `snprintf` leaves in a buffer, without the closing zero. -/
def snprintf (size : Nat) (text : Bytes) : Bytes :=
  text.take (size - 1)

/-- `%d` -/
def decimalText (n : Int) : Bytes :=
  ascii (toString n)

def padLeft (pad : UInt8) (width : Nat) (text : Bytes) : Bytes :=
  List.replicate (width - text.length) pad ++ text

/-- `%4d` and the like -/
def spacePadded (width : Nat) (n : Int) : Bytes :=
  padLeft space width (decimalText n)

/-- `%02d` and the like; the sign stands in front of the zeros. -/
def zeroPadded (width : Nat) (n : Int) : Bytes :=
  if n < 0 then 45 :: padLeft 48 (width - 1) (ascii (Nat.repr n.natAbs))
  else padLeft 48 width (ascii (Nat.repr n.natAbs))

theorem snprintf_of_lt {size : Nat} {text : Bytes} (h : text.length < size) :
    snprintf size text = text := by
  apply List.take_of_length_le
  omega

/-! ## Digits -/

theorem toNat_digit {c : Char} (h : c.isDigit = true) : (UInt8.ofNat c.toNat).toNat = c.toNat := by
  rcases Char.isDigit_iff_toNat.mp h with ⟨_, hle⟩
  have hnine : '9'.toNat = 57 := rfl
  rw [UInt8.toNat_ofNat']
  omega

theorem isdigit_of_mem_repr {n : Nat} {b : UInt8} (h : b ∈ ascii (Nat.repr n)) :
    isdigit b = true := by
  rw [ascii_repr] at h
  obtain ⟨c, hc, rfl⟩ := List.mem_map.mp h
  have hdigit := Nat.isDigit_of_mem_toDigits (by decide) (by decide) hc
  obtain ⟨hlow, hhigh⟩ := Char.isDigit_iff_toNat.mp hdigit
  have hnat := toNat_digit hdigit
  simp only [isdigit, Bool.and_eq_true, decide_eq_true_eq, UInt8.le_iff_toNat_le, hnat]
  exact ⟨hlow, hhigh⟩

/-- The decimal text of a number denotes it. -/
theorem decimal_repr (n : Nat) : decimal (ascii (Nat.repr n)) = n := by
  have hdigits : ∀ c ∈ Nat.toDigits 10 n, (UInt8.ofNat c.toNat).toNat = c.toNat := fun c hc ↦
    toNat_digit (Nat.isDigit_of_mem_toDigits (by decide) (by decide) hc)
  have hfold : ∀ (cs : List Char) (acc : Nat), (∀ c ∈ cs, (UInt8.ofNat c.toNat).toNat = c.toNat) →
      (cs.map fun c ↦ UInt8.ofNat c.toNat).foldl (fun n d ↦ 10 * n + (d.toNat - 48)) acc =
        Nat.ofDigitChars 10 cs acc := by
    intro cs acc h
    induction cs generalizing acc with
    | nil => rfl
    | cons c cs ih =>
      rw [List.map_cons, List.foldl_cons, Nat.ofDigitChars_cons, h c List.mem_cons_self]
      exact ih _ fun d hd ↦ h d (List.mem_cons_of_mem _ hd)
  rw [ascii_repr, decimal, hfold _ 0 hdigits, Nat.ofDigitChars_ten_toDigits]

theorem decimalText_eq (n : Int) :
    decimalText n = (if n < 0 then [45] else []) ++ ascii (Nat.repr n.natAbs) := by
  cases n with
  | ofNat m => rfl
  | negSucc m =>
    rw [if_pos (Int.negSucc_lt_zero m), Int.natAbs_negSucc]
    unfold ascii
    change ("-" ++ Nat.repr (m + 1)).toList.map _ = _
    rw [String.toList_append, List.map_append]
    rfl

theorem mem_decimalText {n : Int} {b : UInt8} (h : b ∈ decimalText n) :
    isdigit b = true ∨ b = 45 := by
  rw [decimalText_eq] at h
  obtain hsign | hdigit := List.mem_append.mp h
  · split at hsign
    · exact .inr (List.mem_singleton.mp hsign)
    · cases hsign
  · exact .inl (isdigit_of_mem_repr hdigit)

theorem length_repr_pos (n : Nat) : 0 < (ascii (Nat.repr n)).length := by
  rw [ascii_repr, List.length_map]
  exact Nat.length_toDigits_pos

theorem length_repr_le_iff {n k : Nat} (hk : 0 < k) :
    (ascii (Nat.repr n)).length ≤ k ↔ n < 10 ^ k := by
  rw [ascii_repr, List.length_map]
  exact Nat.length_toDigits_le_iff (by decide) hk

theorem length_decimalText_le {n : Int} {k : Nat} (hk : 0 < k) (h : n.natAbs < 10 ^ k) :
    (decimalText n).length ≤ k + 1 := by
  have hdigits := length_repr_le hk h
  rw [decimalText_eq, List.length_append]
  split
  · rw [List.length_singleton]
    omega
  · rw [List.length_nil]
    omega

/-! ## Padding -/

theorem length_padLeft (pad : UInt8) (width : Nat) (text : Bytes) :
    (padLeft pad width text).length = max width text.length := by
  unfold padLeft
  rw [List.length_append, List.length_replicate]
  omega

theorem mem_padLeft {pad : UInt8} {width : Nat} {text : Bytes} {b : UInt8}
    (h : b ∈ padLeft pad width text) :
    b = pad ∨ b ∈ text := by
  obtain hpad | htext := List.mem_append.mp h
  · exact .inl (List.eq_of_mem_replicate hpad)
  · exact .inr htext

theorem mem_spacePadded {width : Nat} {n : Int} {b : UInt8} (h : b ∈ spacePadded width n) :
    isdigit b = true ∨ b = 45 ∨ b = space := by
  obtain hpad | htext := mem_padLeft h
  · exact .inr (.inr hpad)
  · obtain hdigit | hsign := mem_decimalText htext
    · exact .inl hdigit
    · exact .inr (.inl hsign)

theorem mem_zeroPadded {width : Nat} {n : Int} {b : UInt8} (h : b ∈ zeroPadded width n) :
    isdigit b = true ∨ b = 45 := by
  have hdigits : ∀ {width : Nat}, b ∈ padLeft 48 width (ascii (Nat.repr n.natAbs)) →
      isdigit b = true := by
    intro width hmem
    obtain rfl | htext := mem_padLeft hmem
    · rfl
    · exact isdigit_of_mem_repr htext
  unfold zeroPadded at h
  split at h
  · obtain hsign | htail := List.mem_cons.mp h
    · exact .inr hsign
    · exact .inl (hdigits htail)
  · exact .inl (hdigits h)

theorem decimal_padLeft (width : Nat) (digits : Bytes) :
    decimal (padLeft 48 width digits) = decimal digits := by
  have hzeros : ∀ k, (List.replicate k (48 : UInt8)).foldl (fun n d ↦ 10 * n + (d.toNat - 48)) 0 =
      0 := by
    intro k
    induction k with
    | zero => rfl
    | succ k ih =>
      rw [List.replicate_succ, List.foldl_cons]
      exact ih
  unfold padLeft decimal
  rw [List.foldl_append, hzeros]

theorem decimalText_natCast (n : Nat) : decimalText n = ascii (Nat.repr n) :=
  rfl

theorem zeroPadded_natCast (width n : Nat) :
    zeroPadded width n = padLeft 48 width (ascii (Nat.repr n)) := by
  have hnonneg : ¬ (n : Int) < 0 := by omega
  rw [zeroPadded, if_neg hnonneg, Int.natAbs_natCast]

theorem length_zeroPadded_le {width k : Nat} {n : Int} (hk : 0 < k) (h : n.natAbs < 10 ^ k) :
    (zeroPadded width n).length ≤ max width (k + 1) := by
  have hdigits := length_repr_le hk h
  unfold zeroPadded
  split
  · rw [List.length_cons, length_padLeft]
    omega
  · rw [length_padLeft]
    omega

theorem decimal_zeroPadded (width n : Nat) : decimal (zeroPadded width n) = n := by
  rw [zeroPadded_natCast, decimal_padLeft, decimal_repr]

theorem length_zeroPadded (width n : Nat) :
    (zeroPadded width n).length = max width (ascii (Nat.repr n)).length := by
  rw [zeroPadded_natCast, length_padLeft]

theorem length_zeroPadded_of_lt {width : Nat} {n : Int} (hwidth : 0 < width)
    (h : 0 ≤ n ∧ n < 10 ^ width) :
    (zeroPadded width n).length = width := by
  obtain ⟨hnonneg, hlt⟩ := h
  lift n to Nat using hnonneg
  have hdigits := (length_repr_le_iff hwidth).mpr (show n < 10 ^ width by exact_mod_cast hlt)
  rw [length_zeroPadded]
  omega

theorem decimal_decimalText (n : Nat) : decimal (decimalText n) = n := by
  rw [decimalText_natCast, decimal_repr]

/-- A field that fits its width comes off the end of a text. -/
theorem append_zeroPadded_inj {front front' : Bytes} {width : Nat} {m n : Int} (hwidth : 0 < width)
    (hm : 0 ≤ m ∧ m < 10 ^ width) (hn : 0 ≤ n ∧ n < 10 ^ width)
    (h : front ++ zeroPadded width m = front' ++ zeroPadded width n) : front = front' ∧ m = n := by
  have hlength := (length_zeroPadded_of_lt hwidth hm).trans (length_zeroPadded_of_lt hwidth hn).symm
  obtain ⟨hfront, hfield⟩ := List.append_inj' h hlength
  lift m to Nat using hm.1
  lift n to Nat using hn.1
  have hvalue := congrArg decimal hfield
  rw [decimal_zeroPadded, decimal_zeroPadded] at hvalue
  exact ⟨hfront, congrArg Nat.cast hvalue⟩

end Pallette
