import Pallette.Log.Integers

/-!
# Insertions — items of all kinds inserted into a LogStream

A text is cut where the buffer ends.  A number goes in whole, or not at all when the bytes left
could be too few.
-/

open Reasoning

namespace Pallette

theorem take_take_append {α : Type} (n : Nat) (front back : List α) :
    (front.take n ++ back).take n = (front ++ back).take n := by
  rw [List.take_append, List.take_append, List.take_take, Nat.min_self, List.length_take]
  congr 2
  omega

namespace LogBuffer

variable {SIZE : Nat} {b : LogBuffer SIZE}

/-- Whatever is appended, the end is cut off. -/
theorem append_take (b : LogBuffer SIZE) (buf : Bytes) :
    (b.append buf).data = (b.data ++ buf).take SIZE := by
  have hfits := b.fits
  unfold append avail
  split
  next hroom => rw [List.take_of_length_le (by rw [List.length_append]; omega)]
  next => rw [List.take_append, List.take_of_length_le hfits]

end LogBuffer

namespace LogStream

/-- The `do` loop of `convertHex`. -/
def hexLoop : Nat → Nat → Bytes → Except Fault Bytes
  | 0, _, _ => .error .overrun
  | room + 1, value, text =>
      match (ascii "0123456789ABCDEF")[value % 16]? with
      | some c => if value / 16 = 0 then .ok (c :: text) else hexLoop room (value / 16) (c :: text)
      | none => .error .digitIndex

def convertHex (value : BitVec 64) : Except Fault Bytes :=
  hexLoop 31 value.toNat []

/-- What an `operator<<` is called with. -/
inductive Item
  | string (v : Bytes)
  -- a null pointer, or the memory it points at
  | cString (str : Option Bytes)
  | char (v : UInt8)
  | bool (v : Bool)
  | integer {T : IntegerType} (value : T.Value)
  -- the text that `%.15g` makes of it
  | double (text : Bytes)
  | pointer (p : BitVec 64)

/-- `static_cast<int>(v.length())`, as the `size_t` that `append` takes. -/
def stringLength (v : Bytes) : Nat :=
  (((v.length : Int).bmod (2 ^ 32)) % 2 ^ 64).toNat

def append (os : LogStream) (data : Bytes) : LogStream :=
  { os with buffer_ := os.buffer_.append data }

def insert (os : LogStream) : Item → Except Fault LogStream
  -- a length past the end of the string is past the end of the buffer too, and is not used
  | .string v => .ok (os.append (v.take (stringLength v)))
  | .cString (some str) => .ok (os.append (str.takeWhile (· ≠ 0)))
  | .cString none => .ok (os.append (ascii "(NULL)"))
  | .char v => .ok (os.append [v])
  | .bool v => .ok (os.append (if v then ascii "1" else ascii "0"))
  | .integer value => os.foramtInteger value
  | .double text => if kMaxNumberSize ≤ os.buffer_.avail then .ok (os.append text) else .ok os
  | .pointer p =>
      if kMaxNumberSize < os.buffer_.avail then do
        let os := os.append (ascii "0x")
        let text ← convertHex p
        .ok (os.append (text.takeWhile (· ≠ 0)))
      else .ok os

/-! ## Renderings -/

def hexText (n : Nat) : Bytes :=
  (Nat.toDigits 16 n).map fun c ↦ UInt8.ofNat c.toUpper.toNat

namespace Item

def rendering : Item → Bytes
  | .string v => v
  | .cString (some str) => str.takeWhile (· ≠ 0)
  | .cString none => ascii "(NULL)"
  | .char v => [v]
  | .bool v => if v then ascii "1" else ascii "0"
  | .integer value => decimalText value.1
  | .double text => text
  | .pointer p => ascii "0x" ++ hexText p.toNat

/-- A string whose length is not cut, an integer that can be negated, and a text that its buffer
holds. -/
def Proper : Item → Prop
  | .string v => v.length < 2 ^ 32
  | @integer T value => T.isSigned = true → value.1 ≠ T.min
  | .double text => text.length < 32
  | _ => True

/-- The bytes that have to be left for the item not to be left out. -/
def needs : Item → Nat
  | .integer _ | .pointer _ => 33
  | .double _ => 32
  | _ => 0

end Item

/-- The items that are not left out: all but the numbers that find too few bytes left. -/
def kept (os : LogStream) : List Item → List Item
  | [] => []
  | item :: items =>
      match os.insert item with
      | .ok os' => if os.buffer_.avail < item.needs then os'.kept items else item :: os'.kept items
      | .error _ => []

/-! ## Hexadecimal texts -/

theorem getElem?_hexDigits {d : Nat} (h : d < 16) :
    (ascii "0123456789ABCDEF")[d]? = some (UInt8.ofNat (Nat.digitChar d).toUpper.toNat) := by
  have hall : ∀ d : Fin 16,
      (ascii "0123456789ABCDEF")[d.val]? =
        some (UInt8.ofNat (Nat.digitChar d.val).toUpper.toNat) := by decide
  exact hall ⟨d, h⟩

theorem ne_zero_of_mem_hexText {n : Nat} {b : UInt8} (h : b ∈ hexText n) : b ≠ 0 := by
  have hall : ∀ d : Fin 16, UInt8.ofNat (Nat.digitChar d.val).toUpper.toNat ≠ 0 := by decide
  change b ∈ numeral _ 16 n at h
  rw [numeral_eq (by decide)] at h
  split at h
  next hlt =>
    rw [List.mem_singleton.mp h]
    exact hall ⟨n, hlt⟩
  next hge =>
    obtain hfront | hlast := List.mem_append.mp h
    · exact ne_zero_of_mem_hexText hfront
    · rw [List.mem_singleton.mp hlast]
      exact hall ⟨n % 16, Nat.mod_lt n (by decide)⟩
termination_by n
decreasing_by omega

theorem length_hexText_le (p : BitVec 64) : (hexText p.toNat).length ≤ 16 :=
  length_numeral_le (by decide) (by decide) p.isLt

theorem hexLoop_eq {room n : Nat} (h : (hexText n).length ≤ room) (text : Bytes) :
    hexLoop room n text = .ok (hexText n ++ text) := by
  apply @numeral_loop 16 _ _ _ hexLoop (by decide) _ _ _ h text
  intro room n text
  rw [hexLoop, getElem?_hexDigits (Nat.mod_lt n (by decide))]

theorem convertHex_eq (p : BitVec 64) : convertHex p = .ok (hexText p.toNat) := by
  have hlength := length_hexText_le p
  rw [convertHex, hexLoop_eq (by omega), List.append_nil]

theorem takeWhile_hexText (n : Nat) : (hexText n).takeWhile (· ≠ 0) = hexText n := by
  rw [List.takeWhile_eq_self_iff]
  intro b hb
  exact decide_eq_true (ne_zero_of_mem_hexText hb)

/-! ## One insertion -/

variable {os os' : LogStream} {item : Item} {items : List Item}

theorem take_stringLength {v : Bytes} (h : v.length < 2 ^ 32) : v.take (stringLength v) = v := by
  apply List.take_of_length_le
  unfold stringLength
  rw [Int.bmod_def]
  split <;> omega

theorem append_data (os : LogStream) (data : Bytes) :
    (os.append data).buffer_.data = (os.buffer_.data ++ data).take 4000 :=
  LogBuffer.append_take os.buffer_ data

/-- An item that is not left out is cut at the end of the buffer at most. -/
theorem insert_data (os : LogStream) (hproper : item.Proper)
    (hroom : item.needs ≤ os.buffer_.avail) :
    ∃ os', os.insert item = .ok os' ∧ os'.buffer_.data =
      (os.buffer_.data ++ item.rendering).take 4000 := by
  cases item with
  | string v =>
    refine ⟨_, rfl, ?_⟩
    rw [append_data, take_stringLength hproper]
    rfl
  | cString str =>
    cases str with
    | none => exact ⟨_, rfl, append_data os _⟩
    | some str => exact ⟨_, rfl, append_data os _⟩
  | char v => exact ⟨_, rfl, append_data os _⟩
  | bool v => exact ⟨_, rfl, append_data os _⟩
  | integer value =>
    refine ⟨os.append (decimalText value.1), ?_, append_data os _⟩
    change os.foramtInteger value = _
    rw [foramtInteger_room hroom, convert_eq value hproper]
    change Except.ok (os.append ((ascii (toString value.1)).takeWhile (· ≠ 0))) = _
    rw [takeWhile_toString]
    rfl
  | double text =>
    have hroom : kMaxNumberSize ≤ os.buffer_.avail := hroom
    refine ⟨os.append text, ?_, append_data os _⟩
    exact if_pos hroom
  | pointer p =>
    have hroom : kMaxNumberSize < os.buffer_.avail := hroom
    refine ⟨(os.append (ascii "0x")).append (hexText p.toNat), ?_, ?_⟩
    · rw [insert, if_pos hroom, convertHex_eq]
      change Except.ok ((os.append (ascii "0x")).append ((hexText p.toNat).takeWhile (· ≠ 0))) = _
      rw [takeWhile_hexText]
    · rw [append_data, append_data, take_take_append, List.append_assoc]
      rfl

theorem insert_left_out (hroom : os.buffer_.avail < item.needs) : os.insert item = .ok os := by
  cases item with
  | string | cString | char | bool => exact absurd hroom (Nat.not_lt_zero _)
  | integer value => exact if_neg (Nat.not_lt.mpr (Nat.le_of_lt_succ hroom))
  | double text => exact if_neg (Nat.not_le.mpr hroom)
  | pointer p => exact if_neg (Nat.not_lt.mpr (Nat.le_of_lt_succ hroom))

/-- A string of more than 4 GiB goes in with the low 32 bits of its length. -/
theorem insert_long {n : Nat} (b : UInt8) (h : ((n : Int).bmod (2 ^ 32) % 2 ^ 64).toNat = 1) :
    ∃ os, insert {} (.string (List.replicate n b)) = .ok os ∧
      os.buffer_.data = (List.replicate n b).take 1 := by
  have hlength : stringLength (List.replicate n b) = 1 := by
    unfold stringLength
    rw [List.length_replicate]
    exact h
  refine ⟨_, rfl, ?_⟩
  rw [append_data, hlength]
  apply List.take_of_length_le
  rw [List.length_append, List.length_take]
  change 0 + _ ≤ 4000
  omega

/-! ## Many insertions -/

theorem insert_concat {next : LogStream} (hitems : items.foldlM insert os = .ok os')
    (hitem : os'.insert item = .ok next) : (items ++ [item]).foldlM insert os = .ok next := by
  rw [List.foldlM_append, hitems]
  change [item].foldlM insert os' = _
  rw [List.foldlM_cons, hitem]
  rfl

theorem insert_all (os : LogStream) (h : ∀ item ∈ items, item.Proper) :
    ∃ os', items.foldlM insert os = .ok os' ∧
      os'.buffer_.data = (os.buffer_.data ++ (os.kept items).flatMap Item.rendering).take 4000 := by
  induction items generalizing os with
  | nil =>
    refine ⟨os, rfl, ?_⟩
    have hfits : os.buffer_.data.length ≤ 4000 := os.buffer_.fits
    change _ = (os.buffer_.data ++ []).take 4000
    rw [List.append_nil, List.take_of_length_le hfits]
  | cons item items ih =>
    have hrest := fun item hitem ↦ h item (List.mem_cons_of_mem _ hitem)
    by_cases hskip : os.buffer_.avail < item.needs
    · have hinsert := insert_left_out hskip
      obtain ⟨os', hrun, hdata⟩ := ih os hrest
      refine ⟨os', ?_, ?_⟩
      · rw [List.foldlM_cons, hinsert]
        exact hrun
      · rw [kept, hinsert]
        dsimp only
        rw [if_pos hskip, hdata]
    · obtain ⟨next, hinsert, hnext⟩ := insert_data os (h item List.mem_cons_self)
        (Nat.le_of_not_lt hskip)
      obtain ⟨os', hrun, hdata⟩ := ih next hrest
      refine ⟨os', ?_, ?_⟩
      · rw [List.foldlM_cons, hinsert]
        exact hrun
      · rw [kept, hinsert]
        dsimp only
        rw [if_neg hskip, hdata, hnext, take_take_append, List.flatMap_cons, List.append_assoc]

theorem kept_sublist (os : LogStream) (items : List Item) : (os.kept items).Sublist items := by
  induction items generalizing os with
  | nil => exact List.Sublist.refl _
  | cons item items ih =>
    unfold kept
    split
    next os' _ =>
      split
      · exact (ih os').cons item
      · exact (ih os').cons_cons item
    next => exact List.nil_sublist _

theorem insert_all_new (h : ∀ item ∈ items, item.Proper) :
    ∃ os, items.foldlM insert {} = .ok os ∧
      os.buffer_.data = ((kept {} items).flatMap Item.rendering).take 4000 := by
  obtain ⟨os, hrun, hdata⟩ := insert_all {} h
  change os.buffer_.data = ([] ++ (kept {} items).flatMap Item.rendering).take 4000 at hdata
  rw [List.nil_append] at hdata
  exact ⟨os, hrun, hdata⟩

/-- The buffer holds at most 4000 bytes: the first of what the items kept are rendered to. -/
theorem insertions_prefix (h : ∀ item ∈ items, item.Proper) :
    ∃ os, items.foldlM insert {} = .ok os ∧ os.buffer_.length ≤ 4000 ∧
      os.buffer_.data = ((kept {} items).flatMap Item.rendering).take 4000 ∧
      os.buffer_.data <+: (kept {} items).flatMap Item.rendering := by
  obtain ⟨os, hrun, hdata⟩ := insert_all_new h
  refine ⟨os, hrun, os.buffer_.fits, hdata, ?_⟩
  rw [hdata]
  exact List.take_prefix 4000 _

def intSeven : IntegerType.int.Value :=
  ⟨7, by decide⟩

theorem insertions_prefix_seven :
    ∃ os, [Item.string (ascii "id "), .integer intSeven, .pointer 255#64].foldlM insert {} =
      .ok os ∧
      os.buffer_.length ≤ 4000 ∧
      os.buffer_.data =
        ((kept {} [Item.string (ascii "id "), .integer intSeven, .pointer 255#64]).flatMap
          Item.rendering).take 4000 ∧
      os.buffer_.data <+:
        (kept {} [Item.string (ascii "id "), .integer intSeven, .pointer 255#64]).flatMap
          Item.rendering := by
  apply insertions_prefix
  intro item hitem
  simp only [List.mem_cons, List.not_mem_nil, or_false] at hitem
  obtain rfl | rfl | rfl := hitem
  · show (ascii "id ").length < 2 ^ 32
    decide
  · show IntegerType.int.isSigned = true → intSeven.1 ≠ IntegerType.int.min
    decide
  · exact trivial

/-- With ten bytes left a number is left out, and a character behind it is not.  And of a string of
a little more than 4 GiB only the first byte goes in. -/
theorem not_insertions_prefix :
    (¬ ∀ items : List Item, (∀ item ∈ items, item.Proper) → ∀ os, items.foldlM insert {} = .ok os →
      os.buffer_.data <+: items.flatMap Item.rendering) ∧
      ∃ os, insert {} (.string (List.replicate 4294967297 97)) = .ok os ∧
        os.buffer_.data = (List.replicate 4294967297 97).take 1 := by
  constructor
  · intro h
    have hproper : (Item.string (List.replicate 3990 97)).Proper := by
      show (List.replicate 3990 (97 : UInt8)).length < 2 ^ 32
      rw [List.length_replicate]
      decide
    have hseven : (Item.integer intSeven).Proper := by
      show IntegerType.int.isSigned = true → intSeven.1 ≠ IntegerType.int.min
      decide
    obtain ⟨os, hfirst, hdata⟩ := insert_data {} hproper (Nat.zero_le _)
    have hfull : os.buffer_.data = List.replicate 3990 97 := by
      apply hdata.trans
      exact List.take_of_length_le
        (by rw [List.length_append, Item.rendering, List.length_replicate]; decide)
    have hroom : os.buffer_.avail = 10 := by
      rw [LogBuffer.avail, hfull, List.length_replicate]
      rfl
    have hneeds : (Item.integer intSeven).needs = 33 := rfl
    have hskip := @insert_left_out os (.integer intSeven) (by omega)
    obtain ⟨os', hlast, hdata'⟩ := @insert_data (.char 98) os trivial (Nat.zero_le _)
    have hrun : [Item.string (List.replicate 3990 97), .integer intSeven, .char 98].foldlM insert
        {} = .ok os' :=
      @insert_concat _ _ _ [.string (List.replicate 3990 97), .integer intSeven] _
        (@insert_concat _ _ _ [.string (List.replicate 3990 97)] _
          (@insert_concat _ _ _ [] _ rfl hfirst) hskip) hlast
    have hprefix := h _ (by
      intro item hitem
      simp only [List.mem_cons, List.not_mem_nil, or_false] at hitem
      obtain rfl | rfl | rfl := hitem
      · exact hproper
      · exact hseven
      · exact trivial) os' hrun
    rw [hdata', hfull, List.take_of_length_le
      (by rw [List.length_append, List.length_replicate]; decide)] at hprefix
    have hbyte := (List.prefix_append_right_inj _).mp hprefix
    revert hbyte
    decide
  · exact insert_long 97 (by decide)

end LogStream

end Pallette
