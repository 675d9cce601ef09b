import Pallette.Strings

/-!
# Base64 — `base64_encode` and `base64_decode`

The encoder counts in an `unsigned int`, so its loop is given fuel; the decoder looks at its string
by index.  `Encoded` says which texts stand for which bytes.
-/

namespace Pallette.Base64

/-- The decoder throws a string literal.  Outside its string it may not look. -/
inductive Failure
  | thrown
  | outOfRange
deriving DecidableEq, Repr

/-! ## Encoding -/

def base64Chars (url : Bool) : Bytes :=
  if url then ascii "ABCDEFGHIJKLMNOPQRSTUVWXYZabcdefghijklmnopqrstuvwxyz0123456789-_"
  else ascii "ABCDEFGHIJKLMNOPQRSTUVWXYZabcdefghijklmnopqrstuvwxyz0123456789+/"

def trailingChar (url : Bool) : UInt8 :=
  if url then '.'.toUInt8 else '='.toUInt8

/-- `base64_chars_[n]` -/
def charOf (url : Bool) (n : Nat) : UInt8 :=
  (base64Chars url).getD n 0

/-- `unsigned int` arithmetic keeps the low 32 bits. -/
def unsignedInt (n : Nat) : Nat :=
  n % 2 ^ 32

/-- What the loop appends for the bytes from `pos` on.  Each index is one the loop has found below
`in_len`. -/
def encodeGroup (bytesToEncode : Bytes) (url : Bool) (pos : Nat) : Bytes :=
  let byte (i : Nat) := (bytesToEncode.getD (unsignedInt (pos + i)) 0).toNat
  charOf url ((byte 0 &&& 0xfc) >>> 2) ::
    if unsignedInt (pos + 1) < bytesToEncode.length then
      charOf url (((byte 0 &&& 0x03) <<< 4) + ((byte 1 &&& 0xf0) >>> 4)) ::
        if unsignedInt (pos + 2) < bytesToEncode.length then
          [charOf url (((byte 1 &&& 0x0f) <<< 2) + ((byte 2 &&& 0xc0) >>> 6)),
            charOf url (byte 2 &&& 0x3f)]
        else
          [charOf url ((byte 1 &&& 0x0f) <<< 2), trailingChar url]
    else
      [charOf url ((byte 0 &&& 0x03) <<< 4), trailingChar url, trailingChar url]

def encodeLoop (bytesToEncode : Bytes) (url : Bool) : Nat → Nat → Bytes → Option Bytes
  | 0, _, _ => none
  | fuel + 1, pos, ret =>
      if pos < bytesToEncode.length then
        encodeLoop bytesToEncode url fuel (unsignedInt (pos + 3))
          (ret ++ encodeGroup bytesToEncode url pos)
      else some ret

/-- `base64_encode`, with at most `fuel` turns of its loop -/
def base64Encode (fuel : Nat) (bytesToEncode : Bytes) (url : Bool) : Option Bytes :=
  encodeLoop bytesToEncode url fuel 0 []

/-! ## Decoding -/

def posOfChar (chr : UInt8) : Except Failure Nat :=
  if 'A'.toUInt8 ≤ chr ∧ chr ≤ 'Z'.toUInt8 then .ok (chr.toNat - 65)
  else if 'a'.toUInt8 ≤ chr ∧ chr ≤ 'z'.toUInt8 then .ok (chr.toNat - 97 + (90 - 65) + 1)
  else if '0'.toUInt8 ≤ chr ∧ chr ≤ '9'.toUInt8 then
    .ok (chr.toNat - 48 + (90 - 65) + (122 - 97) + 2)
  else if chr = '+'.toUInt8 ∨ chr = '-'.toUInt8 then .ok 62
  else if chr = '/'.toUInt8 ∨ chr = '_'.toUInt8 then .ok 63
  else .error .thrown

/-- `encoded_string[pos]`: the terminator stands behind the last character. -/
def charAt (s : Bytes) (pos : Nat) : Except Failure UInt8 :=
  if pos < s.length then .ok (s.getD pos 0)
  else if pos = s.length then .ok 0
  else .error .outOfRange

def isPad (chr : UInt8) : Prop :=
  chr = '='.toUInt8 ∨ chr = '.'.toUInt8

instance (chr : UInt8) : Decidable (isPad chr) :=
  inferInstanceAs (Decidable (_ ∨ _))

/-- What the loop appends for the characters from `pos` on. -/
def decodeGroup (s : Bytes) (pos : Nat) : Except Failure Bytes := do
  let posOfChar1 ← posOfChar (← charAt s (pos + 1))
  let posOfChar0 ← posOfChar (← charAt s (pos + 0))
  let first := UInt8.ofNat ((posOfChar0 <<< 2) + ((posOfChar1 &&& 0x30) >>> 4))
  let chr2 ← charAt s (pos + 2)
  if isPad chr2 then pure [first]
  else
    let posOfChar2 ← posOfChar chr2
    let second := UInt8.ofNat (((posOfChar1 &&& 0x0f) <<< 4) + ((posOfChar2 &&& 0x3c) >>> 2))
    let chr3 ← charAt s (pos + 3)
    if isPad chr3 then pure [first, second]
    else
      let posOfChar3 ← posOfChar chr3
      pure [first, second, UInt8.ofNat (((posOfChar2 &&& 0x03) <<< 6) + posOfChar3)]

def decodeLoop (s : Bytes) (pos : Nat) (ret : Bytes) : Except Failure Bytes :=
  if pos < s.length then
    match decodeGroup s pos with
    | .ok group => decodeLoop s (pos + 4) (ret ++ group)
    | .error e => .error e
  else .ok ret
termination_by s.length - pos

def newline : UInt8 := 10

/-- `copy.find("\n", pos)` -/
def findFrom (copy : Bytes) (pos : Nat) : Option Nat :=
  (find newline (copy.drop pos)).map (pos + ·)

theorem findFrom_lt {copy : Bytes} {pos i : Nat} (h : findFrom copy pos = some i) :
    i < copy.length := by
  obtain ⟨j, hj, rfl⟩ := Option.map_eq_some_iff.mp h
  have hlt := find_lt hj
  rw [List.length_drop] at hlt
  omega

def eraseLinebreaks (copy : Bytes) (pos : Nat) : Bytes :=
  match _ : findFrom copy pos with
  | some i => eraseLinebreaks (copy.take i ++ copy.drop (i + 1)) i
  | none => copy
termination_by copy.length
decreasing_by
  have hlt := findFrom_lt ‹findFrom copy pos = some i›
  rw [List.length_append, List.length_take, List.length_drop]
  omega

/-- `decode(encoded_string, remove_linebreaks)` -/
def base64Decode (s : Bytes) (removeLinebreaks : Bool) : Except Failure Bytes :=
  if removeLinebreaks then
    if s.length = 0 then .ok []
    else
      let copy := eraseLinebreaks s 0
      if copy.length = 0 then .ok [] else decodeLoop copy 0 []
  else if s.length = 0 then .ok []
  else decodeLoop s 0 []

/-! ## Lines -/

/-- The loop of `insert_linebreaks`; its callers give a line length that is not 0. -/
def insertLoop (distance : Nat) (hdistance : 0 < distance) (str : Bytes) (pos : Nat) : Bytes :=
  if pos < str.length then
    insertLoop distance hdistance (str.take pos ++ newline :: str.drop pos) (pos + (distance + 1))
  else str
termination_by str.length - pos
decreasing_by
  rw [List.length_append, List.length_cons, List.length_take, List.length_drop]
  omega

def insertLinebreaks (str : Bytes) (distance : Nat) (hdistance : 0 < distance) : Bytes :=
  if str.length = 0 then [] else insertLoop distance hdistance str distance

def encodeWithLineBreaks (lineLength : Nat) (hline : 0 < lineLength) (fuel : Nat) (s : Bytes) :
    Option Bytes :=
  (base64Encode fuel s false).map fun str ↦ insertLinebreaks str lineLength hline

def encodePem (fuel : Nat) (s : Bytes) : Option Bytes :=
  encodeWithLineBreaks 64 (by decide) fuel s

def encodeMime (fuel : Nat) (s : Bytes) : Option Bytes :=
  encodeWithLineBreaks 76 (by decide) fuel s

/-! ## The texts the decoder takes -/

/-- `Group text bytes rest`: the text begins with a group of four characters for the bytes.  Behind
a padding character in third place anything may stand, or, at the end of the text, nothing. -/
inductive Group : Bytes → Bytes → Bytes → Prop
  | three {c₀ c₁ c₂ c₃ : UInt8} {v₀ v₁ v₂ v₃ : Nat} {rest : Bytes} :
      posOfChar c₀ = .ok v₀ → posOfChar c₁ = .ok v₁ → posOfChar c₂ = .ok v₂ →
      posOfChar c₃ = .ok v₃ →
      Group (c₀ :: c₁ :: c₂ :: c₃ :: rest)
        [UInt8.ofNat (v₀ * 4 + v₁ / 16), UInt8.ofNat (v₁ % 16 * 16 + v₂ / 4),
        UInt8.ofNat (v₂ % 4 * 64 + v₃)] rest
  | two {c₀ c₁ c₂ c₃ : UInt8} {v₀ v₁ v₂ : Nat} {rest : Bytes} :
      posOfChar c₀ = .ok v₀ → posOfChar c₁ = .ok v₁ → posOfChar c₂ = .ok v₂ → isPad c₃ →
      Group (c₀ :: c₁ :: c₂ :: c₃ :: rest)
        [UInt8.ofNat (v₀ * 4 + v₁ / 16), UInt8.ofNat (v₁ % 16 * 16 + v₂ / 4)] rest
  | one {c₀ c₁ c₂ c₃ : UInt8} {v₀ v₁ : Nat} {rest : Bytes} :
      posOfChar c₀ = .ok v₀ → posOfChar c₁ = .ok v₁ → isPad c₂ →
      Group (c₀ :: c₁ :: c₂ :: c₃ :: rest) [UInt8.ofNat (v₀ * 4 + v₁ / 16)] rest
  | short {c₀ c₁ c₂ : UInt8} {v₀ v₁ : Nat} :
      posOfChar c₀ = .ok v₀ → posOfChar c₁ = .ok v₁ → isPad c₂ →
      Group [c₀, c₁, c₂] [UInt8.ofNat (v₀ * 4 + v₁ / 16)] []

inductive Encoded : Bytes → Bytes → Prop
  | nil : Encoded [] []
  | group {text first rest bytes : Bytes} :
      Group text first rest → Encoded rest bytes → Encoded text (first ++ bytes)

variable {text first rest bytes before ret out : Bytes} {c : UInt8} {v : Nat}

/-- The decoder knows 64 values and throws at every other character. -/
theorem posOfChar_cases (c : UInt8) :
    (∃ v, posOfChar c = .ok v ∧ v < 64) ∨ posOfChar c = .error .thrown := by
  have hZ : 'Z'.toUInt8.toNat = 90 := rfl
  have hz : 'z'.toUInt8.toNat = 122 := rfl
  have h9 : '9'.toUInt8.toNat = 57 := rfl
  simp only [posOfChar, UInt8.le_iff_toNat_le, hZ, hz, h9]
  split_ifs with hupper hlower hdigit hplus hslash
  · exact .inl ⟨_, rfl, by omega⟩
  · exact .inl ⟨_, rfl, by omega⟩
  · exact .inl ⟨_, rfl, by omega⟩
  · exact .inl ⟨_, rfl, by decide⟩
  · exact .inl ⟨_, rfl, by decide⟩
  · exact .inr rfl

theorem posOfChar_lt (h : posOfChar c = .ok v) : v < 64 := by
  obtain ⟨w, hw, hlt⟩ | hthrow := posOfChar_cases c
  · cases h.symm.trans hw
    exact hlt
  · cases h.symm.trans hthrow

theorem not_isPad (h : posOfChar c = .ok v) : ¬ isPad c := by
  rintro (rfl | rfl) <;> cases h

/-- A mask of `width` bits from bit `low` on, moved down. -/
theorem and_shiftRight {n mask low width : Nat} (h : mask >>> low = 2 ^ width - 1) :
    (n &&& mask) >>> low = n / 2 ^ low % 2 ^ width := by
  rw [Nat.shiftRight_and_distrib, h, Nat.and_two_pow_sub_one_eq_mod, Nat.shiftRight_eq_div_pow]

theorem and_low {n mask width : Nat} (h : mask = 2 ^ width - 1) : n &&& mask = n % 2 ^ width := by
  rw [h, Nat.and_two_pow_sub_one_eq_mod]

theorem charAt_drop {s : Bytes} {pos : Nat} (h : pos ≤ s.length) (i : Nat) :
    charAt s (pos + i) = charAt (s.drop pos) i := by
  unfold charAt
  rw [List.length_drop, List.getD_eq_getElem?_getD, List.getD_eq_getElem?_getD, List.getElem?_drop]
  simp only [show pos + i < s.length ↔ i < s.length - pos by omega,
    show pos + i = s.length ↔ i = s.length - pos by omega]

theorem decodeGroup_drop {s : Bytes} {pos : Nat} (h : pos ≤ s.length) :
    decodeGroup s pos = decodeGroup (s.drop pos) 0 := by
  simp only [decodeGroup, charAt_drop h, Nat.zero_add]

/-! ### One group -/

theorem first_octet {v₀ v₁ : Nat} (h : v₁ < 64) :
    (v₀ <<< 2) + ((v₁ &&& 0x30) >>> 4) = v₀ * 4 + v₁ / 16 := by
  have hmask : (0x30 : Nat) >>> 4 = 2 ^ 2 - 1 := rfl
  rw [and_shiftRight hmask, Nat.shiftLeft_eq]
  omega

theorem second_octet {v₁ v₂ : Nat} (h : v₂ < 64) :
    ((v₁ &&& 0x0f) <<< 4) + ((v₂ &&& 0x3c) >>> 2) = v₁ % 16 * 16 + v₂ / 4 := by
  have hlow : (0x0f : Nat) = 2 ^ 4 - 1 := rfl
  have hmask : (0x3c : Nat) >>> 2 = 2 ^ 4 - 1 := rfl
  rw [and_shiftRight hmask, and_low hlow, Nat.shiftLeft_eq]
  omega

theorem third_octet (v₂ v₃ : Nat) : ((v₂ &&& 0x03) <<< 6) + v₃ = v₂ % 4 * 64 + v₃ := by
  have hlow : (0x03 : Nat) = 2 ^ 2 - 1 := rfl
  rw [and_low hlow, Nat.shiftLeft_eq]
  rfl

theorem decodeGroup_of_group (h : Group text first rest) : decodeGroup text 0 = .ok first := by
  cases h with
  | three h₀ h₁ h₂ h₃ =>
    simp [decodeGroup, charAt, h₀, h₁, h₂, h₃, not_isPad h₂, not_isPad h₃,
      first_octet (posOfChar_lt h₁),
      second_octet (posOfChar_lt h₂), third_octet, bind, Except.bind, pure, Except.pure]
  | two h₀ h₁ h₂ h₃ =>
    simp [decodeGroup, charAt, h₀, h₁, h₂, h₃, not_isPad h₂, first_octet (posOfChar_lt h₁),
      second_octet (posOfChar_lt h₂), bind, Except.bind, pure, Except.pure]
  | one h₀ h₁ h₂ =>
    simp [decodeGroup, charAt, h₀, h₁, h₂, first_octet (posOfChar_lt h₁), bind, Except.bind, pure,
      Except.pure]
  | short h₀ h₁ h₂ =>
    simp [decodeGroup, charAt, h₀, h₁, h₂, first_octet (posOfChar_lt h₁), bind, Except.bind, pure,
      Except.pure]

theorem Group.rest_eq (h : Group text first rest) : rest = text.drop 4 := by
  cases h <;> rfl

/-- The terminator is no character of the alphabet: the decoder throws before it looks behind it. -/
theorem posOfChar_terminator : posOfChar 0 = .error .thrown :=
  rfl

theorem not_isPad_terminator : ¬ isPad 0 := by
  decide

theorem decodeGroup_cases (hne : text ≠ []) :
    (∃ first, Group text first (text.drop 4)) ∨ decodeGroup text 0 = .error .thrown := by
  match text, hne with
  | [c₀], _ => exact .inr rfl
  | c₀ :: c₁ :: text, _ =>
    obtain ⟨v₁, h₁, -⟩ | h₁ := posOfChar_cases c₁
    case inr => exact .inr (by simp [decodeGroup, charAt, h₁, bind, Except.bind])
    obtain ⟨v₀, h₀, -⟩ | h₀ := posOfChar_cases c₀
    case inr => exact .inr (by simp [decodeGroup, charAt, h₀, h₁, bind, Except.bind])
    match text with
    | [] =>
      right
      simp [decodeGroup, charAt, h₀, h₁, posOfChar_terminator, not_isPad_terminator, bind,
        Except.bind]
    | [c₂] =>
      by_cases hpad : isPad c₂
      · exact .inl ⟨_, .short h₀ h₁ hpad⟩
      · obtain ⟨v₂, h₂, -⟩ | h₂ := posOfChar_cases c₂
        · right
          simp [decodeGroup, charAt, h₀, h₁, h₂, hpad, posOfChar_terminator, not_isPad_terminator,
            bind, Except.bind]
        · exact .inr (by simp [decodeGroup, charAt, h₀, h₁, h₂, hpad, bind, Except.bind])
    | c₂ :: c₃ :: rest =>
      by_cases hpad : isPad c₂
      · exact .inl ⟨_, .one h₀ h₁ hpad⟩
      · obtain ⟨v₂, h₂, -⟩ | h₂ := posOfChar_cases c₂
        case inr => exact .inr (by simp [decodeGroup, charAt, h₀, h₁, h₂, hpad, bind, Except.bind])
        by_cases hpad₃ : isPad c₃
        · exact .inl ⟨_, .two h₀ h₁ h₂ hpad₃⟩
        · obtain ⟨v₃, h₃, -⟩ | h₃ := posOfChar_cases c₃
          · exact .inl ⟨_, .three h₀ h₁ h₂ h₃⟩
          · exact .inr
              (by simp [decodeGroup, charAt, h₀, h₁, h₂, h₃, hpad, hpad₃, bind, Except.bind])

/-! ### The loops -/

theorem decodeLoop_end {s : Bytes} {pos : Nat} (h : s.drop pos = []) (ret : Bytes) :
    decodeLoop s pos ret = .ok ret := by
  rw [decodeLoop, if_neg (by simpa using h)]

theorem decodeLoop_next {s : Bytes} {pos : Nat} (h : s.drop pos ≠ []) (ret : Bytes) :
    decodeLoop s pos ret =
      match decodeGroup (s.drop pos) 0 with
      | .ok group => decodeLoop s (pos + 4) (ret ++ group)
      | .error e => .error e := by
  have hlt : pos < s.length := by simpa using h
  rw [decodeLoop, if_pos hlt, decodeGroup_drop (Nat.le_of_lt hlt)]

theorem decodeLoop_of_encoded {bytes s : Bytes} {pos : Nat} (h : Encoded text bytes)
    (hs : s.drop pos = text) (ret : Bytes) : decodeLoop s pos ret = .ok (ret ++ bytes) := by
  induction h generalizing pos ret with
  | nil => rw [decodeLoop_end hs, List.append_nil]
  | @group text first rest bytes hgroup hrest ih =>
    have hne : text ≠ [] := by
      rintro rfl
      cases hgroup
    rw [decodeLoop_next (hs ▸ hne), hs, decodeGroup_of_group hgroup]
    dsimp only
    rw [ih (by rw [hgroup.rest_eq, ← hs, List.drop_drop]), List.append_assoc]

/-- The decoder reads a text it can or throws; it never looks outside its string. -/
theorem decodeLoop_cases (s : Bytes) (pos : Nat) (ret : Bytes) :
    (∃ bytes, Encoded (s.drop pos) bytes) ∨ decodeLoop s pos ret = .error .thrown := by
  by_cases hend : s.drop pos = []
  · exact .inl ⟨[], hend ▸ .nil⟩
  · rw [decodeLoop_next hend]
    obtain ⟨first, hgroup⟩ | hthrow := decodeGroup_cases hend
    · rw [decodeGroup_of_group hgroup]
      dsimp only
      rw [List.drop_drop] at hgroup
      have hlt : pos < s.length := by simpa using hend
      obtain ⟨bytes, hrest⟩ | hthrow := decodeLoop_cases s (pos + 4) (ret ++ first)
      · exact .inl ⟨_, .group hgroup hrest⟩
      · exact .inr hthrow
    · rw [hthrow]
      exact .inr rfl
termination_by s.length - pos

theorem decodeLoop_eq_ok_iff {s bytes : Bytes} : decodeLoop s 0 [] = .ok bytes ↔
    Encoded s bytes := by
  refine ⟨fun h ↦ ?_, fun h ↦ decodeLoop_of_encoded h rfl []⟩
  obtain ⟨bytes', hencoded⟩ | hthrow := decodeLoop_cases s 0 []
  · have hsame := decodeLoop_of_encoded hencoded rfl []
    cases hsame.symm.trans h
    exact hencoded
  · cases hthrow.symm.trans h

theorem base64Decode_eq (s : Bytes) : base64Decode s false = decodeLoop s 0 [] := by
  unfold base64Decode
  rw [if_neg Bool.false_ne_true]
  split_ifs with hempty
  · rw [decodeLoop_end (by rw [List.length_eq_zero_iff.mp hempty]; rfl)]
  · rfl

/-- What is not of the grammar makes the decoder throw. -/
theorem base64Decode_throws {s : Bytes} (hnone : ∀ bytes, ¬ Encoded s bytes) :
    base64Decode s false = .error .thrown := by
  rw [base64Decode_eq]
  obtain ⟨bytes, hencoded⟩ | hthrow := decodeLoop_cases s 0 []
  · exact absurd hencoded (hnone bytes)
  · exact hthrow

/-- **Acceptance.**  The decoder takes exactly the texts of the grammar, with the bytes they stand
for; at every other text it throws, and at no text does it look outside its string. -/
theorem base64Decode_iff_encoded (s : Bytes) :
    (∀ bytes, base64Decode s false = .ok bytes ↔ Encoded s bytes) ∧
      ((∀ bytes, ¬ Encoded s bytes) ↔ base64Decode s false = .error .thrown) := by
  refine ⟨fun bytes ↦ ?_, base64Decode_throws, fun hthrow bytes hencoded ↦ ?_⟩
  · rw [base64Decode_eq]
    exact decodeLoop_eq_ok_iff
  · rw [base64Decode_eq] at hthrow
    cases hthrow.symm.trans (decodeLoop_of_encoded hencoded rfl [])

end Pallette.Base64
