import Pallette.Base64

/-!
# RoundTrip — what the Base64 encoder writes, the decoder reads

The encoder returns for strings its `unsigned int` can count, and for no longer one.
-/

namespace Pallette.Base64

variable {bytes text rest tail out : Bytes} {url : Bool} {pos fuel : Nat}

/-! ## One group -/

/-- The characters for the first three bytes, or for as many as there are. -/
def groupOf (url : Bool) : Bytes → Bytes
  | [] => []
  | [a] => [charOf url (a.toNat / 4), charOf url (a.toNat % 4 * 16), trailingChar url,
      trailingChar url]
  | [a, b] =>
      [charOf url (a.toNat / 4), charOf url (a.toNat % 4 * 16 + b.toNat / 16),
        charOf url (b.toNat % 16 * 4), trailingChar url]
  | a :: b :: c :: _ =>
      [charOf url (a.toNat / 4), charOf url (a.toNat % 4 * 16 + b.toNat / 16),
        charOf url (b.toNat % 16 * 4 + c.toNat / 64), charOf url (c.toNat % 64)]

theorem high_six (b : UInt8) : (b.toNat &&& 0xfc) >>> 2 = b.toNat / 4 := by
  have hmask : (0xfc : Nat) >>> 2 = 2 ^ 6 - 1 := rfl
  have hb := b.toNat_lt
  rw [and_shiftRight hmask]
  omega

theorem low_two (b : UInt8) : (b.toNat &&& 0x03) <<< 4 = b.toNat % 4 * 16 := by
  have hmask : (0x03 : Nat) = 2 ^ 2 - 1 := rfl
  rw [and_low hmask, Nat.shiftLeft_eq]
  rfl

theorem high_four (b : UInt8) : (b.toNat &&& 0xf0) >>> 4 = b.toNat / 16 := by
  have hmask : (0xf0 : Nat) >>> 4 = 2 ^ 4 - 1 := rfl
  have hb := b.toNat_lt
  rw [and_shiftRight hmask]
  omega

theorem low_four (b : UInt8) : (b.toNat &&& 0x0f) <<< 2 = b.toNat % 16 * 4 := by
  have hmask : (0x0f : Nat) = 2 ^ 4 - 1 := rfl
  rw [and_low hmask, Nat.shiftLeft_eq]
  rfl

theorem high_two (b : UInt8) : (b.toNat &&& 0xc0) >>> 6 = b.toNat / 64 := by
  have hmask : (0xc0 : Nat) >>> 6 = 2 ^ 2 - 1 := rfl
  have hb := b.toNat_lt
  rw [and_shiftRight hmask]
  omega

theorem low_six (b : UInt8) : b.toNat &&& 0x3f = b.toNat % 64 := by
  have hmask : (0x3f : Nat) = 2 ^ 6 - 1 := rfl
  rw [and_low hmask]
  rfl

theorem encodeGroup_eq (hpos : pos < bytes.length) (hlength : bytes.length < 2 ^ 32) :
    encodeGroup bytes url pos = groupOf url (bytes.drop pos) := by
  have hrest : ∀ i, bytes.getD (pos + i) 0 = (bytes.drop pos).getD i 0 := by
    intro i
    rw [List.getD_eq_getElem?_getD, List.getD_eq_getElem?_getD, List.getElem?_drop]
  have hleft : (bytes.drop pos).length = bytes.length - pos := List.length_drop
  have hzero : unsignedInt (pos + 0) = pos + 0 := Nat.mod_eq_of_lt (by omega)
  have hone : unsignedInt (pos + 1) = pos + 1 := Nat.mod_eq_of_lt (by omega)
  generalize hdrop : bytes.drop pos = tail at hrest hleft
  unfold encodeGroup
  match tail with
  | [] => exact absurd hleft (by rw [List.length_nil]; omega)
  | [a] =>
    simp only [List.length_cons, List.length_nil] at hleft
    simp only [hzero, hone, hrest]
    rw [if_neg (by omega)]
    simp [groupOf, high_six, low_two]
  | [a, b] =>
    simp only [List.length_cons, List.length_nil] at hleft
    have htwo : unsignedInt (pos + 2) = pos + 2 := Nat.mod_eq_of_lt (by omega)
    simp only [hzero, hone, htwo, hrest]
    rw [if_pos (by omega), if_neg (by omega)]
    simp [groupOf, high_six, low_two, high_four, low_four]
  | a :: b :: c :: _ =>
    simp only [List.length_cons] at hleft
    have htwo : unsignedInt (pos + 2) = pos + 2 := Nat.mod_eq_of_lt (by omega)
    simp only [hzero, hone, htwo, hrest]
    rw [if_pos (by omega), if_pos (by omega)]
    simp [groupOf, high_six, low_two, high_four, low_four, high_two, low_six]

theorem posOfChar_charOf (url : Bool) {n : Nat} (hn : n < 64) :
    posOfChar (charOf url n) = .ok n := by
  have hall : ∀ url : Bool, ∀ n : Fin 64, posOfChar (charOf url n) = .ok n.val := by decide +kernel
  exact hall url ⟨n, hn⟩

theorem isPad_trailingChar (url : Bool) : isPad (trailingChar url) := by
  cases url <;> decide

private theorem byte_eq {n : Nat} {b : UInt8} (h : n = b.toNat) : UInt8.ofNat n = b := by
  rw [h, UInt8.ofNat_toNat]

theorem group_groupOf (hne : bytes ≠ []) (url : Bool) (tail : Bytes) :
    Group (groupOf url bytes ++ tail) (bytes.take 3) tail := by
  match bytes, hne with
  | [a], _ =>
    have ha := a.toNat_lt
    have hgroup := @Group.one _ _ _ (trailingChar url) _ _ tail
      (posOfChar_charOf url (n := a.toNat / 4) (by omega))
      (posOfChar_charOf url (n := a.toNat % 4 * 16) (by omega)) (isPad_trailingChar url)
    rwa [byte_eq (b := a) (by omega)] at hgroup
  | [a, b], _ =>
    have ha := a.toNat_lt
    have hb := b.toNat_lt
    have hgroup := @Group.two _ _ _ _ _ _ _ tail
      (posOfChar_charOf url (n := a.toNat / 4) (by omega))
      (posOfChar_charOf url (n := a.toNat % 4 * 16 + b.toNat / 16) (by omega))
      (posOfChar_charOf url (n := b.toNat % 16 * 4) (by omega)) (isPad_trailingChar url)
    rwa [byte_eq (b := a) (by omega), byte_eq (b := b) (by omega)] at hgroup
  | a :: b :: c :: _, _ =>
    have ha := a.toNat_lt
    have hb := b.toNat_lt
    have hc := c.toNat_lt
    have hgroup := @Group.three _ _ _ _ _ _ _ _ tail
      (posOfChar_charOf url (n := a.toNat / 4) (by omega))
      (posOfChar_charOf url (n := a.toNat % 4 * 16 + b.toNat / 16) (by omega))
      (posOfChar_charOf url (n := b.toNat % 16 * 4 + c.toNat / 64) (by omega))
      (posOfChar_charOf url (n := c.toNat % 64) (by omega))
    rwa [byte_eq (b := a) (by omega), byte_eq (b := b) (by omega), byte_eq (b := c) (by omega)]
      at hgroup

theorem length_groupOf (hne : bytes ≠ []) (url : Bool) : (groupOf url bytes).length = 4 := by
  match bytes, hne with
  | [_], _ => rfl
  | [_, _], _ => rfl
  | _ :: _ :: _ :: _, _ => rfl

/-! ## The loop -/

/-- What the encoder makes of a string, by its bytes instead of its counter. -/
inductive Encodes (url : Bool) : Bytes → Bytes → Prop
  | nil : Encodes url [] []
  | group {bytes text : Bytes} :
      bytes ≠ [] → Encodes url (bytes.drop 3) text → Encodes url bytes (groupOf url bytes ++ text)

theorem Encodes.encoded (h : Encodes url bytes text) : Encoded text bytes := by
  induction h with
  | nil => exact .nil
  | @group bytes text hne _ ih =>
    have hgroup := Encoded.group (group_groupOf hne url text) ih
    rwa [List.take_append_drop] at hgroup

theorem Encodes.length_eq (h : Encodes url bytes text) :
    text.length = (bytes.length + 2) / 3 * 4 := by
  induction h with
  | nil => rfl
  | @group bytes text hne _ ih =>
    have hpos := List.length_pos_iff.mpr hne
    rw [List.length_drop] at ih
    rw [List.length_append, length_groupOf hne, ih]
    omega

theorem encodeLoop_fuel (hlength : bytes.length < 2 ^ 32) {ret : Bytes} (hpos : pos % 3 = 0)
    (hfuel : (bytes.length - pos + 2) / 3 < fuel) :
    ∃ text, encodeLoop bytes url fuel pos ret = some (ret ++ text) ∧
      Encodes url (bytes.drop pos) text := by
  induction fuel generalizing pos ret with
  | zero => omega
  | succ fuel ih =>
    rw [encodeLoop]
    by_cases hin : pos < bytes.length
    · have hne : bytes.drop pos ≠ [] := by simpa using hin
      -- the counter is a multiple of 3, as 2 ^ 32 - 1 is: it does not step over it
      have hnext : unsignedInt (pos + 3) = pos + 3 := Nat.mod_eq_of_lt (by omega)
      obtain ⟨text, hloop, htext⟩ := @ih (pos + 3) (ret ++ encodeGroup bytes url pos) (by omega)
        (by omega)
      rw [if_pos hin, hnext, hloop, encodeGroup_eq hin hlength]
      refine ⟨groupOf url (bytes.drop pos) ++ text, by rw [List.append_assoc], .group hne ?_⟩
      rwa [List.drop_drop]
    · rw [if_neg hin, List.drop_eq_nil_of_le (by omega)]
      exact ⟨[], by rw [List.append_nil], .nil⟩

/-- The counter never reaches a length it cannot hold. -/
theorem encodeLoop_of_long (hlength : 2 ^ 32 ≤ bytes.length) (hpos : pos < 2 ^ 32) (ret : Bytes) :
    encodeLoop bytes url fuel pos ret = none := by
  induction fuel generalizing pos ret with
  | zero => rfl
  | succ fuel ih =>
    rw [encodeLoop, if_pos (by omega)]
    exact ih (Nat.mod_lt _ (by decide)) _

theorem encodeLoop_mono {ret : Bytes} (h : encodeLoop bytes url fuel pos ret = some out)
    (more : Nat) :
    encodeLoop bytes url (fuel + more) pos ret = some out := by
  induction fuel generalizing pos ret with
  | zero => cases h
  | succ fuel ih =>
    rw [Nat.succ_add]
    rw [encodeLoop] at h ⊢
    split_ifs at h ⊢ with hin
    · exact ih h
    · exact h

theorem length_lt_of_returns (h : base64Encode fuel bytes url = some text) :
    bytes.length < 2 ^ 32 := by
  by_contra hlong
  rw [base64Encode, encodeLoop_of_long (by omega) (by decide)] at h
  cases h

theorem base64Encode_encodes (h : base64Encode fuel bytes url = some text) :
    Encodes url bytes text := by
  have hlength := length_lt_of_returns h
  obtain ⟨text', hloop, hencodes⟩ :=
    @encodeLoop_fuel bytes url 0 ((bytes.length + 2) / 3 + 1) hlength [] rfl (by omega)
  have hmore := encodeLoop_mono hloop fuel
  have hmore' := encodeLoop_mono h ((bytes.length + 2) / 3 + 1)
  rw [Nat.add_comm] at hmore'
  cases hmore.symm.trans hmore'
  exact hencodes

theorem base64Encode_returns (hlength : bytes.length < 2 ^ 32) (url : Bool) :
    ∃ fuel text, base64Encode fuel bytes url = some text := by
  obtain ⟨text, hloop, -⟩ := @encodeLoop_fuel bytes url 0 ((bytes.length + 2) / 3 + 1) hlength []
    rfl (by omega)
  exact ⟨_, _, hloop⟩

theorem base64Encode_returns_iff (bytes : Bytes) (url : Bool) :
    (∃ fuel text, base64Encode fuel bytes url = some text) ↔ bytes.length < 2 ^ 32 := by
  refine ⟨?_, fun hlength ↦ base64Encode_returns hlength url⟩
  rintro ⟨fuel, text, h⟩
  exact length_lt_of_returns h

/-- **Round trip.**  In either alphabet the encoder returns exactly for strings shorter than
`2 ^ 32`; what it returns has the length it reserved, and is decoded to the string it came from. -/
theorem base64_roundTrip (bytes : Bytes) (url : Bool) :
    ((∃ fuel text, base64Encode fuel bytes url = some text) ↔ bytes.length < 2 ^ 32) ∧
      ∀ fuel text, base64Encode fuel bytes url = some text →
        text.length = (bytes.length + 2) / 3 * 4 ∧ base64Decode text false = .ok bytes := by
  refine ⟨base64Encode_returns_iff bytes url, fun fuel text h ↦ ?_⟩
  have hencodes := base64Encode_encodes h
  refine ⟨hencodes.length_eq, ?_⟩
  rw [base64Decode_eq]
  exact decodeLoop_eq_ok_iff.mpr hencodes.encoded

end Pallette.Base64
