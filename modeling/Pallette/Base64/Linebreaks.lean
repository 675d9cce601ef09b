import Pallette.Base64.RoundTrip
import Pallette.Reasoning.Wrapping

/-!
# Linebreaks — PEM and MIME texts

`insert_linebreaks` cuts a text into lines and puts no newline behind the last one.  The decoder
reads the text back when it is told to take the newlines out; left in, they are characters it throws
at.
-/

open Reasoning

namespace Pallette.Base64

variable {bytes text str : Bytes} {lines : List Bytes} {distance lineLength fuel pos : Nat}

/-! ## Newlines put in -/

theorem insertLoop_wraps (hdistance : 0 < distance) (before : Bytes) {rest : Bytes}
    (hrest : rest ≠ []) :
    ∃ lines, insertLoop distance hdistance (before ++ rest) (before.length + distance) =
      before ++ [newline].intercalate lines ∧ Wrapped distance lines rest := by
  have hpos := List.length_pos_iff.mpr hrest
  by_cases hlong : distance < rest.length
  · have hinsert : (before ++ rest).take (before.length + distance) ++
        newline :: (before ++ rest).drop (before.length + distance) =
          (before ++ rest.take distance ++ [newline]) ++ rest.drop distance := by
      rw [List.take_length_add_append, List.drop_length_add_append]
      simp
    have hnext : before.length + distance + (distance + 1) =
        (before ++ rest.take distance ++ [newline]).length + distance := by
      rw [List.length_append, List.length_append, List.length_take, List.length_singleton]
      omega
    have hdrop : rest.drop distance ≠ [] := by simpa using hlong
    obtain ⟨lines, hloop, hwrapped⟩ :=
      insertLoop_wraps hdistance (before ++ rest.take distance ++ [newline]) hdrop
    have hne := hwrapped.ne_nil hdrop
    have hline : (rest.take distance).length = distance := by
      rw [List.length_take]
      omega
    rw [insertLoop, if_pos (by rw [List.length_append]; omega), hinsert, hnext, hloop]
    refine ⟨rest.take distance :: lines, ?_, ?_⟩
    · rw [List.intercalate_cons_of_ne_nil hne]
      simp
    · have hcons := Wrapped.cons hline hne hwrapped
      rwa [List.take_append_drop] at hcons
  · rw [insertLoop, if_neg (by rw [List.length_append]; omega)]
    exact ⟨[rest], by simp, .single hpos (by omega)⟩
termination_by rest.length

theorem insertLinebreaks_wraps (hdistance : 0 < distance) (hstr : str ≠ []) :
    ∃ lines, insertLinebreaks str distance hdistance = [newline].intercalate lines ∧
      Wrapped distance lines str := by
  obtain ⟨lines, hloop, hwrapped⟩ := insertLoop_wraps hdistance [] hstr
  rw [List.nil_append, List.length_nil, Nat.zero_add] at hloop
  rw [insertLinebreaks, if_neg (by simpa using hstr), hloop]
  exact ⟨lines, rfl, hwrapped⟩

/-! ## Newlines taken out -/

theorem filter_of_notMem (h : newline ∉ text) : text.filter (· ≠ newline) = text := by
  apply List.filter_eq_self.mpr
  intro c hc
  apply decide_eq_true
  rintro rfl
  exact h hc

theorem eraseLinebreaks_eq (copy : Bytes) (pos : Nat) :
    eraseLinebreaks copy pos = copy.take pos ++ (copy.drop pos).filter (· ≠ newline) := by
  fun_induction eraseLinebreaks copy pos with
  | case1 copy pos i hfound ih =>
    obtain ⟨j, hj, rfl⟩ := Option.map_eq_some_iff.mp hfound
    obtain ⟨-, hnone⟩ | ⟨front, back, hdrop, hfront, hfind⟩ := find_cases newline (copy.drop pos)
    · cases hj.symm.trans hnone
    · cases hj.symm.trans hfind
      have hpos : pos ≤ copy.length := by
        have hlt := find_lt hj
        rw [List.length_drop] at hlt
        omega
      have htake : copy.take (pos + front.length) = copy.take pos ++ front := by
        rw [List.take_add, hdrop, List.take_left]
      have hback : copy.drop (pos + front.length + 1) = back := by
        rw [← List.drop_drop, ← List.drop_drop, hdrop, List.drop_left]
        rfl
      have hlength : (copy.take pos ++ front).length = pos + front.length := by
        rw [List.length_append, List.length_take]
        omega
      rw [ih, htake, hback, ← hlength, List.take_left, List.drop_left, hdrop, List.filter_append,
        filter_of_notMem hfront, List.append_assoc]
      rfl
  | case2 copy pos hnone =>
    have hnot : newline ∉ copy.drop pos := by
      obtain ⟨hnot, -⟩ | ⟨front, back, -, -, hfind⟩ := find_cases newline (copy.drop pos)
      · exact hnot
      · rw [findFrom, hfind] at hnone
        cases hnone
    rw [filter_of_notMem hnot, List.take_append_drop]

/-- Told to take the newlines out, the decoder reads the text without them. -/
theorem base64Decode_removing (s : Bytes) :
    base64Decode s true = base64Decode (s.filter (· ≠ newline)) false := by
  have herase := eraseLinebreaks_eq s 0
  rw [List.take_zero, List.drop_zero, List.nil_append] at herase
  unfold base64Decode
  rw [if_pos rfl, if_neg Bool.false_ne_true, herase]
  dsimp only
  by_cases hempty : s.length = 0
  · rw [if_pos hempty, List.length_eq_zero_iff.mp hempty]
    rfl
  · rw [if_neg hempty]

/-! ## PEM and MIME -/

theorem Encoded.drop (h : Encoded text bytes) (k : Nat) :
    ∃ bytes, Encoded (text.drop (4 * k)) bytes := by
  induction k generalizing text bytes with
  | zero => exact ⟨bytes, h⟩
  | succ k ih =>
    cases h with
    | nil => exact ⟨[], by rw [List.drop_nil]; exact .nil⟩
    | group hgroup hrest =>
      rw [hgroup.rest_eq] at hrest
      obtain ⟨more, hmore⟩ := ih hrest
      rw [List.drop_drop] at hmore
      exact ⟨more, by rwa [show 4 * (k + 1) = 4 + 4 * k by omega]⟩

theorem Encoded.head {c : UInt8} (h : Encoded (c :: text) bytes) : ∃ v, posOfChar c = .ok v := by
  cases h with
  | group hgroup _ =>
    cases hgroup with
    | three h₀ => exact ⟨_, h₀⟩
    | two h₀ => exact ⟨_, h₀⟩
    | one h₀ => exact ⟨_, h₀⟩
    | short h₀ => exact ⟨_, h₀⟩

theorem not_encoded_newline (text bytes : Bytes) : ¬ Encoded (newline :: text) bytes := by
  intro h
  obtain ⟨v, hv⟩ := h.head
  cases hv

/-- No line of the encoder ends inside a group, so the decoder throws at the first newline left
in. -/
theorem not_encoded_lines {line : Bytes} (hline : 4 ∣ line.length) (hne : lines ≠ [])
    (bytes : Bytes) :
    ¬ Encoded ([newline].intercalate (line :: lines)) bytes := by
  intro h
  obtain ⟨k, hk⟩ := hline
  obtain ⟨more, hmore⟩ := h.drop k
  rw [List.intercalate_cons_of_ne_nil hne, ← hk, List.append_assoc, List.drop_left] at hmore
  exact not_encoded_newline _ _ hmore

theorem newline_notMem_base64Chars (url : Bool) : ∀ c ∈ base64Chars url, c ≠ newline := by
  cases url <;> decide +kernel

theorem charOf_ne_newline (url : Bool) (n : Nat) : charOf url n ≠ newline := by
  unfold charOf
  rw [List.getD_eq_getElem?_getD]
  cases hget : (base64Chars url)[n]? with
  | none => decide
  | some c => exact newline_notMem_base64Chars url c (List.mem_of_getElem? hget)

theorem newline_notMem_groupOf (url : Bool) (bytes : Bytes) : newline ∉ groupOf url bytes := by
  have hchar := fun n ↦ (charOf_ne_newline url n).symm
  have hpad : newline ≠ trailingChar url := by cases url <;> decide
  unfold groupOf
  split <;> simp [hchar, hpad]

theorem Encodes.newline_notMem {url : Bool} (h : Encodes url bytes text) : newline ∉ text := by
  induction h with
  | nil => exact List.not_mem_nil
  | group _ _ ih => exact fun hmem ↦ (List.mem_append.mp hmem).elim (newline_notMem_groupOf _ _) ih

/-- What is known of a text written in lines: its lines, and what the decoder makes of it. -/
structure ReadBack (lineLength : Nat) (bytes text : Bytes) : Prop where
  lines : text = [] ∧ bytes = [] ∨ ∃ lines encoded, text = [newline].intercalate lines ∧
    Wrapped lineLength lines encoded ∧ newline ∉ encoded ∧
    encoded.length = (bytes.length + 2) / 3 * 4
  removing : base64Decode text true = .ok bytes
  keeping : base64Decode text false =
    if (bytes.length + 2) / 3 * 4 ≤ lineLength then .ok bytes else .error .thrown

theorem readBack_of_encodes (hpos : 0 < lineLength) (h4 : 4 ∣ lineLength)
    (h : Encodes false bytes str) :
    ReadBack lineLength bytes (insertLinebreaks str lineLength hpos) := by
  have hdecode : base64Decode str false = .ok bytes := by
    rw [base64Decode_eq]
    exact decodeLoop_eq_ok_iff.mpr h.encoded
  have hlength := h.length_eq
  by_cases hempty : str = []
  · subst hempty
    have hbytes : bytes = [] := by
      rw [← List.length_eq_zero_iff]
      rw [List.length_nil] at hlength
      omega
    subst hbytes
    exact ⟨.inl ⟨rfl, rfl⟩, rfl, (if_pos (Nat.zero_le _)).symm⟩
  · obtain ⟨lines, htext, hwrapped⟩ := insertLinebreaks_wraps hpos hempty
    have hnot : newline ∉ lines.flatten := by
      rw [hwrapped.joined]
      exact h.newline_notMem
    refine ⟨.inr ⟨lines, str, htext, hwrapped, h.newline_notMem, hlength⟩, ?_, ?_⟩
    · rw [base64Decode_removing, htext, filter_intercalate hnot, hwrapped.joined]
      exact hdecode
    · obtain ⟨line, lines, rfl⟩ := List.exists_cons_of_ne_nil (hwrapped.ne_nil hempty)
      by_cases hsingle : lines = []
      · subst hsingle
        have hjoined : line = str := by simpa using hwrapped.joined
        have hle := (hwrapped.last line rfl).2
        rw [htext, List.intercalate_singleton, if_pos (by rw [← hlength, ← hjoined]; exact hle),
          hjoined]
        exact hdecode
      · obtain ⟨hline, hrest⟩ := hwrapped.of_cons hsingle
        have hlong : lineLength < str.length := by
          have hpos := hrest.length_pos hsingle
          rw [← hwrapped.joined, List.flatten_cons, List.length_append]
          omega
        rw [htext, if_neg (by omega)]
        exact base64Decode_throws (not_encoded_lines (hline ▸ h4) hsingle)

theorem encodeWithLineBreaks_returns_iff (hpos : 0 < lineLength) (bytes : Bytes) :
    (∃ fuel text, encodeWithLineBreaks lineLength hpos fuel bytes = some text) ↔
    bytes.length < 2 ^ 32 := by
  rw [← base64Encode_returns_iff bytes false]
  constructor
  · rintro ⟨fuel, text, h⟩
    obtain ⟨str, hstr, -⟩ := Option.map_eq_some_iff.mp h
    exact ⟨fuel, str, hstr⟩
  · rintro ⟨fuel, str, hstr⟩
    exact ⟨fuel, _, Option.map_eq_some_iff.mpr ⟨str, hstr, rfl⟩⟩

/-- **PEM and MIME.**  They return for strings shorter than `2 ^ 32`; their lines are full but the
last, and no newline stands behind it; the texts are read back with the newlines taken out, and with
them left in exactly when there are none. -/
theorem encodePem_encodeMime_readBack (bytes : Bytes) :
    ((∃ fuel text, encodePem fuel bytes = some text) ↔ bytes.length < 2 ^ 32) ∧
      ((∃ fuel text, encodeMime fuel bytes = some text) ↔ bytes.length < 2 ^ 32) ∧
        ∀ fuel text, (encodePem fuel bytes = some text → ReadBack 64 bytes text) ∧
          (encodeMime fuel bytes = some text → ReadBack 76 bytes text) := by
  refine ⟨encodeWithLineBreaks_returns_iff _ bytes, encodeWithLineBreaks_returns_iff _ bytes,
    fun fuel text ↦ ⟨fun h ↦ ?_, fun h ↦ ?_⟩⟩
  · obtain ⟨str, hstr, rfl⟩ := Option.map_eq_some_iff.mp h
    exact readBack_of_encodes (by decide) (by decide) (base64Encode_encodes hstr)
  · obtain ⟨str, hstr, rfl⟩ := Option.map_eq_some_iff.mp h
    exact readBack_of_encodes (by decide) (by decide) (base64Encode_encodes hstr)

end Pallette.Base64
