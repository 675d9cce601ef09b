import Pallette.Http.ResponseStream

/-!
# ResponseHead — what a client reads from the head of a response

`readHead` follows the grammar: a status line, lines of a name, a colon and a value, and an empty
line.  `appendToBuffer` leaves out the space between the status code and the message, so that a
client reads the message without its first byte if that is a space, and cannot read the head
otherwise.
-/

open Reasoning

namespace Pallette

structure ResponseHead where
  code : Nat
  reason : Bytes
  fields : List (Bytes × Bytes)
deriving DecidableEq, Repr

namespace ResponseHead

/-- HTTP-version SP three-digit code SP reason. -/
def readStatusLine (line : Bytes) : Option (Nat × Bytes) :=
  let code := (line.drop 9).take 3
  if line.take 9 = ascii "HTTP/1.1 " ∧ code.length = 3 ∧ isDecimal code = true ∧
      (line.drop 12).head? = some space then
    some (decimal code, line.drop 13)
  else none

/-- A space behind the colon is not part of the value. -/
def readField (line : Bytes) : Option (Bytes × Bytes) :=
  let colon := line.idxOf colonByte
  if colon ≠ line.length then
    match line.drop (colon + 1) with
    | 32 :: value => some (line.take colon, value)
    | value => some (line.take colon, value)
  else none

/-- Reads the head that `stream` begins with. -/
def readHead (stream : Bytes) : Option ResponseHead :=
  match splitLines carriageReturn lineFeed stream with
  | [] => none
  | status :: lines => do
      let (code, reason) ← readStatusLine status
      let fields ← (lines.takeWhile (· ≠ [])).mapM readField
      -- the last of the lines is not complete
      if [] ∈ lines.dropLast then some ⟨code, reason, fields⟩ else none

theorem length_reason {line reason : Bytes} {code : Nat}
    (h : readStatusLine line = some (code, reason)) :
    line.length = reason.length + 13 := by
  unfold readStatusLine at h
  dsimp only at h
  split at h
  next hline =>
    cases h
    have hspace := hline.2.2.2
    have hlt : 12 < line.length := by
      by_contra hnot
      rw [List.drop_of_length_le (by omega)] at hspace
      cases hspace
    rw [List.length_drop]
    omega
  next => cases h

theorem readStatusLine_append {front : Bytes} (hlength : front.length = 12)
    (hversion : front.take 9 = ascii "HTTP/1.1 ") (hcode : isDecimal (front.drop 9) = true)
    (rest : Bytes) :
    readStatusLine (front ++ rest) =
      if rest.head? = some space then some (decimal (front.drop 9), rest.drop 1) else none := by
  have hfront : (front ++ rest).take 9 = ascii "HTTP/1.1 " := by
    rw [List.take_append_of_le_length (by omega), hversion]
  have hdigits : ((front ++ rest).drop 9).take 3 = front.drop 9 := by
    rw [List.drop_append_of_le_length (by omega)]
    exact List.take_left' (by rw [List.length_drop, hlength])
  have hrest : (front ++ rest).drop 12 = rest := List.drop_left' hlength
  have hreason : (front ++ rest).drop 13 = rest.drop 1 := by
    rw [← List.drop_drop (i := 1) (j := 12), hrest]
  unfold readStatusLine
  dsimp only
  rw [hfront, hdigits, hrest, hreason]
  by_cases hspace : rest.head? = some space
  · rw [if_pos hspace, if_pos ⟨rfl, by rw [List.length_drop, hlength], hcode, hspace⟩]
  · rw [if_neg hspace, if_neg (fun h ↦ hspace h.2.2.2)]

/-- Only a message that begins with a space leaves a status line that can be read. -/
theorem readStatusLine_statusLine {r : HttpResponse} (hcode : r.statusCode_ ≠ .KUNKNOWN) :
    readStatusLine r.statusLine =
      if r.statusMessage_.head? = some space
        then some (r.statusCode_.toNat, r.statusMessage_.drop 1)
      else none := by
  unfold HttpResponse.statusLine
  cases hstatus : r.statusCode_ with
  | KUNKNOWN => exact absurd hstatus hcode
  | K200_OK => exact readStatusLine_append (by decide) (by decide) (by decide) _
  | K301_MOVED_PERMANENTLY => exact readStatusLine_append (by decide) (by decide) (by decide) _
  | K400_BAD_REQUEST => exact readStatusLine_append (by decide) (by decide) (by decide) _
  | K404_NOT_FOUND => exact readStatusLine_append (by decide) (by decide) (by decide) _

theorem readField_headerLine {e : Bytes × Bytes} (h : colonByte ∉ e.1) :
    readField (HttpResponse.headerLine e) = some e := by
  have hsplit : HttpResponse.headerLine e = e.1 ++ colonByte :: (32 :: e.2) := by
    simp [HttpResponse.headerLine, ascii, colonByte]
  have hne : e.1.length ≠ (e.1 ++ colonByte :: (32 :: e.2)).length := by
    rw [List.length_append, List.length_cons]
    omega
  unfold readField
  rw [hsplit, idxOf_word h, if_pos hne, drop_word, List.take_left]
  rfl

end ResponseHead

namespace HttpResponse

open ResponseHead

variable {r : HttpResponse}

/-! ## What can be read -/

/-- A response in parts that respect the format, with a body whose length is written whole. -/
structure Plain (r : HttpResponse) : Prop where
  code : r.statusCode_ ≠ .KUNKNOWN
  body : r.closeConnection_ = true ∨ r.body_.length < 10 ^ 13
  message : carriageReturn ∉ r.statusMessage_
  names : ∀ h ∈ r.headers_.entries, colonByte ∉ h.1 ∧ carriageReturn ∉ h.1
  values : ∀ h ∈ r.headers_.entries, carriageReturn ∉ h.2

theorem Plain.fields (h : Plain r) :
    ∀ e ∈ r.connectionFields ++ r.headers_.entries, colonByte ∉ e.1 ∧
    carriageReturn ∉ headerLine e := by
  have hline (e : Bytes × Bytes) (hname : carriageReturn ∉ e.1) (hvalue : carriageReturn ∉ e.2) :
      carriageReturn ∉ headerLine e := by
    unfold headerLine
    rw [List.mem_append, List.mem_append, not_or, not_or]
    exact ⟨⟨hname, by decide⟩, hvalue⟩
  have hfield : colonByte ∉ HttpContext.contentLengthField ∧
      carriageReturn ∉ HttpContext.contentLengthField := by decide
  have hdigits : carriageReturn ∉ ascii (Nat.repr r.body_.length) := by
    intro hmem
    have hdigit := (isDecimal_iff.mp (isDecimal_repr r.body_.length)).2 _ hmem
    revert hdigit
    decide
  intro e he
  obtain hconnection | hheader := List.mem_append.mp he
  · unfold connectionFields at hconnection
    split at hconnection
    · rw [List.mem_singleton.mp hconnection]
      exact ⟨by decide, by decide⟩
    · obtain rfl | hrest := List.mem_cons.mp hconnection
      · exact ⟨hfield.1, hline _ hfield.2 hdigits⟩
      · rw [List.mem_singleton.mp hrest]
        exact ⟨by decide, by decide⟩
  · exact ⟨(h.names e hheader).1, hline e (h.names e hheader).2 (h.values e hheader)⟩

theorem mapM_readField {fields : List (Bytes × Bytes)} (h : ∀ e ∈ fields, colonByte ∉ e.1) :
    (fields.map headerLine).mapM readField = some fields := by
  induction fields with
  | nil => rfl
  | cons e fields ih =>
    rw [List.map_cons, List.mapM_cons, readField_headerLine (h e List.mem_cons_self),
      ih fun e' he' ↦ h e' (List.mem_cons_of_mem e he')]
    rfl

theorem headerLine_ne_nil (e : Bytes × Bytes) : headerLine e ≠ [] := by
  unfold headerLine
  intro hnil
  have hsep := (List.append_eq_nil_iff.mp (List.append_eq_nil_iff.mp hnil).1).2
  cases hsep

theorem Plain.splitLines_eq (h : Plain r) :
    splitLines carriageReturn lineFeed r.appendToBuffer =
      r.statusLine :: (r.connectionFields ++ r.headers_.entries).map headerLine ++
        [] :: splitLines carriageReturn lineFeed r.body_ := by
  have hstatus : carriageReturn ∉ r.statusLine := by
    have hcode : carriageReturn ∉ ascii "HTTP/1.1 " ++ ascii (Nat.repr r.statusCode_.toNat) := by
      cases r.statusCode_ <;> decide
    unfold statusLine
    rw [List.mem_append, not_or]
    exact ⟨hcode, h.message⟩
  have hlines : ∀ line ∈ r.statusLine :: (r.connectionFields ++ r.headers_.entries).map headerLine,
      carriageReturn ∉ line := by
    intro line hline
    obtain rfl | hfield := List.mem_cons.mp hline
    · exact hstatus
    · obtain ⟨e, he, rfl⟩ := List.mem_map.mp hfield
      exact (h.fields e he).2
  rw [appendToBuffer_lines h.body, List.append_assoc]
  exact splitLines_flatten hlines _

/-- A client reads the message without its first byte if that is a space, and nothing else. -/
theorem Plain.readHead_eq (h : Plain r) :
    readHead r.appendToBuffer =
      if r.statusMessage_.head? = some space then
        some ⟨r.statusCode_.toNat, r.statusMessage_.drop 1,
          r.connectionFields ++ r.headers_.entries⟩
      else none := by
  have hfields : ((r.connectionFields ++ r.headers_.entries).map headerLine ++
      [] :: splitLines carriageReturn lineFeed r.body_).takeWhile (· ≠ []) =
        (r.connectionFields ++ r.headers_.entries).map headerLine := by
    rw [List.takeWhile_append_of_pos]
    · exact List.append_nil _
    · intro line hline
      obtain ⟨e, _, rfl⟩ := List.mem_map.mp hline
      exact decide_eq_true (headerLine_ne_nil e)
  have hempty : [] ∈ ((r.connectionFields ++ r.headers_.entries).map headerLine ++
      [] :: splitLines carriageReturn lineFeed r.body_).dropLast := by
    rw [List.dropLast_append_of_ne_nil (List.cons_ne_nil _ _),
      List.dropLast_cons_of_ne_nil (splitLines_ne_nil r.body_)]
    exact List.mem_append_right _ List.mem_cons_self
  unfold readHead
  rw [h.splitLines_eq, List.cons_append]
  dsimp only
  rw [readStatusLine_statusLine h.code, hfields, mapM_readField fun e he ↦ (h.fields e he).1]
  by_cases hspace : r.statusMessage_.head? = some space
  · rw [if_pos hspace, if_pos hspace]
    exact if_pos hempty
  · rw [if_neg hspace, if_neg hspace]
    rfl

/-! ## What is read back -/

/-- A client that follows the grammar gets the status code, the message and the headers back. -/
def ReadBack (r : HttpResponse) : Prop :=
  ∃ head, readHead r.appendToBuffer = some head ∧ head.code = r.statusCode_.toNat ∧
    head.reason = r.statusMessage_ ∧ ∀ h ∈ r.headers_.entries, h ∈ head.fields

theorem length_reason_lt {head : ResponseHead} (h : readHead r.appendToBuffer = some head) :
    head.reason.length < r.statusMessage_.length := by
  have hcode : (snprintf32 (ascii "HTTP/1.1 " ++ ascii (Nat.repr r.statusCode_.toNat))).length ≤
      12 := by
    cases r.statusCode_ <;> decide
  obtain ⟨rest, hstream⟩ : ∃ rest, r.appendToBuffer =
      (snprintf32 (ascii "HTTP/1.1 " ++ ascii (Nat.repr r.statusCode_.toNat)) ++
        r.statusMessage_) ++
        carriageReturn :: lineFeed :: rest := by
    unfold appendToBuffer
    simp only [List.append_assoc]
    exact ⟨_, rfl⟩
  obtain ⟨line, lines, hsplit, hle⟩ := @splitLines_first _ _ carriageReturn lineFeed
    (snprintf32 (ascii "HTTP/1.1 " ++ ascii (Nat.repr r.statusCode_.toNat)) ++
      r.statusMessage_) rest
  rw [List.length_append] at hle
  unfold readHead at h
  rw [hstream, hsplit] at h
  obtain ⟨⟨code, reason⟩, hstatus, h⟩ := Option.bind_eq_some_iff.mp h
  obtain ⟨fields, _, h⟩ := Option.bind_eq_some_iff.mp h
  have hlength := length_reason hstatus
  split at h
  next =>
    cases h
    dsimp only
    omega
  next => cases h

/-- `HTTP/1.1 200OK` is no status line. -/
theorem okResponse_not_readBack : readHead okResponse.appendToBuffer = none ∧
    ¬ ReadBack okResponse := by
  have hplain : Plain okResponse := by
    constructor <;> decide
  have hnone : readHead okResponse.appendToBuffer = none := by
    rw [hplain.readHead_eq]
    exact if_neg (by decide)
  refine ⟨hnone, ?_⟩
  rintro ⟨head, hread, _⟩
  rw [hnone] at hread
  cases hread

/-- No response is read back: the message would lose a byte. -/
theorem not_readBack (r : HttpResponse) : ¬ ReadBack r := by
  rintro ⟨head, hread, _, hreason, _⟩
  have hlt := length_reason_lt hread
  rw [hreason] at hlt
  exact Nat.lt_irrefl _ hlt

end HttpResponse

end Pallette
