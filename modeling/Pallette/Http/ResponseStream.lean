import Pallette.Buffer.Growth
import Pallette.Http.HttpResponse
import Pallette.Http.RoundTrip
import Pallette.Reasoning.Lines

/-!
# ResponseStream — keep-alive responses, one after the other

A client finds the end of a head at the first blank line and the end of the body by the length the
head announces.  `readBodies_appendStream`: from any keep-alive responses appended to one buffer it
gets their bodies, and ends where they end.
-/

open Reasoning

namespace Pallette

namespace HttpResponse

/-- What `appendToBuffer(output)` hands to `append`, call by call. -/
def writes (r : HttpResponse) : List Bytes :=
  [snprintf32 (ascii "HTTP/1.1 " ++ ascii (Nat.repr r.statusCode_.toNat)), r.statusMessage_,
    kCRLF] ++
    (if r.closeConnection_ then [ascii "Connection: close" ++ kCRLF]
     else
      [snprintf32 (ascii "Content-Length: " ++ ascii (Nat.repr r.body_.length) ++ kCRLF),
        ascii "Connection: Keep-Alive" ++ kCRLF]) ++
    (r.headers_.entries.map fun headValue ↦
      [headValue.1, ascii ": ", headValue.2, kCRLF]).flatten ++
    [kCRLF, r.body_]

/-- `appendToBuffer(output)` on the buffer. -/
def appendTo (r : HttpResponse) (output : Buffer) : Except Buffer.Failure Buffer :=
  r.writes.foldlM Buffer.append output

/-- Responses appended one after the other. -/
def appendStream (rs : List HttpResponse) (output : Buffer) : Except Buffer.Failure Buffer :=
  rs.foldlM (fun output r ↦ r.appendTo output) output

/-- A response that keeps the connection open, in parts that respect the format. -/
structure KeepAlive (r : HttpResponse) : Prop where
  open_ : r.closeConnection_ = false
  body : r.body_.length < 10 ^ 13
  message : carriageReturn ∉ r.statusMessage_ ∧ lineFeed ∉ r.statusMessage_
  names : ∀ h ∈ r.headers_.entries, colonByte ∉ h.1 ∧ carriageReturn ∉ h.1 ∧ lineFeed ∉ h.1 ∧
    h.1 ≠ HttpContext.contentLengthField
  values : ∀ h ∈ r.headers_.entries, carriageReturn ∉ h.2 ∧ lineFeed ∉ h.2

end HttpResponse

/-! ## The client -/

/-- The line is the one of the body length. -/
def isLengthLine (line : Bytes) : Bool :=
  (HttpContext.contentLengthField ++ [colonByte]).isPrefixOf line

/-- The length the head announces, when just one line does. -/
def announcedLength (head : Bytes) : Option Nat :=
  match (splitLines carriageReturn lineFeed head).filter isLengthLine with
  | [line] =>
      let v := HttpRequest.trimmed (line.drop (HttpContext.contentLengthField.length + 1))
      if isDecimal v then some (decimal v) else none
  | _ => none

/-- Reads one response: its body, and the rest of the stream. -/
def readResponse (stream : Bytes) : Option (Bytes × Bytes) := do
  let blank ← search (kCRLF ++ kCRLF) stream
  let n ← announcedLength (stream.take blank)
  let rest := stream.drop (blank + (kCRLF ++ kCRLF).length)
  if n ≤ rest.length then some (rest.take n, rest.drop n) else none

/-- Reads responses until the stream is at its end; none of them is empty. -/
def readBodies (stream : Bytes) : Option (List Bytes) :=
  decodeAll readResponse stream.length stream

/-! ## Numbers -/

theorem isDecimal_repr (n : Nat) : isDecimal (ascii (Nat.repr n)) = true := by
  rw [isDecimal_iff]
  exact ⟨List.ne_nil_of_length_pos (length_repr_pos n), fun b ↦ isdigit_of_mem_repr⟩

/-! ## The lines of a head -/

namespace HttpResponse

variable (r : HttpResponse)

def statusLine : Bytes :=
  ascii "HTTP/1.1 " ++ ascii (Nat.repr r.statusCode_.toNat) ++ r.statusMessage_

def lengthLine : Bytes :=
  ascii "Content-Length: " ++ ascii (Nat.repr r.body_.length)

def headerLine (headValue : Bytes × Bytes) : Bytes :=
  headValue.1 ++ ascii ": " ++ headValue.2

def headLines : List Bytes :=
  r.statusLine :: r.lengthLine :: ascii "Connection: Keep-Alive" ::
    r.headers_.entries.map headerLine

theorem flatten_writes : r.writes.flatten = r.appendToBuffer := by
  have hheaders : ∀ entries : List (Bytes × Bytes),
      (entries.map fun headValue ↦ [headValue.1, ascii ": ", headValue.2, kCRLF]).flatten.flatten =
        (entries.map fun headValue ↦
          headValue.1 ++ ascii ": " ++ headValue.2 ++ kCRLF).flatten := by
    intro entries
    induction entries with
    | nil => rfl
    | cons e entries ih => simp [ih]
  unfold writes appendToBuffer
  split <;> simp [hheaders]

variable {r}

theorem snprintf32_status : snprintf32 (ascii "HTTP/1.1 " ++ ascii (Nat.repr r.statusCode_.toNat)) =
    ascii "HTTP/1.1 " ++ ascii (Nat.repr r.statusCode_.toNat) := by
  cases r.statusCode_ <;> decide

/-- The buffer of 32 bytes has room for every length of 13 digits. -/
theorem snprintf32_length (h : r.body_.length < 10 ^ 13) :
    snprintf32 (ascii "Content-Length: " ++ ascii (Nat.repr r.body_.length) ++ kCRLF) =
      ascii "Content-Length: " ++ ascii (Nat.repr r.body_.length) ++ kCRLF := by
  have hdigits := length_repr_le (by decide) h
  apply List.take_of_length_le
  have hfield : (ascii "Content-Length: ").length = 16 := rfl
  have hcrlf : kCRLF.length = 2 := rfl
  rw [List.length_append, List.length_append]
  omega

/-- The lines that `appendToBuffer` writes itself, as names and values. -/
def connectionFields (r : HttpResponse) : List (Bytes × Bytes) :=
  if r.closeConnection_ then [(ascii "Connection", ascii "close")]
  else
    [(HttpContext.contentLengthField, ascii (Nat.repr r.body_.length)),
      (ascii "Connection", ascii "Keep-Alive")]

/-- The head in lines. -/
theorem appendToBuffer_lines (h : r.closeConnection_ = true ∨ r.body_.length < 10 ^ 13) :
    r.appendToBuffer =
      ((r.statusLine :: (r.connectionFields ++ r.headers_.entries).map headerLine).map
        (· ++ kCRLF)).flatten ++
        kCRLF ++ r.body_ := by
  unfold appendToBuffer connectionFields
  rw [snprintf32_status]
  by_cases hclose : r.closeConnection_ = true
  · rw [if_pos hclose, if_pos hclose]
    simp [statusLine, headerLine, Function.comp_def, ascii]
  · rw [if_neg hclose, if_neg hclose, snprintf32_length (h.resolve_left hclose)]
    simp [statusLine, headerLine, Function.comp_def, ascii, HttpContext.contentLengthField]

theorem KeepAlive.appendToBuffer_eq (h : KeepAlive r) :
    r.appendToBuffer = kCRLF.intercalate r.headLines ++ (kCRLF ++ kCRLF) ++ r.body_ := by
  have hlines : kCRLF.intercalate r.headLines ++ kCRLF = (r.headLines.map (· ++ kCRLF)).flatten :=
    intercalate_append kCRLF (by simp [headLines])
  have hsame : r.statusLine :: (r.connectionFields ++ r.headers_.entries).map headerLine =
      r.headLines := by
    unfold connectionFields
    rw [h.open_, if_neg Bool.false_ne_true]
    rfl
  rw [appendToBuffer_lines (.inr h.body), hsame, ← List.append_assoc (kCRLF.intercalate _), hlines]

theorem KeepAlive.headLines_plain (h : KeepAlive r) :
    ∀ line ∈ r.headLines, line ≠ [] ∧ carriageReturn ∉ line := by
  intro line hline
  rcases List.mem_cons.mp hline with rfl | hline
  · have hcode : carriageReturn ∉ ascii "HTTP/1.1 " ++ ascii (Nat.repr r.statusCode_.toNat) := by
      cases r.statusCode_ <;> decide
    refine ⟨by simp [statusLine, ascii], fun hmem ↦ ?_⟩
    rcases List.mem_append.mp hmem with hmem | hmem
    · exact hcode hmem
    · exact h.message.1 hmem
  rcases List.mem_cons.mp hline with rfl | hline
  · refine ⟨by simp [lengthLine, ascii], fun hmem ↦ ?_⟩
    rcases List.mem_append.mp hmem with hmem | hmem
    · revert hmem
      decide
    · have hdigit := (isDecimal_iff.mp (isDecimal_repr r.body_.length)).2 _ hmem
      revert hdigit
      decide
  rcases List.mem_cons.mp hline with rfl | hline
  · decide
  · rcases List.mem_map.mp hline with ⟨e, he, rfl⟩
    refine ⟨by simp [headerLine, ascii], fun hmem ↦ ?_⟩
    rcases List.mem_append.mp hmem with hmem | hmem
    · rcases List.mem_append.mp hmem with hmem | hmem
      · exact (h.names e he).2.1 hmem
      · revert hmem
        decide
    · exact (h.values e he).1 hmem

/-! ## Reading one response -/

theorem isLengthLine_headerLine {e : Bytes × Bytes} (hname : colonByte ∉ e.1)
    (hne : e.1 ≠ HttpContext.contentLengthField) : isLengthLine (headerLine e) = false := by
  rw [Bool.eq_false_iff]
  intro hprefix
  rcases List.isPrefixOf_iff_prefix.mp hprefix with ⟨rest, hrest⟩
  have hsplit : headerLine e = e.1 ++ colonByte :: (ascii " " ++ e.2) := by
    simp [headerLine, ascii, colonByte]
  have hfield : HttpContext.contentLengthField ++ [colonByte] ++ rest =
      HttpContext.contentLengthField ++ colonByte :: rest := by simp
  rw [hsplit, hfield] at hrest
  -- both names end at the first colon
  have hlength := congrArg (List.idxOf colonByte) hrest
  rw [idxOf_word hname, idxOf_word (by decide)] at hlength
  exact hne (List.append_inj_left hrest.symm hlength.symm)

theorem KeepAlive.filter_headLines (h : KeepAlive r) :
    r.headLines.filter isLengthLine = [r.lengthLine] := by
  have hstatus : isLengthLine r.statusLine = false := by
    simp [isLengthLine, statusLine, HttpContext.contentLengthField, ascii, List.isPrefixOf]
  have hlength : isLengthLine r.lengthLine = true := by
    simp [isLengthLine, lengthLine, HttpContext.contentLengthField, ascii, List.isPrefixOf,
      colonByte]
  have hconnection : isLengthLine (ascii "Connection: Keep-Alive") = false := by decide
  have hheaders : (r.headers_.entries.map headerLine).filter isLengthLine = [] := by
    rw [List.filter_eq_nil_iff]
    intro line hline
    rcases List.mem_map.mp hline with ⟨e, he, rfl⟩
    have hnames := h.names e he
    simp [isLengthLine_headerLine hnames.1 hnames.2.2.2]
  simp [headLines, hstatus, hlength, hconnection, hheaders]

theorem KeepAlive.announcedLength_eq (h : KeepAlive r) :
    announcedLength (kCRLF.intercalate r.headLines) = some r.body_.length := by
  have hsplit : splitLines carriageReturn lineFeed (kCRLF.intercalate r.headLines) = r.headLines :=
    splitLines_intercalate (by simp [headLines]) fun line hline ↦ (h.headLines_plain line hline).2
  have hvalue : r.lengthLine.drop (HttpContext.contentLengthField.length + 1) =
      [space] ++ ascii (Nat.repr r.body_.length) ++ [] := by
    rw [List.append_nil]
    rfl
  have hdecimal := isDecimal_repr r.body_.length
  have htrimmed : HttpRequest.trimmed ([space] ++ ascii (Nat.repr r.body_.length) ++ []) =
      ascii (Nat.repr r.body_.length) := by
    have hspace : ∀ b ∈ [space] ++ [], isspace b = true := by
      intro b hb
      rw [List.append_nil] at hb
      rw [List.mem_singleton.mp hb]
      rfl
    apply trimmed_padded hspace
    rintro b (hb | hb)
    · exact (not_isspace_of_isdigit ((isDecimal_iff.mp hdecimal).2 b (List.mem_of_head? hb))).1
    · exact (not_isspace_of_isdigit ((isDecimal_iff.mp hdecimal).2 b (List.mem_of_getLast? hb))).1
  simp only [announcedLength, hsplit, h.filter_headLines, hvalue, htrimmed, hdecimal, if_true,
    decimal_repr]

/-- **One response.**  Its body is read back, whatever comes behind it. -/
theorem KeepAlive.readResponse_eq (h : KeepAlive r) (rest : Bytes) :
    readResponse (r.appendToBuffer ++ rest) = some (r.body_, rest) := by
  have hblank : search (kCRLF ++ kCRLF)
      (kCRLF.intercalate r.headLines ++ (kCRLF ++ kCRLF) ++ (r.body_ ++ rest)) =
        some (kCRLF.intercalate r.headLines).length :=
    search_blank_line (by decide) (by simp [headLines]) h.headLines_plain _
  have hstream : r.appendToBuffer ++ rest =
      kCRLF.intercalate r.headLines ++ (kCRLF ++ kCRLF) ++ (r.body_ ++ rest) := by
    rw [h.appendToBuffer_eq, List.append_assoc]
  have hhead : (kCRLF.intercalate r.headLines ++ (kCRLF ++ kCRLF) ++ (r.body_ ++ rest)).take
      (kCRLF.intercalate r.headLines).length = kCRLF.intercalate r.headLines := by
    rw [List.append_assoc, List.take_left]
  have hbody : (kCRLF.intercalate r.headLines ++ (kCRLF ++ kCRLF) ++ (r.body_ ++ rest)).drop
      ((kCRLF.intercalate r.headLines).length + (kCRLF ++ kCRLF).length) = r.body_ ++ rest := by
    rw [← List.length_append, List.drop_left]
  have hle : r.body_.length ≤ (r.body_ ++ rest).length := by simp
  simp only [readResponse, hstream, hblank, hhead, h.announcedLength_eq, hbody, hle, if_true,
    List.take_left, List.drop_left, bind, Option.bind]

/-! ## The stream in the buffer -/

theorem appendStream_eq (rs : List HttpResponse) (output : Buffer) :
    appendStream rs output = (rs.flatMap writes).foldlM Buffer.append output := by
  induction rs generalizing output with
  | nil => rfl
  | cons r rs ih =>
    rw [appendStream, List.foldlM_cons, List.flatMap_cons, List.foldlM_append]
    exact bind_congr fun output ↦ ih output

/-- The pieces that are appended are the responses one behind the other. -/
theorem flatten_flatMap_writes (rs : List HttpResponse) :
    (rs.flatMap writes).flatten = (rs.map appendToBuffer).flatten := by
  induction rs with
  | nil => rfl
  | cons r rs ih =>
    rw [List.flatMap_cons, List.flatten_append, ih, flatten_writes, List.map_cons,
      List.flatten_cons]

/-- **The stream.**  From the responses appended to a buffer with nothing to read in it, the client
gets their bodies, in order, and is then at the end of what there is to read; and all of them are
appended when a vector can hold them. -/
theorem readBodies_appendStream {rs : List HttpResponse} {output : Buffer}
    (hrs : ∀ r ∈ rs, KeepAlive r) (houtput : output.WellFormed) (hempty : output.content = []) :
    (∀ output', appendStream rs output = .ok output' →
        readBodies output'.content = some (rs.map body_)) ∧
      (Buffer.kPrePrePend + (rs.map appendToBuffer).flatten.length ≤ Buffer.maxSize →
        ∃ output', appendStream rs output = .ok output') := by
  rw [appendStream_eq]
  constructor
  · intro output' happ
    have hcont := (Buffer.appends_ok houtput happ).2
    rw [hempty, List.nil_append, flatten_flatMap_writes] at hcont
    have hne : ∀ r ∈ rs, r.appendToBuffer ≠ [] := by
      intro r hr hnil
      have hlength := congrArg List.length ((hrs r hr).appendToBuffer_eq.symm.trans hnil)
      simp [kCRLF] at hlength
    rw [readBodies, hcont]
    exact decodeAll_encode (fun r hr ↦ (hrs r hr).readResponse_eq) hne (length_le_flatten hne)
  · intro hfits
    apply Buffer.appends_return houtput (houtput.reserve_of_empty hempty)
    rw [hempty, List.nil_append, flatten_flatMap_writes]
    exact hfits

def okResponse : HttpResponse :=
  { closeConnection_ := false, statusCode_ := .K200_OK, statusMessage_ := ascii "OK"
    body_ := kCRLF ++ kCRLF, headers_ := OrdMap.empty.insert (ascii "Server") (ascii "p") }

theorem okResponse_keepAlive : KeepAlive okResponse := by
  constructor <;> decide

set_option maxRecDepth 4096 in
/-- The body of the first of two responses is a blank line. -/
theorem readBodies_appendStream_two :
    ∃ output, appendStream [okResponse, okResponse.setBody []] ⟨List.replicate 8 0, 8, 8⟩ =
      .ok output ∧
      readBodies output.content = some [kCRLF ++ kCRLF, []] := by
  have hnew : Buffer.WellFormed ⟨List.replicate 8 0, 8, 8⟩ :=
    Buffer.new_wellFormed (n := 0) (by decide) rfl
  have hrs : ∀ r ∈ [okResponse, okResponse.setBody []], KeepAlive r := by
    intro r hr
    rcases List.mem_cons.mp hr with rfl | hr
    · exact okResponse_keepAlive
    · rw [List.mem_singleton.mp hr]
      constructor <;> decide
  obtain ⟨hread, hwrite⟩ := readBodies_appendStream hrs hnew rfl
  obtain ⟨output, houtput⟩ := hwrite (by decide)
  exact ⟨output, houtput, hread output houtput⟩

end HttpResponse

end Pallette
