import Pallette.Http.RequestLine
import Pallette.Http.Resumption

/-!
# Message — what a well-formed request head is, and how the parser reads it

`RequestHead` is the head of a request as HTTP means it, with the proofs that its parts are what
they are called; `wire` is its bytes and `received` the request it stands for.  `consumes_head_iff`
says that the parser reads it line by line into exactly that request.
-/

open Reasoning

namespace Pallette

/-- A header line: its first colon ends the field name. -/
structure HeaderLine where
  line : Bytes
  colon_mem : colonByte ∈ line
  single : ¬ kCRLF <:+: line

namespace HeaderLine

def colon (h : HeaderLine) : Nat :=
  h.line.idxOf colonByte

def field (h : HeaderLine) : Bytes :=
  h.line.take h.colon

def value (h : HeaderLine) : Bytes :=
  HttpRequest.trimmed (h.line.drop (h.colon + 1))

def wire (h : HeaderLine) : Bytes :=
  h.line ++ kCRLF

end HeaderLine

def headersWire (hs : List HeaderLine) : Bytes :=
  (hs.map HeaderLine.wire).flatten

/-- The headers as a map, the last of several equal fields winning. -/
def headersFrom (m : OrdMap Bytes Bytes) (hs : List HeaderLine) : OrdMap Bytes Bytes :=
  hs.foldl (fun m h ↦ m.insert h.field h.value) m

/-- The value of the last header line that carries `field`. -/
def lastValue (field : Bytes) (hs : List HeaderLine) : Option Bytes :=
  (hs.reverse.find? fun h ↦ h.field = field).map HeaderLine.value

structure RequestHead where
  method : HttpRequest.Method
  method_known : method ≠ .INVALID
  target : Bytes
  target_word : space ∉ target
  target_single : ¬ kCRLF <:+: target
  version : HttpRequest.Version
  version_known : version ≠ .UNKONOWN
  headers : List HeaderLine

namespace RequestHead

def requestLine (head : RequestHead) : Bytes :=
  HttpRequest.methodString head.method ++ space ::
    (head.target ++ space :: versionString head.version)

/-- The bytes of the head when `last` is the line that ends it. -/
def wireEnding (head : RequestHead) (last : Bytes) : Bytes :=
  head.requestLine ++ kCRLF ++ headersWire head.headers ++ last ++ kCRLF

/-- An empty line ends a well-formed head. -/
def wire (head : RequestHead) : Bytes :=
  head.wireEnding []

/-- The question mark splits the target; it stays with the query. -/
def isQuestion (b : UInt8) : Bool :=
  b == 63

/-- The request line, as the request keeps it. -/
def opened (head : RequestHead) : HttpRequest :=
  { method_ := head.method
    version_ := head.version
    path_ := head.target.takeWhile (!isQuestion ·)
    query_ := head.target.dropWhile (!isQuestion ·) }

def received (head : RequestHead) : HttpRequest :=
  { head.opened with headers_ := headersFrom .empty head.headers }

/-- The value announced as the length of the body. -/
def announced (head : RequestHead) : Option Bytes :=
  lastValue HttpContext.contentLengthField head.headers

/-- The request line of `/`, without headers. -/
def root (method : HttpRequest.Method) (hmethod : method ≠ .INVALID) : RequestHead :=
  { method := method, method_known := hmethod
    target := ascii "/", target_word := by decide, target_single := by decide
    version := .HTTP11, version_known := by decide
    headers := [] }

end RequestHead

/-! ## Lines -/

variable {line rest : Bytes} {r : Ending HttpContext UInt8 ParseEnd}

theorem search_line (h : ¬ kCRLF <:+: line) (rest : Bytes) :
    search kCRLF (line ++ kCRLF ++ rest) = some line.length := by
  apply search_append_pattern (by decide)
  -- a line feed in the line itself would be needed to complete the carriage return
  show ¬ kCRLF <:+: line ++ [13]
  rintro ⟨front, back, hin⟩
  rcases List.eq_nil_or_concat back with rfl | ⟨back, b, rfl⟩
  · have hlast := congrArg List.getLast? hin
    simp [kCRLF] at hlast
  · rw [List.concat_eq_append, ← List.append_assoc] at hin
    exact h ⟨front, back, (List.append_inj' hin rfl).1⟩

theorem take_line (line rest : Bytes) : (line ++ kCRLF ++ rest).take line.length = line := by
  rw [List.append_assoc, List.take_left]

theorem drop_line (line rest : Bytes) :
    (line ++ kCRLF ++ rest).drop (line.length + kCRLF.length) = rest := by
  rw [← List.length_append, List.drop_left]

/-- What stands in front of a pattern's first occurrence is a line. -/
theorem line_of_search {buf : Bytes} {crlf : Nat} (h : search kCRLF buf = some crlf) :
    ¬ kCRLF <:+: buf.take crlf ∧
      buf = buf.take crlf ++ kCRLF ++ buf.drop (crlf + kCRLF.length) := by
  refine ⟨not_infix_take_of_search (by decide) h, ?_⟩
  rcases search_eq_some h with ⟨rest, hrest, hle⟩
  have hlen : (buf.take crlf).length = crlf := by
    rw [List.length_take]
    omega
  have hdrop := drop_line (buf.take crlf) rest
  rw [hlen, ← hrest] at hdrop
  rw [hdrop, ← hrest]

/-! ## The parser on the lines of a head -/

namespace RequestHead

variable (head : RequestHead)

theorem requestLine_single : ¬ kCRLF <:+: head.requestLine := by
  have hmethod : ¬ kCRLF <:+: HttpRequest.methodString head.method := by
    cases head.method <;> decide
  have hversion : ¬ kCRLF <:+: versionString head.version := by
    cases head.version <;> decide
  intro hin
  rcases infix_append_cons (by decide) hin with hin | hin
  · exact hmethod hin
  · rcases infix_append_cons (by decide) hin with hin | hin
    · exact head.target_single hin
    · exact hversion hin

/-- The request line alone. -/
def requestPart : RequestLine :=
  { method := head.method, method_known := head.method_known
    target := head.target, target_word := head.target_word
    version := head.version, version_known := head.version_known }

theorem processRequestLine_eq :
    HttpContext.processRequestLine {} head.requestLine = some (true, head.opened) :=
  head.requestPart.processRequestLine_wire

end RequestHead

theorem lastValue_cons (field : Bytes) (h : HeaderLine) (hs : List HeaderLine) :
    lastValue field (h :: hs) =
      (lastValue field hs).or (if h.field = field then some h.value else none) := by
  unfold lastValue
  rw [List.reverse_cons, List.find?_append, Option.map_or]
  by_cases hfield : h.field = field
  · simp [hfield]
  · simp [hfield]

theorem find?_headersFrom (field : Bytes) (m : OrdMap Bytes Bytes) (hs : List HeaderLine) :
    (headersFrom m hs).find? field = (lastValue field hs).or (m.find? field) := by
  induction hs generalizing m with
  | nil => rfl
  | cons h hs ih =>
    have hcons : headersFrom m (h :: hs) = headersFrom (m.insert h.field h.value) hs := rfl
    rw [hcons, ih, lastValue_cons, OrdMap.find?_insert]
    cases lastValue field hs with
    | some v => rfl
    | none =>
      by_cases hfield : h.field = field
      · simp [hfield]
      · simp [hfield, Ne.symm hfield]

namespace HttpContext

variable {c : HttpContext}

/-- The context once it has taken the header lines `hs`. -/
def withHeaders (c : HttpContext) (hs : List HeaderLine) : HttpContext :=
  { c with request_ := { c.request_ with headers_ := headersFrom c.request_.headers_ hs } }

theorem step_requestLine (head : RequestHead) (rest : Bytes) :
    parser.step {} (head.requestLine ++ kCRLF ++ rest) =
      .next (head.requestLine.length + kCRLF.length) ⟨.EXPECT_HEADERS, head.opened⟩ := by
  show parseStep {} _ = _
  simp only [parseStep, search_line head.requestLine_single, take_line, requestLineStep,
    head.processRequestLine_eq]
  rfl

theorem step_headerLine (hs : c.state_ = .EXPECT_HEADERS) (h : HeaderLine) (rest : Bytes) :
    parser.step c (h.line ++ kCRLF ++ rest) =
      .next (h.line.length + kCRLF.length) (c.withHeaders [h]) := by
  have hcolon : h.line.idxOf colonByte ≠ h.line.length := idxOf_ne_length_iff.mpr h.colon_mem
  show parseStep c _ = _
  simp only [parseStep, hs, search_line h.single, take_line, headerLineStep, if_pos hcolon,
    withHeaders]
  rfl

theorem step_endLine (hs : c.state_ = .EXPECT_HEADERS) {last : Bytes} (hcolon : colonByte ∉ last)
    (hlast : ¬ kCRLF <:+: last) (rest : Bytes) :
    parser.step c (last ++ kCRLF ++ rest) =
      if c.request_.method_ = .GET then .halt (last.length + kCRLF.length) (afterHead c) .gotAll
      else .next (last.length + kCRLF.length) (afterHead c) := by
  have hno : ¬ last.idxOf colonByte ≠ last.length := fun h ↦ hcolon (idxOf_ne_length_iff.mp h)
  show parseStep c _ = _
  simp only [parseStep, hs, search_line hlast, take_line, headerLineStep, if_neg hno]

/-- Header lines leave the parser where it was, with their fields stored. -/
theorem consumes_headers_iff (headers : List HeaderLine) (hs : c.state_ = .EXPECT_HEADERS)
    (rest : Bytes) :
    parser.Consumes c (headersWire headers ++ rest) r ↔
      parser.Consumes (c.withHeaders headers) rest r := by
  induction headers generalizing c with
  | nil => exact Iff.rfl
  | cons h headers ih =>
    have hwire : headersWire (h :: headers) ++ rest =
        h.line ++ kCRLF ++ (headersWire headers ++ rest) := by
      simp [headersWire, HeaderLine.wire]
    rw [hwire, Consumer.consumes_iff_of_next (step_headerLine hs h _), drop_line,
      ih (c := c.withHeaders [h]) hs]
    rfl

/-- **Reading a head.**  The request line and the header lines end up in the request they stand for,
with the line that ends the head still unread. -/
theorem consumes_head_iff (head : RequestHead) (last rest : Bytes) :
    parser.Consumes {} (head.wireEnding last ++ rest) r ↔
      parser.Consumes ⟨.EXPECT_HEADERS, head.received⟩ (last ++ kCRLF ++ rest) r := by
  have hwire : head.wireEnding last ++ rest = head.requestLine ++ kCRLF ++
      (headersWire head.headers ++ (last ++ kCRLF ++ rest)) := by
    simp [RequestHead.wireEnding]
  rw [hwire, Consumer.consumes_iff_of_next (step_requestLine head _), drop_line,
    consumes_headers_iff head.headers rfl]
  rfl

theorem received_header (head : RequestHead) (field : Bytes) :
    head.received.headers_.find? field = lastValue field head.headers := by
  show (headersFrom .empty head.headers).find? field = _
  rw [find?_headersFrom, OrdMap.find?_empty, Option.or_none]

theorem received_contentLength (head : RequestHead) :
    head.received.getHeader contentLengthField = head.announced.getD [] := by
  rw [HttpRequest.getHeader, received_header]
  rfl

variable {head : RequestHead} {last : Bytes}

theorem consumes_get_iff (hget : head.method = .GET) (hcolon : colonByte ∉ last)
    (hlast : ¬ kCRLF <:+: last) :
    parser.Consumes {} (head.wireEnding last ++ rest) r ↔
      r = .halted ⟨.GOT_ALL, head.received⟩ rest .gotAll := by
  have hstep := step_endLine (c := ⟨.EXPECT_HEADERS, head.received⟩) rfl hcolon hlast rest
  have hmethod : head.received.method_ = .GET := hget
  rw [if_pos hmethod] at hstep
  rw [consumes_head_iff, Consumer.consumes_iff_of_halt hstep, drop_line]
  simp only [afterHead, hmethod]

theorem consumes_post_iff (hpost : head.method = .POST) (hcolon : colonByte ∉ last)
    (hlast : ¬ kCRLF <:+: last) :
    parser.Consumes {} (head.wireEnding last ++ rest) r ↔
      parser.Consumes ⟨.EXPECT_BODY, head.received⟩ rest r := by
  have hstep := step_endLine (c := ⟨.EXPECT_HEADERS, head.received⟩) rfl hcolon hlast rest
  have hmethod : head.received.method_ = .POST := hpost
  rw [if_neg (by rw [hmethod]; decide)] at hstep
  rw [consumes_head_iff, Consumer.consumes_iff_of_next hstep, drop_line]
  simp only [afterHead, hmethod]

/-! ## What the parser has read when it stops -/

/-- A request line the parser accepts has the parts of a well-formed one. -/
theorem processRequestLine_true {line : Bytes} {r : HttpRequest} (hline : ¬ kCRLF <:+: line)
    (h : processRequestLine {} line = some (true, r)) :
    ∃ head : RequestHead, head.headers = [] ∧ head.requestLine = line ∧ head.opened = r := by
  obtain ⟨l, rfl, rfl⟩ := RequestLine.exists_of_processRequestLine h
  have hin : l.target <:+: l.wire := by
    refine ⟨HttpRequest.methodString l.method ++ [space], space :: versionString l.version, ?_⟩
    unfold RequestLine.wire
    rw [List.append_assoc, List.append_assoc]
    rfl
  let head : RequestHead :=
    { method := l.method, method_known := l.method_known
      target := l.target, target_word := l.target_word
      target_single := fun hcrlf ↦ hline (hcrlf.trans hin)
      version := l.version, version_known := l.version_known
      headers := [] }
  exact ⟨head, rfl, rfl, rfl⟩

/-- In the head, the parser halts only behind a line without a colon: at once for `GET`, in the body
for `POST`. -/
theorem headers_halted_cases {buf : Bytes} {c' : HttpContext} {e : ParseEnd}
    (h : parser.Consumes c buf (.halted c' rest e)) (hs : c.state_ = .EXPECT_HEADERS) :
    ∃ hs last tail, buf = headersWire hs ++ (last ++ kCRLF ++ tail) ∧ colonByte ∉ last ∧
      ¬ kCRLF <:+: last ∧
      ((c.request_.method_ = .GET ∧ e = .gotAll ∧ rest = tail) ∨
        (c.request_.method_ = .POST ∧
          parser.Consumes ⟨.EXPECT_BODY, (c.withHeaders hs).request_⟩ tail
            (.halted c' rest e))) := by
  generalize hr : Ending.halted c' rest e = w at h
  induction h with
  | wait _ => cases hr
  | @halt c _ buf n _ hstep =>
    cases hr
    by_cases hgot : e = .gotAll
    · subst hgot
      rcases parseStep_gotAll_cases hstep with ⟨crlf, hcrlf, rfl, _, hcolon, hget, _⟩ | ⟨hbody, _⟩
      · rcases line_of_search hcrlf with ⟨hline, hsplit⟩
        exact ⟨[], _, _, hsplit, hcolon, hline, .inl ⟨hget, rfl, rfl⟩⟩
      · rw [hs] at hbody
        cases hbody
    · rcases (parseStep_failure_cases hstep hgot).2 with ⟨hstate, _⟩ | ⟨hstate, _⟩ <;>
        rw [hs] at hstate <;> cases hstate
  | @next c t buf n r hstep hrest ih =>
    have hs' : c.state_ ≠ .GOT_ALL := by rw [hs]; decide
    rcases parseStep_next_cases hstep hs' with ⟨crlf, hcrlf, rfl, hcase⟩
    rcases line_of_search hcrlf with ⟨hline, hsplit⟩
    rcases hcase with ⟨hstate, _⟩ | ⟨_, hcolon, rfl⟩ | ⟨_, hcolon, hget, rfl⟩
    · rw [hs] at hstate
      cases hstate
    · -- one more header line in front of those found behind it
      rcases ih hs hr with ⟨hs, last, tail, hbuf, hlast⟩
      refine ⟨⟨buf.take crlf, hcolon, hline⟩ :: hs, last, tail, ?_, hlast⟩
      rw [hbuf] at hsplit
      refine hsplit.trans ?_
      simp [headersWire, HeaderLine.wire]
    · by_cases hpost : c.request_.method_ = .POST
      · refine ⟨[], _, _, hsplit, hcolon, hline, .inr ⟨hpost, ?_⟩⟩
        simp only [afterHead, hpost] at hrest
        exact hrest
      · -- the methods that wait for more header lines have no way to halt
        have hsame : afterHead c = c := by
          unfold afterHead
          split
          next hmethod => exact absurd hmethod hget
          next hmethod => exact absurd hmethod hpost
          next => rfl
        rw [hsame] at ih
        rcases ih hs hr with ⟨_, _, _, _, _, _, ⟨hmethod, _⟩ | ⟨hmethod, _⟩⟩
        · exact absurd hmethod hget
        · exact absurd hmethod hpost

theorem body_halted_cases {r : HttpRequest} {buf : Bytes} {c' : HttpContext} {e : ParseEnd}
    (h : parser.Consumes ⟨.EXPECT_BODY, r⟩ buf (.halted c' rest e)) :
    r.getHeader contentLengthField ≠ [] ∧
      ((∃ n : Nat, e = .gotAll ∧ stoi (r.getHeader contentLengthField) = .ok n ∧ n ≤ buf.length ∧
          c' = ⟨.GOT_ALL, { r with query_ := buf.take n }⟩ ∧ rest = buf.drop n) ∨
        ∃ x, e = .exception x ∧ stoi (r.getHeader contentLengthField) = .error x) := by
  generalize hr : Ending.halted c' rest e = w at h
  cases h with
  | wait _ => cases hr
  | next hstep _ =>
    have hstep : parseStep ⟨.EXPECT_BODY, r⟩ buf = _ := hstep
    rcases parseStep_next_cases hstep (by simp) with
      ⟨_, _, _, ⟨hstate, _⟩ | ⟨hstate, _⟩ | ⟨hstate, _⟩⟩ <;> cases hstate
  | halt hstep =>
    cases hr
    have hstep : parseStep ⟨.EXPECT_BODY, r⟩ buf = _ := hstep
    by_cases hgot : e = .gotAll
    · subst hgot
      rcases parseStep_gotAll_cases hstep with ⟨_, _, _, hstate, _⟩ | ⟨_, hne, hstoi, hle, rfl⟩
      · cases hstate
      · exact ⟨hne, .inl ⟨_, rfl, hstoi, hle, rfl, rfl⟩⟩
    · rcases (parseStep_failure_cases hstep hgot).2 with ⟨hstate, _⟩ | ⟨_, hne, x, hstoi, _, rfl⟩
      · cases hstate
      · exact ⟨hne, .inr ⟨x, rfl, hstoi⟩⟩

end HttpContext

end Pallette
