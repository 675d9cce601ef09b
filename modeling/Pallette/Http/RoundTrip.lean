import Mathlib.Data.List.TakeWhile
import Pallette.Http.Framing

/-!
# RoundTrip — what a client writes is what the parser gets

`SentRequest` is a request from the side of the client: a target, headers with padding round their
values, and for `POST` a body whose length is announced.  `parseRequest_wire` reads it back,
whatever comes behind it.
-/

open Reasoning

namespace Pallette

def carriageReturn : UInt8 := 13
def lineFeed : UInt8 := 10
def tab : UInt8 := 9

/-- A header as it is sent, with padding on both sides of the value. -/
structure SentHeader where
  name : Bytes
  name_plain : colonByte ∉ name ∧ carriageReturn ∉ name ∧ lineFeed ∉ name
  value : Bytes
  value_plain : carriageReturn ∉ value ∧ lineFeed ∉ value
  value_tight : ∀ b, value.head? = some b ∨ value.getLast? = some b → isspace b = false
  before : Bytes
  behind : Bytes
  padding : ∀ b ∈ before ++ behind, b = space ∨ b = tab

namespace SentHeader

def line (h : SentHeader) : Bytes :=
  h.name ++ colonByte :: (h.before ++ h.value ++ h.behind)

end SentHeader

/-- A `POST` announces its body in one header; a `GET` has none, and announces none. -/
inductive Announced : HttpRequest.Method → List SentHeader → Bytes → Prop
  | get {headers : List SentHeader} :
      (∀ h ∈ headers, h.name ≠ HttpContext.contentLengthField) → Announced .GET headers []
  | post {front back : List SentHeader} {h : SentHeader} {body : Bytes} :
      h.name = HttpContext.contentLengthField → isDecimal h.value = true →
      decimal h.value = body.length → body.length < 2 ^ 31 →
      (∀ h' ∈ front ++ back, h'.name ≠ HttpContext.contentLengthField) →
      Announced .POST (front ++ h :: back) body

structure SentRequest where
  method : HttpRequest.Method
  target : Bytes
  target_plain : space ∉ target ∧ carriageReturn ∉ target ∧ lineFeed ∉ target
  version : HttpRequest.Version
  version_known : version ≠ .UNKONOWN
  headers : List SentHeader
  body : Bytes
  announced : Announced method headers body

namespace SentRequest

def wire (m : SentRequest) : Bytes :=
  HttpRequest.methodString m.method ++ [space] ++ m.target ++ [space] ++ versionString m.version ++
    kCRLF ++ (m.headers.map fun h ↦ h.line ++ kCRLF).flatten ++ kCRLF ++ m.body

/-- The last value sent under a name. -/
def valueOf (m : SentRequest) (name : Bytes) : Option Bytes :=
  (m.headers.reverse.find? fun h ↦ h.name = name).map SentHeader.value

/-- The query the parser is to find: the body, or what the target has from its question mark on. -/
def query (m : SentRequest) : Bytes :=
  if m.method = .POST then m.body else m.target.dropWhile (!RequestHead.isQuestion ·)

end SentRequest

/-! ## Trimming -/

theorem isspace_of_padding {b : UInt8} (h : b = space ∨ b = tab) : isspace b = true := by
  rcases h with rfl | rfl <;> rfl

theorem dropWhile_of_head? {α : Type} {p : α → Bool} {l : List α}
    (h : ∀ b, l.head? = some b → p b = false) : l.dropWhile p = l := by
  cases l with
  | nil => rfl
  | cons b l => rw [List.dropWhile_cons_of_neg (by simp [h b rfl])]

theorem rdropWhile_append_of_pos {α : Type} {p : α → Bool} (l : List α) {l' : List α}
    (h : ∀ b ∈ l', p b = true) : (l ++ l').rdropWhile p = l.rdropWhile p := by
  rw [List.rdropWhile, List.reverse_append, List.dropWhile_append_of_pos (by simpa using h)]
  rfl

theorem rdropWhile_of_getLast? {α : Type} {p : α → Bool} {l : List α}
    (h : ∀ b, l.getLast? = some b → p b = false) : l.rdropWhile p = l := by
  rw [List.rdropWhile, dropWhile_of_head?, List.reverse_reverse]
  simpa using h

/-- `addHeader` takes off the padding and nothing else. -/
theorem trimmed_padded {before value behind : Bytes}
    (hpadding : ∀ b ∈ before ++ behind, isspace b = true)
    (htight : ∀ b, value.head? = some b ∨ value.getLast? = some b → isspace b = false) :
    HttpRequest.trimmed (before ++ value ++ behind) = value := by
  have hbefore : ∀ b ∈ before, isspace b = true := fun b hb ↦
    hpadding b (List.mem_append_left _ hb)
  have hbehind : ∀ b ∈ behind, isspace b = true := fun b hb ↦
    hpadding b (List.mem_append_right _ hb)
  unfold HttpRequest.trimmed
  rw [List.append_assoc, List.dropWhile_append_of_pos hbefore]
  by_cases hvalue : value = []
  · subst hvalue
    rw [List.nil_append, List.dropWhile_eq_nil_iff.mpr hbehind, List.rdropWhile_nil]
  · rw [dropWhile_of_head?, rdropWhile_append_of_pos _ hbehind, rdropWhile_of_getLast?]
    · exact fun b hb ↦ htight b (.inr hb)
    · intro b hb
      rw [List.head?_append_of_ne_nil _ hvalue] at hb
      exact htight b (.inl hb)

/-! ## The request the parser sees -/

theorem not_crlf_infix {text : Bytes} (h : carriageReturn ∉ text) : ¬ kCRLF <:+: text := fun hin ↦
  h (hin.subset (by simp [kCRLF, carriageReturn]))

namespace SentHeader

variable (h : SentHeader)

theorem carriageReturn_not_mem_line : carriageReturn ∉ h.line := by
  have hpadding : carriageReturn ∉ h.before ++ h.behind := fun hmem ↦ by
    rcases h.padding _ hmem with heq | heq <;> exact absurd heq (by decide)
  have hcolon : carriageReturn ≠ colonByte := by decide
  simp only [List.mem_append, not_or] at hpadding
  simp only [line, List.mem_append, List.mem_cons, not_or]
  exact ⟨h.name_plain.2.1, hcolon, ⟨hpadding.1, h.value_plain.1⟩, hpadding.2⟩

/-- The header line the parser meets. -/
def headerLine : HeaderLine where
  line := h.line
  colon_mem := by simp [line]
  single := not_crlf_infix h.carriageReturn_not_mem_line

theorem headerLine_colon : h.headerLine.colon = h.name.length :=
  idxOf_word h.name_plain.1 _

theorem headerLine_field : h.headerLine.field = h.name := by
  rw [HeaderLine.field, headerLine_colon]
  exact List.take_left

theorem headerLine_value : h.headerLine.value = h.value := by
  rw [HeaderLine.value, headerLine_colon]
  show HttpRequest.trimmed (h.line.drop (h.name.length + 1)) = h.value
  rw [line, drop_word]
  exact trimmed_padded (fun b hb ↦ isspace_of_padding (h.padding b hb)) h.value_tight

end SentHeader

namespace SentRequest

variable (m : SentRequest)

theorem method_known : m.method ≠ .INVALID := by
  cases m with
  | mk method _ _ _ _ _ _ announced => cases announced <;> simp

def head : RequestHead where
  method := m.method
  method_known := m.method_known
  target := m.target
  target_word := m.target_plain.1
  target_single := not_crlf_infix m.target_plain.2.1
  version := m.version
  version_known := m.version_known
  headers := m.headers.map SentHeader.headerLine

theorem wire_eq : m.wire = m.head.wireEnding [] ++ m.body := by
  have hheaders : headersWire m.head.headers = (m.headers.map fun h ↦ h.line ++ kCRLF).flatten := by
    simp only [headersWire, head, List.map_map]
    rfl
  simp only [wire, RequestHead.wireEnding, RequestHead.requestLine, hheaders]
  simp [head]

/-- The last value of a name wins. -/
theorem lastValue_head (name : Bytes) : lastValue name m.head.headers = m.valueOf name := by
  have hfield : ((fun h : HeaderLine ↦ decide (h.field = name)) ∘ SentHeader.headerLine) =
      fun h ↦ decide (h.name = name) := by
    funext h
    rw [Function.comp_apply, h.headerLine_field]
  simp only [lastValue, valueOf, head, ← List.map_reverse, List.find?_map, hfield, Option.map_map]
  congr 1
  funext h
  exact h.headerLine_value

/-- The one header that announces the body is found wherever it stands. -/
theorem announced_post (hpost : m.method = .POST) :
    ∃ v, m.head.announced = some v ∧ stoi v = .ok m.body.length := by
  rw [RequestHead.announced, lastValue_head]
  cases m with
  | mk method target target_plain version version_known headers body announced =>
    cases announced with
    | get _ => cases hpost
    | @post front back h body hname hdecimal hlength hsmall hothers =>
      refine ⟨h.value, ?_, ?_⟩
      · have hback : ∀ h' ∈ back.reverse, ¬ decide (h'.name = HttpContext.contentLengthField) =
            true := by
          intro h' hmem
          simpa using hothers h' (List.mem_append_right _ (List.mem_reverse.mp hmem))
        have hnone := List.find?_eq_none.mpr hback
        simp [valueOf, hnone, hname]
      · rw [stoi_of_isDecimal hdecimal, hlength, if_pos hsmall]

theorem consumes_wire (rest : Bytes) :
    HttpContext.parser.Consumes {} (m.wire ++ rest)
      (.halted ⟨.GOT_ALL, { m.head.received with query_ := m.query }⟩ rest .gotAll) := by
  have hcolon : colonByte ∉ ([] : Bytes) := List.not_mem_nil
  have hlast : ¬ kCRLF <:+: ([] : Bytes) := by decide
  have hwire : m.wire ++ rest = m.head.wireEnding [] ++ (m.body ++ rest) := by
    rw [wire_eq, List.append_assoc]
  rw [hwire]
  by_cases hpost : m.method = .POST
  · rcases m.announced_post hpost with ⟨v, hv, hstoi⟩
    have hlength : stoi (m.head.received.getHeader HttpContext.contentLengthField) =
        .ok m.body.length := by
      rw [HttpContext.received_contentLength, hv]
      exact hstoi
    have hle : m.body.length ≤ (m.body ++ rest).length := by simp
    have hbody := HttpContext.consumes_body hlength hle
    rw [List.take_left, List.drop_left] at hbody
    rw [HttpContext.consumes_post_iff hpost hcolon hlast, query, if_pos hpost]
    exact hbody
  · have hget : m.method = .GET ∧ m.body = [] := by
      cases m with
      | mk method _ _ _ _ _ _ announced =>
        cases announced with
        | get _ => exact ⟨rfl, rfl⟩
        | post _ _ _ _ _ => exact absurd rfl hpost
    rw [HttpContext.consumes_get_iff hget.1 hcolon hlast, hget.2, query, if_neg hpost]
    rfl

end SentRequest

/-- **Round trip.**  A request written by a client is parsed back to what it says, in one call from
the initial state, and what comes behind it is left in the buffer. -/
theorem SentRequest.parseRequest_wire (m : SentRequest) (rest : Bytes) (now : Timestamp) :
    ∃ s, HttpContext.parseRequest {} (m.wire ++ rest) now = .ok s ∧ s.ok = true ∧
      s.context.gotAll = true ∧ s.buf = rest ∧
      s.context.request_.method_ = m.method ∧ s.context.request_.version_ = m.version ∧
      s.context.request_.path_ = m.target.takeWhile (!RequestHead.isQuestion ·) ∧
      s.context.request_.query_ = m.query ∧
      ∀ name, s.context.request_.headers_.find? name = m.valueOf name := by
  rcases HttpContext.parseRequest_gotAll (c := {}) now (m.consumes_wire rest) (by simp) with
    ⟨s, hcall, hok, hgot, hcontext, hbuf⟩
  have hrequest : s.context.request_.untimed = { m.head.received with query_ := m.query } :=
    congrArg HttpContext.request_ hcontext
  refine ⟨s, hcall, hok, hgot, hbuf, congrArg HttpRequest.method_ hrequest,
    congrArg HttpRequest.version_ hrequest, congrArg HttpRequest.path_ hrequest,
    congrArg HttpRequest.query_ hrequest, fun name ↦ ?_⟩
  have hheaders : s.context.request_.untimed.headers_ = m.head.received.headers_ := by rw [hrequest]
  show s.context.request_.untimed.headers_.find? name = _
  rw [hheaders, HttpContext.received_header, m.lastValue_head]

/-- A body of three bytes, announced between tabs and spaces. -/
example : ∃ m : SentRequest,
    m.wire = ascii "POST /a?b HTTP/1.0\r\nContent-Length:\t 3 \r\n\r\n\r\n?" := by
  let length : SentHeader :=
    { name := HttpContext.contentLengthField, name_plain := by decide
      value := ascii "3", value_plain := by decide
      value_tight := by rintro b (hb | hb) <;> cases hb <;> rfl
      before := [tab, space], behind := [space], padding := by simp }
  have hannounced : Announced .POST ([] ++ length :: []) (kCRLF ++ ascii "?") :=
    .post rfl (by decide) (by decide) (by decide) (by simp)
  exact ⟨⟨.POST, ascii "/a?b", by decide, .HTTP10, by decide, _, _, hannounced⟩, rfl⟩

end Pallette
