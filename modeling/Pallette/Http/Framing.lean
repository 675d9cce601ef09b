import Mathlib.Data.List.Infix
import Pallette.Http.HttpServer
import Pallette.Http.Message

/-!
# Framing — which requests get an answer, and where they end

`HttpMessage` is a whole request, its body as long as its head announces.  `answered_iff` says for
which of them the parser comes to an end; `consumed_framed_iff` says when the bytes it has taken by
then are those of such a message and not more or fewer.
-/

open Reasoning

namespace Pallette

def isDecimal (v : Bytes) : Bool :=
  v ≠ [] && v.all isdigit

/-- The length of the body behind the head, when the head is clear about it. -/
def RequestHead.contentLength (head : RequestHead) : Option Nat :=
  match head.announced with
  | none => some 0
  | some v => if isDecimal v then some (decimal v) else none

/-- A request with its body; without a decimal `Content-Length` it has none. -/
structure HttpMessage where
  head : RequestHead
  body : Bytes
  body_length : body.length = head.contentLength.getD 0

def HttpMessage.wire (m : HttpMessage) : Bytes :=
  m.head.wire ++ m.body

/-! ## Reading the length -/

theorem isDecimal_iff {v : Bytes} : isDecimal v = true ↔ v ≠ [] ∧ ∀ b ∈ v, isdigit b = true := by
  simp [isDecimal]

theorem not_isspace_of_isdigit {b : UInt8} (h : isdigit b = true) :
    isspace b = false ∧ b ≠ 45 ∧ b ≠ 43 := by
  simp only [isdigit, isspace, Bool.and_eq_true, decide_eq_true_eq, Bool.or_eq_false_iff,
    Bool.and_eq_false_iff, decide_eq_false_iff_not, beq_eq_false_iff_ne] at h ⊢
  rcases h with ⟨hlo, hhi⟩
  have hlo' : 48 ≤ b.toNat := UInt8.le_iff_toNat_le.mp hlo
  have hne : ∀ k : UInt8, k.toNat < 48 → b ≠ k := by
    rintro k hk rfl
    omega
  refine ⟨⟨hne 32 (by decide), .inr ?_⟩, hne 45 (by decide), hne 43 (by decide)⟩
  rw [UInt8.le_iff_toNat_le]
  show ¬ b.toNat ≤ 13
  omega

theorem splitSign_of_isdigit {b : UInt8} (rest : Bytes) (h : isdigit b = true) :
    splitSign (b :: rest) = (false, b :: rest) := by
  rcases not_isspace_of_isdigit h with ⟨_, hminus, hplus⟩
  unfold splitSign
  split
  next heq => exact absurd (List.cons.inj heq).1 hminus
  next heq => exact absurd (List.cons.inj heq).1 hplus
  next => rfl

/-- `std::stoi` reads a decimal number as what it is, up to the range of `int`. -/
theorem stoi_of_isDecimal {v : Bytes} (h : isDecimal v = true) :
    stoi v = if decimal v < 2 ^ 31 then .ok (decimal v) else .error .outOfRange := by
  rcases isDecimal_iff.mp h with ⟨hne, hall⟩
  cases v with
  | nil => exact absurd rfl hne
  | cons b rest =>
    have hb : isdigit b = true := hall b (by simp)
    have hspace : isspace b = false := (not_isspace_of_isdigit hb).1
    have hdigits : (b :: rest).takeWhile isdigit = b :: rest :=
      List.takeWhile_eq_self_iff.mpr hall
    simp only [stoi, List.dropWhile_cons, hspace, Bool.false_eq_true, if_false,
      splitSign_of_isdigit rest hb, hdigits, reduceCtorEq]
    have hlow : -2 ^ 31 ≤ (decimal (b :: rest) : Int) := by omega
    by_cases hsmall : decimal (b :: rest) < 2 ^ 31
    · rw [if_pos hsmall, if_pos ⟨hlow, by omega⟩]
    · rw [if_neg hsmall, if_neg (by omega)]

theorem stoi_nil : stoi [] = .error .invalidArgument := rfl

namespace HttpContext

variable {head : RequestHead} {last buf rest tail : Bytes} {c c' : HttpContext} {e : ParseEnd}

/-- Behind its head, the parser halts in a request only for `GET` or in the body of a `POST`. -/
theorem head_halted_cases (h : parser.Consumes {} (head.wireEnding last ++ tail)
    (.halted c' rest e))
    (hcolon : colonByte ∉ last) (hlast : ¬ kCRLF <:+: last) :
    (head.method = .GET ∧ e = .gotAll ∧ rest = tail ∧ c' = ⟨.GOT_ALL, head.received⟩) ∨
      (head.method = .POST ∧
        parser.Consumes ⟨.EXPECT_BODY, head.received⟩ tail (.halted c' rest e)) := by
  by_cases hget : head.method = .GET
  · have hend := (consumes_get_iff hget hcolon hlast).mp h
    cases hend
    exact .inl ⟨hget, rfl, rfl, rfl⟩
  · by_cases hpost : head.method = .POST
    · exact .inr ⟨hpost, (consumes_post_iff hpost hcolon hlast).mp h⟩
    · rcases headers_halted_cases (consumes_head_iff head last tail |>.mp h) rfl with
        ⟨_, _, _, _, _, _, ⟨hmethod, _⟩ | ⟨hmethod, _⟩⟩
      · exact absurd hmethod hget
      · exact absurd hmethod hpost

/-- The body is there: the parser takes it and is done. -/
theorem consumes_body {r : HttpRequest} {n : Nat}
    (hstoi : stoi (r.getHeader contentLengthField) = .ok n) (hle : n ≤ buf.length) :
    parser.Consumes ⟨.EXPECT_BODY, r⟩ buf
      (.halted ⟨.GOT_ALL, { r with query_ := buf.take n }⟩ (buf.drop n) .gotAll) := by
  have hne : r.getHeader contentLengthField ≠ [] := by
    intro hnil
    rw [hnil, stoi_nil] at hstoi
    cases hstoi
  apply Consumer.Consumes.halt
  show bodyStep ⟨.EXPECT_BODY, r⟩ buf = _
  have hfits : 0 ≤ (n : Int) ∧ (n : Int) ≤ buf.length := by omega
  simp only [bodyStep, if_neg hne, hstoi, if_pos hfits, Int.toNat_natCast]

/-! ## Which requests are answered -/

/-- The message is parsed to its end, and the server answers it. -/
def Answered (httpCallback : HttpServer.HttpCallback) (m : HttpMessage) (now : Timestamp) : Prop :=
  ∃ s conn, parseRequest {} m.wire now = .ok s ∧ s.ok = true ∧ s.context.gotAll = true ∧
    HttpServer.handleRead httpCallback {} m.wire now = .ok conn ∧
    conn.requests = [s.context.request_]

theorem answered_of_consumes (httpCallback : HttpServer.HttpCallback) {m : HttpMessage}
    (now : Timestamp) (h : parser.Consumes {} m.wire (.halted c' rest .gotAll)) :
    Answered httpCallback m now := by
  rcases parseRequest_gotAll (c := {}) now h (by simp) with ⟨s, hcall, hok, hgot, _⟩
  rcases HttpServer.handleRead_gotAll httpCallback {} hcall hok hgot with
    ⟨conn, hread, _, _, hrequests⟩
  exact ⟨s, conn, hcall, hok, hgot, hread, hrequests⟩

/-- **Who gets an answer.**  Of all well-formed requests the parser finishes the `GET` requests, and
the `POST` requests whose announced length `std::stoi` can read and the body reaches. -/
theorem answered_iff (httpCallback : HttpServer.HttpCallback) (m : HttpMessage) (now : Timestamp) :
    Answered httpCallback m now ↔
      m.head.method = .GET ∨
        (m.head.method = .POST ∧
          ∃ k : Nat, stoi (m.head.announced.getD []) = .ok k ∧ k ≤ m.body.length) := by
  have hcolon : colonByte ∉ ([] : Bytes) := List.not_mem_nil
  have hlast : ¬ kCRLF <:+: ([] : Bytes) := by decide
  constructor
  · rintro ⟨s, _, hcall, _, hgot, _⟩
    have hend := consumes_of_gotAll (c := {}) (by simp) hcall hgot
    -- only `GET` is finished at the empty line, and only `POST` goes on to a body
    rcases head_halted_cases hend hcolon hlast with ⟨hget, _⟩ | ⟨hpost, hbody⟩
    · exact .inl hget
    · rcases body_halted_cases hbody with ⟨_, ⟨k, _, hstoi, hle, _⟩ | ⟨_, he, _⟩⟩
      · rw [received_contentLength] at hstoi
        exact .inr ⟨hpost, k, hstoi, hle⟩
      · cases he
  · rintro (hget | ⟨hpost, k, hstoi, hle⟩)
    · exact answered_of_consumes httpCallback now ((consumes_get_iff hget hcolon hlast).mpr rfl)
    · rw [← received_contentLength] at hstoi
      exact answered_of_consumes httpCallback now
        ((consumes_post_iff hpost hcolon hlast).mpr (consumes_body hstoi hle))

/-- `HEAD / HTTP/1.1` without headers. -/
def headRequest : HttpMessage where
  head := .root .HEAD (by decide)
  body := []
  body_length := rfl

/-- It is well formed and complete, and the parser keeps waiting. -/
theorem headRequest_not_answered :
    ¬ ∀ (httpCallback : HttpServer.HttpCallback) (m : HttpMessage) (now : Timestamp),
        Answered httpCallback m now := by
  intro h
  rcases h HttpServer.defaultHttpCallback headRequest .invalid with ⟨s, _, hcall, _, hgot, _⟩
  have hresult : (parseRequest {} headRequest.wire .invalid).toOption.map (·.context.gotAll) =
      some false := by decide
  rw [hcall] at hresult
  have hwaits : s.context.gotAll = false := Option.some.inj hresult
  rw [hgot] at hwaits
  cases hwaits

/-! ## Where a request ends -/

/-- The bytes of one well-formed head and of a body exactly as long as it announces. -/
def Framed (consumed : Bytes) : Prop :=
  ∃ (head : RequestHead) (body : Bytes),
    consumed = head.wire ++ body ∧ head.contentLength = some body.length

/-- The input starts with a head that an empty line ends and that is clear about the length of the
body; for `GET` that length is zero. -/
def Delimited (buf : Bytes) : Prop :=
  ∃ (head : RequestHead) (n : Nat) (tail : Bytes),
    buf = head.wire ++ tail ∧ head.contentLength = some n ∧ (head.method = .GET → n = 0)

theorem contentLength_of_stoi {n k : Nat} (h : head.contentLength = some n)
    (hstoi : stoi (head.announced.getD []) = .ok k) : n = k := by
  unfold RequestHead.contentLength at h
  split at h
  next hnone =>
    -- nothing is announced, and `std::stoi` throws at the empty string
    rw [hnone, Option.getD_none, stoi_nil] at hstoi
    cases hstoi
  next v hv =>
    split at h
    next hdecimal =>
      rw [hv, Option.getD_some, stoi_of_isDecimal hdecimal] at hstoi
      split at hstoi
      next =>
        have hk : ((decimal v : Nat) : Int) = k := Except.ok.inj hstoi
        rw [Option.some.injEq] at h
        omega
      next => cases hstoi
    next => cases h

/-- **Where the parser stops.**  The bytes it has taken when it has the whole request are those of
one well-formed message exactly if the input is delimited. -/
theorem consumed_framed_iff {now : Timestamp} {s : ParseState}
    (h : parseRequest {} buf now = .ok s) (hgot : s.context.gotAll = true) :
    ∃ consumed, buf = consumed ++ s.buf ∧ (Framed consumed ↔ Delimited buf) := by
  have hcolon : colonByte ∉ ([] : Bytes) := List.not_mem_nil
  have hlast : ¬ kCRLF <:+: ([] : Bytes) := by decide
  have hend := consumes_of_gotAll (c := {}) (by simp) h hgot
  rcases hend.halted_suffix with ⟨consumed, rfl⟩
  refine ⟨consumed, rfl, ?_, ?_⟩
  · rintro ⟨head, body, rfl, hlength⟩
    refine ⟨head, body.length, body ++ s.buf, by rw [List.append_assoc], hlength, fun hget ↦ ?_⟩
    rw [List.append_assoc] at hend
    have hhalt := (consumes_get_iff hget hcolon hlast).mp hend
    have hrest : s.buf = body ++ s.buf := by injection hhalt
    have hlen := congrArg List.length hrest
    rw [List.length_append] at hlen
    omega
  · rintro ⟨head, n, tail, hsplit, hlength, hzero⟩
    rw [hsplit] at hend
    rcases head_halted_cases hend hcolon hlast with ⟨hget, _, htail, _⟩ | ⟨_, hbody⟩
    · rw [← htail] at hsplit
      refine ⟨head, [], ?_, by rw [hlength, hzero hget]; rfl⟩
      rw [List.append_nil]
      exact List.append_cancel_right hsplit
    · rcases body_halted_cases hbody with ⟨_, ⟨k, _, hstoi, hle, _, hrest⟩ | ⟨_, he, _⟩⟩
      · rw [received_contentLength] at hstoi
        have hn := contentLength_of_stoi hlength hstoi
        refine ⟨head, tail.take k, ?_, ?_⟩
        · apply (List.append_left_inj s.buf).mp
          rw [hsplit, hrest, List.append_assoc, List.take_append_drop]
        · rw [hlength, hn, List.length_take, Nat.min_eq_left hle]
      · cases he

theorem consumed_framed_iff_get :
    ∃ consumed, ascii "GET / HTTP/1.1" ++ kCRLF ++ kCRLF = consumed ++ [] ∧
      (Framed consumed ↔ Delimited (ascii "GET / HTTP/1.1" ++ kCRLF ++ kCRLF)) :=
  consumed_framed_iff
    (show parseRequest {} (ascii "GET / HTTP/1.1" ++ kCRLF ++ kCRLF) .invalid =
      .ok ⟨⟨.GOT_ALL, { method_ := .GET, version_ := .HTTP11, path_ := ascii "/" }⟩, [],
      true, false⟩
      by decide) rfl

/-- A well-formed head ends in two line ends. -/
theorem headersWire_ending (hs : List HeaderLine) :
    ∃ front, kCRLF ++ headersWire hs = front ++ kCRLF := by
  rcases List.eq_nil_or_concat hs with rfl | ⟨hs, h, rfl⟩
  · exact ⟨[], rfl⟩
  · refine ⟨kCRLF ++ headersWire hs ++ h.line, ?_⟩
    simp [headersWire, HeaderLine.wire]

theorem Framed.blank_line {consumed : Bytes} (h : Framed consumed) :
    kCRLF ++ kCRLF <:+: consumed := by
  rcases h with ⟨head, body, rfl, _⟩
  rcases headersWire_ending head.headers with ⟨front, hfront⟩
  refine ⟨head.requestLine ++ front, body, ?_⟩
  have hwire : head.wire = head.requestLine ++ (kCRLF ++ headersWire head.headers) ++ kCRLF := by
    simp [RequestHead.wire, RequestHead.wireEnding]
  rw [hwire, hfront]
  simp

/-- A request line and a line without a colon: the parser takes them for a whole request. -/
theorem bad_header_ends_head :
    ¬ ∀ (buf : Bytes) (now : Timestamp) (s : ParseState), parseRequest {} buf now = .ok s →
        s.context.gotAll = true → ∃ consumed, buf = consumed ++ s.buf ∧ Framed consumed := by
  intro h
  have hall := h (ascii "GET / HTTP/1.1" ++ kCRLF ++ ascii "Host" ++ kCRLF) .invalid
    ⟨⟨.GOT_ALL, { method_ := .GET, version_ := .HTTP11, path_ := ascii "/" }⟩, [], true, false⟩
    (by decide) rfl
  rcases hall with ⟨consumed, hsplit, hframed⟩
  rw [List.append_nil] at hsplit
  have hblank := hframed.blank_line
  rw [← hsplit] at hblank
  revert hblank
  decide

end HttpContext

end Pallette
