import Pallette.Buffer
import Pallette.Http.HttpRequest
import Pallette.Numerals
import Pallette.Reasoning.Search

/-!
# HttpContext — the request parser

`parseRequest` works on the readable bytes of the input buffer: `findSubString` looks for the next
line end in them, `retrieveUntil` and `retrieve` drop them from the front.  The body of its `while`
loop is `parseIteration`; the loop gets a bound on its iterations, and `divergence` is what is left
when the bound is used up.
-/

open Reasoning

namespace Pallette

inductive StdException
  | invalidArgument
  | outOfRange
deriving DecidableEq, Repr

/-- How `parseRequest` ends other than by returning. -/
inductive Fault
  | exception (e : StdException)
  | assertion
  | divergence
deriving DecidableEq, Repr

/-- `std::stoi(text)`: what follows the digits is ignored. -/
def stoi (text : Bytes) : Except StdException Int :=
  let (negative, rest) := splitSign (text.dropWhile isspace)
  let digits := rest.takeWhile isdigit
  if digits = [] then .error .invalidArgument
  else
    let value : Int := if negative then -(decimal digits) else decimal digits
    if -2 ^ 31 ≤ value ∧ value < 2 ^ 31 then .ok value else .error .outOfRange

namespace HttpContext

inductive HttpRequestParseState
  | EXPECT_REQUEST_LINE
  | EXPECT_HEADERS
  | EXPECT_BODY
  | GOT_ALL
deriving DecidableEq, Repr

end HttpContext

structure HttpContext where
  state_ : HttpContext.HttpRequestParseState := .EXPECT_REQUEST_LINE
  request_ : HttpRequest := {}
deriving DecidableEq

namespace HttpContext

def gotAll (c : HttpContext) : Bool :=
  decide (c.state_ = .GOT_ALL)

def reset (_ : HttpContext) : HttpContext := {}

/-- The path and query `processRequestLine` takes from the request target. -/
def setTarget (r : HttpRequest) (target : Bytes) : HttpRequest :=
  let question := target.idxOf 63
  if question ≠ target.length then
    { r with path_ := target.take question, query_ := target.drop question }
  else { r with path_ := target }

/-- The last part of `processRequestLine`: the protocol version. -/
def setProtocol (r : HttpRequest) (protocol : Bytes) : Bool × HttpRequest :=
  if protocol.length = 8 ∧ protocol.take 7 = ascii "HTTP/1." then
    if protocol.drop 7 = ascii "1" then (true, { r with version_ := .HTTP11 })
    else if protocol.drop 7 = ascii "0" then (true, { r with version_ := .HTTP10 })
    else (false, r)
  else (false, r)

/-- `processRequestLine(begin, end)`: `none` when the assertion in `setMethod` fails.  A line that
is refused leaves behind what had been stored of it by then. -/
def processRequestLine (r : HttpRequest) (line : Bytes) : Option (Bool × HttpRequest) :=
  let sp := line.idxOf space
  if sp ≠ line.length then do
    let (known, r) ← r.setMethod (line.take sp)
    if known then
      let start := line.drop (sp + 1)
      let sp := start.idxOf space
      if sp ≠ start.length then
        return setProtocol (setTarget r (start.take sp)) (start.drop (sp + 1))
      else return (false, r)
    else return (false, r)
  else some (false, r)

end HttpContext

/-- The locals of `parseRequest` with the two objects it works on. -/
structure ParseState where
  context : HttpContext
  buf : Bytes
  ok : Bool := true
  hasMore : Bool := true
deriving DecidableEq

namespace HttpContext

def contentLengthField : Bytes := ascii "Content-Length"

/-- The state after the line that ends the head. -/
def afterHead (c : HttpContext) : HttpContext :=
  match c.request_.method_ with
  | .GET => { c with state_ := .GOT_ALL }
  | .POST => { c with state_ := .EXPECT_BODY }
  | _ => c

/-- The `EXPECT_REQUEST_LINE` branch of the loop. -/
def expectRequestLine (receiveTime : Timestamp) (s : ParseState) :
    Except (Fault × ParseState) ParseState :=
  match search kCRLF s.buf with
  | none => .ok { s with hasMore := false }
  | some crlf =>
      match processRequestLine s.context.request_ (s.buf.take crlf) with
      | none => .error (.assertion, s)
      | some (true, r) =>
          .ok { s with
            context := { state_ := .EXPECT_HEADERS, request_ :=
              { r with receiveTime_ := receiveTime } }
            buf := s.buf.drop (crlf + kCRLF.length)
            ok := true }
      | some (false, r) =>
          .ok { s with context := { s.context with request_ := r }, ok := false, hasMore := false }

/-- The `EXPECT_HEADERS` branch: a line without a colon ends the head. -/
def expectHeaders (s : ParseState) : ParseState :=
  match search kCRLF s.buf with
  | none => { s with hasMore := false }
  | some crlf =>
      let line := s.buf.take crlf
      let colon := line.idxOf colonByte
      let rest := s.buf.drop (crlf + kCRLF.length)
      if colon ≠ line.length then
        { s with
          context := { s.context with request_ := s.context.request_.addHeader line colon }
          buf := rest }
      else
        { s with
          context := afterHead s.context
          buf := rest
          hasMore := if s.context.request_.method_ = .GET then false else s.hasMore }

/-- The `EXPECT_BODY` branch.  A negative length becomes a `size_t` no buffer reaches. -/
def expectBody (s : ParseState) : Except (Fault × ParseState) ParseState :=
  let contentLengthStr := s.context.request_.getHeader contentLengthField
  if contentLengthStr = [] then .ok { s with hasMore := false }
  else
    match stoi contentLengthStr with
    | .error e => .error (.exception e, s)
    | .ok contentLength =>
        if 0 ≤ contentLength ∧ contentLength ≤ s.buf.length then
          let body := s.buf.take contentLength.toNat
          .ok { s with
            context :=
              { state_ := .GOT_ALL, request_ := { s.context.request_ with query_ := body } }
            buf := s.buf.drop contentLength.toNat
            hasMore := false }
        else .ok { s with hasMore := false }

/-- One iteration of the loop in `parseRequest`; none of its branches is for `GOT_ALL`. -/
def parseIteration (receiveTime : Timestamp) (s : ParseState) :
    Except (Fault × ParseState) ParseState :=
  match s.context.state_ with
  | .EXPECT_REQUEST_LINE => expectRequestLine receiveTime s
  | .EXPECT_HEADERS => .ok (expectHeaders s)
  | .EXPECT_BODY => expectBody s
  | .GOT_ALL => .ok s

/-- `while (hasMore)`, at most `fuel` times. -/
def parseLoop (receiveTime : Timestamp) : Nat → ParseState → Except (Fault × ParseState) ParseState
  | 0, s => if s.hasMore then .error (.divergence, s) else .ok s
  | fuel + 1, s =>
      if s.hasMore then (parseIteration receiveTime s).bind (parseLoop receiveTime fuel) else .ok s

/-- `parseRequest(buf, receiveTime)`, with its result in the field `ok`. -/
def parseRequest (c : HttpContext) (buf : Bytes) (receiveTime : Timestamp) :
    Except (Fault × ParseState) ParseState :=
  parseLoop receiveTime (buf.length + 1) { context := c, buf := buf }

end HttpContext

end Pallette
