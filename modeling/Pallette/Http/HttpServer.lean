import Pallette.Http.HttpContext
import Pallette.Http.HttpResponse

/-!
# HttpServer — the handlers of one connection

`TcpConnection::handleRead` appends what it reads to the input buffer and calls `onMessage`, which
parses, answers, and leaves the rest for the next call.  The user's callback is a parameter.
-/

namespace Pallette

/-- What the handlers ask of the connection. -/
inductive ConnCall
  | send (message : Bytes)
  | shutdown
deriving DecidableEq, Repr

/-- One connection as the server sees it, with the requests passed to `onRequest` so far. -/
structure HttpConnection where
  context : HttpContext := {}
  inputBuffer_ : Bytes := []
  requests : List HttpRequest := []
  calls : List ConnCall := []
deriving DecidableEq

namespace HttpServer

abbrev HttpCallback := HttpRequest → HttpResponse → HttpResponse

def defaultHttpCallback : HttpCallback := fun _ resp ↦
  ((resp.setStatusCode .K404_NOT_FOUND).setStatusMessage
    (ascii "Not Found")).setCloseConnection true

/-- The `close` flag `onRequest` hands to the response. -/
def closes (req : HttpRequest) : Bool :=
  let connection := req.getHeader (ascii "Connection")
  connection = ascii "close" || (req.version_ = .HTTP10 && connection ≠ ascii "Keep-Alive")

def onRequest (httpCallback_ : HttpCallback) (conn : HttpConnection) (req : HttpRequest) :
    HttpConnection :=
  let response := httpCallback_ req { closeConnection_ := closes req }
  let answer : List ConnCall :=
    if response.closeConnection_ then [.send response.appendToBuffer, .shutdown]
    else [.send response.appendToBuffer]
  { conn with requests := conn.requests ++ [req], calls := conn.calls ++ answer }

/-- What `onMessage` does when `parseRequest` returns `false`. -/
def refuse (conn : HttpConnection) : HttpConnection :=
  { conn with calls := conn.calls ++
      [.send (ascii "HTTP/1.1 400 Bad Request" ++ kCRLF ++ kCRLF), .shutdown] }

def onMessage (httpCallback_ : HttpCallback) (conn : HttpConnection) (receiveTime : Timestamp) :
    Except Fault HttpConnection :=
  match conn.context.parseRequest conn.inputBuffer_ receiveTime with
  | .error (f, _) => .error f
  | .ok s =>
      let conn := { conn with context := s.context, inputBuffer_ := s.buf }
      let conn := if s.ok then conn else refuse conn
      if conn.context.gotAll then
        let conn := onRequest httpCallback_ conn conn.context.request_
        .ok { conn with context := conn.context.reset }
      else .ok conn

/-- `TcpConnection::handleRead` after a read of `chunk`. -/
def handleRead (httpCallback_ : HttpCallback) (conn : HttpConnection) (chunk : Bytes)
    (receiveTime : Timestamp) : Except Fault HttpConnection :=
  onMessage httpCallback_ { conn with inputBuffer_ := conn.inputBuffer_ ++ chunk } receiveTime

/-- The chunks of a stream, delivered one after the other. -/
def serve (httpCallback_ : HttpCallback) (conn : HttpConnection) :
    List (Bytes × Timestamp) → Except Fault HttpConnection
  | [] => .ok conn
  | (chunk, receiveTime) :: chunks =>
      match handleRead httpCallback_ conn chunk receiveTime with
      | .error f => .error f
      | .ok conn => serve httpCallback_ conn chunks

variable (httpCallback_ : HttpCallback) (conn : HttpConnection) {chunk : Bytes}
  {receiveTime : Timestamp} {s : ParseState}

theorem handleRead_gotAll
    (h : conn.context.parseRequest (conn.inputBuffer_ ++ chunk) receiveTime = .ok s)
    (hok : s.ok = true) (hgot : s.context.gotAll = true) :
    ∃ conn', handleRead httpCallback_ conn chunk receiveTime = .ok conn' ∧ conn'.context = {} ∧
      conn'.inputBuffer_ = s.buf ∧ conn'.requests = conn.requests ++ [s.context.request_] := by
  simp only [handleRead, onMessage, h, hok, hgot, if_true]
  exact ⟨_, rfl, rfl, rfl, rfl⟩

theorem handleRead_waiting
    (h : conn.context.parseRequest (conn.inputBuffer_ ++ chunk) receiveTime = .ok s)
    (hok : s.ok = true) (hgot : s.context.gotAll = false) :
    handleRead httpCallback_ conn chunk receiveTime =
      .ok { conn with context := s.context, inputBuffer_ := s.buf } := by
  simp only [handleRead, onMessage, h, hok, hgot, if_true, Bool.false_eq_true, if_false]

/-- A fault in a read is a fault in the call of the parser. -/
theorem handleRead_error {f : Fault}
    (h : handleRead httpCallback_ conn chunk receiveTime = .error f) :
    ∃ s, conn.context.parseRequest (conn.inputBuffer_ ++ chunk) receiveTime = .error (f, s) := by
  unfold handleRead onMessage at h
  split at h
  next s hcall =>
    cases h
    exact ⟨s, hcall⟩
  next => split at h <;> dsimp only at h <;> split at h <;> cases h

end HttpServer

end Pallette
