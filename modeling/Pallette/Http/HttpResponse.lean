import Pallette.Basic
import Pallette.Reasoning.OrdMap

/-! The response a request handler fills in, and its bytes on the wire. -/

open Reasoning

namespace Pallette

namespace HttpResponse

inductive HttpStatusCode
  | KUNKNOWN
  | K200_OK
  | K301_MOVED_PERMANENTLY
  | K400_BAD_REQUEST
  | K404_NOT_FOUND
deriving DecidableEq, Repr

def HttpStatusCode.toNat : HttpStatusCode → Nat
  | .KUNKNOWN => 0
  | .K200_OK => 200
  | .K301_MOVED_PERMANENTLY => 301
  | .K400_BAD_REQUEST => 400
  | .K404_NOT_FOUND => 404

end HttpResponse

structure HttpResponse where
  headers_ : OrdMap Bytes Bytes := .empty
  statusCode_ : HttpResponse.HttpStatusCode := .KUNKNOWN
  statusMessage_ : Bytes := []
  closeConnection_ : Bool
  body_ : Bytes := []
deriving DecidableEq

namespace HttpResponse

def setStatusCode (r : HttpResponse) (code : HttpStatusCode) : HttpResponse :=
  { r with statusCode_ := code }

def setStatusMessage (r : HttpResponse) (message : Bytes) : HttpResponse :=
  { r with statusMessage_ := message }

def setCloseConnection (r : HttpResponse) (on : Bool) : HttpResponse :=
  { r with closeConnection_ := on }

def addHeader (r : HttpResponse) (key value : Bytes) : HttpResponse :=
  { r with headers_ := r.headers_.insert key value }

def setContentType (r : HttpResponse) (contentType : Bytes) : HttpResponse :=
  r.addHeader (ascii "Content-Type") contentType

def setBody (r : HttpResponse) (body : Bytes) : HttpResponse :=
  { r with body_ := body }

/-- What `snprintf` leaves in the 32 bytes of `buf`, without the closing zero. -/
def snprintf32 (text : Bytes) : Bytes :=
  text.take 31

/-- `appendToBuffer(output)`: the bytes it appends. -/
def appendToBuffer (r : HttpResponse) : Bytes :=
  snprintf32 (ascii "HTTP/1.1 " ++ ascii (Nat.repr r.statusCode_.toNat)) ++ r.statusMessage_ ++
    kCRLF ++
    (if r.closeConnection_ then ascii "Connection: close" ++ kCRLF
     else
      snprintf32 (ascii "Content-Length: " ++ ascii (Nat.repr r.body_.length) ++ kCRLF) ++
        ascii "Connection: Keep-Alive" ++ kCRLF) ++
    (r.headers_.entries.map fun headValue ↦
      headValue.1 ++ ascii ": " ++ headValue.2 ++ kCRLF).flatten ++
    kCRLF ++ r.body_

end HttpResponse

end Pallette
