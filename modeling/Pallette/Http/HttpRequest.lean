import Mathlib.Data.List.DropRight
import Pallette.Basic
import Pallette.Numerals
import Pallette.Reasoning.OrdMap

/-! The request an HTTP connection is receiving, as `HttpRequest.h` keeps it. -/

open Reasoning

namespace Pallette

namespace HttpRequest

inductive Method
  | INVALID | GET | POST | HEAD | PUT | DELETE
deriving DecidableEq, Repr

inductive Version
  | UNKONOWN | HTTP10 | HTTP11
deriving DecidableEq, Repr

end HttpRequest

structure HttpRequest where
  method_ : HttpRequest.Method := .INVALID
  version_ : HttpRequest.Version := .UNKONOWN
  path_ : Bytes := []
  query_ : Bytes := []
  receiveTime_ : Timestamp := .invalid
  headers_ : OrdMap Bytes Bytes := .empty
deriving DecidableEq

namespace HttpRequest

/-- The method `setMethod` compares the text of the request line with. -/
def methodOf (m : Bytes) : Method :=
  if m = ascii "GET" then .GET
  else if m = ascii "POST" then .POST
  else if m = ascii "HEAD" then .HEAD
  else if m = ascii "PUT" then .PUT
  else if m = ascii "DELETE" then .DELETE
  else .INVALID

/-- `setMethod`: `none` when its assertion fails, else its result and the request afterwards. -/
def setMethod (r : HttpRequest) (m : Bytes) : Option (Bool × HttpRequest) :=
  if r.method_ = .INVALID then
    some (decide (methodOf m ≠ .INVALID), { r with method_ := methodOf m })
  else none

def methodString : Method → Bytes
  | .GET => ascii "GET"
  | .POST => ascii "POST"
  | .HEAD => ascii "HEAD"
  | .PUT => ascii "PUT"
  | .DELETE => ascii "DELETE"
  | .INVALID => ascii "UNKNOWN"

theorem methodOf_methodString {m : Method} (h : m ≠ .INVALID) : methodOf (methodString m) = m := by
  cases m <;> first | exact absurd rfl h | decide

/-- The value `addHeader` cuts out behind the colon: without the white space at either end. -/
def trimmed (value : Bytes) : Bytes :=
  (value.dropWhile isspace).rdropWhile isspace

/-- `addHeader(start, colon, end)`: `line` is the header line, `colon` the offset of its first
colon. -/
def addHeader (r : HttpRequest) (line : Bytes) (colon : Nat) : HttpRequest :=
  { r with headers_ := r.headers_.insert (line.take colon) (trimmed (line.drop (colon + 1))) }

/-- `getHeader(field)`: the empty string when there is none. -/
def getHeader (r : HttpRequest) (field : Bytes) : Bytes :=
  (r.headers_.find? field).getD []

end HttpRequest

end Pallette
