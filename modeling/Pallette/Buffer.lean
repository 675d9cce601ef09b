import Pallette.Basic
import Pallette.Reasoning.Window

/-!
# Buffer — the byte buffer of a connection

`Buffer` as the source lays it out: one vector with the bytes to read between `readIndex_` and
`writeIndex_`.  A call leaves the buffer by a failure when an assertion fails, when it would copy
outside the vector, or when the vector refuses to grow past `max_size()`.
-/

open Reasoning

namespace Pallette

structure Buffer where
  buffer_ : Bytes
  readIndex_ : Nat
  writeIndex_ : Nat
deriving DecidableEq

namespace Buffer

inductive Failure
  | assertion
  | outOfBounds
  | lengthError
deriving DecidableEq, Repr

def kPrePrePend : Nat := 8

/-- `std::vector<char>::max_size()` -/
def maxSize : Nat := 2 ^ 63 - 1

/-- `sizeof(extraBuf)` in `readFd` -/
def extraBufSize : Nat := 65536

/-- `buffer_.resize(n)` -/
def resize (v : Bytes) (n : Nat) : Except Failure Bytes :=
  if n ≤ maxSize then .ok (v.take n ++ List.replicate (n - v.length) 0) else .error .lengthError

/-- `std::copy` of `xs` into the vector at `i`. -/
def copyInto (v : Bytes) (i : Nat) (xs : Bytes) : Except Failure Bytes :=
  if i + xs.length ≤ v.length then .ok (overwrite v i xs) else .error .outOfBounds

/-- `Buffer(initialSize)` -/
def new (initialSize : Nat) : Except Failure Buffer := do
  let v ← resize [] (sizeT (kPrePrePend + initialSize))
  return ⟨v, kPrePrePend, kPrePrePend⟩

/-- `b.swap(rhs)`: the two objects afterwards. -/
def swap (b rhs : Buffer) : Buffer × Buffer := (rhs, b)

section

variable (b : Buffer)

def readableBytes : Nat := b.writeIndex_ - b.readIndex_

/-- A difference of `size_t`, which wraps where the vector ends below the bytes to read. -/
def writableBytes : Nat :=
  if b.writeIndex_ ≤ b.buffer_.length then b.buffer_.length - b.writeIndex_
  else b.buffer_.length + 2 ^ 64 - b.writeIndex_

def prependableBytes : Nat := b.readIndex_

/-- The readable bytes, from `peek()` to `beginWrite()`. -/
def content : Bytes := window b.buffer_ b.readIndex_ b.readableBytes

def retrieveAll : Buffer :=
  { b with readIndex_ := kPrePrePend, writeIndex_ := kPrePrePend }

def retrieve (len : Nat) : Except Failure Buffer :=
  if b.readableBytes < len then .error .assertion
  else if len < b.readableBytes then .ok { b with readIndex_ := b.readIndex_ + len }
  else .ok b.retrieveAll

/-- `retrieveUntil(end)`; `stop` is `end - peek()`. -/
def retrieveUntil (stop : Int) : Except Failure Buffer :=
  if 0 < stop ∧ stop ≤ b.readableBytes then b.retrieve stop.toNat else .error .assertion

def retrieveAsString (len : Nat) : Except Failure (Bytes × Buffer) := do
  if b.readableBytes < len then throw .assertion
  let c ← b.retrieve len
  return (window b.buffer_ b.readIndex_ len, c)

def retrieveAllAsString : Except Failure (Bytes × Buffer) :=
  b.retrieveAsString b.readableBytes

/-- The move to the front both branches of `makeSpace` begin with. -/
def compact : Except Failure Buffer := do
  if ¬ kPrePrePend ≤ b.readIndex_ then throw .assertion
  -- the bytes to read lie outside the vector where it ends below `writeIndex_`
  if b.content.length < b.readableBytes then throw .outOfBounds
  let v ← copyInto b.buffer_ kPrePrePend b.content
  return ⟨v, kPrePrePend, kPrePrePend + b.readableBytes⟩

def makeSpace (len : Nat) : Except Failure Buffer := do
  if sizeT (b.writableBytes + b.prependableBytes) < sizeT (len + kPrePrePend) then
    let c ← b.compact
    let v ← resize c.buffer_ (sizeT (c.writeIndex_ + len))
    return { c with buffer_ := v }
  else
    b.compact

def ensureWritableBytes (len : Nat) : Except Failure Buffer :=
  if b.writableBytes < len then b.makeSpace len else .ok b

def hasWritten (len : Nat) : Buffer :=
  { b with writeIndex_ := b.writeIndex_ + len }

/-- What a caller does who writes `data` at `beginWrite()` and then calls `hasWritten`. -/
def write (data : Bytes) : Except Failure Buffer := do
  let v ← copyInto b.buffer_ b.writeIndex_ data
  return { b with buffer_ := v }.hasWritten data.length

/-- `append(data, len)`; `data` is the `len` bytes to copy. -/
def append (data : Bytes) : Except Failure Buffer := do
  let c ← b.ensureWritableBytes data.length
  let v ← copyInto c.buffer_ c.writeIndex_ data
  return { c with buffer_ := v }.hasWritten data.length

def prepend (data : Bytes) : Except Failure Buffer := do
  if b.readIndex_ < data.length then throw .outOfBounds
  let v ← copyInto b.buffer_ (b.readIndex_ - data.length) data
  return { b with buffer_ := v, readIndex_ := b.readIndex_ - data.length }

/-- The bytes one `readv` of `readFd` fetches of what the socket holds: the stack buffer behind the
free end of the vector is offered only when that end is short. -/
def received (avail : Bytes) : Bytes :=
  avail.take (if b.writableBytes < extraBufSize then b.writableBytes + extraBufSize
    else b.writableBytes)

/-- `readFd`: `avail` is what the socket holds, `none` a failing `readv`.  The kernel fills the free
end of the vector first. -/
def readFd (avail : Option Bytes) : Except Failure (Int × Buffer) :=
  match avail with
  | none => .ok (-1, b)
  | some bytes => do
      let got := b.received bytes
      let v ← copyInto b.buffer_ b.writeIndex_ (got.take b.writableBytes)
      if got.length ≤ b.writableBytes then
        return (got.length, { b with buffer_ := v, writeIndex_ := b.writeIndex_ + got.length })
      else
        let c ← append { b with buffer_ := v, writeIndex_ := v.length } (got.drop b.writableBytes)
        return (got.length, c)

end

/-- The bytes of `hostToNetworkN(x)` in memory: `n` bytes, the most significant first. -/
def hostToNetwork (n : Nat) (x : BitVec (8 * n)) : Bytes :=
  (List.range n).map fun i ↦ UInt8.ofNat (x.toNat / 2 ^ (8 * (n - 1 - i)))

/-- The number that `networkToHostN` makes of `n` bytes in memory. -/
def networkToHost (n : Nat) (bytes : Bytes) : BitVec (8 * n) :=
  BitVec.ofNat (8 * n) (bytes.foldl (fun value byte ↦ 256 * value + byte.toNat) 0)

@[simp] theorem length_hostToNetwork (n : Nat) (x : BitVec (8 * n)) :
    (hostToNetwork n x).length = n := by
  simp [hostToNetwork]

section

variable (b : Buffer)

def appendInt64 (x : BitVec 64) : Except Failure Buffer := b.append (hostToNetwork 8 x)
def appendInt32 (x : BitVec 32) : Except Failure Buffer := b.append (hostToNetwork 4 x)
def appendInt16 (x : BitVec 16) : Except Failure Buffer := b.append (hostToNetwork 2 x)
def appendInt8 (x : BitVec 8) : Except Failure Buffer := b.append (hostToNetwork 1 x)

/-- `peekIntN()`, which does not ask how many bytes are readable. -/
def peekInt (n : Nat) : Except Failure (BitVec (8 * n)) :=
  if b.readIndex_ + n ≤ b.buffer_.length
    then .ok (networkToHost n (window b.buffer_ b.readIndex_ n))
  else .error .outOfBounds

def peekInt64 : Except Failure (BitVec 64) := b.peekInt 8
def peekInt32 : Except Failure (BitVec 32) := b.peekInt 4
def peekInt16 : Except Failure (BitVec 16) := b.peekInt 2
def peekInt8 : Except Failure (BitVec 8) := b.peekInt 1

/-- `readIntN()`, with what `peekIntN()` has returned. -/
def readInt {n : Nat} (peeked : Except Failure (BitVec (8 * n))) :
    Except Failure (BitVec (8 * n) × Buffer) := do
  let result ← peeked
  let c ← b.retrieve n
  return (result, c)

def readInt64 : Except Failure (BitVec 64 × Buffer) := b.readInt (n := 8) b.peekInt64
def readInt32 : Except Failure (BitVec 32 × Buffer) := b.readInt (n := 4) b.peekInt32
def readInt16 : Except Failure (BitVec 16 × Buffer) := b.readInt (n := 2) b.peekInt16
def readInt8 : Except Failure (BitVec 8 × Buffer) := b.readInt (n := 1) b.peekInt8

def prependInt64 (x : BitVec 64) : Except Failure Buffer := b.prepend (hostToNetwork 8 x)
def prependInt32 (x : BitVec 32) : Except Failure Buffer := b.prepend (hostToNetwork 4 x)
def prependInt16 (x : BitVec 16) : Except Failure Buffer := b.prepend (hostToNetwork 2 x)
def prependInt8 (x : BitVec 8) : Except Failure Buffer := b.prepend (hostToNetwork 1 x)

end

end Buffer

end Pallette
