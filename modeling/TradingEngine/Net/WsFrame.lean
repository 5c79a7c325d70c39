import TradingEngine.Base.Bytes
import TradingEngine.Net.ChunkedFraming

/-!
# WebSocket frames

The reader of one frame, the mask, and the writer of client frames.
-/

namespace TradingEngine.Net

open Base (bigEndian bigEndianBytes)

inductive WsOpcode where
  | continuation
  | text
  | binary
  | close
  | ping
  | pong
  deriving DecidableEq, Repr

namespace WsOpcode

def code : WsOpcode → Byte
  | continuation => 0x0
  | text => 0x1
  | binary => 0x2
  | close => 0x8
  | ping => 0x9
  | pong => 0xa

def isControl (opcode : WsOpcode) : Bool := opcode.code &&& 0x08 ≠ 0

def fromNibble (n : Byte) : Option WsOpcode :=
  if n = 0x0 then some continuation
  else if n = 0x1 then some text
  else if n = 0x2 then some binary
  else if n = 0x8 then some close
  else if n = 0x9 then some ping
  else if n = 0xa then some pong
  else none

end WsOpcode

structure PayloadSpan where
  start : Nat
  stop : Nat
  deriving DecidableEq, Repr

structure WsFrameHeader where
  fin : Bool
  opcode : WsOpcode
  masked : Bool
  payloadLen : Nat
  headerLen : Nat
  mask : List Byte
  deriving DecidableEq, Repr

inductive WsReadResult where
  | incomplete
  | frame (header : WsFrameHeader) (payload : PayloadSpan)
  | malformed
  deriving DecidableEq, Repr

/-- The length of the payload and where the length field ends, or the answer that ends the reading. -/
def payloadLength (buf : List Byte) (lenCode : Byte) : Except WsReadResult (Nat × Nat) :=
  if lenCode ≤ 125 then .ok (lenCode.toNat, 2)
  else if lenCode = 126 then
    if buf.length < 4 then .error .incomplete
    -- a length of 125 or less in the wide form is accepted
    else .ok (bigEndian (slice buf 2 4), 4)
  else if buf.length < 10 then .error .incomplete
  else if buf.getD 2 0 &&& 0x80 ≠ 0 then .error .malformed
  else .ok (bigEndian (slice buf 2 10), 10)

def noMask : List Byte := [0, 0, 0, 0]

/-- From the end of the length field on: the mask and the payload. -/
def readPayload (buf : List Byte) (fin : Bool) (opcode : WsOpcode) (masked : Bool) (payloadLen cursor : Nat) :
    WsReadResult :=
  if opcode.isControl && 125 < payloadLen then .malformed
  else if masked && buf.length < cursor + 4 then .incomplete
  else
    let mask := if masked then slice buf cursor (cursor + 4) else noMask
    let cursor := if masked then cursor + 4 else cursor
    if 2 ^ 64 ≤ cursor + payloadLen then .malformed
    else if buf.length < cursor + payloadLen then .incomplete
    else .frame ⟨fin, opcode, masked, payloadLen, cursor, mask⟩ ⟨cursor, cursor + payloadLen⟩

def wsReadFrame (buf : List Byte) : WsReadResult :=
  if buf.length < 2 then .incomplete
  else
    let b0 := buf.getD 0 0
    let b1 := buf.getD 1 0
    let fin : Bool := b0 &&& 0x80 ≠ 0
    if b0 &&& 0x70 ≠ 0 then .malformed
    else match WsOpcode.fromNibble (b0 &&& 0x0f) with
      | none => .malformed
      | some opcode =>
        if opcode.isControl && !fin then .malformed
        else match payloadLength buf (b1 &&& 0x7f) with
          | .error answer => answer
          | .ok (payloadLen, cursor) => readPayload buf fin opcode (b1 &&& 0x80 ≠ 0) payloadLen cursor

/-- The eight bytes at `i`, taken as one word, against the mask written twice. -/
def unmaskStride (mask : List Byte) (buf : List Byte) (i : Nat) : List Byte :=
  buf.mapIdx fun j b => if i ≤ j ∧ j < i + 8 then b ^^^ (mask ++ mask).getD (j - i) 0 else b

/-- The first `k` strides. -/
def unmaskStrides (mask buf : List Byte) : Nat → List Byte
  | 0 => buf
  | k + 1 => unmaskStride mask (unmaskStrides mask buf k) (8 * k)

/-- The first `n` bytes of the tail at `start`. -/
def unmaskTail (mask : List Byte) (start : Nat) (buf : List Byte) : Nat → List Byte
  | 0 => buf
  | n + 1 => (unmaskTail mask start buf n).modify (start + n) (· ^^^ mask.getD ((start + n) % 4) 0)

def wsUnmaskInPlace (buf mask : List Byte) : List Byte :=
  let strides := buf.length / 8
  unmaskTail mask (8 * strides) (unmaskStrides mask buf strides) (buf.length - 8 * strides)

inductive WsWriteErr where
  | bufferTooSmall
  deriving DecidableEq, Repr

def clientHeaderLen (plen : Nat) : Nat :=
  if plen ≤ 125 then 2 + 4
  else if plen ≤ 65535 then 2 + 2 + 4
  else 2 + 8 + 4

/-- `bytes` over what stands at `at_`. -/
def writeAt (dst : List Byte) (at_ : Nat) (bytes : List Byte) : List Byte :=
  dst.take at_ ++ bytes ++ dst.drop (at_ + bytes.length)

def lengthForm (plen : Nat) : List Byte :=
  if plen ≤ 125 then [0x80 ||| UInt8.ofNat plen]
  else if plen ≤ 65535 then (0x80 ||| 126) :: bigEndianBytes 2 plen
  else (0x80 ||| 127) :: bigEndianBytes 8 plen

def writeClientHeader (dst : List Byte) (opcode : WsOpcode) (plen : Nat) (mask : List Byte) : List Byte × Nat :=
  let field := (0x80 ||| opcode.code) :: lengthForm plen
  let dst := writeAt dst 0 field
  (writeAt dst field.length mask, field.length + 4)

def writeParts (dst : List Byte) (at_ : Nat) : List (List Byte) → List Byte
  | [] => dst
  | part :: rest => writeParts (writeAt dst at_ part) (at_ + part.length) rest

def wsWriteFrameWith (dst : List Byte) (opcode : WsOpcode) (parts : List (List Byte)) (mask : List Byte) :
    Except WsWriteErr (List Byte × Nat) :=
  let plen := (parts.map List.length).sum
  let total := clientHeaderLen plen + plen
  if dst.length < total then .error .bufferTooSmall
  else
    let (dst, cursor) := writeClientHeader dst opcode plen mask
    let dst := writeParts dst cursor parts
    .ok (writeAt dst cursor (wsUnmaskInPlace (slice dst cursor (cursor + plen)) mask), total)

def wsWriteFrame (dst : List Byte) (opcode : WsOpcode) (payload mask : List Byte) :
    Except WsWriteErr (List Byte × Nat) :=
  wsWriteFrameWith dst opcode [payload] mask

def wsWriteTextFrameWith (dst : List Byte) (parts : List (List Byte)) (mask : List Byte) :
    Except WsWriteErr (List Byte × Nat) :=
  wsWriteFrameWith dst .text parts mask

def wsWritePong (dst payload mask : List Byte) : Except WsWriteErr (List Byte × Nat) :=
  wsWriteFrame dst .pong payload mask

end TradingEngine.Net
