import TradingEngine.Net.WsFrame

/-!
# The WebSocket framer

A receive window that compacts and reuses its storage, a send window, and the loop that hands out data frames, answers
pings and skips pongs.
-/

namespace TradingEngine.Net

open Base (byte)

structure IoBuf where
  data : List Byte
  head : Nat
  tail : Nat
  deriving DecidableEq, Repr

namespace IoBuf

def withCapacity (cap : Nat) : IoBuf := ⟨List.replicate cap 0, 0, 0⟩

variable (b : IoBuf)

def filled : List Byte := slice b.data b.head b.tail

def len : Nat := b.tail - b.head

def freeMut : IoBuf :=
  if b.tail = b.data.length ∧ 0 < b.head then
    { data := copyWithin b.data b.head b.tail 0, head := 0, tail := b.tail - b.head }
  else b

def free : List Byte := b.data.drop b.tail

def advance (n : Nat) : IoBuf := { b with tail := b.tail + n }

def consume (n : Nat) : IoBuf :=
  if b.head + n = b.tail then { b with head := 0, tail := 0 } else { b with head := b.head + n }

def setFree (region : List Byte) : IoBuf := { b with data := b.data.take b.tail ++ region }

end IoBuf

inductive WsErr where
  | badFrame
  | fragmented
  | tooLarge
  | overflow
  | closed
  deriving DecidableEq, Repr

inductive WsNext where
  | idle
  | text (span : PayloadSpan)
  | binary (span : PayloadSpan)
  | failed (why : WsErr)
  deriving DecidableEq, Repr

def wsMaskFromCounter (counter : UInt64) : List Byte :=
  let z := counter + 0x9e3779b97f4a7c15
  let z := (z ^^^ (z >>> 30)) * 0xbf58476d1ce4e5b9
  let z := (z ^^^ (z >>> 27)) * 0x94d049bb133111eb
  let z := z ^^^ (z >>> 31)
  [byte z.toNat 0, byte z.toNat 1, byte z.toNat 2, byte z.toNat 3]

structure Queued where
  opcode : WsOpcode
  payload : List Byte
  mask : List Byte
  deriving DecidableEq, Repr

structure WsFramer where
  rx : IoBuf
  tx : IoBuf
  rxCap : Nat
  maskCtr : UInt64
  /-- The bytes of the data frame handed out last. -/
  consumed : Nat
  /-- The frames queued so far. No operation reads it. -/
  queued : List Queued
  deriving DecidableEq, Repr

namespace WsFramer

def new (rxCap txCap : Nat) (maskSeed : UInt64) : WsFramer :=
  { rx := .withCapacity rxCap, tx := .withCapacity txCap, rxCap, maskCtr := maskSeed, consumed := 0, queued := [] }

variable (f : WsFramer)

def release : WsFramer :=
  if f.consumed ≠ 0 then { f with rx := f.rx.consume f.consumed, consumed := 0 } else f

def rxFreeMut : WsFramer :=
  let f := f.release
  { f with rx := f.rx.freeMut }

def rxAdvance (n : Nat) : WsFramer := { f with rx := f.rx.advance n }

def payload (span : PayloadSpan) : List Byte := slice f.rx.filled span.start span.stop

/-- A frame masked into the send window by `write`; the counter moves on even where there is no room. -/
def queueWith (opcode : WsOpcode) (payload : List Byte)
    (write : List Byte → List Byte → Except WsWriteErr (List Byte × Nat)) : Except WsErr Unit × WsFramer :=
  let ctr := f.maskCtr + 1
  let mask := wsMaskFromCounter ctr
  let tx := f.tx.freeMut
  match write tx.free mask with
  | .ok (region, n) =>
    (.ok (), { f with
      maskCtr := ctr, tx := (tx.setFree region).advance n, queued := f.queued ++ [⟨opcode, payload, mask⟩] })
  | .error _ => (.error .overflow, { f with maskCtr := ctr, tx })

def queuePong (echo : List Byte) : Except WsErr Unit × WsFramer :=
  f.queueWith .pong echo fun dst mask => wsWritePong dst echo mask

def queueTextWith (parts : List (List Byte)) : Except WsErr Unit × WsFramer :=
  f.queueWith .text parts.flatten fun dst mask => wsWriteTextFrameWith dst parts mask

def scan : Nat → WsFramer → WsNext × WsFramer
  | 0, f => (.idle, f)
  | fuel + 1, f =>
    match wsReadFrame f.rx.filled with
    | .incomplete => (if f.rxCap ≤ f.rx.len then .failed .tooLarge else .idle, f)
    | .malformed => (.failed .badFrame, f)
    | .frame header span =>
      if header.masked then (.failed .badFrame, f)
      else match header.opcode with
        | .text => if header.fin then (.text span, { f with consumed := span.stop }) else (.failed .fragmented, f)
        | .binary => if header.fin then (.binary span, { f with consumed := span.stop }) else (.failed .fragmented, f)
        | .continuation => (.failed .fragmented, f)
        | .ping =>
          match f.queuePong (f.payload span) with
          | (.error why, f) => (.failed why, f)
          | (.ok _, f) => scan fuel { f with rx := f.rx.consume span.stop }
        | .pong => scan fuel { f with rx := f.rx.consume span.stop }
        | .close => (.failed .closed, { f with rx := f.rx.consume span.stop })

def nextFrame : WsNext × WsFramer :=
  let f := f.release
  f.scan (f.rx.len + 1)

def txConsume (n : Nat) : WsFramer := { f with tx := f.tx.consume n }

/-- A chunk written at the front of the free region and committed. -/
def receive (chunk : List Byte) : WsFramer :=
  let f := f.rxFreeMut
  { f with rx := f.rx.setFree (writeAt f.rx.free 0 chunk) }.rxAdvance chunk.length

end WsFramer

inductive Message where
  | text (payload : List Byte)
  | binary (payload : List Byte)
  deriving DecidableEq, Repr

/-- A framer, the messages its owner was handed, the bytes that left, and the failure that ended it. -/
structure WsSession where
  framer : WsFramer
  delivered : List Message
  sent : List Byte
  ended : Option WsErr
  deriving DecidableEq, Repr

/-- What happens to a session: bytes arrive, the owner queues a text frame, queued bytes leave. -/
inductive Traffic where
  | chunk (bytes : List Byte)
  | send (parts : List (List Byte))
  | flush (n : Nat)
  deriving DecidableEq, Repr

namespace WsSession

def start (rxCap txCap : Nat) (maskSeed : UInt64) : WsSession := ⟨.new rxCap txCap maskSeed, [], [], none⟩

/-- `nextFrame` until it reports idle or fails. -/
def drainFor : Nat → WsSession → WsSession
  | 0, s => s
  | fuel + 1, s =>
    match s.framer.nextFrame with
    | (.idle, f) => { s with framer := f }
    | (.text span, f) => drainFor fuel { s with framer := f, delivered := s.delivered ++ [.text (f.payload span)] }
    | (.binary span, f) => drainFor fuel { s with framer := f, delivered := s.delivered ++ [.binary (f.payload span)] }
    | (.failed why, f) => { s with framer := f, ended := some why }

variable (s : WsSession)

def drain : WsSession := s.drainFor (s.framer.rx.len + 1)

/-- A failed session is over: nothing is read or written any more. -/
def step (t : Traffic) : WsSession :=
  match s.ended, t with
  | some _, _ => s
  | none, .chunk bytes => { s with framer := s.framer.receive bytes }.drain
  | none, .send parts => { s with framer := (s.framer.queueTextWith parts).2 }
  | none, .flush n => { s with framer := s.framer.txConsume n, sent := s.sent ++ s.framer.tx.filled.take n }

def Fits : Traffic → Prop
  | .chunk bytes => bytes.length ≤ s.framer.rxFreeMut.rx.free.length
  | .send _ => True
  | .flush n => n ≤ s.framer.tx.len

instance (s : WsSession) : (t : Traffic) → Decidable (s.Fits t)
  | .chunk bytes => inferInstanceAs (Decidable (bytes.length ≤ s.framer.rxFreeMut.rx.free.length))
  | .send _ => .isTrue trivial
  | .flush n => inferInstanceAs (Decidable (n ≤ s.framer.tx.len))

def stream (traffic : List Traffic) : List Byte :=
  traffic.flatMap fun
    | .chunk bytes => bytes
    | _ => []

end WsSession

end TradingEngine.Net
