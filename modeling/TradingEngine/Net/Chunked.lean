import TradingEngine.Base.Run

/-!
# Chunked HTTP bodies

One walker scans the framing and, on a second pass, shifts the chunks together over it. Both readers run it first
without writing.
-/

namespace TradingEngine.Net

def usizeSize : Nat := 2 ^ 64

abbrev Byte := UInt8

def crlf : List Byte := [13, 10]

def semicolon : Byte := 59

inductive DechunkResult where
  | complete (length : Nat)
  | incomplete
  | malformed
  deriving DecidableEq, Repr

inductive ChunkedBody where
  | span (start len : Nat)
  | incomplete
  | malformed
  deriving DecidableEq, Repr

def findCrlf : List Byte → Option Nat
  | [] => none
  | b :: rest => if b = 13 ∧ rest.head? = some 10 then some 0 else (findCrlf rest).map (· + 1)

def hexDigit (c : Byte) : Option Nat :=
  if 48 ≤ c ∧ c ≤ 57 then some (c.toNat - 48)
  else if 97 ≤ c ∧ c ≤ 102 then some (10 + (c.toNat - 97))
  else if 65 ≤ c ∧ c ≤ 70 then some (10 + (c.toNat - 65))
  else none

/-- The shift drops what leaves the word: `checked_shl` checks only the shift amount. -/
def parseHexFrom : Nat → List Byte → Option Nat
  | out, [] => some out
  | out, c :: rest =>
    (hexDigit c).bind fun d =>
      let shifted := out * 16 % 2 ^ 64
      if shifted + d < 2 ^ 64 then parseHexFrom (shifted + d) rest else none

def parseHexU64 (text : List Byte) : Option Nat := if text = [] then none else parseHexFrom 0 text

def sizeText (line : List Byte) : List Byte := line.takeWhile (· ≠ semicolon)

def slice (buf : List Byte) (start stop : Nat) : List Byte := (buf.take stop).drop start

def copyWithin (buf : List Byte) (start stop dst : Nat) : List Byte :=
  buf.take dst ++ slice buf start stop ++ buf.drop (dst + (stop - start))

structure ChunkWalk where
  res : DechunkResult
  first : Nat
  chunks : Nat
  buf : List Byte
  deriving DecidableEq, Repr

/-- The loop; each turn reads on by at least one byte, so the length of the buffer bounds the turns. The
count of chunks is a 32-bit word. -/
def walkFrom (copy : Bool) (write0 : Nat) : Nat → List Byte → Nat → Nat → Nat → Nat → ChunkWalk
  | 0, buf, _, _, first, chunks => ⟨.malformed, first, chunks, buf⟩
  | fuel + 1, buf, read, write, first, chunks =>
    let remain := buf.drop read
    match findCrlf remain with
    | none => ⟨.incomplete, first, chunks, buf⟩
    | some n =>
      match parseHexU64 (sizeText (remain.take n)) with
      | none => ⟨.malformed, first, chunks, buf⟩
      | some size =>
        let chunkData := read + n + 2
        if size = 0 then
          if buf.length < chunkData + 2 then ⟨.incomplete, first, chunks, buf⟩
          else if slice buf chunkData (chunkData + 2) ≠ crlf then ⟨.malformed, first, chunks, buf⟩
          else ⟨.complete (write - write0), first, chunks, buf⟩
        else
          let chunkEnd := chunkData + size
          if usizeSize ≤ chunkEnd then ⟨.malformed, first, chunks, buf⟩
          else if usizeSize ≤ chunkEnd + 2 then ⟨.malformed, first, chunks, buf⟩
          else if buf.length < chunkEnd + 2 then ⟨.incomplete, first, chunks, buf⟩
          else if slice buf chunkEnd (chunkEnd + 2) ≠ crlf then ⟨.malformed, first, chunks, buf⟩
          else
            walkFrom copy write0 fuel
              (if copy && chunkData ≠ write then copyWithin buf chunkData chunkEnd write else buf) (chunkEnd + 2)
              (write + size) (if chunks = 0 then chunkData else first) ((chunks + 1) % 2 ^ 32)

def walkChunks (buf : List Byte) (copy : Bool) (write0 : Nat) : ChunkWalk :=
  walkFrom copy write0 (buf.length + 1) buf 0 write0 0 0

def dechunkInPlace (buf : List Byte) : DechunkResult × List Byte :=
  match (walkChunks buf false 0).res with
  | .complete _ => ((walkChunks buf true 0).res, (walkChunks buf true 0).buf)
  | other => (other, (walkChunks buf false 0).buf)

def chunkedBody (buf : List Byte) : ChunkedBody × List Byte :=
  let w := walkChunks buf false 0
  match w.res with
  | .complete length =>
    if w.chunks ≤ 1 then (.span w.first length, w.buf)
    else
      let w' := walkChunks buf true w.first
      match w'.res with
      | .complete length => (.span w.first length, w'.buf)
      | .incomplete => (.incomplete, w'.buf)
      | .malformed => (.malformed, w'.buf)
  | .incomplete => (.incomplete, w.buf)
  | .malformed => (.malformed, w.buf)

end TradingEngine.Net
