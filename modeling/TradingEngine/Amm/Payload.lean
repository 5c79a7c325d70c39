import TradingEngine.Base.Bytes
import TradingEngine.Amm.TickMath

/-!
# The pool-event payload

Forty bytes: a header with the kind and a sub field, then words at fixed offsets. Bytes no layout names are zero.
-/

namespace TradingEngine.Amm
open Base

def payloadLen : Nat := 40

abbrev Payload := Fin payloadLen → UInt8

abbrev Unsigned (k : Nat) := Fin (256 ^ k)

abbrev Signed (k : Nat) := { z : Int // -((256 ^ k : Nat) : Int) ≤ 2 * z ∧ 2 * z < (256 ^ k : Nat) }

inductive PoolEvent where
  | state (tick : Int) (sqrtPriceLo : Unsigned 16) (sqrtPriceHi : Unsigned 4) (liquidity : Unsigned 16) (snapshot : Bool)
  | swap (block : Unsigned 8) (amount0 amount1 : Signed 16)
  | fee (block : Unsigned 8) (source : UInt8) (a b : Unsigned 4)
  | liquidity (block : Unsigned 8) (burn : Bool) (tickLower tickUpper : Int) (amount : Unsigned 16)
  | head (block : Unsigned 8) (timestamp : Unsigned 8) (baseFee : Unsigned 16)
  | gap (block : Unsigned 8)
  | snapshot (block : Unsigned 8) (family : UInt8) (lo hi : Int) (nodes : Unsigned 2) (fee : Unsigned 4) (spacing : Int)
    (dec0 dec1 : UInt8)
  | tick (tick : Int) (net : Signed 16) (gross : Unsigned 16)
  deriving DecidableEq, Repr

namespace Payload

def zeros : Payload := fun _ => 0

variable (p : Payload)

def at_ (i : Nat) : UInt8 := if inside : i < payloadLen then p ⟨i, inside⟩ else 0

def put (start k n : Nat) : Payload :=
  fun i => if start ≤ i ∧ i < start + k then byte n (i - start) else p i

def get (start k : Nat) : Nat := word (fun j => p.at_ (start + j)) k

theorem get_lt (start k : Nat) : p.get start k < 256 ^ k := word_lt ..

abbrev putU (start : Nat) {k : Nat} (n : Unsigned k) : Payload := p.put start k n

def getU (start k : Nat) : Unsigned k := ⟨p.get start k, p.get_lt start k⟩

abbrev putS (start : Nat) {k : Nat} (z : Signed k) : Payload := p.put start k (toTwos (256 ^ k) z)

def getS (start k : Nat) : Signed k := ⟨ofTwos (256 ^ k) (p.get start k), ofTwos_bounds (p.get_lt start k)⟩

/-- A block takes seven bytes. -/
abbrev putU56 (start : Nat) (n : Unsigned 8) : Payload := p.put start 7 n

def getU56 (start : Nat) : Unsigned 8 :=
  ⟨p.get start 7, (p.get_lt start 7).trans (by decide)⟩

/-- A tick takes three bytes and is sign-extended when read. -/
abbrev putI24 (start : Nat) (t : Int) : Payload := p.put start 3 (toTwos (2 ^ 32) t)

def getI24 (start : Nat) : Int := ofTwos (256 ^ 3) (p.get start 3)

abbrev putByte (start : Nat) (b : UInt8) : Payload := p.put start 1 b.toNat

def zero (from_ to_ : Nat) : Bool := decide (∀ i : Fin payloadLen, from_ ≤ i.val → i.val < to_ → p i = 0)

end Payload

def evState : UInt8 := 1
def evSwap : UInt8 := 2
def evFee : UInt8 := 3
def evLiquidity : UInt8 := 4
def evHead : UInt8 := 5
def evGap : UInt8 := 6
def evSnapshot : UInt8 := 7
def evTick : UInt8 := 8

def familyAlgebra : UInt8 := 2

def feeSrcAlgebraV10 : UInt8 := 1
def feeSrcAlgebraV12 : UInt8 := 2

def stateSnapshot : UInt8 := 1
def liqBurn : UInt8 := 1

def maxPayloadBlock : Nat := 2 ^ 56 - 1
def maxTokenDecimals : UInt8 := 36
def feePipsBound : Nat := 1000000
def tickBound : Int := maxTick

def tickOk (t : Int) : Bool := -tickBound ≤ t ∧ t ≤ tickBound

def bit (b : Bool) : UInt8 := if b then 1 else 0

/-- A payload that is all zero but for its header. -/
def headed (kind sub : UInt8) : Payload := Payload.zeros.putByte 0 (kind ||| sub <<< 4)

def encodeState (tick : Int) (sqrtPriceLo : Unsigned 16) (sqrtPriceHi : Unsigned 4) (liquidity : Unsigned 16)
    (snapshot : Bool) : Option Payload :=
  if !tickOk tick then none
  else
    some ((((headed evState (bit snapshot)).putI24 1 tick).putU 4 sqrtPriceLo).putU 20 sqrtPriceHi |>.putU 24 liquidity)

def encodeSwap (block : Unsigned 8) (amount0 amount1 : Signed 16) : Option Payload :=
  if block.val > maxPayloadBlock then none
  else some (((headed evSwap 0).putU56 1 block).putS 8 amount0 |>.putS 24 amount1)

def encodeFee (block : Unsigned 8) (source : UInt8) (a b : Unsigned 4) : Option Payload :=
  if block.val > maxPayloadBlock ∨ (source ≠ feeSrcAlgebraV10 ∧ source ≠ feeSrcAlgebraV12) then none
  else some (((headed evFee source).putU56 1 block).putU 8 a |>.putU 12 b)

def encodeLiquidity (block : Unsigned 8) (burn : Bool) (tickLower tickUpper : Int) (amount : Unsigned 16) :
    Option Payload :=
  if block.val > maxPayloadBlock ∨ !tickOk tickLower ∨ !tickOk tickUpper ∨ tickLower ≥ tickUpper then none
  else
    some ((((headed evLiquidity (bit burn)).putU56 1 block).putI24 8 tickLower).putI24 11 tickUpper |>.putU 16 amount)

def encodeHead (block timestamp : Unsigned 8) (baseFee : Unsigned 16) : Option Payload :=
  if block.val > maxPayloadBlock then none
  else some (((headed evHead 0).putU56 1 block).putU 8 timestamp |>.putU 16 baseFee)

def encodeGap (block : Unsigned 8) : Option Payload :=
  if block.val > maxPayloadBlock then none else some ((headed evGap 0).putU56 1 block)

def encodeSnapshot (block : Unsigned 8) (family : UInt8) (lo hi : Int) (nodes : Unsigned 2) (fee : Unsigned 4)
    (spacing : Int) (dec0 dec1 : UInt8) : Option Payload :=
  if block.val > maxPayloadBlock ∨ family > familyAlgebra ∨ !tickOk lo ∨ !tickOk hi ∨ lo > hi ∨ spacing ≤ 0 ∨
      spacing > tickBound ∨ fee.val ≥ feePipsBound ∨ dec0 > maxTokenDecimals ∨ dec1 > maxTokenDecimals then none
  else
    some ((((((((headed evSnapshot family).putU56 1 block).putI24 8 lo).putI24 11 hi).putU 14 nodes).putU 16 fee).putI24 20
      spacing).putByte 23 dec0 |>.putByte 24 dec1)

def encodeTick (tick : Int) (net : Signed 16) (gross : Unsigned 16) : Option Payload :=
  if !tickOk tick then none else some (((headed evTick 0).putI24 1 tick).putS 8 net |>.putU 24 gross)

def encode : PoolEvent → Option Payload
  | .state tick lo hi liquidity snapshot => encodeState tick lo hi liquidity snapshot
  | .swap block amount0 amount1 => encodeSwap block amount0 amount1
  | .fee block source a b => encodeFee block source a b
  | .liquidity block burn lower upper amount => encodeLiquidity block burn lower upper amount
  | .head block timestamp baseFee => encodeHead block timestamp baseFee
  | .gap block => encodeGap block
  | .snapshot block family lo hi nodes fee spacing dec0 dec1 => encodeSnapshot block family lo hi nodes fee spacing dec0 dec1
  | .tick tick net gross => encodeTick tick net gross

def decodeState (p : Payload) (sub : UInt8) : Option PoolEvent :=
  let tick := p.getI24 1
  if sub &&& ~~~stateSnapshot ≠ 0 ∨ !tickOk tick then none
  else some (.state tick (p.getU 4 16) (p.getU 20 4) (p.getU 24 16) (sub &&& stateSnapshot ≠ 0))

def decodeSwap (p : Payload) (sub : UInt8) : Option PoolEvent :=
  if sub ≠ 0 then none else some (.swap (p.getU56 1) (p.getS 8 16) (p.getS 24 16))

def decodeFee (p : Payload) (sub : UInt8) : Option PoolEvent :=
  if (sub ≠ feeSrcAlgebraV10 ∧ sub ≠ feeSrcAlgebraV12) ∨ !p.zero 16 payloadLen then none
  else some (.fee (p.getU56 1) sub (p.getU 8 4) (p.getU 12 4))

def decodeLiquidity (p : Payload) (sub : UInt8) : Option PoolEvent :=
  let tickLower := p.getI24 8
  let tickUpper := p.getI24 11
  if sub &&& ~~~liqBurn ≠ 0 ∨ !p.zero 14 16 ∨ !p.zero 32 payloadLen ∨ !tickOk tickLower ∨ !tickOk tickUpper ∨
      tickLower ≥ tickUpper then none
  else some (.liquidity (p.getU56 1) (sub &&& liqBurn ≠ 0) tickLower tickUpper (p.getU 16 16))

def decodeHead (p : Payload) (sub : UInt8) : Option PoolEvent :=
  if sub ≠ 0 ∨ !p.zero 32 payloadLen then none else some (.head (p.getU56 1) (p.getU 8 8) (p.getU 16 16))

def decodeGap (p : Payload) (sub : UInt8) : Option PoolEvent :=
  if sub ≠ 0 ∨ !p.zero 8 payloadLen then none else some (.gap (p.getU56 1))

def decodeSnapshot (p : Payload) (sub : UInt8) : Option PoolEvent :=
  let lo := p.getI24 8
  let hi := p.getI24 11
  let spacing := p.getI24 20
  let fee := p.getU 16 4
  let dec0 := p.at_ 23
  let dec1 := p.at_ 24
  if sub > familyAlgebra ∨ !p.zero 25 payloadLen ∨ !tickOk lo ∨ !tickOk hi ∨ lo > hi ∨ spacing ≤ 0 ∨
      spacing > tickBound ∨ fee.val ≥ feePipsBound ∨ dec0 > maxTokenDecimals ∨ dec1 > maxTokenDecimals then none
  else some (.snapshot (p.getU56 1) sub lo hi (p.getU 14 2) fee spacing dec0 dec1)

def decodeTick (p : Payload) (sub : UInt8) : Option PoolEvent :=
  let tick := p.getI24 1
  if sub ≠ 0 ∨ !p.zero 4 8 ∨ !tickOk tick then none else some (.tick tick (p.getS 8 16) (p.getU 24 16))

def decodeKind (p : Payload) (kind sub : UInt8) : Option PoolEvent :=
  if kind = evState then decodeState p sub
  else if kind = evSwap then decodeSwap p sub
  else if kind = evFee then decodeFee p sub
  else if kind = evLiquidity then decodeLiquidity p sub
  else if kind = evHead then decodeHead p sub
  else if kind = evGap then decodeGap p sub
  else if kind = evSnapshot then decodeSnapshot p sub
  else if kind = evTick then decodeTick p sub
  else none

def decode (p : Payload) : Option PoolEvent := decodeKind p (p.at_ 0 &&& 0x0f) (p.at_ 0 >>> 4)

end TradingEngine.Amm
