import TradingEngine.Amm.Uint256

/-!
# Ticks and square-root prices

A price is the square root of token1 per token0 in units of `2 ^ -96`; a tick is its logarithm to the base `sqrt
1.0001`.
-/

namespace TradingEngine.Amm

def minTick : Int := -887272

def maxTick : Int := 887272

def minSqrt : Nat := 4295128739

def maxSqrt : Nat := 318775800626314356294205765087544249638 + 4294805859 * 2 ^ 128

def clampTick (tick : Int) : Int := if tick < minTick then minTick else if tick > maxTick then maxTick else tick

/-- `1.0001 ^ (-2 ^ k / 2)` in 128 bits after the point. -/
def sqrtLadder : List Nat :=
  [0xfffcb933bd6fad37aa2d162d1a594001, 0xfff97272373d413259a46990580e213a, 0xfff2e50f5f656932ef12357cf3c7fdcc,
    0xffe5caca7e10e4e61c3624eaa0941cd0, 0xffcb9843d60f6159c9db58835c926644, 0xff973b41fa98c081472e6896dfb254c0,
    0xff2ea16466c96a3843ec78b326b52861, 0xfe5dee046a99a2a811c461f1969c3053, 0xfcbe86c7900a88aedcffc83b479aa3a4,
    0xf987a7253ac413176f2b074cf7815e54, 0xf3392b0822b70005940c7a398e4b70f3, 0xe7159475a2c29b7443b29c7fa6e889d9,
    0xd097f3bdfd2022b8845ad8f792aa5825, 0xa9f746462d870fdf8a65dc1f90e061e5, 0x70d869a156d2a1b890bb3df62baf32f7,
    0x31be135f97d08fd981231505542fcfa6, 0x09aa508b5b7a84e1c677de54f3e99bc9, 0x5d6af8dedb81196699c329225ee604,
    0x2216e584f5fa1ea926041bedfe98, 0x48a170391f7dc42444e8fa2]

/-- The product of the constants that the bits of the tick select, lowest bit first. The exact start
`2 ^ 128` makes the first product the constant itself. -/
def climb : List Nat → Nat → Nat → Nat
  | [], _, r => r
  | c :: rest, bits, r => climb rest (bits / 2) (if bits % 2 = 1 then r * c / 2 ^ 128 else r)

/-- From 128 bits after the point to 96, rounded up. -/
def roundUp (ratio : Nat) : Nat := if ratio % 2 ^ 32 = 0 then ratio / 2 ^ 32 else ratio / 2 ^ 32 + 1

def sqrtRatioAtTick (tick : Int) : Nat :=
  let t := clampTick tick
  let r := climb sqrtLadder t.natAbs (2 ^ 128)
  roundUp (if t > 0 then (u256Size - 1) / r else r)

def logSqrt10001 : Int := 255738958999603826347141

def tickLowErr : Int := 3402992956809132418596140100660247210

def tickHiErr : Int := 291339464771989622907027621153398088495

/-- The fourteen bits after the point of the binary logarithm: square, and halve what passes two. The
bits below those of `log` are clear, so setting one adds it. -/
def squareLog : Nat → Nat → Int → Int
  | 0, _, log => log
  | n + 1, r, log =>
    let sq := r * r / 2 ^ 127
    let f : Nat := sq / 2 ^ 128
    squareLog n (if f = 1 then sq / 2 else sq) (log + f * 2 ^ (n + 50))

/-- The binary logarithm of a price in 64 bits after the point, from a word normalised to 128 bits. -/
def logTwo (sqrtPrice : Nat) : Int :=
  let ratio := sqrtPrice * 2 ^ 32
  let msb := Nat.log2 ratio
  let r := if msb ≥ 128 then ratio / 2 ^ (msb - 127) else ratio * 2 ^ (127 - msb)
  squareLog 14 r (((msb : Int) - 128) * 2 ^ 64)

def tickAtSqrtRatio (sqrtPrice : Nat) : Int :=
  if sqrtPrice < minSqrt then minTick
  else if maxSqrt ≤ sqrtPrice then maxTick - 1
  else
    let logSqrt := logTwo sqrtPrice * logSqrt10001
    let tickLow := (logSqrt - tickLowErr) / 2 ^ 128
    let tickHi := (logSqrt + tickHiErr) / 2 ^ 128
    if tickLow = tickHi then tickLow
    else if sqrtRatioAtTick tickHi ≤ sqrtPrice then tickHi
    else tickLow

end TradingEngine.Amm
