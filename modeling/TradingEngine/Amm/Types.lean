import TradingEngine.Amm.TickMath

/-!
# Pools, positions and swaps

The records the walk and the tick map exchange. A price is one 160-bit number; the flag bytes are records of their
bits.
-/

namespace TradingEngine.Amm

def i128Size : Int := 2 ^ 127

inductive AmmError where
  | tickMapFull
  | tickMapUnsorted
  | tickMapDuplicate
  | liquidityNetOverflow
  | badState
  | tickMapInconsistent
  | grossUnknown
  | liquidityGrossOverflow
  | liquidityOverflow
  deriving DecidableEq, Repr

inductive AmmKind where
  | v3
  | v2
  | algebra
  deriving DecidableEq, Repr

structure PoolFlags where
  stale : Bool
  edge : Bool
  deriving DecidableEq, Repr

structure PoolState where
  sqrtPrice : Fin u160Size
  liquidity : Fin u128Size
  tick : Int
  block : Nat
  logIndex : Nat
  pool : Nat
  flags : PoolFlags
  deriving DecidableEq, Repr

structure PoolMeta where
  tickSpacing : Int
  kind : AmmKind
  deriving DecidableEq, Repr

def PoolState.applyPosition (s : PoolState) (tickLower tickUpper delta : Int) : Except AmmError Unit × PoolState :=
  if tickLower ≥ tickUpper ∨ delta = -i128Size then (.error .badState, s)
  else if s.tick < tickLower ∨ s.tick ≥ tickUpper then (.ok (), s)
  else
    let l : Int := s.liquidity + delta
    if fits : 0 ≤ l ∧ l.toNat < u128Size then (.ok (), { s with liquidity := ⟨l.toNat, fits.2⟩ })
    else (.error .liquidityOverflow, s)

def maxTickGross : Nat := 2 ^ 96 - 1

/-- One initialised tick. A gross of zero stands for an unknown one. -/
structure TickNode where
  tick : Int
  gross : Nat
  liquidityNet : Int
  deriving DecidableEq, Repr

/-- The gross is kept in three words of 32 bits. -/
def TickNode.setGross (n : TickNode) (g : Nat) : TickNode := { n with gross := g % 2 ^ 96 }

structure SwapFlags where
  limit : Bool
  edge : Bool
  stepCap : Bool
  math : Bool
  refused : Bool
  liqClamp : Bool
  saturated : Bool
  deriving DecidableEq, Repr

def SwapFlags.none : SwapFlags := ⟨false, false, false, false, false, false, false⟩

structure SwapResult where
  amountIn : Nat
  amountOut : Nat
  fee : Nat
  steps : Nat
  flags : SwapFlags
  after : PoolState
  deriving DecidableEq, Repr

def SwapResult.refuse (s : PoolState) : SwapResult := ⟨0, 0, 0, 0, { SwapFlags.none with refused := true }, s⟩

structure SwapSpec where
  amount : Fin u128Size
  limit : Fin u160Size
  feePips : Nat
  zeroForOne : Bool
  exactIn : Bool
  deriving DecidableEq, Repr

end TradingEngine.Amm
