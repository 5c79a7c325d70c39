import TradingEngine.Base.Rounding
import TradingEngine.Amm.Types

/-!
# One swap step

The token amounts between two prices at constant liquidity, the price an amount leads to, and the step that moves a
price toward a target.
-/

namespace TradingEngine.Amm

open Base

def pips : Nat := 1000000

def amount0Delta (sa sb liquidity : Nat) (roundUp : Bool) : Option Nat :=
  let (lo, hi) := if sa ≤ sb then (sa, sb) else (sb, sa)
  if lo = 0 then none
  else
    let num1 := U256.shl liquidity 96
    (U256.checkedSub hi lo).bind fun num2 =>
      if roundUp then (U256.mulDivRoundingUp num1 num2 hi).bind fun v => U256.divRoundingUp v lo
      else (U256.mulDiv num1 num2 hi).bind fun v => U256.checkedDiv v lo

def amount1Delta (sa sb liquidity : Nat) (roundUp : Bool) : Option Nat :=
  let (lo, hi) := if sa ≤ sb then (sa, sb) else (sb, sa)
  (U256.checkedSub hi lo).bind fun d =>
    if roundUp then U256.mulDivRoundingUp liquidity d (2 ^ 96) else U256.mulDiv liquidity d (2 ^ 96)

/-- A price past 160 bits is refused. -/
def fitPrice (v : Nat) : Option Nat := if v < u160Size then some v else none

def nextFromAmount0Up (sp liquidity amount : Nat) (add : Bool) : Option Nat :=
  if amount = 0 then some sp
  else
    let num1 := U256.shl liquidity 96
    let product := U256.checkedMul amount sp
    if add then
      match product.bind (U256.checkedAdd num1) with
      | some den => U256.mulDivRoundingUp num1 sp den
      | none =>
        (U256.checkedDiv num1 sp).bind fun q => (U256.checkedAdd q amount).bind fun den => U256.divRoundingUp num1 den
    else
      product.bind fun p =>
        if num1 ≤ p then none
        else (U256.checkedSub num1 p).bind fun den => (U256.mulDivRoundingUp num1 sp den).bind fitPrice

def nextFromAmount1Down (sp liquidity amount : Nat) (add : Bool) : Option Nat :=
  if add then
    (U256.mulDiv amount (2 ^ 96) liquidity).bind fun q => (U256.checkedAdd sp q).bind fitPrice
  else
    (U256.mulDivRoundingUp amount (2 ^ 96) liquidity).bind fun q => if sp ≤ q then none else U256.checkedSub sp q

def nextFromInput (sp liquidity amountIn : Nat) (zeroForOne : Bool) : Option Nat :=
  if sp = 0 ∨ liquidity = 0 then none
  else if zeroForOne then nextFromAmount0Up sp liquidity amountIn true
  else nextFromAmount1Down sp liquidity amountIn true

def nextFromOutput (sp liquidity amountOut : Nat) (zeroForOne : Bool) : Option Nat :=
  if sp = 0 ∨ liquidity = 0 then none
  else if zeroForOne then nextFromAmount1Down sp liquidity amountOut false
  else nextFromAmount0Up sp liquidity amountOut false

structure Step where
  sqrtNext : Nat
  amountIn : Nat
  amountOut : Nat
  fee : Nat
  deriving DecidableEq, Repr

def inputDelta (zeroForOne : Bool) (current next liquidity : Nat) : Option Nat :=
  if zeroForOne then amount0Delta next current liquidity true else amount1Delta current next liquidity true

def outputDelta (zeroForOne : Bool) (current next liquidity : Nat) : Option Nat :=
  if zeroForOne then amount1Delta next current liquidity false else amount0Delta current next liquidity false

/-- The price a step ends on, with the amount known by then. -/
def stepPrice (zeroForOne : Bool) (current target liquidity remaining : Nat) (exactIn : Bool) (feeC : Nat) :
    Option (Nat × Nat × Nat) :=
  if exactIn then do
    let remLessFee ← U256.mulDiv remaining feeC pips
    let amountIn ← inputDelta zeroForOne current target liquidity
    let next ← if amountIn ≤ remLessFee then some target else nextFromInput current liquidity remLessFee zeroForOne
    some (next, amountIn, 0)
  else do
    let amountOut ← outputDelta zeroForOne current target liquidity
    let next ← if amountOut ≤ remaining then some target else nextFromOutput current liquidity remaining zeroForOne
    some (next, 0, amountOut)

def computeSwapStep (current target liquidity remaining : Nat) (exactIn : Bool) (feePips : Nat) : Option Step :=
  if feePips ≥ pips then none
  else do
    let zeroForOne := decide (target ≤ current)
    let feeC := pips - feePips
    let (next, amountIn, amountOut) ← stepPrice zeroForOne current target liquidity remaining exactIn feeC
    let max := decide (target = next)
    let amountIn ← (if !max || !exactIn then inputDelta zeroForOne current next liquidity else some amountIn)
    let amountOut ← (if !max || exactIn then outputDelta zeroForOne current next liquidity else some amountOut)
    let amountOut := if !exactIn && decide (remaining < amountOut) then remaining else amountOut
    let fee ←
      (if exactIn && !max then U256.checkedSub remaining amountIn else U256.mulDivRoundingUp amountIn feePips feeC)
    some ⟨next, amountIn, amountOut, fee⟩

end TradingEngine.Amm
