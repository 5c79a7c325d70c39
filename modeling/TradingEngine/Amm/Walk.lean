import TradingEngine.Amm.SqrtPrice
import TradingEngine.Amm.TickMap

/-!
# The tick walk

The swap loop of a pool over a tick map. A V3 pool stops at every word of 256 compressed ticks, an Algebra pool only
at initialised ticks.
-/

namespace TradingEngine.Amm

open Base

def maxSteps : Nat := 512

def floorDiv (a b : Int) : Int := if a.tmod b ≠ 0 ∧ a < 0 then a.tdiv b - 1 else a.tdiv b

def nextTick (tick spacing : Int) (lte : Bool) (nodes : List TickNode) (cursor : Nat) : Int × Bool :=
  let compressed := floorDiv tick spacing
  if lte then
    let wordMin := compressed / 256 * 256
    match if cursor > 0 then nodes[cursor - 1]? else none with
    | some n => if n.tick.tdiv spacing ≥ wordMin then (n.tick, true) else (wordMin * spacing, false)
    | none => (wordMin * spacing, false)
  else
    let wordMax := (compressed + 1) / 256 * 256 + 255
    match nodes[cursor]? with
    | some n => if n.tick.tdiv spacing ≤ wordMax then (n.tick, true) else (wordMax * spacing, false)
    | none => (wordMax * spacing, false)

def nextTickLinked (lte : Bool) (nodes : List TickNode) (cursor : Nat) (loEdge hiEdge : Int) : Int × Bool :=
  if lte then
    match if cursor > 0 then nodes[cursor - 1]? else none with
    | some n => (n.tick, true)
    | none => (loEdge, false)
  else
    match nodes[cursor]? with
    | some n => (n.tick, true)
    | none => (hiEdge, false)

def upperBound (nodes : List TickNode) (tick : Int) : Nat := firstNot (fun n => decide (n.tick ≤ tick)) nodes

/-- What stays the same along a walk; the limit is already inside the coverage. -/
structure Route where
  linked : Bool
  spacing : Int
  nodes : List TickNode
  loEdge : Int
  hiEdge : Int
  limit : Nat
  zeroForOne : Bool
  exactIn : Bool
  feePips : Nat
  deriving DecidableEq, Repr

structure Walk where
  sqrt : Nat
  tick : Int
  liq : Fin u128Size
  remaining : Nat
  totalIn : Nat
  totalOut : Nat
  totalFee : Nat
  flags : SwapFlags
  steps : Nat
  cursor : Nat
  deriving DecidableEq, Repr

def Walk.pay (w : Walk) (exactIn : Bool) (st : Step) : Walk :=
  let spent := U256.wrappingAdd st.amountIn st.fee
  { w with
    sqrt := st.sqrtNext
    remaining := w.remaining - if exactIn then spent else st.amountOut
    totalIn := U256.wrappingAdd w.totalIn spent
    totalOut := U256.wrappingAdd w.totalOut st.amountOut
    totalFee := U256.wrappingAdd w.totalFee st.fee
    steps := w.steps + 1 }

def wrappingNeg (net : Int) : Int := if net = -i128Size then net else -net

/-- Liquidity moved by a net; it saturates above and is clamped at zero below. -/
def moveLiquidity (liq : Fin u128Size) (net : Int) : Fin u128Size × Bool :=
  if net ≥ 0 then (⟨min (liq + net.toNat) (u128Size - 1), by have := liq.isLt; omega⟩, false)
  else if net.natAbs > liq then (⟨0, by decide⟩, true)
  else (⟨liq - net.natAbs, by have := liq.isLt; omega⟩, false)

namespace Route

variable (r : Route)

def stepTarget (tick : Int) (cursor : Nat) : Int × Bool :=
  let (nt, initialised) :=
    if r.linked then nextTickLinked r.zeroForOne r.nodes cursor r.loEdge r.hiEdge
    else nextTick tick r.spacing r.zeroForOne r.nodes cursor
  (clampTick nt, initialised)

/-- The price a step aims at: the next tick's, or the limit before it. -/
def aim (nt : Int) : Nat :=
  if r.zeroForOne then max (sqrtRatioAtTick nt) r.limit else min (sqrtRatioAtTick nt) r.limit

def passed (cursor : Nat) : Option TickNode :=
  r.nodes[if r.zeroForOne then cursor - 1 else cursor]?

def cross (nt : Int) (initialised : Bool) (w : Walk) : Walk :=
  let tick := if r.zeroForOne then nt - 1 else nt
  if initialised then
    let net := (r.passed w.cursor).elim 0 TickNode.liquidityNet
    let net := if r.zeroForOne then wrappingNeg net else net
    let (liq, clamped) := moveLiquidity w.liq net
    { w with
      tick, liq
      flags := { w.flags with liqClamp := w.flags.liqClamp || clamped }
      cursor := if r.zeroForOne then w.cursor - 1 else w.cursor + 1 }
  else { w with tick }

def turn (w : Walk) : Walk × Bool :=
  let (nt, initialised) := r.stepTarget w.tick w.cursor
  let sqrtNext := sqrtRatioAtTick nt
  match computeSwapStep w.sqrt (r.aim nt) w.liq w.remaining r.exactIn r.feePips with
  | none => ({ w with steps := w.steps + 1, flags := { w.flags with math := true } }, false)
  | some st =>
    let next := w.pay r.exactIn st
    if st.sqrtNext = sqrtNext then (r.cross nt initialised next, true)
    else if st.sqrtNext ≠ w.sqrt then ({ next with tick := tickAtSqrtRatio st.sqrtNext }, !r.linked)
    else (next, true)

def loop (r : Route) : Nat → Walk → Walk
  | 0, w =>
    if w.remaining = 0 ∨ w.sqrt = r.limit then w else { w with flags := { w.flags with stepCap := true } }
  | fuel + 1, w =>
    if w.remaining = 0 ∨ w.sqrt = r.limit then w
    else if (r.turn w).2 then r.loop fuel (r.turn w).1
    else (r.turn w).1

end Route

def edgeTick (zeroForOne : Bool) (loEdge hiEdge : Int) : Int :=
  if zeroForOne then max loEdge minTick else min hiEdge maxTick

def walkRoute (linked : Bool) (spacing : Int) (nodes : List TickNode) (loEdge hiEdge : Int) (spec : SwapSpec) : Route :=
  let edgeSqrt := sqrtRatioAtTick (edgeTick spec.zeroForOne loEdge hiEdge)
  { linked, spacing, nodes
    loEdge := max loEdge minTick
    hiEdge := min hiEdge maxTick
    limit := if spec.zeroForOne then max spec.limit edgeSqrt else min spec.limit edgeSqrt
    zeroForOne := spec.zeroForOne
    exactIn := spec.exactIn
    feePips := spec.feePips }

def walkStart (state : PoolState) (nodes : List TickNode) (spec : SwapSpec) : Walk :=
  { sqrt := state.sqrtPrice
    tick := state.tick
    liq := state.liquidity
    remaining := spec.amount
    totalIn := 0
    totalOut := 0
    totalFee := 0
    flags := SwapFlags.none
    steps := 0
    cursor := upperBound nodes state.tick }

def Refuses (state : PoolState) (spacing loEdge hiEdge : Int) (spec : SwapSpec) : Prop :=
  (spacing ≤ 0 ∨ loEdge > hiEdge ∨ state.tick < loEdge ∨ state.tick > hiEdge ∨ (state.sqrtPrice : Nat) < minSqrt ∨
      maxSqrt ≤ state.sqrtPrice ∨ spec.feePips ≥ pips) ∨
    (spec.zeroForOne ∧ state.sqrtPrice ≤ spec.limit) ∨ (¬ spec.zeroForOne ∧ spec.limit ≤ state.sqrtPrice)

instance (state : PoolState) (spacing loEdge hiEdge : Int) (spec : SwapSpec) :
    Decidable (Refuses state spacing loEdge hiEdge spec) := by
  unfold Refuses
  infer_instance

def finish (state : PoolState) (edgeSqrt : Nat) (edgesKnown : Bool) (spec : SwapSpec) (limit : Nat) (w : Walk) :
    SwapResult :=
  let edgeBinds : Bool :=
    limit = edgeSqrt ∧ if spec.zeroForOne then edgeSqrt > spec.limit else edgeSqrt < spec.limit
  let stopped : Bool := w.sqrt = limit ∧ w.remaining ≠ 0
  { amountIn := U256.saturatingU128 w.totalIn
    amountOut := U256.saturatingU128 w.totalOut
    fee := U256.saturatingU128 w.totalFee
    steps := w.steps
    flags := { w.flags with
      edge := w.flags.edge || (stopped && edgeBinds)
      limit := w.flags.limit || (stopped && !edgeBinds)
      saturated := w.flags.saturated || decide (u128Size ≤ w.totalIn ∨ u128Size ≤ w.totalOut ∨ u128Size ≤ w.totalFee) }
    after := { state with
      sqrtPrice := if fits : w.sqrt < u160Size then ⟨w.sqrt, fits⟩ else state.sqrtPrice
      tick := w.tick
      liquidity := w.liq
      flags := { state.flags with edge := !edgesKnown && decide (w.sqrt = edgeSqrt) } } }

def walk (linked : Bool) (state : PoolState) (spacing : Int) (nodes : List TickNode) (loEdge hiEdge : Int)
    (edgesKnown : Bool) (spec : SwapSpec) : SwapResult :=
  if Refuses state spacing loEdge hiEdge spec then SwapResult.refuse state
  else
    let route := walkRoute linked spacing nodes loEdge hiEdge spec
    finish state (sqrtRatioAtTick (edgeTick spec.zeroForOne loEdge hiEdge)) edgesKnown spec route.limit
      (route.loop maxSteps (walkStart state nodes spec))

def walkKind (poolMeta : PoolMeta) (state : PoolState) (nodes : List TickNode) (loEdge hiEdge : Int) (edgesKnown : Bool)
    (spec : SwapSpec) : SwapResult :=
  walk (decide (poolMeta.kind = .algebra)) state poolMeta.tickSpacing nodes loEdge hiEdge edgesKnown spec

def swapExact {N : Nat} (state : PoolState) (poolMeta : PoolMeta) (map : TickMap N) (spec : SwapSpec) : SwapResult :=
  if ¬ map.HasCoverage then SwapResult.refuse state
  else walkKind poolMeta state map.nodes map.loTick map.hiTick true spec

/-- The specification of a walk toward a target price, with no fee. -/
def targetSpec (target : Fin u160Size) (maxToken0 : Fin u128Size) (up : Bool) : SwapSpec :=
  { amount := maxToken0, limit := target, feePips := 0, zeroForOne := !up, exactIn := !up }

def SwapResult.tokens (r : SwapResult) (up : Bool) : Nat × Nat × PoolState :=
  if up then (r.amountOut, r.amountIn, r.after) else (r.amountIn, r.amountOut, r.after)

def swapToTarget {N : Nat} (state : PoolState) (poolMeta : PoolMeta) (map : TickMap N) (target : Fin u160Size)
    (maxToken0 : Fin u128Size) (up : Bool) : Nat × Nat × PoolState :=
  if maxToken0.val = 0 ∨ ¬ map.HasCoverage then (0, 0, state)
  else (walkKind poolMeta state map.nodes map.loTick map.hiTick true (targetSpec target maxToken0 up)).tokens up

def rangeBounds (tick tickSpacing : Int) : Int × Int :=
  if tickSpacing ≤ 0 then (tick, tick)
  else
    let lo := floorDiv tick tickSpacing * tickSpacing
    (clampTick lo, clampTick (lo + tickSpacing))

def swapInRange (state : PoolState) (poolMeta : PoolMeta) (target : Fin u160Size) (maxToken0 : Fin u128Size) (up : Bool) :
    Nat × Nat × PoolState :=
  if maxToken0.val = 0 then (0, 0, state)
  else
    let (lo, hi) := rangeBounds state.tick poolMeta.tickSpacing
    (walkKind poolMeta state [] lo hi false (targetSpec target maxToken0 up)).tokens up

def swapExactInRange (state : PoolState) (poolMeta : PoolMeta) (spec : SwapSpec) : SwapResult :=
  let (lo, hi) := rangeBounds state.tick poolMeta.tickSpacing
  walkKind poolMeta state [] lo hi false spec

end TradingEngine.Amm
