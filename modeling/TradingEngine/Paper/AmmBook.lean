import TradingEngine.Amm.Payload
import TradingEngine.Amm.RangeFill
import TradingEngine.Paper.Judge

/-!
# The AMM fill law

Pool state rebuilt from the pool events, and the judgement of one swap against it. A fill stays in the pool until the
chain's next state.
-/

namespace TradingEngine.Paper
open Base CoreTypes Amm

def venueHyperEvm : Nat := 8
def ammMaxPools : Nat := 128

def ammPoolIndex (sym : SymbolId) : Option Nat :=
  if symbolVenueByte sym ≠ venueHyperEvm then none
  else
    let ord := (symbolOrdinal sym).val
    if ord = 0 ∨ ord > ammMaxPools then none else some (ord - 1)

inductive PoolPhase where
  | empty
  | snapshot
  | live
  deriving DecidableEq, Repr

structure AmmPool where
  state : PoolState
  pending0 : Int
  pending1 : Int
  feeInForce : Nat
  feeObserved : Nat
  tickSpacing : Int
  hasPending : Bool
  phase : PoolPhase
  kind : AmmKind
  dec0 : Nat
  dec1 : Nat

namespace AmmPool

def empty : AmmPool where
  state := ⟨⟨0, Nat.two_pow_pos 160⟩, ⟨0, Nat.two_pow_pos 128⟩, 0, 0, 0, 0, ⟨false, false⟩⟩
  pending0 := 0
  pending1 := 0
  feeInForce := 0
  feeObserved := 0
  tickSpacing := 1
  hasPending := false
  phase := .empty
  kind := .v3
  dec0 := 0
  dec1 := 0

variable (p : AmmPool)

def fillMeta (feePips : Nat) : FillMeta := ⟨⟨p.tickSpacing, p.kind⟩, feePips, p.dec0, p.dec1⟩

def judgedFee : Nat := if p.feeObserved > p.feeInForce then p.feeObserved else p.feeInForce

def stale (p : AmmPool) : AmmPool :=
  { p with state := { p.state with flags := { p.state.flags with stale := true } }, hasPending := false }

end AmmPool

inductive AmmObs where
  | head (block : Nat)
  | gap
  | pool (index : Nat)
  | quiet
  | refused
  deriving DecidableEq, Repr

structure AmmBook where
  pools : Nat → AmmPool
  headBlock : Nat

/-- The price and the liquidity as they stand in a payload. -/
def priceOf (lo : Unsigned 16) (hi : Unsigned 4) : Fin u160Size :=
  ⟨lo.val + 2 ^ 128 * hi.val, by
    have low := lo.isLt
    have high := hi.isLt
    unfold u160Size
    norm_num at low high ⊢
    omega⟩

def liquidityOf (l : Unsigned 16) : Fin u128Size :=
  ⟨l.val, by
    have fits := l.isLt
    unfold u128Size
    norm_num at fits ⊢
    omega⟩

namespace AmmPool

variable (p : AmmPool)

/-- The chain's state in place of ours. Staleness survives until a snapshot. -/
def overwrite (tick : Int) (price : Fin u160Size) (liquidity : Fin u128Size) : AmmPool :=
  { p with
    state := { p.state with sqrtPrice := price, tick, liquidity, flags := ⟨p.state.flags.stale, false⟩ }
    hasPending := false }

def learnFee (price : Fin u160Size) : AmmPool :=
  if p.hasPending then
    match observedFeePips p.state (p.fillMeta p.feeInForce).toPoolMeta p.pending0 p.pending1 price with
    | some f => { p with feeObserved := f }
    | none => p
  else p

def onState (i : Nat) (tick : Int) (price : Fin u160Size) (liquidity : Fin u128Size) (snapshot : Bool) :
    AmmPool × AmmObs :=
  if snapshot then
    if p.phase = .empty then (p, .quiet)
    else
      ({ p with
          state := ⟨price, liquidity, tick, 0, 0, i, ⟨false, false⟩⟩
          phase := .live
          hasPending := false }, .pool i)
  else if p.phase ≠ .live then (p, .quiet)
  else ((p.learnFee price).overwrite tick price liquidity, .pool i)

def onFee (source : UInt8) (a b : Nat) : AmmPool :=
  if source = feeSrcAlgebraV10 then if a < pips then { p with feeInForce := a } else p
  else if source = feeSrcAlgebraV12 then
    let base := if a ≠ 0 then a else p.feeInForce
    let paid := min (base + b) u32Max
    if paid < pips then { p with feeObserved := paid } else p
  else p

def onLiquidity (burn : Bool) (tickLower tickUpper : Int) (amount : Nat) : AmmPool :=
  if (amount : Int) ≥ i128Size then p.stale
  else
    match p.state.applyPosition tickLower tickUpper (if burn then -(amount : Int) else amount) with
    | (.error _, _) => p.stale
    | (.ok (), state) => { p with state := { state with flags := { state.flags with edge := false } } }

def event (i : Nat) : PoolEvent → AmmPool × AmmObs
  | .snapshot _ family _ _ _ fee spacing dec0 dec1 =>
    ({ p with
        phase := .snapshot
        feeInForce := fee.val
        feeObserved := 0
        tickSpacing := spacing
        kind := if family = familyAlgebra then .algebra else .v3
        dec0 := dec0.toNat
        dec1 := dec1.toNat }.stale, .pool i)
  | .tick _ _ _ => (p, .quiet)
  | .state tick lo hi liquidity snapshot => p.onState i tick (priceOf lo hi) (liquidityOf liquidity) snapshot
  | .swap block amount0 amount1 =>
    if p.phase = .live then
      ({ p with
          pending0 := amount0.val
          pending1 := amount1.val
          hasPending := true
          state := { p.state with block := block.val } }, .quiet)
    else (p, .quiet)
  | .fee _ source a b => (p.onFee source a.val b.val, .pool i)
  | .liquidity _ burn tickLower tickUpper amount =>
    if p.phase ≠ .live then (p, .quiet) else (p.onLiquidity burn tickLower tickUpper amount.val, .pool i)
  | .head _ _ _ | .gap _ => (p, .quiet)

end AmmPool

namespace AmmBook

def new : AmmBook := ⟨fun _ => .empty, 0⟩

variable (b : AmmBook)

def isLive (index : Nat) : Bool :=
  index < ammMaxPools ∧ (b.pools index).phase = .live ∧ (b.pools index).state.isLive

def put (i : Nat) (p : AmmPool) : AmmBook := { b with pools := Function.update b.pools i p }

def onGap (sym : SymbolId) : AmmBook × AmmObs :=
  match ammPoolIndex sym with
  | some i => (b.put i (b.pools i).stale, .pool i)
  | none =>
    ({ b with pools := fun i => if (b.pools i).phase ≠ .empty then (b.pools i).stale else b.pools i }, .gap)

def onPool (sym : SymbolId) (ev : PoolEvent) : AmmBook × AmmObs :=
  match ammPoolIndex sym with
  | some i => (b.put i ((b.pools i).event i ev).1, ((b.pools i).event i ev).2)
  | none => (b, .refused)

def observe (sym : SymbolId) (payload : Payload) : AmmBook × AmmObs :=
  match decode payload with
  | none => (b, .refused)
  | some (.head block _ _) => ({ b with headBlock := max b.headBlock block.val }, .head block.val)
  | some (.gap _) => b.onGap sym
  | some ev => b.onPool sym ev

def mid1e6 (index : Nat) : Option Int :=
  if !b.isLive index then none
  else
    let p := b.pools index
    let px := price1e18FromSqrt p.state.sqrtPrice.val p.dec0 p.dec1 / 1000000000000
    if px = 0 ∨ (px : Int) > i64Max then none else some px

def judge (index : Nat) (side : Side) (pxLimit1e6 remaining1e6 : Int) : AmmBook × Verdict :=
  if !b.isLive index then (b, .cancel)
  else
    let p := b.pools index
    let r := fillInRange p.state (p.fillMeta p.judgedFee) (side = .ask) remaining1e6 pxLimit1e6
    if r.flags.nothing then (b, .cancel) else (b.put index { p with state := r.after }, .fill r.px1e6 r.qty1e6)

theorem judge_cases (index : Nat) (side : Side) (pxLimit1e6 remaining1e6 : Int) :
    (b.judge index side pxLimit1e6 remaining1e6).2 = .cancel ∨
      ∃ px q, (b.judge index side pxLimit1e6 remaining1e6).2 = .fill px q ∧ 0 < q ∧ q ≤ remaining1e6 ∧
        noWorse side px pxLimit1e6 = true := by
  unfold judge
  split
  · exact .inl rfl
  dsimp only
  split
  · exact .inl rfl
  rename_i filled
  obtain ⟨positive, less, price⟩ := fillInRange_within (b.pools index).state
    ((b.pools index).fillMeta (b.pools index).judgedFee) (side = .ask) remaining1e6 pxLimit1e6 (by simpa using filled)
  refine .inr ⟨_, _, rfl, positive, less, ?_⟩
  cases side <;> simpa [noWorse] using price

end AmmBook

end TradingEngine.Paper
