import TradingEngine.Base.Ascending
import TradingEngine.Amm.Types

/-!
# The tick map

The initialised ticks of a pool over a coverage, ascending, in an array of `N` slots.
-/

namespace TradingEngine.Amm

open Base

structure TickMap (N : Nat) where
  nodes : List TickNode
  loTick : Int
  hiTick : Int
  deriving DecidableEq, Repr

namespace TickMap

variable {N : Nat}

def empty : TickMap N := ⟨[], 1, 0⟩

def HasCoverage (m : TickMap N) : Prop := m.loTick ≤ m.hiTick

instance (m : TickMap N) : Decidable m.HasCoverage := inferInstanceAs (Decidable (m.loTick ≤ m.hiTick))

def maxLiquidityPerTick (tickSpacing : Int) : Nat :=
  if tickSpacing ≤ 0 then 0
  else
    let minT := minTick.tdiv tickSpacing * tickSpacing
    let maxT := maxTick.tdiv tickSpacing * tickSpacing
    (u128Size - 1) / (((maxT - minT).tdiv tickSpacing).toNat + 1)

def checkCoverage (loTick hiTick tickSpacing : Int) : Except AmmError Unit :=
  if tickSpacing ≤ 0 ∨ loTick > hiTick ∨ loTick < minTick ∨ hiTick > maxTick ∨
      loTick.tmod tickSpacing ≠ 0 ∨ hiTick.tmod tickSpacing ≠ 0 then .error .badState
  else .ok ()

/-- The checks of one node after its predecessor's tick. -/
def checkNode (loTick hiTick tickSpacing : Int) (prev : Option Int) (n : TickNode) : Except AmmError Unit :=
  if prev = some n.tick then .error .tickMapDuplicate
  else if prev.any fun p => n.tick < p then .error .tickMapUnsorted
  else if n.tick < loTick ∨ n.tick > hiTick ∨ n.tick.tmod tickSpacing ≠ 0 then .error .badState
  else if n.liquidityNet.natAbs > maxLiquidityPerTick tickSpacing then .error .liquidityNetOverflow
  else if n.gross ≠ 0 ∧ n.gross < n.liquidityNet.natAbs then .error .tickMapInconsistent
  else .ok ()

def commitNodes (loTick hiTick tickSpacing : Int) : Option Int → List TickNode → Except AmmError Unit
  | _, [] => .ok ()
  | prev, n :: rest =>
    match checkNode loTick hiTick tickSpacing prev n with
    | .error e => .error e
    | .ok _ => commitNodes loTick hiTick tickSpacing (some n.tick) rest

def load (nodes : List TickNode) (loTick hiTick tickSpacing : Int) : Except AmmError Unit × TickMap N :=
  match checkCoverage loTick hiTick tickSpacing with
  | .error e => (.error e, empty)
  | .ok _ =>
    if nodes.length > N then (.error .tickMapFull, empty)
    else
      match commitNodes loTick hiTick tickSpacing none nodes with
      | .error e => (.error e, empty)
      | .ok _ => (.ok (), ⟨nodes, loTick, hiTick⟩)

def lowerBound (m : TickMap N) (tick : Int) : Nat := firstNot (fun n => decide (n.tick < tick)) m.nodes

structure EndPlan where
  index : Nat
  present : Bool
  gross : Nat
  net : Int
  deriving DecidableEq, Repr

/-- A sum past 128 bits is past the greatest gross as well. -/
def newGross (gross : Nat) (delta : Int) : Except AmmError Nat :=
  if delta ≥ 0 then
    if gross + delta.toNat ≤ maxTickGross then .ok (gross + delta.toNat) else .error .liquidityGrossOverflow
  else if delta.natAbs ≤ gross then .ok (gross - delta.natAbs)
  else .error .tickMapInconsistent

def newNet (net netDelta : Int) : Except AmmError Int :=
  if -i128Size ≤ net + netDelta ∧ net + netDelta < i128Size then .ok (net + netDelta)
  else .error .liquidityNetOverflow

/-- The change of one end, checked and not applied; nothing for an end outside the coverage. -/
def planEnd (m : TickMap N) (tick delta netDelta : Int) : Except AmmError (Option EndPlan) := do
  if tick < m.loTick ∨ tick > m.hiTick then return none
  let i := m.lowerBound tick
  let held := m.nodes[i]?.filter fun n => decide (n.tick = tick)
  if held.any fun n => n.gross = 0 then throw .grossUnknown
  let gross ← newGross (held.elim 0 TickNode.gross) delta
  let net ← newNet (held.elim 0 TickNode.liquidityNet) netDelta
  if gross < net.natAbs then throw .tickMapInconsistent
  return some ⟨i, held.isSome, gross, net⟩

def commitEnd (m : TickMap N) (tick : Int) (plan : EndPlan) : TickMap N :=
  if plan.present then
    if plan.gross = 0 then { m with nodes := m.nodes.eraseIdx plan.index }
    else
      { m with nodes := m.nodes.modify plan.index fun n => { n.setGross plan.gross with liquidityNet := plan.net } }
  else { m with nodes := m.nodes.insertIdx plan.index (TickNode.setGross ⟨tick, 0, plan.net⟩ plan.gross) }

def inserts (plan : Option EndPlan) : Nat := if plan.any fun p => !p.present then 1 else 0

def applyPosition (m : TickMap N) (tickLower tickUpper delta : Int) : Except AmmError Unit × TickMap N :=
  if tickLower ≥ tickUpper ∨ tickLower < minTick ∨ tickUpper > maxTick ∨ delta = -i128Size then
    (.error .badState, m)
  else if delta = 0 ∨ ¬ m.HasCoverage then (.ok (), m)
  else
    match m.planEnd tickLower delta delta with
    | .error e => (.error e, m)
    | .ok lower =>
      match m.planEnd tickUpper delta (-delta) with
      | .error e => (.error e, m)
      | .ok upper =>
        if m.nodes.length + (inserts lower + inserts upper) > N then (.error .tickMapFull, m)
        else
          -- the upper end first: its index is not below the lower one's
          let m := upper.elim m (m.commitEnd tickUpper)
          let m := lower.elim m (m.commitEnd tickLower)
          (.ok (), m)

end TickMap

end TradingEngine.Amm
