import TradingEngine.Base.Saturating

/-!
# Shared records

The parts of the wire records that the ledger and the paper book read.
-/

namespace TradingEngine.CoreTypes

open Base

abbrev SymbolId := Fin 4294967296

instance symbolIdNonempty : NeZero 4294967296 := ⟨by decide⟩

def symbolIdNone : SymbolId := 4294967295

def symbolOrdinalMask : SymbolId := 16777215

def symbolOrdinal (sym : SymbolId) : SymbolId := sym &&& symbolOrdinalMask

def symbolVenueByte (sym : SymbolId) : Nat := sym.val / 16777216

inductive Side where
  | bid
  | ask
  deriving DecidableEq, Repr

inductive FillOrigin where
  | venue
  | paper
  deriving DecidableEq, Repr

structure Fill where
  tsNs : Nat
  sym : SymbolId
  side : Side
  strategyId : Nat
  origin : FillOrigin
  settlement : Bool
  adopted : Bool
  px : Int
  qty : Int
  orderId : Nat
  deriving DecidableEq, Repr

def Fill.buy (fill : Fill) : Bool := fill.side = .bid

/-- An order as a member emits it; `reduceOnly` is its flag bit. -/
structure Order where
  tsNs : Nat
  sym : SymbolId
  side : Side
  reduceOnly : Bool
  px : Int
  qty : Int
  clientOid : Nat
  venue : Nat
  strategyId : Nat
  deriving DecidableEq, Repr

def Order.buy (order : Order) : Bool := order.side = .bid

/-- The part of an option summary the ledger reads; `markPxGiven` is its flag bit. -/
structure OptSummary where
  tsNs : Nat
  sym : SymbolId
  markPxGiven : Bool
  markPx1e9 : Int
  underlyingPx1e9 : Int
  deriving DecidableEq, Repr

structure DepthLevel where
  px1e6 : Int
  qty1e6 : Int
  deriving DecidableEq, Repr

def DepthLevel.empty : DepthLevel := ⟨0, 0⟩

def depthK : Nat := 5

/-- Two legs of one outcome net: equal legs are riskless. -/
def netExposure1e8 (yes no : Int) : Int := satAbs (satSub yes no)

def optionMarkBand (index strike unit : Int) (call : Bool) : Int × Int :=
  let intrinsic := if call then index - strike else strike - index
  let intrinsic := if intrinsic > 0 then intrinsic else 0
  (((intrinsic - index.tdiv 100) * unit).tdiv 1000000,
    ((if call then index else strike) * unit).tdiv 1000000)

/-- Ties the monotonic clock to the wall clock at boot. -/
structure WallAnchor where
  wallNs : Nat
  monoNs : Nat
  deriving DecidableEq, Repr

/-- Wrapping on purpose: an instant slightly before the anchor maps exactly. -/
def WallAnchor.wallOf (anchor : WallAnchor) (monoNs : Nat) : Nat :=
  (anchor.wallNs + (monoNs + u64Size - anchor.monoNs) % u64Size) % u64Size

theorem netExposure_nonneg (yes no : Int) : 0 ≤ netExposure1e8 yes no := satAbs_nonneg _

end TradingEngine.CoreTypes
