import Mathlib

/-!
# The compiled program

A program as the compiler leaves it: code, pools, the map of the frame and what the host has to know.
-/

namespace TradingEngine.Pine

structure Span where
  file : UInt16
  pad : UInt16
  lo : UInt32
  hi : UInt32
  deriving DecidableEq, Repr

inductive Dialect where
  | v5
  | v6
  deriving DecidableEq, Repr

inductive Ty where
  | void
  | int
  | float
  | bool
  | color
  | string
  | array
  | map
  | matrix
  | udt
  | enum
  | plot
  | hline
  deriving DecidableEq, Repr

inductive Lane where
  | f64
  | i64
  deriving DecidableEq, Repr

inductive ExecMode where
  | barClose
  | realtime
  deriving DecidableEq, Repr

inductive ScriptKind where
  | strategy
  | indicator
  | library
  deriving DecidableEq, Repr

inductive QtyType where
  | fixedContracts
  | percentOfEquity
  | cash
  deriving DecidableEq, Repr

inductive CommissionType where
  | percent
  | cashPerContract
  | cashPerOrder
  deriving DecidableEq, Repr

inductive AllowEntry where
  | all
  | long
  | short
  deriving DecidableEq, Repr

inductive InputKind where
  | int
  | float
  | bool
  | string
  | color
  | source
  | timeframe
  | session
  | symbol
  | price
  | time
  | textArea
  | enum
  deriving DecidableEq, Repr

inductive StateKind where
  | builtin
  | collection
  | object
  deriving DecidableEq, Repr

inductive PlotKind where
  | plot
  | hline
  | fill
  | bgColor
  | barColor
  | shape
  | char
  | arrow
  | candle
  | ohlcBar
  | subOut
  deriving DecidableEq, Repr

structure Insn where
  op : UInt8
  flags : UInt8
  dst : UInt16
  a : UInt16
  b : UInt16
  deriving DecidableEq, Repr

/-- Every interned string back to back, and where each ends. -/
structure SymTable where
  bytes : List UInt8
  ends : List Nat
  rising : ends.Pairwise (· ≤ ·)
  whole : ends.getLast? = some bytes.length

namespace SymTable

def len (t : SymTable) : Nat := t.ends.length

/-- A symbol of another table resolves to nothing. -/
def resolveBytes (t : SymTable) (i : Nat) : List UInt8 :=
  if i ≥ t.ends.length then []
  else
    let lo := if i = 0 then 0 else t.ends.getD (i - 1) 0
    let hi := t.ends.getD i 0
    (t.bytes.drop lo).take (hi - lo)

end SymTable

structure RingDesc where
  slot : UInt16
  lane : Lane
  flags : UInt8
  off : UInt32
  mask : UInt32
  cellsOff : UInt32
  deriving DecidableEq, Repr

structure StateDesc where
  site : UInt16
  kind : StateKind
  flags : UInt8
  off : UInt32
  bytes : UInt32
  deriving DecidableEq, Repr

structure PlotDesc where
  title : UInt32
  kind : PlotKind
  pad : UInt8
  index : UInt16
  span : Span
  deriving DecidableEq, Repr

structure FrameLayout where
  totalBytes : UInt32
  f64Off : UInt32
  f64Len : UInt32
  f64VaripFrom : UInt32
  i64Off : UInt32
  i64Len : UInt32
  i64VaripFrom : UInt32
  validOff : UInt32
  validWords : UInt32
  ringsOff : UInt32
  ringsBytes : UInt32
  rings : List RingDesc
  statesOff : UInt32
  statesBytes : UInt32
  poolOff : UInt32
  poolBytes : UInt32
  states : List StateDesc
  strPersistOff : UInt32
  strPersistBytes : UInt32
  strCellBytes : UInt32
  strPersistVaripOff : UInt32
  strScratchOff : UInt32
  strScratchBytes : UInt32
  plotsOff : UInt32
  nPlots : UInt32
  intentsOff : UInt32
  intentCap : UInt32
  dirtyOff : UInt32
  dirtyWords : UInt32
  jrnlOff : UInt32
  jrnlBytes : UInt32
  deriving DecidableEq, Repr

structure ChartInfo where
  symbolHash : UInt64
  timeframeS : UInt32
  venue : UInt8
  pad : Vector UInt8 3
  mintick1e6 : Int64
  pointvalue1e6 : Int64
  qtyStep1e6 : Int64
  minNotional1e6 : Int64
  deriving DecidableEq, Repr

structure RiskRules where
  maxDrawdown1e6 : Int64
  maxIntradayLoss1e6 : Int64
  maxPositionSize1e6 : Int64
  maxIntradayFilledOrders : UInt32
  maxConsLossDays : UInt32
  allowEntryIn : AllowEntry
  pad : Vector UInt8 7
  deriving DecidableEq, Repr

structure StrategyDecl where
  initialCapital1e6 : Int64
  defaultQtyValue1e6 : Int64
  commissionValue1e6 : Int64
  marginLongPct1e6 : Int64
  marginShortPct1e6 : Int64
  slippageTicks : UInt32
  pyramiding : UInt32
  defaultQtyType : QtyType
  commissionType : CommissionType
  flags : UInt16
  fillLimitsTicks : UInt32
  risk : RiskRules
  deriving DecidableEq, Repr

structure InputDesc where
  name : UInt32
  title : UInt32
  ty : Ty
  kind : InputKind
  flags : UInt16
  pad0 : UInt32
  defaultBits : UInt64
  minBits : UInt64
  maxBits : UInt64
  stepBits : UInt64
  span : Span
  pad1 : UInt32
  deriving DecidableEq, Repr

structure EntryDir where
  id : UInt64
  dirs : UInt8
  pad : Vector UInt8 7
  deriving DecidableEq, Repr

structure ProgramMeta where
  sourceSha256 : Vector UInt8 32
  specSha256 : Vector UInt8 32
  kind : ScriptKind
  dialect : Dialect
  maxBarsBack : UInt32
  warmupBars : UInt32
  insnBudgetPerEval : UInt32
  maxIntentsPerEval : UInt32
  usesLookahead : Bool
  usesIntrabar : Bool
  nonstandardChart : Bool
  chart : ChartInfo
  decl : StrategyDecl
  inputs : List InputDesc
  plots : List PlotDesc
  entryDirs : List EntryDir
  deriving DecidableEq, Repr

structure SubProgram (P : Type) where
  key : UInt64
  symbolKey : List UInt8
  symbolHash : UInt64
  timeframeS : UInt32
  lookahead : Bool
  gaps : Bool
  nOut : UInt16
  history : UInt32
  program : P

structure PineProgram where
  code : List Insn
  consts : List UInt64
  argwin : List UInt16
  syms : SymTable
  layout : FrameLayout
  dialect : Dialect
  mode : ExecMode
  subprograms : List (SubProgram PineProgram)
  info : ProgramMeta

end TradingEngine.Pine
